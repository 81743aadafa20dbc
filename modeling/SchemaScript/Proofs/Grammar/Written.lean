import Mathlib.Data.List.DropRight
import SchemaScript.Proofs.Cursor.Reads
import SchemaScript.Proofs.Grammar.Composed
import SchemaScript.Proofs.Parameters.Rulebook

/-!
# Reading what is written

What the grammar reads of texts that are written for it: keywords with a space behind them, proper
names, clean texts up to their delimiters, and parameters as they are written behind a name, with a
space before them if there are any (`tail`).

Each lemma names the text that follows, so that a statement is read by going through its text from
left to right.
-/

namespace SchemaScript

open Text

/-! ## Parameters -/

/-- The parameters that a text stands for under the standard rules. -/
def Parameters.decoded (construct : Construct) (t : Text) : Parameters :=
  match decode (Rulebook.standard construct) t with
  | .ok p => p
  | .error _ => .empty

/-- The standard rules decode every text, since their separators are not empty. -/
theorem Parameters.decode_standard (construct : Construct) (t : Text) :
    decode (Rulebook.standard construct) t = .ok (decoded construct t) := by
  unfold decoded
  cases hDecode : decode (Rulebook.standard construct) t with
  | ok p => rfl
  | error e =>
    -- decoding fails with an empty separator, and with nothing else
    have hEmpty := (decode_eq_error_iff.mp hDecode).1
    exact absurd hEmpty (Rulebook.standard_separator_ne_nil construct)

namespace Grammar

open Reader

/-- Parameters as they are written behind a name or a parenthesis. -/
def tail : Option Text → Text
  | none => []
  | some d => ' ' :: d

/-- Whether parameters can be written: they are clean, do not hold their terminator, and do not go
on the name before them. -/
def ProperTail (parameters : Option Text) : Prop :=
  ∀ d ∈ parameters, Clean d ∧ ';' ∉ d ∧ d.head? ≠ some '.'

instance (parameters : Option Text) : Decidable (ProperTail parameters) :=
  inferInstanceAs (Decidable (∀ d ∈ parameters, Clean d ∧ ';' ∉ d ∧ d.head? ≠ some '.'))

variable {α : Type} {ahead between left word content : Text} {x : α} {parameters : Option Text}

theorem properTail_none : ProperTail none := by simp [ProperTail]

theorem not_mem_tail (hProper : ProperTail parameters) : ';' ∉ tail parameters := by
  cases parameters with
  | none => simp [tail]
  | some d => simp [tail, (hProper d rfl).2.1]

/-- The space before parameters is not part of them. -/
theorem trim_tail (hProper : ProperTail parameters) :
    trim (tail parameters) = parameters.getD [] := by
  cases parameters with
  | none => rfl
  | some d =>
    rw [tail, trim_behind_space, trim_of_clean (hProper d rfl).1]
    rfl

/-- Parameters end the name before them. -/
theorem tail_ends_name (hProper : ProperTail parameters) (left : Text) :
    startsWord (tail parameters ++ ';' :: left) = false ∧
      ((tail parameters ++ ';' :: left).dropWhile isBlank).head? ≠ some '.' := by
  cases parameters with
  | none =>
    refine ⟨show isWord ';' = false by decide, ?_⟩
    rw [tail, List.nil_append, List.dropWhile_cons_of_neg (by decide)]
    simp
  | some d =>
    obtain ⟨hClean, -, hPoint⟩ := hProper d rfl
    refine ⟨show isWord ' ' = false by decide, ?_⟩
    rw [tail, List.cons_append, List.dropWhile_cons_of_pos (by decide)]
    cases d with
    | nil =>
      rw [List.nil_append, List.dropWhile_cons_of_neg (by decide)]
      simp
    | cons c d =>
      -- a clean text starts with no blank
      rw [List.cons_append, List.dropWhile_cons_of_neg (by simpa using hClean.first c rfl)]
      exact hPoint

/-- Written parameters are read up to their terminator and decoded. -/
theorem reads_tail (construct : Construct) (hProper : ProperTail parameters) :
    Reads (Reader.parameters (Rulebook.standard construct)) (tail parameters ++ ';' :: left)
      (Parameters.decoded construct (parameters.getD [])) left := by
  refine reads_parameters (Rulebook.standard_terminator construct) (not_mem_tail hProper) ?_
  rw [trim_tail hProper]
  exact Parameters.decode_standard construct _

/-! ## Names between spaces -/

/-- A name is read behind a space too. -/
theorem reads_name_behind_space {q : QualifiedName} {t : Text} (hProper : q.Proper)
    (hName : Reads qualifiedName (q.render ++ t) q left) :
    Reads qualifiedName (' ' :: (q.render ++ t)) q left := by
  refine hName.behind_space qualifiedName_skipBlanks fun c hHead => ?_
  rw [List.head?_append_of_ne_nil _ hProper.render_ne_nil] at hHead
  exact hProper.nonblank_render c (List.mem_of_mem_head? hHead)

/-- A name ends at a space if no point follows the space. -/
theorem reads_name_before_space {q : QualifiedName} {x : Char} (hProper : q.Proper)
    (hBlank : isBlank x = false) (hPoint : x ≠ '.') :
    Reads qualifiedName (q.render ++ ' ' :: x :: left) q (' ' :: x :: left) := by
  refine reads_qualifiedName hProper (show isWord ' ' = false by decide) ?_
  rw [List.dropWhile_cons_of_pos (by decide), List.dropWhile_cons_of_neg (by simp [hBlank])]
  simpa using hPoint

/-- A name is read with parameters or the terminator behind it. -/
theorem reads_name_before_tail {q : QualifiedName} (hProper : q.Proper)
    (hTail : ProperTail parameters) :
    Reads qualifiedName (q.render ++ (tail parameters ++ ';' :: left)) q
      (tail parameters ++ ';' :: left) :=
  reads_qualifiedName hProper (tail_ends_name hTail left).1 (tail_ends_name hTail left).2

/-! ## Keywords and parentheses -/

/-- A keyword with a space behind it is taken together with the space. -/
theorem reads_keyword (hNext : ahead.dropWhile isBlank = word ++ ' ' :: left) :
    Reads (keyword word) ahead true left := by
  have hLiteral : ahead.dropWhile isBlank = (word ++ " ") ++ left := by
    rw [hNext, List.append_assoc]
    rfl
  exact (reads_accept hLiteral).bind (.pure true left)

/-- A word that does not stand next does not stand there with more behind it. -/
theorem isPrefixOf_append_eq_false {t : Text} (hMissed : word.isPrefixOf t = false) (s : Text) :
    (word ++ s).isPrefixOf t = false := by
  rw [← Bool.not_eq_true, List.isPrefixOf_iff_prefix] at hMissed ⊢
  exact fun hPrefix => hMissed ((List.prefix_append word s).trans hPrefix)

/-- A keyword that does not stand next with a space or a line feed behind it is missed. -/
theorem reads_keyword_missed (hNext : ahead.dropWhile isBlank = between)
    (hSpace : (word ++ " ").isPrefixOf between = false)
    (hBreak : (word ++ "\n").isPrefixOf between = false) :
    Reads (keyword word) ahead false between := by
  -- the blanks before it are passed all the same
  intro seen
  have hRest := Cursor.rest_skipBlanks ⟨seen, ahead⟩
  rw [hNext] at hRest
  refine ⟨(Cursor.skipBlanks ⟨seen, ahead⟩).seen, ?_⟩
  rw [keyword_apply, hRest, hSpace, hBreak, ← hRest]
  rfl

/-- A keyword is missed where its word does not stand. -/
theorem reads_keyword_false (hNext : word.isPrefixOf (ahead.dropWhile isBlank) = false) :
    Reads (keyword word) ahead false (ahead.dropWhile isBlank) :=
  reads_keyword_missed rfl (isPrefixOf_append_eq_false hNext " ")
    (isPrefixOf_append_eq_false hNext "\n")

section

variable {r s : Reader α}

/-- A keyword that stands next decides what is read behind it. -/
theorem reads_choice (hNext : ahead.dropWhile isBlank = word ++ ' ' :: between)
    (hThen : Reads r between x left) :
    Reads (do if ← keyword word then r else s) ahead x left :=
  (reads_keyword hNext).bind hThen

/-- A keyword that does not stand next leaves the text to what is tried after it. -/
theorem reads_choice_else (hNext : ahead.dropWhile isBlank = between)
    (hMissed : word.isPrefixOf between = false) (hElse : Reads s between x left) :
    Reads (do if ← keyword word then r else s) ahead x left := by
  subst hNext
  exact (reads_keyword_false hMissed).bind hElse

/-- A literal that stands next decides what is read behind it. -/
theorem reads_probe {literal : Text} (hNext : ahead.dropWhile isBlank = literal ++ between)
    (hThen : Reads r between x left) :
    Reads (do if ← Reader.accept literal then r else s) ahead x left :=
  (reads_accept hNext).bind hThen

/-- A literal that does not stand next leaves the text to what is tried after it. -/
theorem reads_probe_else {literal : Text} (hNext : ahead.dropWhile isBlank = between)
    (hMissed : literal.isPrefixOf between = false) (hElse : Reads s between x left) :
    Reads (do if ← Reader.accept literal then r else s) ahead x left := by
  subst hNext
  exact (reads_accept_false hMissed).bind hElse

end

/-- A text between parentheses is read up to the first closing one. -/
theorem reads_group (hNext : ahead.dropWhile isBlank = "(" ++ (content ++ ')' :: left))
    (hFirst : ')' ∉ content) : Reads inParentheses ahead (trim content) left := by
  have hContent : Reads (takeUntil ")" false) (content ++ ')' :: left) (trim content)
      (')' :: left) := reads_takeUntil_before (by decide) hFirst
  have hClose : Reads (expect ")") (')' :: left) ")" left := reads_expect rfl
  exact (reads_expect hNext).bind (hContent.bind (hClose.bind (.pure (trim content) left)))

/-- A clean text between parentheses is read as it is written. -/
theorem reads_inParentheses (hNext : ahead.dropWhile isBlank = "(" ++ (content ++ ')' :: left))
    (hClean : Clean content) (hFirst : ')' ∉ content) :
    Reads inParentheses ahead content left := by
  have hRead := reads_group hNext hFirst
  rwa [trim_of_clean hClean] at hRead

/-! ## What follows the keywords of a statement -/

section

variable {name other : QualifiedName}

/-- What is written behind `CREATE DATABASE` is read. -/
theorem reads_database (hName : name.Proper) (hTail : ProperTail parameters) :
    Reads (database Rulebook.standard) (name.render ++ (tail parameters ++ ';' :: left))
      (.database name (Parameters.decoded .database (parameters.getD []))) left :=
  (reads_name_before_tail hName hTail).bind ((reads_tail .database hTail).map _)

/-! Literals are taken wherever they stand, so each of the next statements is read by what is read
behind its literal, with or without a blank in between. -/

theorem reads_tablespace_of {p : Parameters} (hName : name.Proper)
    (hHome : Reads qualifiedName ahead other between)
    (hParameters : Reads (Reader.parameters (Rulebook.standard .tablespace)) between p left) :
    Reads (tablespace Rulebook.standard) (name.render ++ (" IN" ++ ahead))
      (.tablespace name other p) left := by
  have hIn : Reads (expect "IN") (" IN" ++ ahead) "IN" ahead := reads_expect rfl
  refine (reads_name_before_space hName (by decide) (by decide)).bind (hIn.bind ?_)
  exact hHome.bind (hParameters.map _)

/-- A tablespace is read as it is written, with a space behind the literal. -/
theorem reads_tablespace (hName : name.Proper) (hHome : other.Proper)
    (hTail : ProperTail parameters) :
    Reads (tablespace Rulebook.standard)
      (name.render ++ (" IN " ++ (other.render ++ (tail parameters ++ ';' :: left))))
      (.tablespace name other (Parameters.decoded .tablespace (parameters.getD []))) left :=
  reads_tablespace_of hName (reads_name_behind_space hHome (reads_name_before_tail hHome hTail))
    (reads_tail .tablespace hTail)

/-- An index is read by what is read behind its literal. Whether it is unique is kept as one more
parameter. -/
theorem reads_index_of {p : Parameters} (unique : Bool) (hName : name.Proper)
    (hTarget : Reads qualifiedName ahead other between)
    {after : Text} (hFields : Reads inParentheses between content after)
    (hParameters : Reads (Reader.parameters (Rulebook.standard .index)) after p left) :
    Reads (index Rulebook.standard unique) (name.render ++ (" ON" ++ ahead))
      (.index name other content (p.insert "UNIQUE" (if unique then "True" else "False")))
      left := by
  have hOn : Reads (expect "ON") (" ON" ++ ahead) "ON" ahead := reads_expect rfl
  refine (reads_name_before_space hName (by decide) (by decide)).bind (hOn.bind ?_)
  exact hTarget.bind (hFields.bind (hParameters.map _))

/-- A name between a space and the parenthesis behind it. -/
theorem reads_name_before_parenthesis (hName : name.Proper) :
    Reads qualifiedName (' ' :: (name.render ++ (" (" ++ ahead))) name (" (" ++ ahead) :=
  reads_name_behind_space hName (reads_name_before_space hName (by decide) (by decide))

/-- An index is read as it is written. -/
theorem reads_index (unique : Bool) (hName : name.Proper) (hTarget : other.Proper)
    (hClean : Clean content) (hFirst : ')' ∉ content) (hTail : ProperTail parameters) :
    Reads (index Rulebook.standard unique)
      (name.render ++ (" ON " ++ (other.render ++
        (" (" ++ (content ++ ')' :: (tail parameters ++ ';' :: left))))))
      (.index name other content ((Parameters.decoded .index (parameters.getD [])).insert "UNIQUE"
        (if unique then "True" else "False"))) left :=
  reads_index_of unique hName (reads_name_before_parenthesis hTarget)
    (reads_inParentheses rfl hClean hFirst) (reads_tail .index hTail)

theorem reads_view_of (hName : name.Proper)
    (hQuery : Reads (takeUntil ";" true) ahead content left) :
    Reads view (name.render ++ (" AS" ++ ahead)) (.view name content) left := by
  have hAs : Reads (expect "AS") (" AS" ++ ahead) "AS" ahead := reads_expect rfl
  exact (reads_name_before_space hName (by decide) (by decide)).bind (hAs.bind (hQuery.map _))

/-- A view is read as it is written; the query ends before the first semicolon. -/
theorem reads_view (hName : name.Proper) (hClean : Clean content) (hFirst : ';' ∉ content) :
    Reads view (name.render ++ (" AS " ++ (content ++ ';' :: left))) (.view name content) left := by
  -- the space before the query is trimmed away
  have hFree : ';' ∉ ' ' :: content := by simp [hFirst]
  have hQuery : Reads (takeUntil ";" true) (' ' :: content ++ ';' :: left) (trim (' ' :: content))
      left := reads_takeUntil (by decide) hFree
  rw [trim_behind_space, trim_of_clean hClean] at hQuery
  exact reads_view_of hName hQuery

/-- A table is read by its items and by what is read behind the literal. -/
theorem reads_table_of {items : List Item} {p : Parameters} {after : Text} (hName : name.Proper)
    (hItems : Reads (many (item? Rulebook.standard)) ahead items (')' :: (" IN" ++ between)))
    (hHome : Reads qualifiedName between other after)
    (hParameters : Reads (Reader.parameters (Rulebook.standard .table)) after p left) :
    Reads (table Rulebook.standard) (name.render ++ (" (" ++ ahead))
      (.table name other (items.filterMap Item.field?) (items.filterMap Item.constraint?) p)
      left := by
  have hOpen : Reads (expect "(") (" (" ++ ahead) "(" ahead := reads_expect rfl
  have hClose : Reads (expect ")") (')' :: (" IN" ++ between)) ")" (" IN" ++ between) :=
    reads_expect rfl
  have hIn : Reads (expect "IN") (" IN" ++ between) "IN" between := reads_expect rfl
  refine (reads_name_before_space hName (by decide) (by decide)).bind (hOpen.bind ?_)
  exact hItems.bind (hClose.bind (hIn.bind (hHome.bind (hParameters.map _))))

/-- The name of a setting is what stands before the first equality sign, without its blanks. -/
theorem reads_setting {before value : Text} (hName : '=' ∉ before) (hClean : Clean value)
    (hFirst : ';' ∉ value) :
    Reads setting (before ++ ("= " ++ (value ++ ';' :: left))) (.setting (trim before) value)
      left := by
  have hBefore : Reads (takeUntil "=" false) (before ++ '=' :: ' ' :: (value ++ ';' :: left))
      (trim before) ('=' :: ' ' :: (value ++ ';' :: left)) :=
    reads_takeUntil_before (by decide) hName
  have hSign : Reads (expect "=") ('=' :: ' ' :: (value ++ ';' :: left)) "="
      (' ' :: value ++ ';' :: left) := reads_expect rfl
  have hFree : ';' ∉ ' ' :: value := by simp [hFirst]
  have hValue : Reads (takeUntil ";" true) (' ' :: value ++ ';' :: left) (trim (' ' :: value))
      left := reads_takeUntil (by decide) hFree
  rw [trim_behind_space, trim_of_clean hClean] at hValue
  exact hBefore.bind (hSign.bind (hValue.map _))

/-! ### Behind `CREATE`

A keyword is found after those that are tried before it are missed. -/

variable {s : Statement}

theorem reads_creation_database (hRead : Reads (database Rulebook.standard) ahead s left) :
    Reads (creation Rulebook.standard) ("DATABASE " ++ ahead) s left :=
  reads_choice rfl hRead

theorem reads_creation_tablespace (hRead : Reads (tablespace Rulebook.standard) ahead s left) :
    Reads (creation Rulebook.standard) ("TABLESPACE " ++ ahead) s left :=
  reads_choice_else rfl rfl (reads_choice rfl hRead)

theorem reads_creation_table (hRead : Reads (table Rulebook.standard) ahead s left) :
    Reads (creation Rulebook.standard) ("TABLE " ++ ahead) s left :=
  reads_choice_else rfl rfl (reads_choice_else rfl rfl (reads_choice rfl hRead))

/-- Both spellings of an index lead to the same reader, the longer one being tried first. -/
theorem reads_creation_index (unique : Bool)
    (hRead : Reads (index Rulebook.standard unique) ahead s left) :
    Reads (creation Rulebook.standard) ((if unique then "UNIQUE INDEX " else "INDEX ") ++ ahead) s
      left := by
  cases unique with
  | true =>
    exact reads_choice_else rfl rfl (reads_choice_else rfl rfl (reads_choice_else rfl rfl
      (reads_choice rfl (reads_choice rfl hRead))))
  | false =>
    exact reads_choice_else rfl rfl (reads_choice_else rfl rfl (reads_choice_else rfl rfl
      (reads_choice_else rfl rfl (reads_choice rfl hRead))))

theorem reads_creation_view (hRead : Reads view ahead s left) :
    Reads (creation Rulebook.standard) ("VIEW " ++ ahead) s left :=
  reads_choice_else rfl rfl (reads_choice_else rfl rfl (reads_choice_else rfl rfl
    (reads_choice_else rfl rfl (reads_choice_else rfl rfl (reads_choice rfl hRead)))))

/-! ## Constraints -/

theorem reads_primaryKey_of (hFields : Reads inParentheses ("(" ++ ahead) content left) :
    Reads (constraintKind Rulebook.standard name) (" PRIMARY KEY (" ++ ahead)
      (.plain name (Parameters.empty.insert "PRIMARY_KEY" content)) left :=
  reads_choice rfl (hFields.map _)

theorem reads_check_of (hRule : Reads inParentheses ("(" ++ ahead) content left) :
    Reads (constraintKind Rulebook.standard name) (" CHECK (" ++ ahead) (.check name content)
      left :=
  reads_choice_else rfl rfl (reads_choice_else rfl rfl (reads_choice rfl (hRule.map _)))

theorem reads_primaryKey (hClean : Clean content) (hFirst : ')' ∉ content) :
    Reads (constraintKind Rulebook.standard name) (" PRIMARY KEY (" ++ (content ++ ')' :: left))
      (.plain name (Parameters.empty.insert "PRIMARY_KEY" content)) left :=
  reads_primaryKey_of (reads_inParentheses rfl hClean hFirst)

theorem reads_check (hClean : Clean content) (hFirst : ')' ∉ content) :
    Reads (constraintKind Rulebook.standard name) (" CHECK (" ++ (content ++ ')' :: left))
      (.check name content) left :=
  reads_check_of (reads_inParentheses rfl hClean hFirst)

theorem withoutSpaces_of_not_mem {t : Text} (hNone : ' ' ∉ t) : withoutSpaces t = t := by
  refine List.filter_eq_self.mpr fun c hMem => ?_
  have hSpace : c ≠ ' ' := fun hSpace => hNone (hSpace ▸ hMem)
  simpa using hSpace

/-- A foreign key is read by its two lists of fields and by what is read behind `REFERENCES`. The
lists are kept without spaces, so they are kept as written if they have none. -/
theorem reads_foreignKey_of {references : Text} {p : Parameters} {after behind : Text}
    (hClean : Clean content) (hFirst : ')' ∉ content) (hSpace : ' ' ∉ content)
    (hTable : Reads qualifiedName ahead other after)
    (hReferences : Reads inParentheses after references behind) (hSpace' : ' ' ∉ references)
    (hParameters : Reads (Reader.parameters (Rulebook.standard .foreignKey)) behind p left) :
    Reads (constraintKind Rulebook.standard name)
      (" FOREIGN KEY (" ++ (content ++ (") REFERENCES" ++ ahead)))
      (.foreignKey name other ((p.insert "KEYS" content).insert "REFERENCES" references)) left := by
  have hKeys : Reads inParentheses ("(" ++ (content ++ (") REFERENCES" ++ ahead))) content
      (" REFERENCES" ++ ahead) := reads_inParentheses rfl hClean hFirst
  have hWord : Reads (expect "REFERENCES") (" REFERENCES" ++ ahead) "REFERENCES" ahead :=
    reads_expect rfl
  -- the keyword is tried behind the one for primary keys, which is missed
  refine reads_choice_else rfl rfl (reads_choice rfl (hKeys.bind (hWord.bind ?_)))
  refine hTable.bind (hReferences.bind ?_)
  rw [withoutSpaces_of_not_mem hSpace, withoutSpaces_of_not_mem hSpace']
  exact hParameters.map _

theorem reads_foreignKey {references : Text} (hClean : Clean content) (hFirst : ')' ∉ content)
    (hSpace : ' ' ∉ content) (hTable : other.Proper) (hClean' : Clean references)
    (hFirst' : ')' ∉ references) (hSpace' : ' ' ∉ references) (hTail : ProperTail parameters) :
    Reads (constraintKind Rulebook.standard name)
      (" FOREIGN KEY (" ++ (content ++ (") REFERENCES " ++ (other.render ++
        (" (" ++ (references ++ ')' :: (tail parameters ++ ';' :: left)))))))
      (.foreignKey name other
        (((Parameters.decoded .foreignKey (parameters.getD [])).insert "KEYS" content).insert
          "REFERENCES" references)) left :=
  reads_foreignKey_of hClean hFirst hSpace (reads_name_before_parenthesis hTable)
    (reads_inParentheses rfl hClean' hFirst') hSpace' (reads_tail .foreignKey hTail)

/-- A constraint is added to a table by its kind, and the semicolon may stand behind it. -/
theorem reads_alteration {target : QualifiedName} {c : Constraint} {y : Char} {t : Text} {b : Bool}
    (hTarget : target.Proper) (hName : name.Proper) (hBlank : isBlank y = false) (hPoint : y ≠ '.')
    (hKind : Reads (constraintKind Rulebook.standard name) (' ' :: y :: t) c between)
    (hEnd : Reads (accept ";") between b left) :
    Reads (alteration Rulebook.standard)
      ("TABLE " ++ (target.render ++ (" ADD CONSTRAINT " ++ (name.render ++ ' ' :: y :: t))))
      (.addConstraint target c) left := by
  -- the constraint is one that has a name and a kind
  have hConstraint : Reads (constraint? Rulebook.standard)
      ("CONSTRAINT " ++ (name.render ++ ' ' :: y :: t)) (some c) between :=
    reads_choice rfl ((reads_name_before_space hName hBlank hPoint).bind (hKind.map some))
  refine reads_choice rfl ((reads_name_before_space hTarget (by decide) (by decide)).bind ?_)
  refine reads_choice rfl (hConstraint.bind ?_)
  exact hEnd.bind (.pure _ left)

end

/-! ## Statements -/

/-- Where no hyphens stand, a statement is a directive. -/
theorem reads_directive {found : Option Statement} (hNext : ahead.dropWhile isBlank = between)
    (hMissed : ("--" : Text).isPrefixOf between = false)
    (hRead : Reads (directive? Rulebook.standard) between found left) :
    Reads (statement? Rulebook.standard) ahead found left := by
  subst hNext
  exact (reads_accept_false hMissed).bind hRead

/-- A statement is read behind `CREATE` if it is a creation. -/
theorem reads_created {s : Statement} (hRead : Reads (creation Rulebook.standard) ahead s left) :
    Reads (statement? Rulebook.standard) ("CREATE " ++ ahead) (some s) left :=
  reads_directive rfl rfl (reads_choice rfl (hRead.map some))

/-- A statement is read behind `ALTER` if it is an alteration; `CREATE` is missed first. -/
theorem reads_altered {s : Statement} (hRead : Reads (alteration Rulebook.standard) ahead s left) :
    Reads (statement? Rulebook.standard) ("ALTER " ++ ahead) (some s) left :=
  reads_directive rfl rfl (reads_choice_else rfl rfl (reads_choice rfl (hRead.map some)))

/-- A setting is read behind `SET`, the last keyword that is tried. -/
theorem reads_set {s : Statement} (hRead : Reads setting ahead s left) :
    Reads (statement? Rulebook.standard) ("SET " ++ ahead) (some s) left :=
  reads_directive rfl rfl (reads_choice_else rfl rfl (reads_choice_else rfl rfl
    (reads_choice rfl (hRead.map some))))

/-- A comment ends with its line, or with the text. -/
theorem reads_comment {body : Text} (hClean : Clean body)
    (hEnd : left = [] ∨ left.head? = some '\n') :
    Reads (statement? Rulebook.standard) ("--" ++ (body ++ left)) (some (.comment body)) left := by
  have hHyphens : Reads (accept "--") ("--" ++ (body ++ left)) true (body ++ left) :=
    reads_accept rfl
  -- a clean body has no line feed of its own
  have hBody := reads_line hClean.noBreak hEnd
  rw [trim_of_clean hClean] at hBody
  exact hHyphens.bind ((hBody.map Statement.comment).map some)

end Grammar

end SchemaScript
