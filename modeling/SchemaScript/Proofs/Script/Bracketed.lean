import SchemaScript.Proofs.Script.Composition
import SchemaScript.Proofs.Script.Line
import SchemaScript.Proofs.Text.Normal

/-!
# Where a text in parentheses ends

The fields of an index, the fields of a primary key and the rule of a check are texts in
parentheses. Such a text ends at its first closing parenthesis, whatever was opened inside it
(`Text.group`), so a text with parentheses of its own is cut off there.

What stands behind that place is the overhang. Behind an index it is taken for parameters, so that
nothing is skipped; behind an added constraint it is read as a script of its own
(`Script.run_bracketed`). Either way a text is read as a whole exactly if it holds no closing
parenthesis.
-/

namespace SchemaScript

open Text Grammar Reader

/-! ## Groups -/

namespace Text

variable {t s u : Text} {x : Char}

/-- The part of a text before its first closing parenthesis; all of it if there is none. -/
def group (t : Text) : Text := t.takeWhile (· != ')')

/-- What stands behind the first closing parenthesis, if one is put behind the text. -/
def overhang (t : Text) : Text := ((t ++ [')']).dropWhile (· != ')')).tail

theorem not_mem_group (t : Text) : ')' ∉ group t := by
  intro hMem
  have hOther := List.all_eq_true.mp List.all_takeWhile ')' hMem
  simp at hOther

/-- A closing parenthesis splits a text in one way, if none stands before it. -/
theorem group_eq (hFirst : ')' ∉ s) (hSplit : t ++ [')'] = s ++ ')' :: u) :
    group t = s ∧ overhang t = u := by
  have hAll : ∀ x ∈ s, (x != ')') = true := by
    intro x hMem
    have hOther : x ≠ ')' := fun hSame => hFirst (hSame ▸ hMem)
    simpa using hOther
  have hDrop : (t ++ [')']).dropWhile (· != ')') = ')' :: u := by
    rw [hSplit, dropWhile_append_of_forall hAll, List.dropWhile_cons_of_neg (by simp)]
  have hTake : (t ++ [')']).takeWhile (· != ')') = s := by
    rw [hSplit, List.takeWhile_append_of_pos hAll, List.takeWhile_cons_of_neg (by simp),
      List.append_nil]
  refine ⟨?_, by rw [overhang, hDrop, List.tail_cons]⟩
  -- the parenthesis behind the text does not make its group longer
  rw [← hTake, group, List.takeWhile_append]
  split
  · next hWhole =>
    rw [List.takeWhile_cons_of_neg (by simp), List.append_nil]
    exact (List.takeWhile_prefix _).eq_of_length hWhole
  · rfl

theorem append_eq_group_append (t : Text) : t ++ [')'] = group t ++ ')' :: overhang t := by
  have hMem : ')' ∈ t ++ [')'] := List.mem_append_right t (List.mem_singleton_self _)
  obtain ⟨s, u, hSplit, hFirst⟩ := List.eq_append_cons_of_mem hMem
  obtain ⟨hGroup, hOverhang⟩ := group_eq hFirst hSplit
  rw [hSplit, hGroup, hOverhang]

/-- The same with more text behind the parenthesis. -/
theorem append_cons_eq_group_append (t u : Text) :
    t ++ ')' :: u = group t ++ ')' :: (overhang t ++ u) := by
  have hSplit := congrArg (· ++ u) (append_eq_group_append t)
  simpa using hSplit

theorem group_of_not_mem (hNone : ')' ∉ t) : group t = t ∧ overhang t = [] := group_eq hNone rfl

/-- An overhang ends with the parenthesis that is put behind the text. -/
theorem getLast?_overhang (hSome : overhang t ≠ []) : (overhang t).getLast? = some ')' := by
  have hSplit : t ++ [')'] = (group t ++ [')']) ++ overhang t := by
    rw [append_eq_group_append, List.append_assoc]
    rfl
  have hLast := congrArg List.getLast? hSplit
  rw [List.getLast?_concat, List.getLast?_append_of_ne_nil _ hSome] at hLast
  exact hLast.symm

theorem not_mem_overhang (hNone : x ∉ t) (hOther : x ≠ ')') : x ∉ overhang t := by
  intro hMem
  have hBehind : x ∈ t ++ [')'] := by
    rw [append_eq_group_append]
    exact List.mem_append_right _ (List.mem_cons_of_mem _ hMem)
  rcases List.mem_append.mp hBehind with hThere | hLast
  · exact hNone hThere
  · exact hOther (List.mem_singleton.mp hLast)

/-- Normalizing a text normalizes its group and its overhang. -/
theorem group_normalize (t : Text) :
    group (normalize t) = normalize (group t) ∧
      overhang (normalize t) = normalize (overhang t) := by
  have hSplit := congrArg normalize (append_eq_group_append t)
  rw [normalize_append_cons (by decide) (by decide),
    normalize_append_cons (by decide) (by decide)] at hSplit
  refine group_eq ?_ hSplit
  intro hMem
  rcases mem_normalize hMem with hSpace | hThere
  · cases hSpace
  · exact not_mem_group t hThere

/-- What is cut off is missing in the trimmed text. -/
theorem trim_group_ne (hMem : ')' ∈ t) : trim (group t) ≠ trim t := by
  intro hSame
  have hThere : ')' ∈ trim (group t) := by
    rw [hSame]
    exact mem_trim_of_mem (by decide) hMem
  rcases mem_trim hThere with hSpace | hGroup
  · cases hSpace
  · exact not_mem_group t hGroup

/-! ### Parentheses that match -/

/-- Whether each parenthesis of a text is closed, `depth` more of them than are opened, and none is
closed before it is opened. -/
def balancedFrom : (depth : Nat) → Text → Bool
  | depth, [] => depth == 0
  | depth, c :: t =>
    if c = '(' then balancedFrom (depth + 1) t
    else if c = ')' then depth != 0 && balancedFrom (depth - 1) t
    else balancedFrom depth t

/-- Whether the parentheses of a text match. -/
def Balanced (t : Text) : Prop := balancedFrom 0 t = true

instance (t : Text) : Decidable (Balanced t) :=
  inferInstanceAs (Decidable (balancedFrom 0 t = true))

end Text

/-! ## Statements with a text in parentheses -/

/-- The statements that end with a text in parentheses. -/
inductive Bracketed where
  | index
  | primaryKey
  | check
  deriving DecidableEq

namespace Bracketed

variable {kind : Bracketed} {name target : QualifiedName} {t x : Text}

/-- The line with a given text in its parentheses. -/
def line (kind : Bracketed) (name target : QualifiedName) (t : Text) : Line :=
  match kind with
  | index => .index false name target t none
  | primaryKey => .addition target name (.primaryKey t)
  | check => .addition target name (.check t)

/-- What stands before the parenthesis does not depend on the text behind it. -/
theorem exists_write_eq (kind : Bracketed) (name target : QualifiedName) :
    ∃ before, (∃ c u, before = c :: u ∧ isBlank c = false) ∧
      ∀ t, (kind.line name target t).write = before ++ '(' :: (t ++ ')' :: ";") := by
  -- in each kind the parentheses are the last thing before the semicolon
  cases kind with
  | index =>
    refine ⟨"CREATE INDEX " ++ (name.render ++ (" ON " ++ (target.render ++ " "))),
      ⟨'C', _, rfl, by decide⟩, fun t => ?_⟩
    unfold line Line.write
    simp only [List.append_assoc]
    rfl
  | primaryKey =>
    refine ⟨"ALTER TABLE " ++ (target.render ++ (" ADD CONSTRAINT " ++
      (name.render ++ " PRIMARY KEY "))), ⟨'A', _, rfl, by decide⟩, fun t => ?_⟩
    unfold line Line.write Addition.write
    simp only [List.append_assoc]
    rfl
  | check =>
    refine ⟨"ALTER TABLE " ++ (target.render ++ (" ADD CONSTRAINT " ++
      (name.render ++ " CHECK "))), ⟨'A', _, rfl, by decide⟩, fun t => ?_⟩
    unfold line Line.write Addition.write
    simp only [List.append_assoc]
    rfl

theorem proper_line_nil (kind : Bracketed) (hName : name.Proper) (hTarget : target.Proper) :
    (kind.line name target []).Proper := by
  have hNone : CleanUpTo ')' [] := by decide
  cases kind with
  | index => exact ⟨hName, hTarget, hNone, properTail_none⟩
  | primaryKey => exact ⟨hTarget, hName, hNone⟩
  | check => exact ⟨hTarget, hName, hNone⟩

/-- Normalizing such a line normalizes the text in its parentheses, and nothing else. -/
theorem normalize_write (kind : Bracketed) (hName : name.Proper) (hTarget : target.Proper)
    (x : Text) :
    normalize (kind.line name target x).write = (kind.line name target (normalize x)).write := by
  obtain ⟨before, -, hWrite⟩ := kind.exists_write_eq name target
  have hSpaced : Spaced before := by
    have hLine := Line.spaced_write (kind.proper_line_nil hName hTarget)
      (by cases kind <;> simp [line])
    rw [hWrite] at hLine
    exact hLine.of_infix (List.prefix_append before _).isInfix
  rw [hWrite, hWrite, normalize_append_cons (by decide) (by decide),
    normalize_append_cons (by decide) (by decide), normalize_of_spaced hSpaced]
  rfl

/-! ### What is left -/

/-- What is left to read behind an added constraint with a given text in its parentheses. -/
def leftover (t : Text) : Text := if overhang t = [] then [] else overhang t ++ ";"

theorem leftover_normalize (t : Text) : leftover (normalize t) = normalize (leftover t) := by
  unfold leftover
  rw [(group_normalize t).2]
  by_cases hNone : overhang t = []
  · rw [if_pos hNone, if_pos (by rw [hNone]; rfl)]
    rfl
  · -- the last parenthesis stays
    have hMem := mem_normalize_of_mem (by decide) (by decide)
      (List.mem_of_getLast? (getLast?_overhang hNone))
    rw [if_neg hNone, if_neg (List.ne_nil_of_mem hMem)]
    exact (normalize_append_cons (by decide) (by decide) _ []).symm

/-- What is left ends the line. -/
theorem exists_eq_append_leftover (kind : Bracketed) (name target : QualifiedName) (t : Text) :
    ∃ before, (kind.line name target t).write = before ++ leftover t := by
  obtain ⟨before, -, hWrite⟩ := kind.exists_write_eq name target
  unfold leftover
  by_cases hNone : overhang t = []
  · exact ⟨_, by rw [if_pos hNone, List.append_nil]⟩
  · refine ⟨before ++ '(' :: (group t ++ [')']), ?_⟩
    rw [hWrite, append_cons_eq_group_append, if_neg hNone]
    simp only [List.append_assoc, List.cons_append, List.nil_append]

/-! ### Reading -/

/-- A text in parentheses is read up to its end, and its overhang is left. -/
theorem reads_bracketed {ahead left : Text}
    (hNext : ahead.dropWhile isBlank = "(" ++ (t ++ ')' :: left)) :
    Reads inParentheses ahead (trim (group t)) (overhang t ++ left) := by
  rw [append_cons_eq_group_append] at hNext
  exact reads_group hNext (not_mem_group t)

/-- An index takes the overhang for its parameters. -/
theorem reads_line_index (hName : name.Proper) (hTarget : target.Proper) (hFree : ';' ∉ t) :
    Reads (statement? Rulebook.standard) (index.line name target t).write
      (some (Line.index false name target (trim (group t)) (some (trim (overhang t)))).statement)
      [] := by
  have hFields : Reads inParentheses (" (" ++ (t ++ ')' :: ";")) (trim (group t))
      (overhang t ++ ";") := reads_bracketed rfl
  have hParameters : Reads (Reader.parameters (Rulebook.standard .index)) (overhang t ++ ";")
      (Parameters.decoded .index (trim (overhang t))) [] :=
    reads_parameters (Rulebook.standard_terminator .index) (not_mem_overhang hFree (by decide))
      (Parameters.decode_standard .index _)
  have hIndex := reads_index_of false hName (reads_name_before_parenthesis hTarget) hFields
    hParameters
  unfold line Line.write
  exact reads_created (reads_creation_index false hIndex)

/-- The semicolon behind an added constraint ends it, or else the overhang is left. -/
theorem reads_semicolon (hFree : ';' ∉ t) :
    ∃ b left, Reads (accept ";") (overhang t ++ ";") b left ∧
      left.dropWhile isBlank = (leftover t).dropWhile isBlank := by
  by_cases hNone : overhang t = []
  · refine ⟨true, [], ?_, ?_⟩
    · rw [hNone]
      exact reads_accept rfl
    · rw [leftover, if_pos hNone]
  · have hClose : ')' ∈ (overhang t).dropWhile isBlank :=
      mem_dropWhile_of_mem (by decide) (List.mem_of_getLast? (getLast?_overhang hNone))
    have hNext : ((overhang t ++ ";").dropWhile isBlank).head? ≠ some ';' := by
      rw [dropWhile_append_of_dropWhile (List.ne_nil_of_mem hClose),
        List.head?_append_of_ne_nil _ (List.ne_nil_of_mem hClose)]
      intro hHead
      have hMem := List.dropWhile_subset _ (List.mem_of_mem_head? hHead)
      exact not_mem_overhang hFree (by decide) hMem
    refine ⟨false, _, reads_accept_false (isPrefixOf_singleton_eq_false hNext), ?_⟩
    rw [leftover, if_neg hNone, List.dropWhile_idempotent]

/-- An added constraint is read up to its parenthesis. -/
theorem reads_line_constraint (hKind : kind ≠ index) (hName : name.Proper)
    (hTarget : target.Proper) (hFree : ';' ∉ t) :
    ∃ left, Reads (statement? Rulebook.standard) (kind.line name target t).write
        (some (kind.line name target (trim (group t))).statement) left ∧
      left.dropWhile isBlank = (leftover t).dropWhile isBlank := by
  obtain ⟨b, left, hEnd, hLeft⟩ := reads_semicolon hFree
  refine ⟨left, ?_, hLeft⟩
  cases kind with
  | index => exact absurd rfl hKind
  -- what the group leaves over goes on behind the constraint
  | primaryKey =>
    have hRead : Reads (constraintKind Rulebook.standard name)
        (" PRIMARY KEY (" ++ (t ++ ')' :: ";"))
        (.plain name (Parameters.empty.insert "PRIMARY_KEY" (trim (group t))))
        (overhang t ++ ";") := reads_primaryKey_of (reads_bracketed rfl)
    unfold line Line.write Addition.write
    exact reads_altered (reads_alteration hTarget hName (by decide) (by decide) hRead hEnd)
  | check =>
    have hRead : Reads (constraintKind Rulebook.standard name) (" CHECK (" ++ (t ++ ')' :: ";"))
        (.check name (trim (group t))) (overhang t ++ ";") := reads_check_of (reads_bracketed rfl)
    unfold line Line.write Addition.write
    exact reads_altered (reads_alteration hTarget hName (by decide) (by decide) hRead hEnd)

end Bracketed

/-! ## Runs -/

namespace Script

open Bracketed

variable {kind : Bracketed} {name target : QualifiedName} {x script left : Text} {s s' : Statement}

/-- Whether a script is read as one statement, with nothing else in it. -/
def ReadsAlone (script : Text) (s : Statement) : Prop :=
  ∃ r, run Rulebook.standard script = .ok r ∧ r.diagnostics = [] ∧ r.statements = [s]

theorem ReadsAlone.statements_eq {r : Run} (hAlone : ReadsAlone script s)
    (hRun : run Rulebook.standard script = .ok r) : r.statements = [s] := by
  obtain ⟨r', hRun', -, hStatements⟩ := hAlone
  obtain rfl : r = r' := Except.ok.inj (hRun.symm.trans hRun')
  exact hStatements

theorem readsAlone_of_reads (hStart : ∃ c t, normalize script = c :: t ∧ isBlank c = false)
    (hReads : Reads (statement? Rulebook.standard) (normalize script) (some s) left)
    (hLeft : left.dropWhile isBlank = []) : ReadsAlone script s := by
  have hSplit : normalize script = normalize script ++ normalize [] := (List.append_nil _).symm
  obtain ⟨r, later, hRun, hNothing, hStatements, hDiagnostics⟩ :=
    run_of_reads_first Rulebook.standard_separator_ne_nil hSplit hStart hReads hLeft
  -- a script without text has no steps
  obtain rfl := Except.ok.inj (hNothing.symm.trans (runFrom_of_eq_nil rfl))
  exact ⟨r, hRun, hDiagnostics, hStatements⟩

theorem normalize_write_starts (kind : Bracketed) (hName : name.Proper) (hTarget : target.Proper)
    (x : Text) :
    ∃ c t, normalize (kind.line name target x).write = c :: t ∧ isBlank c = false := by
  obtain ⟨before, ⟨c, u, rfl, hBlank⟩, hWrite⟩ := kind.exists_write_eq name target
  rw [kind.normalize_write hName hTarget, hWrite]
  exact ⟨c, _, rfl, hBlank⟩

theorem not_mem_normalize_semicolon (hFree : ';' ∉ x) : ';' ∉ normalize x := by
  intro hMem
  rcases mem_normalize hMem with hSpace | hThere
  · cases hSpace
  · exact hFree hThere

/-- An index takes the group of its text for its fields and the overhang for its parameters. -/
theorem readsAlone_index (hName : name.Proper) (hTarget : target.Proper) (hFree : ';' ∉ x) :
    ReadsAlone (Bracketed.index.line name target x).write
      (Line.index false name target (trim (normalize (group x)))
        (some (trim (normalize (overhang x))))).statement := by
  have hReads := reads_line_index hName hTarget (not_mem_normalize_semicolon hFree)
  rw [← Bracketed.index.normalize_write hName hTarget, (group_normalize x).1,
    (group_normalize x).2] at hReads
  exact readsAlone_of_reads (normalize_write_starts .index hName hTarget x) hReads rfl

/-- An added constraint takes the group of its text, and what is left is read as a script. -/
theorem run_constraint (hKind : kind ≠ .index) (hName : name.Proper) (hTarget : target.Proper)
    (hFree : ';' ∉ x) :
    ∃ r later before, run Rulebook.standard (kind.line name target x).write = .ok r ∧
      run Rulebook.standard (leftover x) = .ok later ∧
      normalize (kind.line name target x).write = before ++ normalize (leftover x) ∧
      r.statements =
        (kind.line name target (trim (normalize (group x)))).statement :: later.statements ∧
      r.diagnostics = later.diagnostics.map (Diagnostic.shift before.length) := by
  obtain ⟨left, hReads, hLeft⟩ :=
    reads_line_constraint hKind hName hTarget (not_mem_normalize_semicolon hFree)
  obtain ⟨before, hSplit⟩ := exists_eq_append_leftover kind name target (normalize x)
  rw [← kind.normalize_write hName hTarget] at hReads hSplit
  rw [leftover_normalize] at hSplit hLeft
  rw [(group_normalize x).1] at hReads
  obtain ⟨r, later, hRun, hLater, hStatements, hDiagnostics⟩ :=
    run_of_reads_first Rulebook.standard_separator_ne_nil hSplit
      (normalize_write_starts kind hName hTarget x) hReads hLeft
  exact ⟨r, later, before, hRun, hLater, hSplit, hStatements, hDiagnostics⟩

/-- A constraint with a text in parentheses holds that text. -/
theorem content_eq_of_statement_eq {t u : Text} (hKind : kind ≠ .index)
    (hSame : (kind.line name target t).statement = (kind.line name target u).statement) :
    t = u := by
  cases kind with
  | index => exact absurd rfl hKind
  | primaryKey =>
    obtain ⟨-, hConstraint⟩ := Statement.addConstraint.inj hSame
    obtain ⟨-, hParameters⟩ := Constraint.plain.inj hConstraint
    have hValue := congrArg (Parameters.get? · "PRIMARY_KEY") hParameters
    simpa [Parameters.get?_insert] using hValue
  | check =>
    obtain ⟨-, hConstraint⟩ := Statement.addConstraint.inj hSame
    exact (Constraint.check.inj hConstraint).2

/-- What is read alone is the whole text only if nothing is cut off. -/
theorem trim_group_eq_of_readsAlone (hName : name.Proper) (hTarget : target.Proper)
    (hFree : ';' ∉ x)
    (hAlone : ReadsAlone (kind.line name target x).write
      (kind.line name target (trim (normalize x))).statement) :
    trim (group (normalize x)) = trim (normalize x) := by
  rw [(group_normalize x).1]
  by_cases hKind : kind = .index
  · subst hKind
    obtain ⟨r, hRun, -, hStatements⟩ := readsAlone_index hName hTarget hFree
    rw [hAlone.statements_eq hRun] at hStatements
    obtain ⟨-, -, hFields, -⟩ := Statement.index.inj (List.cons.inj hStatements).1
    exact hFields.symm
  · obtain ⟨r, later, before, hRun, -, -, hStatements, -⟩ :=
      run_constraint hKind hName hTarget hFree
    rw [hAlone.statements_eq hRun] at hStatements
    exact (content_eq_of_statement_eq hKind (List.cons.inj hStatements).1).symm

/-- A text without a closing parenthesis is read as a whole. -/
theorem readsAlone_of_not_mem (kind : Bracketed) (hName : name.Proper) (hTarget : target.Proper)
    (hFree : ';' ∉ x) (hNone : ')' ∉ x) :
    ReadsAlone (kind.line name target x).write
      (kind.line name target (trim (normalize x))).statement := by
  obtain ⟨hGroup, hOverhang⟩ := group_of_not_mem hNone
  by_cases hKind : kind = .index
  · subst hKind
    have hAlone := readsAlone_index hName hTarget hFree
    rw [hGroup, hOverhang] at hAlone
    exact hAlone
  · obtain ⟨r, later, before, hRun, hLater, -, hStatements, hDiagnostics⟩ :=
      run_constraint hKind hName hTarget hFree
    rw [leftover, if_pos hOverhang] at hLater
    obtain rfl := Except.ok.inj (hLater.symm.trans (runFrom_of_eq_nil rfl))
    rw [hGroup] at hStatements
    exact ⟨r, hRun, hDiagnostics, hStatements⟩

/-- **A text in parentheses ends at its first closing one.** Of a text without a semicolon, the part
up to its first closing parenthesis becomes the fields of an index, which takes what follows for its
parameters, or the content of an added constraint, behind which what follows is read as a script. So
a text is read as a whole, with nothing else, exactly if it holds no closing parenthesis. -/
theorem run_bracketed (hName : name.Proper) (hTarget : target.Proper) (hFree : ';' ∉ x) :
    ReadsAlone (Bracketed.index.line name target x).write
        (Line.index false name target (trim (normalize (group x)))
          (some (trim (normalize (overhang x))))).statement ∧
      (∀ kind : Bracketed, kind ≠ .index → ∃ r later before,
        run Rulebook.standard (kind.line name target x).write = .ok r ∧
          run Rulebook.standard (leftover x) = .ok later ∧
          normalize (kind.line name target x).write = before ++ normalize (leftover x) ∧
          r.statements =
            (kind.line name target (trim (normalize (group x)))).statement :: later.statements ∧
          r.diagnostics = later.diagnostics.map (Diagnostic.shift before.length)) ∧
      ∀ kind : Bracketed,
        ReadsAlone (kind.line name target x).write
          (kind.line name target (trim (normalize x))).statement ↔ ')' ∉ x := by
  refine ⟨readsAlone_index hName hTarget hFree,
    fun kind hKind => run_constraint hKind hName hTarget hFree, fun kind => ⟨?_, ?_⟩⟩
  · intro hAlone hMem
    -- normalizing keeps the parenthesis, so the group is shorter than the text
    have hThere : ')' ∈ normalize x := mem_normalize_of_mem (by decide) (by decide) hMem
    exact trim_group_ne hThere (trim_group_eq_of_readsAlone hName hTarget hFree hAlone)
  · intro hNone
    exact readsAlone_of_not_mem kind hName hTarget hFree hNone

/-- The rule of a check with a list in it is cut off behind the list. -/
theorem run_bracketed_list :
    QualifiedName.Proper ⟨"C", none⟩ ∧ QualifiedName.Proper ⟨"T", some "O"⟩ ∧
      ';' ∉ ("A IN (1) AND B" : Text) ∧ group "A IN (1) AND B" = "A IN (1" ∧
      leftover "A IN (1) AND B" = " AND B);" ∧
      ReadsAlone (Bracketed.index.line ⟨"C", none⟩ ⟨"T", some "O"⟩ "A IN (1) AND B").write
        (Line.index false ⟨"C", none⟩ ⟨"T", some "O"⟩ "A IN (1" (some "AND B)")).statement ∧
      ¬ ReadsAlone (Bracketed.check.line ⟨"C", none⟩ ⟨"T", some "O"⟩ "A IN (1) AND B").write
        (Bracketed.check.line ⟨"C", none⟩ ⟨"T", some "O"⟩ "A IN (1) AND B").statement := by
  have hName : QualifiedName.Proper ⟨"C", none⟩ := by decide
  have hTarget : QualifiedName.Proper ⟨"T", some "O"⟩ := by decide
  have hFree : ';' ∉ ("A IN (1) AND B" : Text) := by decide
  obtain ⟨hIndex, -, hWhole⟩ := run_bracketed hName hTarget hFree
  refine ⟨hName, hTarget, hFree, by decide, by decide, hIndex, ?_⟩
  intro hAlone
  exact (hWhole .check).mp hAlone (by decide)

/-- Matching parentheses do not make a text one that is read as a whole. -/
theorem not_forall_readsAlone :
    ¬ ∀ (kind : Bracketed) (name target x : Text), IsName name → IsName target → Balanced x →
      ';' ∉ x → '\'' ∉ x → '\x22' ∉ x →
      ReadsAlone (kind.line ⟨name, none⟩ ⟨target, none⟩ x).write
        (kind.line ⟨name, none⟩ ⟨target, none⟩ (trim (normalize x))).statement := by
  intro hAll
  obtain ⟨r, hRun, -, hStatements⟩ :=
    hAll .index "I" "T" "F(A)" (by decide) (by decide) (by decide) (by decide) (by decide)
      (by decide)
  -- the index that is read has other fields
  have hValue : (run Rulebook.standard
      (Bracketed.index.line ⟨"I", none⟩ ⟨"T", none⟩ "F(A)").write).toOption.map Run.statements ≠
      some [(Bracketed.index.line ⟨"I", none⟩ ⟨"T", none⟩
        (trim (normalize "F(A)"))).statement] := by
    decide +kernel
  rw [hRun] at hValue
  exact hValue (congrArg some hStatements)

end Script

end SchemaScript
