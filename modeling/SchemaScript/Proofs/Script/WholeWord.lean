import SchemaScript.Proofs.Grammar.Tokens
import SchemaScript.Proofs.Script.Bracketed
import SchemaScript.Proofs.Script.TableRoundTrip

/-!
# Words right behind a literal

The keywords that start a statement or name the kind of a constraint are whole words, since they are
taken only with a blank behind them. The literals inside of a statement are taken wherever they
stand. Such a literal is a whole word unless the next token starts right behind it, and with a word
character (`Step.Parted`).

So the blank behind such a literal can be left out. At each place where a word may follow one
(`Juncture`), the statement without the blank is read as the one with it (`Script.run_words`).
-/

namespace SchemaScript

open Text Grammar Reader

/-! ## Words between spaces -/

namespace Text

variable {w u y left : Text}

/-- A text without spaces starts another text within the part before a space. -/
theorem prefix_before_space (hNone : ' ' ∉ w) (hPrefix : w <+: y ++ ' ' :: left) : w <+: y := by
  have hFirst : y <+: y ++ ' ' :: left := List.prefix_append y _
  rcases List.prefix_or_prefix_of_prefix hPrefix hFirst with hShort | ⟨s, rfl⟩
  · exact hShort
  · rw [List.prefix_append_right_inj] at hPrefix
    cases s with
    | nil => simp
    | cons c s =>
      -- the text would go on with the space
      obtain ⟨rfl, -⟩ := List.cons_prefix_cons.mp hPrefix
      exact absurd (List.mem_append_right y (List.mem_cons_self ..)) hNone

/-- Where one text starts another, the same holds behind the first space of each. -/
theorem prefix_behind_space (hNone : ' ' ∉ w) (hNone' : ' ' ∉ y)
    (hPrefix : w ++ ' ' :: u <+: y ++ ' ' :: left) : u <+: left := by
  obtain ⟨s, rfl⟩ := prefix_before_space hNone ((List.prefix_append w _).trans hPrefix)
  rw [List.append_assoc, List.prefix_append_right_inj] at hPrefix
  cases s with
  | nil => exact (List.cons_prefix_cons.mp hPrefix).2
  | cons c s =>
    obtain ⟨rfl, -⟩ := List.cons_prefix_cons.mp hPrefix
    exact absurd (List.mem_append_right w (List.mem_cons_self ..)) hNone'

end Text

/-! ## Fields behind an attribute -/

namespace Written

variable {ahead between left y : Text}

/-- Whether a text is a word that starts a field where an attribute may stand as well. -/
structure StartsField (y : Text) : Prop where
  name : IsName y
  other : y ≠ "CONSTRAINT"
  noKind : ¬ ("FOR" : Text) <+: y

instance (y : Text) : Decidable (StartsField y) :=
  decidable_of_iff (IsName y ∧ y ≠ "CONSTRAINT" ∧ ¬ ("FOR" : Text) <+: y)
    ⟨fun h => ⟨h.1, h.2.1, h.2.2⟩, fun h => ⟨h.name, h.other, h.noKind⟩⟩

/-- The attributes end before a field. -/
theorem Attribute.reads_none_of_startsField (hField : StartsField y)
    (hNext : ahead.dropWhile isBlank = y ++ (" INT" ++ left)) :
    Reads (attribute? Rulebook.standard) ahead none (y ++ (" INT" ++ left)) := by
  have hWord : (y ++ (" INT" ++ left)).dropWhile isBlank = y ++ (" INT" ++ left) :=
    dropWhile_of_head? (hField.name.first _)
  have hSpace : ' ' ∉ y := hField.name.not_mem (by decide)
  -- two words would have to be the name and the type
  have hTwo : ∀ {w u : Text}, ' ' ∉ w → u.isPrefixOf ("INT" ++ left) = false →
      (w ++ ' ' :: u).isPrefixOf (y ++ (" INT" ++ left)) = false := by
    intro w u hNone hOther
    rw [← Bool.not_eq_true, List.isPrefixOf_iff_prefix] at hOther ⊢
    exact fun hPrefix => hOther (prefix_behind_space hNone hSpace hPrefix)
  have hProper := hField.name.proper
  have hOther : (⟨y, none⟩ : QualifiedName) ≠ ⟨"CONSTRAINT", none⟩ :=
    fun hSame => hField.other (QualifiedName.mk.inj hSame).1
  have hMissed : Reads (keyword "CONSTRAINT") ahead false (y ++ (" INT" ++ left)) :=
    reads_keyword_missed hNext (not_isPrefixOf_render hProper hOther (by decide) ("INT" ++ left))
      (not_isPrefixOf_render hProper hOther (by decide) ("INT" ++ left))
  have hNull : ("NOT NULL" : Text).isPrefixOf (y ++ (" INT" ++ left)) = false :=
    hTwo (w := "NOT") (u := "NULL") (by decide) rfl
  have hDefault : ("WITH DEFAULT" : Text).isPrefixOf (y ++ (" INT" ++ left)) = false :=
    hTwo (w := "WITH") (u := "DEFAULT") (by decide) rfl
  have hFor : ("FOR" : Text).isPrefixOf (y ++ (" INT" ++ left)) = false := by
    rw [← Bool.not_eq_true, List.isPrefixOf_iff_prefix]
    exact fun hPrefix => hField.noKind (prefix_before_space (by decide) hPrefix)
  exact (reads_constraint?_none hMissed).bind (reads_probe_else hWord hNull
    (reads_probe_else hWord hFor (reads_probe_else hWord hDefault (.pure none _))))

/-- An attribute is read with a field right behind it. -/
theorem Attribute.reads_before_field {a : Attribute} (hProper : a.Proper) (hField : StartsField y)
    (hNext : ahead.dropWhile isBlank = a.write ++ (y ++ (" INT" ++ left))) :
    Reads (many (attribute? Rulebook.standard)) ahead [a.attribute] (y ++ (" INT" ++ left)) := by
  obtain ⟨left', hRead, hLeft⟩ :=
    a.reads hProper hNext (hField.name.head?_dropWhile_ne (by decide) _)
  rw [dropWhile_of_head? (hField.name.first _)] at hLeft
  exact (repeats_attribute? _).reads_cons hRead
    ((repeats_attribute? _).reads_nil (reads_none_of_startsField hField hLeft))

/-- A field of the type `INT`. -/
def Item.intField (name : Text) (attributes : List Attribute) : Item :=
  .field ⟨⟨name, none⟩, ⟨"INT", none⟩, attributes⟩

theorem Item.proper_intField (hName : IsName y) (hOther : y ≠ "CONSTRAINT") :
    (Item.intField y []).Proper :=
  { name := hName.proper
    other := fun hSame => hOther (QualifiedName.mk.inj hSame).1
    type := (by decide : FieldType.Proper ⟨"INT", none⟩)
    attributes := by simp }

/-- A field is read by what is read behind its type, if no comma follows. -/
theorem Item.reads_intField_of {attributes : List Attribute} {items : List Grammar.Item}
    {after : Text} (hAttributes : ∀ t, t.dropWhile isBlank = between.dropWhile isBlank →
      Reads (many (attribute? Rulebook.standard)) t (attributes.map Attribute.attribute) after)
    (hEnd : startsWord between = false) (hOpen : (between.dropWhile isBlank).head? ≠ some '(')
    (hComma : (after.dropWhile isBlank).head? ≠ some ',')
    (hLater : Reads (many (item? Rulebook.standard)) (after.dropWhile isBlank) items left) :
    Reads (many (item? Rulebook.standard)) ("A INT" ++ between)
      ((Item.intField "A" attributes).item :: items) left := by
  have hMissed : Reads (keyword "CONSTRAINT") ("A INT" ++ between) false ("A INT" ++ between) :=
    reads_keyword_missed rfl rfl rfl
  have hName : QualifiedName.Proper ⟨"A", none⟩ := by decide
  have hType : FieldType.Proper ⟨"INT", none⟩ := by decide
  have hField := reads_field_of hName hType hEnd hOpen hAttributes
  rw [Field.fieldOf_eq ⟨⟨"A", none⟩, ⟨"INT", none⟩, attributes⟩] at hField
  have hItem : Reads (constraintOrField? Rulebook.standard) ("A INT" ++ between)
      (some (Item.intField "A" attributes).item) after :=
    (reads_constraint?_none hMissed).bind (hField.map (Option.map Grammar.Item.field))
  -- the comma behind the item is missed, and the blanks before it are passed
  have hNone : Reads (accept ",") after false (after.dropWhile isBlank) :=
    reads_accept_false (isPrefixOf_singleton_eq_false hComma)
  exact (repeats_item? _).reads_cons (hItem.bind (hNone.bind (.pure _ _))) hLater

end Written

/-! ## Places where a word may follow a literal -/

/-- A place where a word may stand right behind a literal. -/
inductive Juncture where
  /-- the home of a tablespace behind `IN` -/
  | tablespace
  /-- the home of a table behind `IN` -/
  | table
  /-- the table of an index behind `ON` -/
  | index
  /-- the query of a view behind `AS` -/
  | view
  /-- the table of a foreign key behind `REFERENCES` -/
  | reference
  /-- the kind of data behind `FOR` -/
  | kind
  /-- the next field behind `DATA` -/
  | data
  /-- the next field behind `NOT NULL` -/
  | null
  /-- the next field behind `WITH DEFAULT` -/
  | default
  deriving DecidableEq

namespace Juncture

variable {w : Juncture} {x y : Text}

/-- What stands before the name of the statement. -/
def opening : Juncture → Text
  | tablespace => "CREATE TABLESPACE "
  | index => "CREATE INDEX "
  | view => "CREATE VIEW "
  | reference => "ALTER TABLE "
  | table | kind | data | null | default => "CREATE TABLE "

/-- The literal. -/
def literal : Juncture → Text
  | tablespace | table => "IN"
  | index => "ON"
  | view => "AS"
  | reference => "REFERENCES"
  | kind => "FOR"
  | data => "DATA"
  | null => "NOT NULL"
  | default => "WITH DEFAULT"

/-- What stands between the name of the statement and the literal. -/
def between : Juncture → Text
  | tablespace | index | view => " "
  | table => " (A INT) "
  | reference => " ADD CONSTRAINT C FOREIGN KEY (A) "
  | kind | null | default => " (A INT "
  | data => " (A INT FOR B "

/-- What stands behind the word. -/
def behind : Juncture → Text
  | tablespace | table | view => ";"
  | index | reference => " (B);"
  | kind => " DATA) IN D;"
  | data | null | default => " INT) IN D;"

/-- A statement of a given name, with a word right behind the literal. -/
def write (w : Juncture) (x y : Text) : Text :=
  w.opening ++ (x ++ ((w.between ++ w.literal) ++ (y ++ w.behind)))

example : tablespace.write "X" "Y" = "CREATE TABLESPACE X INY;" ∧
    null.write "X" "Y" = "CREATE TABLE X (A INT NOT NULLY INT) IN D;" := by
  decide +kernel

/-- The statement of a table with some items, by names without a scope. -/
def tableOf (x home : Text) (items : List Written.Item) : Statement :=
  Written.Table.statement ⟨⟨x, none⟩, ⟨home, none⟩, items, none⟩

/-- The statement that is written with a space between the literal and the word. -/
def statement (w : Juncture) (x y : Text) : Statement :=
  match w with
  | tablespace => (Line.tablespace ⟨x, none⟩ ⟨y, none⟩ none).statement
  | table => tableOf x y [.intField "A" []]
  | index => (Line.index false ⟨x, none⟩ ⟨y, none⟩ "B" none).statement
  | view => (Line.view ⟨x, none⟩ y).statement
  | reference =>
    (Line.addition ⟨x, none⟩ ⟨"C", none⟩ (.foreignKey "A" ⟨y, none⟩ "B" none)).statement
  | kind => tableOf x "D" [.intField "A" [.forData y]]
  | data => tableOf x "D" [.intField "A" [.forData "B"], .intField y []]
  | null => tableOf x "D" [.intField "A" [.notNull], .intField y []]
  | default => tableOf x "D" [.intField "A" [.default none], .intField y []]

/-- Whether a word is taken for what the place is for. Behind an attribute it has to start a
field. -/
def Admits (w : Juncture) (y : Text) : Prop :=
  match w with
  | tablespace | table | index | view | reference | kind => IsName y
  | data | null | default => Written.StartsField y

instance (w : Juncture) (y : Text) : Decidable (w.Admits y) :=
  match w with
  | tablespace | table | index | view | reference | kind => inferInstanceAs (Decidable (IsName y))
  | data | null | default => inferInstanceAs (Decidable (Written.StartsField y))

theorem Admits.isName (hAdmits : w.Admits y) : IsName y := by
  cases w with
  | tablespace | table | index | view | reference | kind => exact hAdmits
  | data | null | default => exact Written.StartsField.name hAdmits

/-- Such a statement is normalized as it is written. -/
theorem spaced_write (hName : IsName x) (hWord : IsName y) : Spaced (w.write x y) := by
  have hBehind : Spaced w.behind := by
    cases w <;> decide
  have hThrough : Spaced (w.between ++ w.literal) := by
    cases w <;> decide
  have hOpening : Spaced w.opening := by
    cases w <;> decide
  -- from the end of the text to its start
  have hTail := hThrough.append_of_spaced_cons
    ((Written.clean_of_isName hWord).spaced_cons_append_of_ne_nil hWord.1 hBehind)
  exact hOpening.append_of_spaced_cons
    ((Written.clean_of_isName hName).spaced_cons_append_of_ne_nil hName.1 hTail)

theorem write_starts (w : Juncture) (x y : Text) :
    ∃ c t, w.write x y = c :: t ∧ isBlank c = false := by
  cases w <;> exact ⟨_, _, rfl, by decide⟩

/-! ### Reading -/

section

variable {items : List Written.Item} {home ahead between : Text}

/-- A name without a scope is read where a semicolon stands behind it. -/
theorem reads_bare (hName : IsName x) : Reads qualifiedName (x ++ ";") ⟨x, none⟩ ";" := by
  have hRead : Reads qualifiedName (QualifiedName.render ⟨x, none⟩ ++ (tail none ++ ';' :: []))
      ⟨x, none⟩ (tail none ++ ';' :: []) :=
    reads_name_before_tail hName.proper properTail_none
  exact hRead

/-- The same where a parenthesis stands behind it. -/
theorem reads_bare_parenthesis (hName : IsName x) (left : Text) :
    Reads qualifiedName (x ++ (" (" ++ left)) ⟨x, none⟩ (" (" ++ left) := by
  have hRead : Reads qualifiedName (QualifiedName.render ⟨x, none⟩ ++ ' ' :: '(' :: left)
      ⟨x, none⟩ (' ' :: '(' :: left) :=
    reads_name_before_space hName.proper (by decide) (by decide)
  exact hRead

theorem reads_nothing (construct : Construct) :
    Reads (Reader.parameters (Rulebook.standard construct)) ";"
      (Parameters.decoded construct []) [] :=
  reads_tail construct properTail_none

theorem reads_tableOf (hName : IsName x) (hHome : Reads qualifiedName between ⟨home, none⟩ ";")
    (hItems : Reads (many (item? Rulebook.standard)) ahead (items.map Written.Item.item)
      (')' :: (" IN" ++ between))) :
    Reads (statement? Rulebook.standard) ("CREATE TABLE " ++ (x ++ (" (" ++ ahead)))
      (some (tableOf x home items)) [] :=
  Written.Table.reads_of (t := ⟨⟨x, none⟩, ⟨home, none⟩, items, none⟩) hName.proper
    properTail_none hItems hHome

/-- The tablespace `D` behind a space. -/
theorem reads_home : Reads qualifiedName " D;" ⟨"D", none⟩ ";" := by
  have hName : IsName "D" := by decide
  exact reads_name_behind_space hName.proper (reads_bare hName)

/-- A field right behind an attribute is one more field. -/
theorem reads_attribute {a : Written.Attribute} (hProper : a.Proper) (hName : IsName x)
    (hField : Written.StartsField y) :
    Reads (statement? Rulebook.standard)
      ("CREATE TABLE " ++ (x ++ ((" (A INT " ++ a.write) ++ (y ++ " INT) IN D;"))))
      (some (tableOf x "D" [.intField "A" [a], .intField y []])) [] := by
  have hNext : ((y ++ " INT) IN D;").dropWhile isBlank).dropWhile isBlank =
      Written.Item.writeAll [.intField y []] ++ ')' :: " IN D;" := by
    have hText : Written.Item.writeAll [.intField y []] ++ ')' :: " IN D;" = y ++ " INT) IN D;" :=
      List.append_assoc y " INT" ") IN D;"
    rw [hText, List.dropWhile_idempotent, dropWhile_of_head? (hField.name.first _)]
  -- the further field is the last item
  have hSecond : Reads (many (item? Rulebook.standard)) ((y ++ " INT) IN D;").dropWhile isBlank)
      [(Written.Item.intField y []).item] ") IN D;" := by
    have hItem := Written.Item.proper_intField hField.name hField.other
    exact Written.Item.reads_writeAll (List.forall_mem_singleton.mpr hItem) hNext
  have hBehind := a.dropWhile_write (y ++ " INT) IN D;")
  have hAttributes : ∀ t,
      t.dropWhile isBlank = (' ' :: (a.write ++ (y ++ " INT) IN D;"))).dropWhile isBlank →
      Reads (many (attribute? Rulebook.standard)) t ([a].map Written.Attribute.attribute)
        (y ++ " INT) IN D;") :=
    fun t hNext => Written.Attribute.reads_before_field hProper hField (hNext.trans hBehind)
  have hOpen : ((' ' :: (a.write ++ (y ++ " INT) IN D;"))).dropWhile isBlank).head? ≠ some '(' := by
    rw [hBehind]
    exact a.head?_write (by decide) _
  -- the further field starts right behind the attribute, with no comma between
  have hComma : ((y ++ " INT) IN D;").dropWhile isBlank).head? ≠ some ',' :=
    hField.name.head?_dropWhile_ne (by decide) _
  have hItems := Written.Item.reads_intField_of hAttributes (by rfl) hOpen hComma hSecond
  have hText : (" (A INT " ++ a.write) ++ (y ++ " INT) IN D;") =
      " (" ++ ("A INT" ++ ' ' :: (a.write ++ (y ++ " INT) IN D;"))) := by
    rw [List.append_assoc]
    rfl
  rw [hText]
  exact reads_tableOf hName reads_home hItems

/-- The kind of data is read right behind `FOR`. -/
theorem reads_kind (hName : IsName x) (hWord : IsName y) :
    Reads (statement? Rulebook.standard) (kind.write x y) (some (kind.statement x y)) [] := by
  -- the kind ends at the space before the last word
  have hKind : Reads identifier (y ++ (" DATA" ++ ") IN D;")) y (" DATA" ++ ") IN D;") := by
    refine reads_identifier hWord ?_
    show isWord ' ' = false
    decide
  have hAttributes : ∀ t, t.dropWhile isBlank = "FOR" ++ (y ++ (" DATA" ++ ") IN D;")) →
      Reads (many (attribute? Rulebook.standard)) t
        ([Written.Attribute.forData y].map Written.Attribute.attribute) ") IN D;" := by
    intro t hNext
    have hNone : Reads (attribute? Rulebook.standard) ") IN D;" none ") IN D;" :=
      Written.Attribute.reads_none (by decide) rfl
    exact (repeats_attribute? _).reads_cons (Written.reads_forData_of hNext hKind)
      ((repeats_attribute? _).reads_nil hNone)
  have hNone : Reads (many (item? Rulebook.standard)) ") IN D;" [] ") IN D;" :=
    (repeats_item? _).reads_nil (Written.Item.reads_none rfl)
  have hFor : ((" FOR" ++ (y ++ (" DATA" ++ ") IN D;"))).dropWhile isBlank).head? = some 'F' := rfl
  have hItems : Reads (many (item? Rulebook.standard))
      ("A INT" ++ (" FOR" ++ (y ++ (" DATA" ++ ") IN D;"))))
      ([Written.Item.intField "A" [.forData y]].map Written.Item.item) ") IN D;" :=
    Written.Item.reads_intField_of hAttributes rfl (by rw [hFor]; decide) (by decide) hNone
  exact reads_tableOf hName reads_home hItems

end

/-- A statement with a word right behind a literal is read from its first word to its end. -/
theorem reads_write (hName : IsName x) (hAdmits : w.Admits y) :
    Reads (statement? Rulebook.standard) (w.write x y) (some (w.statement x y)) [] := by
  have hProper := hName.proper
  have hWord := hAdmits.isName
  have hFields : Reads inParentheses (" (" ++ ("B" ++ ')' :: ";")) "B" ";" :=
    reads_inParentheses rfl (by decide) (by decide)
  -- what stands before the word settles what it is read as
  cases w with
  | tablespace =>
    have hRead := reads_tablespace_of hProper (reads_bare hWord) (reads_nothing .tablespace)
    exact reads_created (reads_creation_tablespace hRead)
  | table =>
    have hItem := Written.Item.proper_intField (y := "A") (by decide) (by decide)
    have hItems : Reads (many (item? Rulebook.standard)) ("A INT" ++ ')' :: (" IN" ++ (y ++ ";")))
        ([Written.Item.intField "A" []].map Written.Item.item) (')' :: (" IN" ++ (y ++ ";"))) :=
      Written.Item.reads_writeAll (List.forall_mem_singleton.mpr hItem) rfl
    exact reads_tableOf hName (reads_bare hWord) hItems
  | index =>
    have hRead := reads_index_of false hProper (reads_bare_parenthesis hWord _) hFields
      (reads_nothing .index)
    exact reads_created (reads_creation_index false hRead)
  | view =>
    have hFree : ';' ∉ y := hWord.not_mem (by decide)
    have hQuery : Reads (takeUntil ";" true) (y ++ ';' :: []) (trim y) [] :=
      reads_takeUntil (by decide) hFree
    rw [trim_of_clean (Written.clean_of_isName hWord)] at hQuery
    have hRead := reads_view_of hProper hQuery
    exact reads_created (reads_creation_view hRead)
  | reference =>
    have hKey : QualifiedName.Proper ⟨"C", none⟩ := by decide
    have hKind : Reads (constraintKind Rulebook.standard ⟨"C", none⟩)
        (" FOREIGN KEY (" ++ ("A" ++ (") REFERENCES" ++ (y ++ (" (" ++ ("B" ++ ')' :: ";"))))))
        ((Addition.foreignKey "A" ⟨y, none⟩ "B" none).constraint ⟨"C", none⟩) [] :=
      reads_foreignKey_of (by decide) (by decide) (by decide) (reads_bare_parenthesis hWord _)
        hFields (by decide) (reads_nothing .foreignKey)
    have hEnd : Reads (accept ";") [] false [] := reads_accept_false rfl
    have hRead := reads_alteration hProper hKey (by decide) (by decide) hKind hEnd
    exact reads_altered hRead
  | kind => exact reads_kind hName hWord
  | data =>
    have hKind : Written.Attribute.Proper (.forData "B") := by decide
    have hRead := reads_attribute hKind hName hAdmits
    exact hRead
  | null =>
    have hNull : Written.Attribute.Proper .notNull := trivial
    have hRead := reads_attribute hNull hName hAdmits
    exact hRead
  | default =>
    have hDefault : Written.Attribute.Proper (.default none) := by decide
    have hRead := reads_attribute hDefault hName hAdmits
    exact hRead

end Juncture

/-! ## Runs -/

/-- Whether a step reads a statement that is made of given tokens. -/
def Step.Spelled (book : Rulebook) (s : Step) (tokens : List Token) : Prop :=
  ∃ x, s.outcome = .statement x ∧ Spells book (statement? book) s.start (some x) s.stop tokens

/-- What is known of the tokens that a statement is made of. -/
structure Step.Parted (book : Rulebook) (s : Step) : Prop where
  /-- every statement is made of tokens -/
  spelled : ∀ x, s.outcome = .statement x → ∃ tokens, s.Spelled book tokens
  /-- tokens have their text, and nothing but blanks around them -/
  laid : ∀ tokens, s.Spelled book tokens → Laid s.start tokens s.stop ∧ ∀ t ∈ tokens, t.Stands
  /-- a keyword is a whole word -/
  keyword : ∀ tokens, s.Spelled book tokens → ∀ t ∈ tokens, ∀ word, t.kind = .keyword word →
    startsWord t.stop.rest = false
  /-- a word character behind a token is the first character of the next one -/
  glued : ∀ before t u after, s.Spelled book (before ++ t :: u :: after) →
    (startsWord t.stop.rest = true ↔ t.stop = u.start ∧ startsWord u.start.rest = true)
  /-- so before a name a token is a whole word exactly if blanks stand between them -/
  named : ∀ before t u after, s.Spelled book (before ++ t :: u :: after) → u.kind = .word →
    (startsWord t.stop.rest = true ↔ t.stop = u.start)

namespace Script

variable {book : Rulebook} {s : Step} {x y : Text}

theorem parted_of_taken (hTaken : s.Taken book) : s.Parted book := by
  have hGlued : ∀ before t u after, s.Spelled book (before ++ t :: u :: after) →
      (startsWord t.stop.rest = true ↔ t.stop = u.start ∧ startsWord u.start.rest = true) := by
    rintro before t u after ⟨x, -, hSpells⟩
    exact hSpells.laid.startsWord_iff
  refine ⟨?_, ?_, ?_, hGlued, ?_⟩
  · intro x hOutcome
    have hStep := hTaken.step_eq
    rw [hOutcome] at hStep
    obtain ⟨tokens, hSpells⟩ := exists_spells_statement? (statement?_of_step hStep)
    exact ⟨tokens, x, hOutcome, hSpells⟩
  · rintro tokens ⟨x, -, hSpells⟩
    exact ⟨hSpells.laid, hSpells.stands⟩
  · rintro tokens ⟨x, -, hSpells⟩ t hMem word hKind
    exact (hSpells.stands t hMem).startsWord_stop hKind
  · intro before t u after hSpelled hKind
    rw [hGlued before t u after hSpelled]
    obtain ⟨x, -, hSpells⟩ := hSpelled
    have hStands : u.Stands := hSpells.stands u (by simp)
    -- a name starts with a word character
    have hWord : startsWord u.start.rest = true := by
      rwa [Token.Stands, hKind] at hStands
    exact and_iff_left hWord

theorem readsAlone_write {w : Juncture} (hName : IsName x) (hAdmits : w.Admits y) :
    ReadsAlone (w.write x y) (w.statement x y) := by
  have hNormal := normalize_of_spaced (Juncture.spaced_write (w := w) hName hAdmits.isName)
  exact run_of_reads hNormal (w.write_starts x y) (Juncture.reads_write hName hAdmits)

/-- **Only the keywords are whole words.** In every run with separators that separate, a statement
is made of tokens with nothing but blanks between them. No word character stands behind a keyword,
and one stands behind any other token exactly if the next one starts there with it. So wherever a
word may follow a literal, it may do so without a blank, and the statement is read all the same. -/
theorem run_words (hSeparators : ∀ construct, (book construct).separator ≠ []) :
    (∀ script, ∃ r, run book script = .ok r ∧ ∀ s ∈ r.steps, s.Parted book) ∧
      ∀ (w : Juncture) (x y : Text), IsName x → w.Admits y →
        ReadsAlone (w.write x y) (w.statement x y) := by
  refine ⟨fun script => ?_, fun w x y hName hAdmits => readsAlone_write hName hAdmits⟩
  obtain ⟨r, hRun, hTrace⟩ := exists_runFrom hSeparators (.ofText script)
  exact ⟨r, hRun, fun s hMem => parted_of_taken (hTrace.taken s hMem)⟩

/-- A tablespace with its home right behind the literal, and a field right behind an attribute. -/
theorem run_words_glued :
    (∀ construct, (Rulebook.standard construct).separator ≠ []) ∧
      (∃ r, run Rulebook.standard "CREATE TABLESPACE X INY;" = .ok r ∧
        ∀ s ∈ r.steps, s.Parted Rulebook.standard) ∧
      IsName "X" ∧ Juncture.tablespace.Admits "Y" ∧ Juncture.null.Admits "Y" ∧
      ReadsAlone "CREATE TABLESPACE X INY;" (Juncture.tablespace.statement "X" "Y") ∧
      ReadsAlone "CREATE TABLE X (A INT NOT NULLY INT) IN D;"
        (Juncture.null.statement "X" "Y") := by
  have hSeparators := Rulebook.standard_separator_ne_nil
  have hName : IsName "X" := by decide
  have hWord : Juncture.tablespace.Admits "Y" := by decide
  have hField : Juncture.null.Admits "Y" := by decide
  obtain ⟨hParted, hGlued⟩ := run_words hSeparators
  exact ⟨hSeparators, hParted _, hName, hWord, hField, hGlued .tablespace "X" "Y" hName hWord,
    hGlued .null "X" "Y" hName hField⟩

/-- Not every tablespace with its home right behind the literal is skipped. -/
theorem not_forall_skipped :
    ¬ ∀ x y : Text, IsName x → IsName y →
      ∃ r, run Rulebook.standard ("CREATE TABLESPACE " ++ (x ++ (" IN" ++ (y ++ ";")))) = .ok r ∧
        r.statements = [] ∧ r.diagnostics ≠ [] := by
  intro hAll
  obtain ⟨r, hRun, hNone, -⟩ := hAll "x" "y" (by decide) (by decide)
  have hValue : (run Rulebook.standard ("CREATE TABLESPACE " ++ ("x" ++ (" IN" ++
      ("y" ++ ";"))))).toOption.map Run.statements =
      some [.tablespace ⟨"x", none⟩ ⟨"y", none⟩ .empty] := by
    decide +kernel
  rw [hRun] at hValue
  have hSome := Option.some.inj hValue
  rw [hNone] at hSome
  cases hSome

end Script

end SchemaScript
