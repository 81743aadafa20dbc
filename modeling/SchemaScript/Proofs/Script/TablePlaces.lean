import SchemaScript.Proofs.Grammar.TwoWords
import SchemaScript.Proofs.Script.Broken
import SchemaScript.Proofs.Script.Separated

/-!
# Places in a table that is read

A step that reads a table comes to places inside its body: behind some of the items
(`Step.ReadsOn`), and inside a field behind some of its attributes (`Step.AttributeAt`). What is
read from there on does not depend on what was read before, except that it is put behind it. So two
steps can be compared that read different items before such a place and the same text behind it
(`Step.ReadsOn.behind`).
-/

namespace SchemaScript

open Text Reader Grammar

/-! ## Fields and their attributes -/

namespace Grammar

/-- The table with the items of a body. -/
def tableOf (name home : QualifiedName) (items : List Item) (parameters : Parameters) : Statement :=
  .table name home (items.filterMap Item.field?) (items.filterMap Item.constraint?) parameters

/-- Whether a field starts at a place and is read up to another one, behind some attributes. -/
def FieldAt (book : Rulebook) (place : Cursor) (name : QualifiedName) (type : Text)
    (attributes : List Attribute) (k : Cursor) : Prop :=
  ∃ first second third, constraint? book place = .ok none first ∧
    qualifiedName? first = .ok (some name) second ∧ fieldType second = .ok type third ∧
    InTurn (attribute? book) third attributes k

section

variable {book : Rulebook} {place k c d : Cursor} {name : QualifiedName} {type : Text}
  {attributes : List Attribute} {items : List Item} {x : Statement}

/-- The end of a table is made of the readers of the grammar. -/
theorem composed_tableEnd (name : QualifiedName) (items : List Item) :
    Composed book (tableEnd book name items) :=
  .bind (.expect rfl) fun _ => .bind (.expect rfl) fun _ => .bind .qualifiedName fun _ =>
    .map (.parameters _) _

/-- What follows the items does not depend on them. -/
theorem tableEnd_eq_ok (hRead : tableEnd book name items c = .ok x d) :
    ∃ home parameters, ∀ items,
      tableEnd book name items c = .ok (tableOf name home items parameters) d := by
  obtain ⟨_, _, hClose, hRead⟩ := bind_eq_ok_iff.mp hRead
  obtain ⟨_, _, hIn, hRead⟩ := bind_eq_ok_iff.mp hRead
  obtain ⟨home, _, hHome, hRead⟩ := bind_eq_ok_iff.mp hRead
  obtain ⟨parameters, hParameters, -⟩ := map_eq_ok_iff.mp hRead
  exact ⟨home, parameters, fun items => (bind_of_ok hClose).trans ((bind_of_ok hIn).trans
    ((bind_of_ok hHome).trans (bind_of_ok hParameters)))⟩

/-- A field is read forward. -/
theorem FieldAt.reaches (hField : FieldAt book place name type attributes k) : place.Reaches k := by
  obtain ⟨first, second, third, hNone, hName, hType, hInTurn⟩ := hField
  have hFirst := composed_constraint?.reaches_of_ok hNone
  have hSecond := (.qualifiedName? : Composed book qualifiedName?).reaches_of_ok hName
  have hThird := (composed_fieldType : Composed book fieldType).reaches_of_ok hType
  exact hFirst.trans (hSecond.trans (hThird.trans (hInTurn.reaches composed_attribute?)))

/-- One more attribute is read behind the others. -/
theorem FieldAt.concat {last : Attribute}
    (hField : FieldAt book place name type attributes k)
    (hRead : attribute? book k = .ok (some last) d) :
    FieldAt book place name type (attributes ++ [last]) d := by
  obtain ⟨first, second, third, hNone, hName, hType, hInTurn⟩ := hField
  exact ⟨first, second, third, hNone, hName, hType, hInTurn.concat hRead⟩

/-- Behind some of its attributes a field goes on with the others. -/
theorem FieldAt.constraintOrField?_eq (hField : FieldAt book place name type attributes k) :
    constraintOrField? book place =
      (many (attribute? book) >>= fun later =>
        pure (some (.field (fieldOf name type (attributes ++ later))))) k := by
  obtain ⟨first, second, third, hNone, hName, hType, hInTurn⟩ := hField
  -- the attributes that were read are the first ones of the repetition
  have hMany := hInTurn.many_eq (repeats_attribute? book)
  have hField : field? book first =
      (many (attribute? book) >>= fun later =>
        pure (some (fieldOf name type (attributes ++ later)))) k := by
    refine (bind_of_ok hName).trans ((bind_of_ok hType).trans ?_)
    simp only [bind, EStateM.bind, hMany]
    cases many (attribute? book) k <;> rfl
  refine (bind_of_ok hNone).trans ?_
  simp only [bind, EStateM.bind, hField]
  cases many (attribute? book) k <;> rfl

/-- A field that is read up to a place before the break is read so in both texts. -/
theorem FieldAt.before {n : Nat} {s t : Text} (hBroken : BrokenAt n s t)
    (hField : FieldAt Rulebook.standard place name type attributes k) (hText : place.text = s)
    (hBefore : k.pos ≤ n) :
    FieldAt Rulebook.standard (place.inText t) name type attributes (k.inText t) := by
  obtain ⟨first, second, third, hNone, hName, hType, hInTurn⟩ := hField
  have hComposed : Composed Rulebook.standard qualifiedName? := .qualifiedName?
  have hComposed' : Composed Rulebook.standard fieldType := composed_fieldType
  have hFirst := composed_constraint?.reaches_of_ok hNone
  have hSecond := hComposed.reaches_of_ok hName
  have hThird := hComposed'.reaches_of_ok hType
  have hLast := hInTurn.reaches composed_attribute?
  -- each part ends before the break, since the last one does
  have hEnd := hLast.pos_le.trans hBefore
  have hEnd' := hThird.pos_le.trans hEnd
  have hText₁ := hFirst.text_eq.trans hText
  have hText₂ := hSecond.text_eq.trans hText₁
  exact ⟨first.inText t, second.inText t, third.inText t,
    composed_constraint?.before hBroken _ _ _ hText hNone (hSecond.pos_le.trans hEnd'),
    hComposed.before hBroken _ _ _ hText₁ hName hEnd',
    hComposed'.before hBroken _ _ _ hText₂ hType hEnd,
    hInTurn.before hBroken composed_attribute? (hThird.text_eq.trans hText₂) hBefore⟩

end

end Grammar

/-! ## Steps that read a table -/

/-- Whether a step goes on at a place with further items of a table, once some are read. -/
def Step.ReadsOn (x : Step) (table : QualifiedName) (items : List Item) (c : Cursor) : Prop :=
  statement? Rulebook.standard x.start =
    (many (item? Rulebook.standard) >>= fun later =>
      tableEnd Rulebook.standard table (items ++ later) >>= fun y => pure (some y)) c

/-- Whether a step asks for an attribute at a place, in a field of a table. The items before the
field and what is read of the field are given. -/
def Step.AttributeAt (x : Step) (table : QualifiedName) (items : List Item) (name : QualifiedName)
    (type : Text) (attributes : List Attribute) (k : Cursor) : Prop :=
  ∃ opening place, x.OpensBody table opening ∧
    InTurn (item? Rulebook.standard) opening items place ∧
    FieldAt Rulebook.standard place name type attributes k

section

variable {x : Step} {table : QualifiedName} {items : List Item} {opening place c d : Cursor}

/-- A step that opens a body goes on behind the items that it has read. -/
theorem Step.OpensBody.readsOn (hTaken : x.Taken Rulebook.standard)
    (hOpens : x.OpensBody table opening)
    (hInTurn : InTurn (item? Rulebook.standard) opening items place) :
    x.ReadsOn table items place := by
  have hMany := hInTurn.many_eq (repeats_item? Rulebook.standard)
  unfold Step.ReadsOn
  rw [Script.statement?_of_opensBody hTaken hOpens]
  simp only [bind, EStateM.bind, hMany]
  cases many (item? Rulebook.standard) place <;> rfl

/-- The place lies ahead of the start of the step. -/
theorem Step.AttributeAt.reaches {name : QualifiedName} {type : Text}
    {attributes : List Attribute} {k : Cursor}
    (hPlace : x.AttributeAt table items name type attributes k) : x.start.Reaches k := by
  obtain ⟨opening, place, hOpens, hInTurn, hField⟩ := hPlace
  exact hOpens.reaches.trans ((hInTurn.reaches composed_item?).trans hField.reaches)

/-- Behind one more item a step goes on, once a comma is passed. -/
theorem Step.ReadsOn.behind_item {next : Item} (hReads : x.ReadsOn table items c)
    (hItem : constraintOrField? Rulebook.standard c = .ok (some next) d) :
    x.ReadsOn table (items ++ [next]) d.passComma := by
  unfold Step.ReadsOn at hReads ⊢
  rw [hReads]
  simp only [bind, EStateM.bind, many_item?_of_some hItem, List.append_assoc]
  cases many (item? Rulebook.standard) d.passComma <;> rfl

/-- A step that goes on with a table has read the further items and the end of the table. -/
theorem Step.ReadsOn.exists_later {y : Statement} (hReads : x.ReadsOn table items c)
    (hRead : statement? Rulebook.standard x.start = .ok (some y) d) :
    ∃ later q home parameters, many (item? Rulebook.standard) c = .ok later q ∧
      y = tableOf table home (items ++ later) parameters ∧
      ∀ items, tableEnd Rulebook.standard table items q =
        .ok (tableOf table home items parameters) d := by
  rw [Step.ReadsOn, hRead] at hReads
  obtain ⟨later, q, hLater, hEnd⟩ := bind_eq_ok_iff.mp hReads.symm
  obtain ⟨y', hEnd, hSome⟩ := map_eq_ok_iff.mp hEnd
  cases hSome
  obtain ⟨home, parameters, hEnds⟩ := tableEnd_eq_ok hEnd
  have hSame := (hEnds (items ++ later)).symm.trans hEnd
  cases hSame
  exact ⟨later, q, home, parameters, hLater, rfl, hEnds⟩

/-- A step that goes on with a table is skipped from further on, or reads the table. -/
theorem Step.ReadsOn.skipped_or (hReads : x.ReadsOn table items c)
    (hTaken : x.Taken Rulebook.standard) :
    (∃ d, x.outcome = .skipped d ∧ c.pos ≤ d.position) ∨
      ∃ later q home parameters, many (item? Rulebook.standard) c = .ok later q ∧
        x.outcome = .statement (tableOf table home (items ++ later) parameters) := by
  have hStep := hTaken.step_eq
  cases hRead : statement? Rulebook.standard x.start with
  | error e d =>
    left
    have hHere := hReads.symm.trans hRead
    have hComposed : Composed Rulebook.standard
        (many (item? Rulebook.standard) >>= fun later =>
          tableEnd Rulebook.standard table (items ++ later) >>= fun y => pure (some y)) :=
      .bind (.many composed_item?) fun _ => .map (composed_tableEnd _ _) _
    have hReach := hComposed.reaches c
    rw [stop_of_error hHere] at hReach
    obtain ⟨expected, rfl⟩ :=
      hComposed.mismatch_of_error Rulebook.standard_separator_ne_nil hHere
    obtain ⟨diagnostic, hOutcome, hPosition, -⟩ := Script.skipped_of_mismatch hTaken hRead
    exact ⟨diagnostic, hOutcome, hPosition ▸ hReach.pos_le⟩
  | ok found d =>
    cases found with
    | none =>
      -- a table that is read is a statement
      rw [hReads] at hRead
      obtain ⟨later, q, -, hEnd⟩ := bind_eq_ok_iff.mp hRead
      exact absurd hEnd map_some_ne_none
    | some y =>
      right
      obtain ⟨later, q, home, parameters, hLater, rfl, -⟩ := hReads.exists_later hRead
      rw [Script.step_of_some hRead] at hStep
      exact ⟨later, q, home, parameters, hLater, (congrArg Prod.fst (Except.ok.inj hStep)).symm⟩

/-! ### Where no item goes on -/

/-- Where no comma stands, none is passed. -/
theorem Cursor.passComma_of_ne (hBlank : c.skipBlanks = c) (hComma : c.rest.head? ≠ some ',') :
    c.passComma = c := by
  unfold Cursor.passComma
  rw [hBlank, if_neg hComma]

/-- A parenthesis or a quote is no part of a table where an item may stand. -/
theorem Step.ReadsOn.error_of_mark {y : Char} {rest : Text} (hReads : x.ReadsOn table items c)
    (hBlank : c.skipBlanks = c) (hMark : y ∈ ("('" : Text)) (hRest : c.rest = y :: rest) :
    statement? Rulebook.standard x.start =
      .error (.mismatch (.atCursor (.literal ")") c)) c := by
  have hStarts : startsWord c.rest = false := by
    rw [hRest]
    show isWord y = false
    rcases List.mem_pair.mp hMark with rfl | rfl <;> decide
  -- no item starts with a mark, so the body has to be closed there
  have hItem : item? Rulebook.standard c = .ok none c := by
    refine bind_of_ok (constraintOrField?_eq_none_iff.mpr ?_)
    rw [hBlank]
    exact ⟨hStarts, rfl⟩
  have hMissing : expect ")" c = .error (.mismatch (.atCursor (.literal ")") c)) c := by
    have hNone : (")" : Text).isPrefixOf c.rest = false := by
      rw [hRest]
      rcases List.mem_pair.mp hMark with rfl | rfl <;> rfl
    rw [expect_apply, hBlank, hNone]
    rfl
  rw [Step.ReadsOn] at hReads
  rw [hReads, bind_of_ok (many_of_none hItem)]
  exact bind_of_error (bind_of_error hMissing)

/-- Behind a field of a table that is read, no parenthesis opens. -/
theorem Step.ReadsOn.head?_ne {y : Statement} {k : Cursor} {name : QualifiedName} {type : Text}
    {attributes : List Attribute} (hReads : x.ReadsOn table items c)
    (hField : FieldAt Rulebook.standard c name type attributes k)
    (hRead : statement? Rulebook.standard x.start = .ok (some y) d) :
    k.skipBlanks.rest.head? ≠ some '(' := by
  intro hOpen
  obtain ⟨rest, hRest⟩ := List.head?_eq_some_iff.mp hOpen
  have hBlank := Cursor.skipBlanks_skipBlanks k
  have hMark : '(' ∈ ("('" : Text) := by decide
  -- the field would end there, and no comma stands there either
  have hItem := hField.constraintOrField?_eq.trans
    (bind_of_ok (many_attribute?_of_mark _ hMark hRest))
  have hNext := hReads.behind_item hItem
  rw [Cursor.passComma_of_ne hBlank (by rw [hOpen]; decide)] at hNext
  rw [hNext.error_of_mark hBlank hMark hRest] at hRead
  cases hRead

/-- A table that is read has read the attributes of each field and what is behind them. -/
theorem Step.ReadsOn.exists_field {y : Statement} {k : Cursor} {name : QualifiedName} {type : Text}
    {attributes : List Attribute} (hReads : x.ReadsOn table items c)
    (hField : FieldAt Rulebook.standard c name type attributes k)
    (hRead : statement? Rulebook.standard x.start = .ok (some y) d) :
    ∃ more q, many (attribute? Rulebook.standard) k = .ok more q ∧
      x.ReadsOn table (items ++ [.field (fieldOf name type (attributes ++ more))]) q.passComma := by
  have hItem := hField.constraintOrField?_eq
  cases hMany : many (attribute? Rulebook.standard) k with
  | ok more q =>
    rw [bind_of_ok hMany] at hItem
    exact ⟨more, q, rfl, hReads.behind_item hItem⟩
  | error e q =>
    -- a failure among the attributes would be one of the statement
    rw [bind_of_error hMany] at hItem
    have hFail : item? Rulebook.standard c = .error e q := bind_of_error hItem
    rw [Step.ReadsOn, bind_of_error (many_of_error hFail), hRead] at hReads
    cases hReads

end

/-! ## Places on both sides of a break -/

section

variable {n : Nat} {s t : Text} (hBroken : BrokenAt n s t)
include hBroken

/-- Behind the break the same comma is passed in both texts. -/
theorem Cursor.passComma_inText {c : Cursor} (hText : c.text = s) (hBehind : n < c.pos) :
    (c.inText t).passComma = c.passComma.inText t := by
  have hNext : c.skipBlanks.text = s := c.text_skipBlanks.trans hText
  have hRest := Cursor.rest_inText_of_lt hBroken hNext
    (hBehind.trans_le (Cursor.reaches_skipBlanks c).pos_le)
  unfold Cursor.passComma
  rw [Cursor.skipBlanks_inText hBroken.same hText, hRest]
  split
  · next hComma =>
    have hWithin : 1 ≤ c.skipBlanks.rest.length := by
      obtain ⟨behind, hThere⟩ := List.head?_eq_some_iff.mp hComma
      rw [hThere, List.length_cons]
      omega
    rw [Cursor.advance_inText t hWithin, Cursor.skipBlanks_inText hBroken.same]
    rw [Cursor.text_advance, hNext]
  · rfl

variable {x x' : Step} {table : QualifiedName} {opening : Cursor}

/-- A body that opens before the break is opened in both texts. -/
theorem Step.OpensBody.before (hOpens : x.OpensBody table opening) (hText : x.start.text = s)
    (hStart : x'.start = x.start.inText t) (hBefore : opening.pos ≤ n) :
    x'.OpensBody table (opening.inText t) := by
  obtain ⟨key, hKey, hPrefix, m, d, found, hTable, hName, hOpen⟩ := hOpens
  have hWithin := hPrefix.length_le
  have hKeyword : Composed Rulebook.standard (keyword "TABLE") := .keyword rfl
  have hQualified : Composed Rulebook.standard qualifiedName := .qualifiedName
  have hParenthesis : Composed Rulebook.standard (expect "(") := .expect rfl
  have hFirst := hKeyword.reaches_of_ok hTable
  have hSecond := hQualified.reaches_of_ok hName
  have hThird := hParenthesis.reaches_of_ok hOpen
  -- each part ends before the break, since the last one does
  have hEnd := hThird.pos_le.trans hBefore
  have hEnd' := hSecond.pos_le.trans hEnd
  have hEnd'' := hFirst.pos_le.trans hEnd'
  have hText₁ : (x.start.advance key.length).text = s := (Cursor.text_advance ..).trans hText
  have hText₂ := hFirst.text_eq.trans hText₁
  rw [Cursor.pos_advance, Nat.min_eq_left hWithin] at hEnd''
  refine ⟨key, hKey, ?_, m.inText t, d.inText t, found, ?_, ?_, ?_⟩
  · rwa [hStart, Cursor.prefix_rest_iff_before hBroken hText hEnd'']
  · rw [hStart, Cursor.advance_inText t hWithin]
    exact hKeyword.before hBroken _ _ _ hText₁ hTable hEnd'
  · exact hQualified.before hBroken _ _ _ hText₂ hName hEnd
  · exact hParenthesis.before hBroken _ _ _ (hSecond.text_eq.trans hText₂) hOpen hBefore

/-- Behind the break a table goes on with the same items and ends alike, whatever the items before
are. -/
theorem Step.ReadsOn.behind {items items' : List Item} {c d : Cursor} {y : Statement}
    (hReads : x.ReadsOn table items c) (hReads' : x'.ReadsOn table items' (c.inText t))
    (hText : c.text = s) (hBehind : n < c.pos)
    (hRead : statement? Rulebook.standard x.start = .ok (some y) d) :
    ∃ home later parameters, y = tableOf table home (items ++ later) parameters ∧
      statement? Rulebook.standard x'.start =
        .ok (some (tableOf table home (items' ++ later) parameters)) (d.inText t) := by
  obtain ⟨later, last, home, parameters, hLater, rfl, hEnds⟩ := hReads.exists_later hRead
  have hItems : Composed Rulebook.standard (many (item? Rulebook.standard)) := .many composed_item?
  have hReach := hItems.reaches_of_ok hLater
  have hLater' := hItems.behind hBroken hText hBehind
  have hEnd : Composed Rulebook.standard (tableEnd Rulebook.standard table (items' ++ later)) :=
    composed_tableEnd table _
  have hEnd' := hEnd.behind hBroken (hReach.text_eq.trans hText) (hBehind.trans_le hReach.pos_le)
  rw [hLater] at hLater'
  rw [hEnds] at hEnd'
  rw [Step.ReadsOn] at hReads'
  refine ⟨home, later, parameters, rfl, ?_⟩
  -- the items behind and the end of the table are read in the other text as well
  rw [hReads', bind_of_ok hLater', bind_of_ok hEnd']
  rfl

end

end SchemaScript
