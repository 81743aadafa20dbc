import SchemaScript.Proofs.Cursor.Names
import SchemaScript.Proofs.Parameters.Mapping
import SchemaScript.Proofs.Script.Step
import SchemaScript.Proofs.Statement.WellFormed
import SchemaScript.Proofs.Text.Normal

/-!
# What the grammar yields

`Yields p r` says that whatever the reader `r` takes of a normalized text has the property `p`. The
text that is left is normalized too, so that sequences, choices and repetitions are settled by their
parts.

From the parts that take something (words, numbers and free text) up to whole statements, each
reader of the grammar yields what is well-formed (`yields_statement?`).
-/

namespace SchemaScript

open Text Reader

/-- What is ahead of a cursor that moved on has no wider gaps than before. -/
theorem Cursor.Reaches.spaced {c d : Cursor} (hReach : c.Reaches d) (hSpaced : Spaced c.rest) :
    Spaced d.rest := by
  obtain ⟨taken, hRest, -⟩ := hReach
  rw [hRest] at hSpaced
  exact hSpaced.of_append_right

namespace Grammar

variable {α β : Type} {book : Rulebook}

/-- Whether what a reader takes of a normalized text has a property, and a normalized text is left.
-/
def Yields (p : α → Prop) (r : Reader α) : Prop :=
  ∀ c x d, Spaced c.rest → r c = .ok x d → p x ∧ Spaced d.rest

/-! ## Sequences, choices and repetitions -/

section

variable {p : α → Prop} {q : β → Prop}

/-- What the grammar composes leaves a normalized text behind. -/
theorem Composed.yields {r : Reader α} (hComposed : Composed book r)
    (hTaken : ∀ c x d, Spaced c.rest → r c = .ok x d → p x) : Yields p r := by
  intro c x d hSpaced hRead
  exact ⟨hTaken c x d hSpaced hRead, (hComposed.reaches_of_ok hRead).spaced hSpaced⟩

/-- A part of the grammar whose result does not matter. -/
theorem Composed.passes {r : Reader α} (hComposed : Composed book r) :
    Yields (fun _ => True) r :=
  hComposed.yields fun _ _ _ _ _ => trivial

theorem Yields.pure {x : α} (hValue : p x) : Yields p (pure x : Reader α) := by
  intro c y d hSpaced hRead
  cases hRead
  exact ⟨hValue, hSpaced⟩

theorem Yields.fail (expected : Expectation) : Yields p (Reader.fail expected : Reader α) := by
  intro c x d _ hRead
  cases hRead

/-- In a sequence, the second reader may use what the first one yields. -/
theorem Yields.bind {r : Reader α} {f : α → Reader β} (hFirst : Yields p r)
    (hThen : ∀ x, p x → Yields q (f x)) : Yields q (r >>= f) := by
  intro c y d hSpaced hRead
  obtain ⟨x, m, hBegin, hRest⟩ := bind_eq_ok_iff.mp hRead
  obtain ⟨hValue, hLeft⟩ := hFirst c x m hSpaced hBegin
  exact hThen x hValue m y d hLeft hRest

/-- What is made of a result is settled by the result. -/
theorem Yields.map {r : Reader α} {f : α → β} (hRead : Yields p r) (hValue : ∀ x, p x → q (f x)) :
    Yields q (do return f (← r)) :=
  hRead.bind fun x hTaken => .pure (hValue x hTaken)

/-- Behind a part whose result does not matter. -/
theorem Yields.behind {r : Reader α} {s : α → Reader β} (hComposed : Composed book r)
    (hThen : ∀ x, Yields q (s x)) : Yields q (r >>= s) :=
  hComposed.passes.bind fun x _ => hThen x

/-- Both branches of a choice have to yield it, and the probe only has to leave a normalized text.
-/
theorem Yields.choice {probe : Reader Bool} {r s : Reader α} (hProbe : Composed book probe)
    (hThen : Yields p r) (hElse : Yields p s) : Yields p (do if ← probe then r else s) := by
  refine .behind hProbe fun found => ?_
  cases found with
  | true => exact hThen
  | false => exact hElse

/-- What is repeated is settled by one item. -/
theorem Yields.many {item : Reader (Option α)} (hItem : Yields (fun o => ∀ x ∈ o, p x) item) :
    Yields (fun xs => ∀ x ∈ xs, p x) (Reader.many item) := by
  intro c xs d hSpaced hRead
  -- on the items that moved the cursor: each of them leaves a normalized text for the next one
  induction c using many_induction item generalizing xs with
  | again c ih =>
    cases hFirst : item c with
    | error e m =>
      rw [many_of_error hFirst] at hRead
      cases hRead
    | ok found m =>
      obtain ⟨hValue, hLeft⟩ := hItem c found m hSpaced hFirst
      cases found with
      | none =>
        rw [many_of_none hFirst] at hRead
        cases hRead
        exact ⟨by simp, hLeft⟩
      | some x =>
        have hHere : p x := hValue x rfl
        by_cases hMoved : m.rest.length < c.rest.length
        · rw [many_of_some hFirst hMoved] at hRead
          obtain ⟨later, hLater, rfl⟩ := map_eq_ok_iff.mp hRead
          obtain ⟨hAll, hEnd⟩ := ih x m hFirst hMoved later hLeft hLater
          exact ⟨by simpa using ⟨hHere, hAll⟩, hEnd⟩
        · rw [many_of_stuck hFirst hMoved] at hRead
          cases hRead
          exact ⟨by simpa using hHere, hLeft⟩

end

/-! ## Words and numbers -/

theorem isName_of_identifier {c d : Cursor} {t : Text} (hRead : identifier c = .ok t d) :
    IsName t := by
  rw [identifier_apply] at hRead
  split at hRead
  · cases hRead
  · next hSome =>
    cases hRead
    exact isName_word hSome

/-- Identifiers are names. -/
theorem yields_identifier : Yields IsName identifier :=
  (.identifier : Composed Rulebook.standard _).yields fun _ _ _ _ => isName_of_identifier

/-- The name and the scope of a qualified name are words that were read. -/
theorem proper_of_qualifiedName {c d : Cursor} {q : QualifiedName}
    (hRead : qualifiedName c = .ok q d) : q.Proper :=
  (nameBetween_of_ok hRead).proper

/-- Qualified names are proper. -/
theorem yields_qualifiedName : Yields QualifiedName.Proper qualifiedName :=
  (.qualifiedName : Composed Rulebook.standard _).yields fun _ _ _ _ => proper_of_qualifiedName

theorem yields_qualifiedName? : Yields (fun o => ∀ q ∈ o, q.Proper) qualifiedName? := by
  refine (.qualifiedName? : Composed Rulebook.standard _).yields fun c o d _ hRead => ?_
  rw [qualifiedName?_apply] at hRead
  split at hRead
  · obtain ⟨q, hName, rfl⟩ := map_eq_ok_iff.mp hRead
    rintro q' ⟨⟩
    exact proper_of_qualifiedName hName
  · cases hRead
    simp

/-- The digits at the start of a text are written as digits, if there are some. -/
theorem isDigits_takeWhile {t : Text} (hSome : t.takeWhile isDecimal ≠ []) :
    Written.IsDigits (t.takeWhile isDecimal) :=
  ⟨hSome, fun x hMem => List.all_eq_true.mp List.all_takeWhile x hMem⟩

/-- The number at the start of a text is written as one. -/
theorem exists_decimal {t : Text} (hSome : Text.number t ≠ []) :
    ∃ n : Written.Decimal, n.Proper ∧ Text.number t = n.write := by
  unfold Text.number at hSome ⊢
  dsimp only at hSome ⊢
  -- a point counts only between digits
  split at hSome
  · next rest hPoint =>
    split at hSome
    · next hWhole =>
      exact ⟨⟨t.takeWhile isDecimal, none⟩, ⟨isDigits_takeWhile hSome, by simp⟩, if_pos hWhole⟩
    · next hBoth =>
      have hPlaces := not_or.mp hBoth
      refine ⟨⟨t.takeWhile isDecimal, some (rest.takeWhile isDecimal)⟩,
        ⟨isDigits_takeWhile hPlaces.1, ?_⟩, if_neg hBoth⟩
      rintro places ⟨⟩
      exact isDigits_takeWhile hPlaces.2
  · exact ⟨⟨t.takeWhile isDecimal, none⟩, ⟨isDigits_takeWhile hSome, by simp⟩, rfl⟩

/-- Numbers are decimal numbers as they are written. -/
theorem yields_number :
    Yields (fun t => ∃ n : Written.Decimal, n.Proper ∧ t = n.write) Reader.number := by
  refine (.number : Composed Rulebook.standard _).yields fun c t d _ hRead => ?_
  rw [number_apply] at hRead
  split at hRead
  · cases hRead
  · next hSome =>
    cases hRead
    exact exists_decimal hSome

/-! ## Free text -/

/-- What was found up to a delimiter is trimmed, and the delimiter is not in it. -/
theorem clean_of_takeUntil? {c d : Cursor} {delimiter : Char} {inclusive : Bool} {t : Text}
    (hDelimiter : delimiter ≠ ' ') (hSpaced : Spaced c.rest)
    (hFound : c.takeUntil? [delimiter] inclusive = some (t, d)) : CleanUpTo delimiter t := by
  unfold Cursor.takeUntil? at hFound
  obtain ⟨found, hBefore, hTrim⟩ := Option.map_eq_some_iff.mp hFound
  obtain ⟨rfl, -⟩ := Prod.mk.inj hTrim
  obtain ⟨hFirst, rest, hRest⟩ := before?_singleton_eq_some_iff.mp hBefore
  have hPrefix : found <+: c.rest := ⟨delimiter :: rest, hRest.symm⟩
  refine ⟨clean_trim (hSpaced.of_infix hPrefix.isInfix), fun hMem => ?_⟩
  -- trimming brings in nothing but spaces
  exact (mem_trim hMem).elim hDelimiter hFirst

/-- Free text is clean up to its delimiter. -/
theorem yields_takeUntil {delimiter : Char} (inclusive : Bool)
    (hDelimiter : delimiters.contains delimiter = true) :
    Yields (CleanUpTo delimiter) (takeUntil [delimiter] inclusive) := by
  have hSpace : delimiter ≠ ' ' :=
    ne_of_mem_of_not_mem (List.contains_iff_mem.mp hDelimiter) (by decide)
  refine (.takeUntil inclusive hDelimiter : Composed Rulebook.standard _).yields
    fun c t d hSpaced hRead => ?_
  rw [takeUntil_apply] at hRead
  split at hRead
  · next hFound =>
    cases hRead
    exact clean_of_takeUntil? hSpace hSpaced hFound
  · cases hRead

/-- A text in parentheses is clean and holds no closing parenthesis. -/
theorem yields_inParentheses : Yields (CleanUpTo ')') inParentheses :=
  .behind (.expect rfl : Composed Rulebook.standard _) fun _ =>
    (yields_takeUntil false rfl).bind fun _ hContent =>
      .behind (.expect rfl : Composed Rulebook.standard _) fun _ => .pure hContent

/-- A quoted literal is clean and holds no single quote. -/
theorem yields_quotedLiteral? :
    Yields (fun o => ∀ t ∈ o, CleanUpTo '\'' t) quotedLiteral? := by
  refine .choice (.accept rfl : Composed Rulebook.standard _) ?_ (.pure (by simp))
  refine (yields_takeUntil false rfl).bind fun t hContent => ?_
  refine .behind (.expect rfl : Composed Rulebook.standard _) fun _ => .pure ?_
  rintro t' ⟨⟩
  exact hContent

theorem not_mem_withoutSpaces (t : Text) : ' ' ∉ withoutSpaces t := by
  simp [withoutSpaces]

/-- A clean text stays clean without its spaces, since none of them stands at an end. -/
theorem clean_withoutSpaces {t : Text} (hClean : Clean t) : Clean (withoutSpaces t) := by
  have hMem : ∀ x, x ∈ withoutSpaces t → x ∈ t := fun x hMem => (List.mem_filter.mp hMem).1
  have hKept : ∀ x, isBlank x = false → (x != ' ') = true := by
    intro x hBlank
    have hSpace : x ≠ ' ' := by
      rintro rfl
      exact absurd hBlank (by decide)
    simpa using hSpace
  refine { noReturn := ?_, noTab := ?_, single := ?_, noBreak := ?_, first := ?_, last := ?_ }
  · exact fun hReturn => hClean.noReturn (hMem _ hReturn)
  · exact fun hTab => hClean.noTab (hMem _ hTab)
  · -- no spaces are left, so no two of them stand side by side
    refine List.Pairwise.isChain (List.pairwise_of_forall_mem_list fun x hFirst y _ => Or.inl ?_)
    rintro rfl
    exact not_mem_withoutSpaces t hFirst
  · exact fun hBreak => hClean.noBreak (hMem _ hBreak)
  · intro x hHead
    cases t with
    | nil => cases hHead
    | cons c t =>
      have hFirst := hClean.first c rfl
      rw [withoutSpaces, List.filter_cons, if_pos (hKept c hFirst)] at hHead
      cases hHead
      exact hFirst
  · intro x hLast
    -- the last character is no blank, so it is kept
    rcases List.eq_nil_or_concat t with rfl | ⟨before, last, rfl⟩
    · cases hLast
    · have hEnd := hClean.last last (by simp)
      have hKeptLast : [last].filter (· != ' ') = [last] := by
        rw [List.filter_cons, if_pos (hKept last hEnd)]
        rfl
      rw [List.concat_eq_append, withoutSpaces, List.filter_append, hKeptLast,
        List.getLast?_concat] at hLast
      cases hLast
      exact hEnd

/-- The fields of a foreign key are kept without spaces, which leaves them clean and free of the
closing parenthesis. -/
theorem cleanUpTo_withoutSpaces {t : Text} (hFields : CleanUpTo ')' t) :
    CleanUpTo ')' (withoutSpaces t) :=
  ⟨clean_withoutSpaces hFields.1, fun hMem => hFields.2 (List.mem_filter.mp hMem).1⟩

/-! ## Constraints -/

theorem entries_primaryKey (fields : Text) :
    (Parameters.empty.insert "PRIMARY_KEY" fields).entries = [(("PRIMARY_KEY" : Text), fields)] :=
  rfl

/-- What a foreign key sets itself is there, whatever the rules have decoded. -/
theorem hasFields_foreignKey {keys references : Text} (p : Parameters) (hKeys : CleanUpTo ')' keys)
    (hReferences : CleanUpTo ')' references) :
    let set := (p.insert "KEYS" (withoutSpaces keys)).insert "REFERENCES" (withoutSpaces references)
    set.HasFields "KEYS" ∧ set.HasFields "REFERENCES" := by
  have hOther : ("KEYS" : Text) ≠ "REFERENCES" := by decide
  refine ⟨⟨withoutSpaces keys, ?_, cleanUpTo_withoutSpaces hKeys, not_mem_withoutSpaces keys⟩,
    ⟨withoutSpaces references, ?_, cleanUpTo_withoutSpaces hReferences,
      not_mem_withoutSpaces references⟩⟩
  · -- the keys are set first, and what is set behind them has another key
    rw [Parameters.get?_insert, if_neg hOther, Parameters.get?_insert, if_pos rfl]
  · rw [Parameters.get?_insert, if_pos rfl]

/-- A foreign key is well-formed whatever its parameters are. -/
theorem yields_foreignKey {name : QualifiedName} (hName : name.Proper) :
    Yields Constraint.WellFormed (foreignKey book name) := by
  refine yields_inParentheses.bind fun keys hKeys => ?_
  refine .behind (.expect rfl : Composed book _) fun _ => ?_
  refine yields_qualifiedName.bind fun table hTable => ?_
  refine yields_inParentheses.bind fun references hReferences => ?_
  refine .behind (.parameters .foreignKey : Composed book _) fun p => .pure ?_
  exact ⟨hName, hTable, hasFields_foreignKey p hKeys hReferences⟩

/-- Constraints of each kind are well-formed if their names are proper. -/
theorem yields_constraintKind {name : QualifiedName} (hName : name.Proper) :
    Yields Constraint.WellFormed (constraintKind book name) := by
  refine .choice (.keyword rfl : Composed book _) ?primary
    (.choice (.keyword rfl : Composed book _) (yields_foreignKey hName)
      (.choice (.keyword rfl : Composed book _) ?check (.fail _)))
  case primary =>
    exact yields_inParentheses.map fun fields hFields =>
      ⟨hName, fields, entries_primaryKey fields, hFields⟩
  case check => exact yields_inParentheses.map fun rule hRule => ⟨hName, hRule⟩

/-- Where a constraint is there, it is well-formed. -/
theorem yields_constraint? :
    Yields (fun o => ∀ c ∈ o, c.WellFormed) (constraint? book) := by
  refine .choice (.keyword rfl : Composed book _) ?_ (.pure (by simp))
  refine yields_qualifiedName.bind fun name hName => ?_
  refine (yields_constraintKind hName).map fun c hConstraint => ?_
  rintro c' ⟨⟩
  exact hConstraint

/-! ## Fields and tables -/

/-- The size of a type is one number, or two of them. -/
theorem yields_size :
    Yields (fun t => ∃ s : Written.Size, s.Proper ∧ t = s.write) size := by
  refine yields_number.bind fun t hFirst => ?_
  obtain ⟨n, hProper, rfl⟩ := hFirst
  refine .choice (.accept rfl : Composed Rulebook.standard _) ?_ (.pure ⟨.single n, hProper, rfl⟩)
  refine yields_number.map fun t hSecond => ?_
  obtain ⟨m, hProper', rfl⟩ := hSecond
  exact ⟨.double n m, ⟨hProper, hProper'⟩, rfl⟩

/-- The type of a field is a name with a size or without one. -/
theorem yields_fieldType :
    Yields (fun t => ∃ type : Written.FieldType, type.Proper ∧ t = type.write) fieldType := by
  refine yields_identifier.bind fun name hName => ?_
  refine .choice (.accept rfl : Composed Rulebook.standard _) ?_
    (.pure ⟨⟨name, none⟩, ⟨hName, by simp⟩, rfl⟩)
  refine yields_size.bind fun t hSize => ?_
  obtain ⟨s, hProper, rfl⟩ := hSize
  refine .behind (.expect rfl : Composed Rulebook.standard _) fun _ => .pure ?_
  refine ⟨⟨name, some s⟩, ⟨hName, ?_⟩, rfl⟩
  rintro s' ⟨⟩
  exact hProper

/-- Whether an attribute of a field is well-formed. -/
def Attribute.WellFormed : Attribute → Prop
  | constraint c => c.WellFormed
  | parameter key value => IsFieldParameter key value

theorem cleanUpTo_true : CleanUpTo '\'' "True" := by decide

/-- Attributes are well-formed constraints, or parameters of one of three forms. -/
theorem yields_attribute? :
    Yields (fun o => ∀ a ∈ o, a.WellFormed) (attribute? book) := by
  refine yields_constraint?.bind fun found hConstraint => ?_
  cases found with
  | some c =>
    refine .pure ?_
    rintro a ⟨⟩
    exact hConstraint c rfl
  | none =>
    -- each literal settles the form, and without any there is no attribute
    refine .choice (.accept rfl : Composed book _) ?notNull
      (.choice (.accept rfl : Composed book _) ?forData
        (.choice (.accept rfl : Composed book _) ?default (.pure (by simp))))
    case notNull =>
      refine .pure ?_
      rintro a ⟨⟩
      exact .notNull
    case forData =>
      refine yields_identifier.bind fun kind hKind => ?_
      refine .behind (.expect rfl : Composed book _) fun _ => .pure ?_
      rintro a ⟨⟩
      exact .forData hKind
    case default =>
      refine yields_quotedLiteral?.map fun literal? hLiteral => ?_
      rintro a ⟨⟩
      cases literal? with
      | none => exact .default cleanUpTo_true
      | some literal => exact .default (hLiteral literal rfl)

/-- A field is well-formed if its pieces are. Its parameters are those of its attributes, where a
later one takes the place of an earlier one with the same key. -/
theorem Field.wellFormed_fieldOf {name : QualifiedName} {type : Text} {attributes : List Attribute}
    (hName : name.Proper) (hType : ∃ t : Written.FieldType, t.Proper ∧ type = t.write)
    (hAttributes : ∀ a ∈ attributes, a.WellFormed) : (fieldOf name type attributes).WellFormed where
  name := hName
  type := hType
  parameters := by
    intro entry hMem
    -- each entry of the mapping was set by one of the attributes
    obtain ⟨a, hAttribute, hParameter⟩ :=
      List.mem_filterMap.mp (Parameters.mem_of_mem_ofList hMem)
    have hWellFormed := hAttributes a hAttribute
    cases a with
    | constraint c => cases hParameter
    | parameter key value =>
      cases hParameter
      exact hWellFormed
  constraints := by
    intro c hMem
    obtain ⟨a, hAttribute, hConstraint⟩ := List.mem_filterMap.mp hMem
    have hWellFormed := hAttributes a hAttribute
    cases a with
    | constraint c' =>
      cases hConstraint
      exact hWellFormed
    | parameter key value => cases hConstraint

theorem yields_field? : Yields (fun o => ∀ x ∈ o, x.WellFormed) (field? book) := by
  refine yields_qualifiedName?.bind fun found hName => ?_
  cases found with
  | none => exact .pure (by simp)
  | some name =>
    refine yields_fieldType.bind fun type hType => ?_
    refine (Yields.many yields_attribute?).map fun attributes hAttributes => ?_
    rintro x ⟨⟩
    exact Field.wellFormed_fieldOf (hName name rfl) hType hAttributes

/-- Whether an item of a table is well-formed. -/
def Item.WellFormed : Item → Prop
  | constraint c => c.WellFormed
  | field x => x.WellFormed

theorem yields_item? : Yields (fun o => ∀ i ∈ o, i.WellFormed) (item? book) := by
  have hEither : Yields (fun o => ∀ i ∈ o, Item.WellFormed i) (constraintOrField? book) := by
    refine yields_constraint?.bind fun found hConstraint => ?_
    cases found with
    | some c =>
      refine .pure ?_
      rintro i ⟨⟩
      exact hConstraint c rfl
    | none =>
      refine yields_field?.map fun found hField => ?_
      cases found with
      | none => simp
      | some x =>
        rintro i ⟨⟩
        exact hField x rfl
  refine hEither.bind fun found hItem => ?_
  cases found with
  | none => exact .pure (by simp)
  | some item => exact .behind (.accept rfl : Composed book _) fun _ => .pure hItem

/-- A table is well-formed, since its items are and since they are only told apart into fields and
constraints. -/
theorem yields_table : Yields Statement.WellFormed (table book) := by
  refine yields_qualifiedName.bind fun name hName => ?_
  refine .behind (.expect rfl : Composed book _) fun _ => ?_
  refine (Yields.many yields_item?).bind fun items hItems => ?_
  refine .behind (.expect rfl : Composed book _) fun _ => ?_
  refine .behind (.expect rfl : Composed book _) fun _ => ?_
  refine yields_qualifiedName.bind fun home hHome => ?_
  refine .behind (.parameters .table : Composed book _) fun p => .pure ?_
  -- the fields and the constraints are the two sorts of items
  refine ⟨hName, hHome, fun x hMem => ?_, fun c hMem => ?_⟩
  · obtain ⟨item, hItem, hField⟩ := List.mem_filterMap.mp hMem
    cases item with
    | constraint c => cases hField
    | field x' =>
      cases hField
      exact hItems _ hItem
  · obtain ⟨item, hItem, hConstraint⟩ := List.mem_filterMap.mp hMem
    cases item with
    | constraint c' =>
      cases hConstraint
      exact hItems _ hItem
    | field x => cases hConstraint

/-! ## Statements -/

/-- An index is well-formed: whether it is unique is set behind the parameters, which cannot change
it. -/
theorem yields_index (unique : Bool) : Yields Statement.WellFormed (index book unique) := by
  refine yields_qualifiedName.bind fun name hName => ?_
  refine .behind (.expect rfl : Composed book _) fun _ => ?_
  refine yields_qualifiedName.bind fun target hTarget => ?_
  refine yields_inParentheses.bind fun fields hFields => ?_
  refine .behind (.parameters .index : Composed book _) fun p => .pure ?_
  refine ⟨hName, hTarget, hFields, ?_⟩
  -- the parameter is set last
  rw [Parameters.get?_insert, if_pos rfl]
  cases unique with
  | true => exact Or.inl rfl
  | false => exact Or.inr rfl

/-- Whatever is created is well-formed. -/
theorem yields_creation : Yields Statement.WellFormed (creation book) := by
  have hDatabase : Yields Statement.WellFormed (database book) :=
    yields_qualifiedName.bind fun name hName =>
      .behind (.parameters .database : Composed book _) fun p => .pure hName
  have hTablespace : Yields Statement.WellFormed (tablespace book) :=
    yields_qualifiedName.bind fun name hName =>
      .behind (.expect rfl : Composed book _) fun _ =>
        yields_qualifiedName.bind fun home hHome =>
          .behind (.parameters .tablespace : Composed book _) fun p => .pure ⟨hName, hHome⟩
  have hView : Yields Statement.WellFormed view :=
    yields_qualifiedName.bind fun name hName =>
      .behind (.expect rfl : Composed book _) fun _ =>
        (yields_takeUntil true rfl).map fun definition hDefinition => ⟨hName, hDefinition⟩
  -- in the order in which the keywords are tried
  exact .choice (.keyword rfl : Composed book _) hDatabase
    (.choice (.keyword rfl : Composed book _) hTablespace
      (.choice (.keyword rfl : Composed book _) yields_table
        (.choice (.keyword rfl : Composed book _)
          (.choice (.keyword rfl : Composed book _) (yields_index true) (.fail _))
          (.choice (.keyword rfl : Composed book _) (yields_index false)
            (.choice (.keyword rfl : Composed book _) hView (.fail _))))))

/-- An alteration adds a well-formed constraint. -/
theorem yields_alteration : Yields Statement.WellFormed (alteration book) := by
  refine .choice (.keyword rfl : Composed book _) ?_ (.fail _)
  refine yields_qualifiedName.bind fun target hTarget => ?_
  refine .choice (.keyword rfl : Composed book _) ?_ (.fail _)
  refine yields_constraint?.bind fun found hConstraint => ?_
  cases found with
  | none => exact .fail _
  | some c =>
    exact .behind (.accept rfl : Composed book _) fun _ => .pure ⟨hTarget, hConstraint c rfl⟩

/-- The name and the value of a setting are clean up to their delimiters. -/
theorem yields_setting : Yields Statement.WellFormed setting :=
  (yields_takeUntil false rfl).bind fun _ hParameter =>
    .behind (.expect rfl : Composed Rulebook.standard _) fun _ =>
      (yields_takeUntil true rfl).map fun _ hValue => ⟨hParameter, hValue⟩

theorem yields_directive? : Yields (fun o => ∀ s ∈ o, s.WellFormed) (directive? book) := by
  have hSome : ∀ s : Statement, s.WellFormed → ∀ s' ∈ some s, s'.WellFormed := by
    rintro s hWellFormed s' ⟨⟩
    exact hWellFormed
  exact .choice (.keyword rfl : Composed book _) (yields_creation.map hSome)
    (.choice (.keyword rfl : Composed book _) (yields_alteration.map hSome)
      (.choice (.keyword rfl : Composed book _) (yields_setting.map hSome) (.pure (by simp))))

/-- The body of a comment is the trimmed rest of its line. -/
theorem clean_comment {c : Cursor} (hSpaced : Spaced c.rest) :
    Clean (c.takeUntilOrRest "\n" false).1 := by
  unfold Cursor.takeUntilOrRest Cursor.takeUntil?
  -- a comment goes up to the line feed, or up to the end of the text
  cases hFound : before? "\n" c.rest with
  | none => exact clean_trim hSpaced
  | some found =>
    obtain ⟨⟨rest, hRest⟩, -⟩ := before?_eq_some_iff.mp hFound
    rw [List.append_assoc] at hRest
    have hPrefix : found <+: c.rest := ⟨_, hRest.symm⟩
    exact clean_trim (hSpaced.of_infix hPrefix.isInfix)

/-- Whatever statement is read of a normalized text is well-formed. -/
theorem wellFormed_of_statement? {c d : Cursor} {s : Statement} (hSpaced : Spaced c.rest)
    (hRead : statement? book c = .ok (some s) d) : s.WellFormed := by
  -- a comment is apart, since it is not composed of the parts of the grammar
  rcases statement?_cases book c with ⟨m, hProbe, hComment⟩ | ⟨-, hDirective⟩
  · rw [hComment] at hRead
    cases hRead
    have hReach := (.accept rfl : Composed book (Reader.accept "--")).reaches_of_ok hProbe
    exact clean_comment (hReach.spaced hSpaced)
  · rw [hDirective] at hRead
    have hBehind := (Cursor.reaches_skipBlanks c).spaced hSpaced
    exact (yields_directive? c.skipBlanks _ d hBehind hRead).1 s rfl

end Grammar

end SchemaScript
