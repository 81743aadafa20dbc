import SchemaScript.Proofs.Cursor.Reading
import SchemaScript.Proofs.Parameters.Rulebook
import SchemaScript.Proofs.Statement.FixedPart
import SchemaScript.Grammar.Statement

/-!
# The grammar under other rules

`Alike part r s` says that two readers do the same but for what `part` leaves out of the values that
they take: both take something and move on to the same place, or both stop at the same place for
the same reason.

The rules for parameters say where parameters end and what they stand for. Two rulebooks that agree
on the first (`Rulebook.EndAlike`) make the grammar alike up to the fixed parts of what it reads, by
the parts of the grammar (`alike_statement?`): what was decoded is stored and never asked for again.
-/

namespace SchemaScript

open Reader

/-- Whether two rulebooks end parameters at the same texts, and both of them separate keys from
values by something. -/
structure Rulebook.EndAlike (book book' : Rulebook) : Prop where
  terminator : ∀ construct, (book construct).terminator = (book' construct).terminator
  separator : ∀ construct, (book construct).separator ≠ []
  separator' : ∀ construct, (book' construct).separator ≠ []

/-- With a separator, whatever is written stands for some parameters. -/
theorem Parameters.exists_decode {rules : Rules} (hSeparator : rules.separator ≠ [])
    (written : Text) : ∃ p, decode rules written = .ok p := by
  cases hDecode : decode rules written with
  | ok p => exact ⟨p, rfl⟩
  | error e => exact absurd (decode_eq_error_iff.mp hDecode).1 hSeparator

namespace Grammar

variable {α β γ δ : Type}

/-- Whether two results are the same but for what is left out of the value. -/
inductive Likewise (part : α → β) :
    EStateM.Result Halt Cursor α → EStateM.Result Halt Cursor α → Prop
  | ok {x y : α} {d : Cursor} (hPart : part x = part y) : Likewise part (.ok x d) (.ok y d)
  | error (e : Halt) (d : Cursor) : Likewise part (.error e d) (.error e d)

/-- Where one of two like results is a value, the other one is a value at the same place. -/
theorem Likewise.exists_ok {part : α → β} {x : α} {d : Cursor}
    {result : EStateM.Result Halt Cursor α} (hSame : Likewise part (.ok x d) result) :
    ∃ y, result = .ok y d ∧ part x = part y := by
  cases hSame with
  | ok hPart => exact ⟨_, rfl, hPart⟩

/-- Where one of two like results is a failure, the other one is the same failure. -/
theorem Likewise.eq_error {part : α → β} {e : Halt} {d : Cursor}
    {result : EStateM.Result Halt Cursor α} (hSame : Likewise part (.error e d) result) :
    result = .error e d := by
  cases hSame with
  | error => rfl

/-- Whether two readers do the same but for what is left out of the values. -/
def Alike (part : α → β) (r s : Reader α) : Prop := ∀ c, Likewise part (r c) (s c)

/-! ## Sequences, choices and repetitions -/

section

variable {p : α → β} {q : γ → δ}

/-- A reader is like itself, whatever is left out. -/
theorem Alike.refl (p : α → β) (r : Reader α) : Alike p r r := by
  intro c
  cases r c with
  | ok x d => exact .ok rfl
  | error e d => exact .error e d

theorem Alike.pure {x y : α} (hPart : p x = p y) :
    Alike p (Pure.pure x : Reader α) (Pure.pure y) :=
  fun _ => .ok hPart

/-- Sequences are alike if their first readers are, and if the second ones are for any two values
that those may give. -/
theorem Alike.bind {r s : Reader α} {f g : α → Reader γ} (hFirst : Alike p r s)
    (hThen : ∀ x y, p x = p y → Alike q (f x) (g y)) : Alike q (r >>= f) (s >>= g) := by
  intro c
  have hHere := hFirst c
  -- on the places that the first readers come to, which are the same
  cases hRead : r c with
  | ok x d =>
    rw [hRead] at hHere
    obtain ⟨y, hRead', hPart⟩ := hHere.exists_ok
    rw [bind_of_ok hRead, bind_of_ok hRead']
    exact hThen x y hPart d
  | error e d =>
    rw [hRead] at hHere
    rw [bind_of_error hRead, bind_of_error hHere.eq_error]
    exact .error e d

/-- Behind a part that is the same in both. -/
theorem Alike.behind (r : Reader α) {f g : α → Reader γ} (hThen : ∀ x, Alike q (f x) (g x)) :
    Alike q (r >>= f) (r >>= g) := by
  refine (Alike.refl id r).bind fun x y hSame => ?_
  obtain rfl : x = y := hSame
  exact hThen x

/-- What is made of like values has to agree in what is not left out. -/
theorem Alike.map {r s : Reader α} {f g : α → γ} (hRead : Alike p r s)
    (hPart : ∀ x y, p x = p y → q (f x) = q (g y)) :
    Alike q (do return f (← r)) (do return g (← s)) :=
  hRead.bind fun x y hSame => .pure (hPart x y hSame)

/-- Choices are alike if they have the same probe and like branches. -/
theorem Alike.choice (probe : Reader Bool) {r r' s s' : Reader α} (hThen : Alike p r r')
    (hElse : Alike p s s') :
    Alike p (do if ← probe then r else s) (do if ← probe then r' else s') := by
  refine .behind probe fun found => ?_
  cases found with
  | true => exact hThen
  | false => exact hElse

/-- Behind something that was found by both, or by neither. -/
theorem Alike.option {r s : Reader (Option α)} {f g : Option α → Reader γ}
    (hFirst : Alike (Option.map p) r s) (hNone : Alike q (f none) (g none))
    (hSome : ∀ x y, p x = p y → Alike q (f (some x)) (g (some y))) :
    Alike q (r >>= f) (s >>= g) := by
  refine hFirst.bind fun o o' hSame => ?_
  cases o with
  | none =>
    cases o' with
    | none => exact hNone
    | some y => cases hSame
  | some x =>
    cases o' with
    | none => cases hSame
    | some y => exact hSome x y (Option.some.inj hSame)

/-- Repetitions of like items give as many items, each like the other. -/
theorem Alike.many {item item' : Reader (Option α)} (hItem : Alike (Option.map p) item item') :
    Alike (List.map p) (Reader.many item) (Reader.many item') := by
  intro c
  -- along the items of one of the two, each of which the other one finds too
  induction c using many_induction item with
  | again c ih =>
    have hHere := hItem c
    cases hRead : item c with
    | error e d =>
      rw [hRead] at hHere
      rw [many_of_error hRead, many_of_error hHere.eq_error]
      exact .error e d
    | ok found d =>
      rw [hRead] at hHere
      obtain ⟨found', hRead', hSame⟩ := hHere.exists_ok
      cases found with
      | none =>
        obtain rfl : found' = none := by simpa using hSame.symm
        rw [many_of_none hRead, many_of_none hRead']
        exact .ok rfl
      | some x =>
        obtain ⟨y, rfl, hPart⟩ : ∃ y, found' = some y ∧ p y = p x := by simpa using hSame.symm
        by_cases hMoved : d.rest.length < c.rest.length
        · rw [many_of_some hRead hMoved, many_of_some hRead' hMoved]
          -- what is found later is put behind what was found here
          have hLater : Alike (List.map p) (fun _ => Reader.many item d)
              (fun _ => Reader.many item' d) := fun _ => ih x d hRead hMoved
          exact (hLater.map fun xs ys hSame => by simp [hPart, hSame]) d
        · rw [many_of_stuck hRead hMoved, many_of_stuck hRead' hMoved]
          exact .ok (by simp [hPart])

end

/-! ## The parts of the grammar -/

section

variable {book book' : Rulebook} (hEnd : book.EndAlike book')
include hEnd

/-- Parameters end at the same place under both rulebooks. -/
theorem alike_parameters (construct : Construct) :
    Alike (fun _ => ()) (Reader.parameters (book construct))
      (Reader.parameters (book' construct)) := by
  intro c
  rw [parameters_apply, parameters_apply, hEnd.terminator construct]
  cases c.takeUntil? (book' construct).terminator true with
  | none => exact .error _ c
  | some found =>
    obtain ⟨written, next⟩ := found
    -- both decode the same text, each in its own way
    obtain ⟨p, hDecode⟩ := Parameters.exists_decode (hEnd.separator construct) written
    obtain ⟨q, hDecode'⟩ := Parameters.exists_decode (hEnd.separator' construct) written
    simp only [hDecode, hDecode']
    exact .ok rfl

/-- A foreign key takes its parameters from the rules, and its own two keys are set behind them. -/
theorem alike_foreignKey (name : QualifiedName) :
    Alike Constraint.fixedPart (foreignKey book name) (foreignKey book' name) := by
  refine .behind inParentheses fun keys => ?_
  refine .behind (Reader.expect "REFERENCES") fun _ => ?_
  refine .behind Reader.qualifiedName fun table => ?_
  refine .behind inParentheses fun references => ?_
  exact (alike_parameters hEnd .foreignKey).map fun p q _ =>
    Constraint.fixedPart_foreignKey name table _ _ p q

/-- Of the kinds of constraints only the foreign key depends on the rules. -/
theorem alike_constraintKind (name : QualifiedName) :
    Alike Constraint.fixedPart (constraintKind book name) (constraintKind book' name) :=
  .choice _ (.refl _ _) (.choice _ (alike_foreignKey hEnd name) (.refl _ _))

/-- Constraints are there under both rulebooks or under none. -/
theorem alike_constraint? :
    Alike (Option.map Constraint.fixedPart) (constraint? book) (constraint? book') := by
  refine .choice _ ?_ (.refl _ _)
  refine .behind Reader.qualifiedName fun name => ?_
  exact (alike_constraintKind hEnd name).map fun x y hSame => congrArg some hSame

/-- Of the attributes only the constraints depend on the rules. -/
theorem alike_attribute? :
    Alike (Option.map Attribute.fixedPart) (attribute? book) (attribute? book') :=
  (alike_constraint? hEnd).option (.refl _ _) fun _ _ hSame =>
    .pure (congrArg (some ∘ Attribute.constraint) hSame)

/-- A field depends on the rules by its attributes alone. -/
theorem alike_field? : Alike (Option.map Field.fixedPart) (field? book) (field? book') := by
  refine .behind Reader.qualifiedName? fun found => ?_
  cases found with
  | none => exact .refl _ _
  | some name =>
    refine .behind fieldType fun type => ?_
    refine (alike_attribute? hEnd).many.map fun xs ys hSame => ?_
    simp only [Option.map_some, fixedPart_fieldOf, hSame]

/-- Whether an item is a constraint or a field does not depend on the rules. -/
theorem alike_constraintOrField? :
    Alike (Option.map Item.fixedPart) (constraintOrField? book) (constraintOrField? book') := by
  refine (alike_constraint? hEnd).option ?_ fun _ _ hSame =>
    .pure (congrArg (some ∘ Item.constraint) hSame)
  refine (alike_field? hEnd).map fun x y hSame => ?_
  -- the fixed part of an item is taken inside of it
  have hField : ∀ o : Option Field,
      (o.map Item.field).map Item.fixedPart = (o.map Field.fixedPart).map Item.field := by
    intro o
    cases o <;> rfl
  rw [hField, hField, hSame]

theorem alike_item? : Alike (Option.map Item.fixedPart) (item? book) (item? book') :=
  (alike_constraintOrField? hEnd).option (.refl _ _) fun _ _ hSame =>
    .behind (Reader.accept ",") fun _ => .pure (congrArg some hSame)

/-! ## Statements -/

theorem alike_database : Alike Statement.fixedPart (database book) (database book') :=
  .behind Reader.qualifiedName fun _ => (alike_parameters hEnd .database).map fun _ _ _ => rfl

theorem alike_tablespace : Alike Statement.fixedPart (tablespace book) (tablespace book') :=
  .behind Reader.qualifiedName fun _ => .behind (Reader.expect "IN") fun _ =>
    .behind Reader.qualifiedName fun _ => (alike_parameters hEnd .tablespace).map fun _ _ _ => rfl

/-- The items of a table are as many and of the same sorts under both rulebooks. -/
theorem alike_table : Alike Statement.fixedPart (table book) (table book') := by
  refine .behind Reader.qualifiedName fun name => ?_
  refine .behind (Reader.expect "(") fun _ => ?_
  refine (alike_item? hEnd).many.bind fun items items' hItems => ?_
  refine .behind (Reader.expect ")") fun _ => ?_
  refine .behind (Reader.expect "IN") fun _ => ?_
  refine .behind Reader.qualifiedName fun home => ?_
  refine (alike_parameters hEnd .table).map fun p q _ => ?_
  -- the fields and the constraints are sorted out of items with the same fixed parts
  simp only [Statement.fixedPart, filterMap_field?_fixedPart, filterMap_constraint?_fixedPart,
    hItems]

/-- Whether an index is unique is set behind its parameters, and belongs to its fixed part. -/
theorem alike_index (unique : Bool) :
    Alike Statement.fixedPart (index book unique) (index book' unique) := by
  refine .behind Reader.qualifiedName fun name => ?_
  refine .behind (Reader.expect "ON") fun _ => ?_
  refine .behind Reader.qualifiedName fun target => ?_
  refine .behind inParentheses fun fields => ?_
  exact (alike_parameters hEnd .index).map fun p q _ =>
    Statement.fixedPart_index name target fields _ p q

/-- What is created is of the same kind under both rulebooks. -/
theorem alike_creation : Alike Statement.fixedPart (creation book) (creation book') :=
  .choice _ (alike_database hEnd)
    (.choice _ (alike_tablespace hEnd)
      (.choice _ (alike_table hEnd)
        (.choice _ (.choice _ (alike_index hEnd true) (.refl _ _))
          (.choice _ (alike_index hEnd false) (.refl _ _)))))

/-- An added constraint may be a foreign key, and then its parameters may differ. -/
theorem alike_alteration : Alike Statement.fixedPart (alteration book) (alteration book') := by
  refine .choice _ (.behind Reader.qualifiedName fun target => ?_) (.refl _ _)
  refine .choice _ ((alike_constraint? hEnd).option (.refl _ _) fun _ _ hSame => ?_) (.refl _ _)
  exact .behind (Reader.accept ";") fun _ =>
    .pure (congrArg (Statement.addConstraint target) hSame)

/-- **Statements are read alike up to their fixed parts** under rulebooks that end parameters alike.
-/
theorem alike_statement? :
    Alike (Option.map Statement.fixedPart) (statement? book) (statement? book') :=
  .choice _ (.refl _ _)
    (.choice _ ((alike_creation hEnd).map fun _ _ hSame => congrArg some hSame)
      (.choice _ ((alike_alteration hEnd).map fun _ _ hSame => congrArg some hSame)
        (.refl _ _)))

end

end Grammar

end SchemaScript
