import SchemaScript.Cursor.Reader
import SchemaScript.Proofs.Cursor.Reach

/-!
# Results of readers

A reader ends at a cursor whether it succeeds or not; `stop` is that cursor. A sequence of readers
succeeds if each of them does (`bind_eq_ok_iff`), and it stops where the last one stopped that was
reached (`stop_bind_of_ok`, `stop_bind_of_error`).

The readers for names are pinned down here by one equation each, in the way of the other ones.
-/

namespace SchemaScript.Reader

variable {α β : Type} {r : Reader α} {f : α → Reader β} {c d : Cursor}

/-- The cursor where a reader ends, by success or by failure. -/
def stop (r : Reader α) (c : Cursor) : Cursor :=
  match r c with
  | .ok _ d => d
  | .error _ d => d

theorem stop_of_ok {x : α} (hRead : r c = .ok x d) : stop r c = d := by
  rw [stop, hRead]

theorem stop_of_error {e : Halt} (hFail : r c = .error e d) : stop r c = d := by
  rw [stop, hFail]

/-- A value that is given at once takes nothing. -/
theorem pure_apply (x : α) (c : Cursor) : (pure x : Reader α) c = .ok x c := rfl

/-! ## Sequences -/

/-- Two readers in a row succeed exactly if the first one does and the second one goes on from where
the first one ended. -/
theorem bind_eq_ok_iff {y : β} :
    (r >>= f) c = .ok y d ↔ ∃ x m, r c = .ok x m ∧ f x m = .ok y d := by
  -- a failure of the first reader is one of both, and on the right there is no result either
  cases hRead : r c with
  | ok x m =>
    rw [bind_of_ok hRead]
    constructor
    · intro hThen
      exact ⟨x, m, rfl, hThen⟩
    · rintro ⟨x, m, ⟨⟩, hThen⟩
      exact hThen
  | error e m =>
    rw [bind_of_error hRead]
    constructor
    · intro hFail
      cases hFail
    · rintro ⟨x, m, ⟨⟩, -⟩

/-- What is made of a result is read where the result is, and ends where it ends. -/
theorem map_eq_ok_iff {g : α → β} {y : β} :
    (r >>= fun x => (pure (g x) : Reader β)) c = .ok y d ↔ ∃ x, r c = .ok x d ∧ y = g x := by
  rw [bind_eq_ok_iff]
  constructor
  · rintro ⟨x, m, hRead, hGive⟩
    rw [pure_apply] at hGive
    cases hGive
    exact ⟨x, hRead, rfl⟩
  · rintro ⟨x, hRead, rfl⟩
    exact ⟨x, d, hRead, rfl⟩

/-- A reader that marks its result as found never finds nothing. -/
theorem map_some_ne_none : (r >>= fun x => (pure (some x) : Reader (Option α))) c ≠ .ok none d := by
  intro hNone
  obtain ⟨x, -, hSome⟩ := map_eq_ok_iff.mp hNone
  cases hSome

/-- Behind a success it is the second reader that settles where the two stop. -/
theorem stop_bind_of_ok {x : α} (hRead : r c = .ok x d) : stop (r >>= f) c = stop (f x) d := by
  rw [stop, bind_of_ok hRead, stop]

/-- A sequence stops where its first reader failed. -/
theorem stop_bind_of_error {e : Halt} (hFail : r c = .error e d) : stop (r >>= f) c = d :=
  stop_of_error (bind_of_error hFail)

/-- What is made of a result does not change where reading stops. -/
theorem stop_map {r : Reader α} (g : α → β) (c : Cursor) :
    stop (r >>= fun x => pure (g x)) c = stop r c := by
  cases hRead : r c with
  | ok x d =>
    rw [stop_bind_of_ok hRead, stop_of_ok hRead]
    rfl
  | error e d => rw [stop_bind_of_error hRead, stop_of_error hRead]

/-! ## What is given -/

/-- Whether whatever a reader gives has a property. -/
def Gives (p : α → Prop) (r : Reader α) : Prop := ∀ c x d, r c = .ok x d → p x

section

variable {p : β → Prop}

/-- A sequence gives what its last reader gives, whatever the first one took. -/
theorem Gives.bind {f : α → Reader β} (hThen : ∀ x, Gives p (f x)) : Gives p (r >>= f) := by
  intro c y d hRead
  obtain ⟨x, m, -, hLater⟩ := bind_eq_ok_iff.mp hRead
  exact hThen x m y d hLater

/-- What is made of a result has a property if it has it for every result. -/
theorem Gives.map {f : α → β} (hValue : ∀ x, p (f x)) :
    Gives p (r >>= fun x => (pure (f x) : Reader β)) := by
  intro c y d hRead
  obtain ⟨x, -, rfl⟩ := map_eq_ok_iff.mp hRead
  exact hValue x

/-- A reader that always fails gives nothing that could lack the property. -/
theorem Gives.fail (expected : Expectation) : Gives p (Reader.fail expected : Reader β) := by
  intro c x d hRead
  cases hRead

/-- Both branches of a choice have to give it, since either probe may succeed. -/
theorem Gives.choice {probe : Reader Bool} {s t : Reader β} (hThen : Gives p s)
    (hElse : Gives p t) : Gives p (do if ← probe then s else t) := by
  refine .bind fun found => ?_
  cases found with
  | true => exact hThen
  | false => exact hElse

end

/-! ## Names -/

/-- The word behind a point, asked for as a literal: where the point does not stand next there is
none, and where it does the word behind it settles the rest. -/
theorem wordAfterPoint?_apply (c : Cursor) :
    wordAfterPoint? c =
      if (['.'] : Text).isPrefixOf c.skipBlanks.rest then
        if Text.word (c.skipBlanks.advance 1).skipBlanks.rest = [] then none
        else some (Text.word (c.skipBlanks.advance 1).skipBlanks.rest,
          (c.skipBlanks.advance 1).skipBlanks.advance
            (Text.word (c.skipBlanks.advance 1).skipBlanks.rest).length)
      else none := by
  unfold wordAfterPoint?
  cases hRest : c.skipBlanks.rest with
  | nil => rfl
  | cons x rest =>
    -- a literal of one character is compared with the first one alone
    by_cases hPoint : x = '.'
    · subst hPoint
      rfl
    · simp [hPoint, Ne.symm hPoint]

/-- Where no word stands, no name does. -/
theorem qualifiedName_of_error {e : Halt} (hFirst : identifier c = .error e d) :
    qualifiedName c = .error e d := by
  unfold qualifiedName
  exact bind_of_error hFirst

/-- Behind its first word a name goes on exactly if a point and a word follow. The first word is its
scope then, and otherwise the whole name. -/
theorem qualifiedName_of_ok {first : Text} (hFirst : identifier c = .ok first d) :
    qualifiedName c =
      match wordAfterPoint? d with
      | some (second, next) => .ok ⟨second, some first⟩ next
      | none => .ok ⟨first, none⟩ d := by
  unfold qualifiedName
  rw [bind_of_ok hFirst]
  simp only [attempt, bind, EStateM.bind]
  cases wordAfterPoint? d <;> rfl

/-- Whether a name is there is settled by the first character behind the blanks, which are passed in
any case. -/
theorem qualifiedName?_apply (c : Cursor) :
    qualifiedName? c =
      if Text.startsWord c.skipBlanks.rest then
        (qualifiedName >>= fun q => pure (some q)) c.skipBlanks
      else .ok none c.skipBlanks := by
  -- the question is asked of the cursor behind the blanks
  have hLook : qualifiedName? c =
      (if Text.startsWord c.skipBlanks.rest then
        (qualifiedName >>= fun q => pure (some q))
      else (pure none : Reader (Option QualifiedName))) c.skipBlanks := rfl
  rw [hLook]
  split <;> rfl

/-! ## Repetition -/

/-- Whatever holds of a cursor if it holds behind each item that moved the cursor holds everywhere,
since less text is ahead behind such an item. -/
theorem many_induction (item : Reader (Option α)) {motive : Cursor → Prop}
    (again : ∀ c, (∀ x d, item c = .ok (some x) d → d.rest.length < c.rest.length → motive d) →
      motive c) (c : Cursor) : motive c := by
  induction hLength : c.rest.length using Nat.strong_induction_on generalizing c with
  | h length ih => exact again c fun x d _ hMoved => ih d.rest.length (hLength ▸ hMoved) d rfl

/-- A repeated item that did not move the cursor ends the repetition. -/
theorem many_of_stuck {item : Reader (Option α)} {x : α}
    (hItem : item c = .ok (some x) d) (hStuck : ¬ d.rest.length < c.rest.length) :
    many item c = .ok [x] d := by
  rw [many, hItem]
  simp only [hStuck, if_false]

end SchemaScript.Reader
