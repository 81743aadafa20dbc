import SchemaScript.Proofs.Cursor.Movement
import SchemaScript.Proofs.Grammar.Composed

/-!
# Progress and failure of the grammar

Two facts hold of everything the grammar is composed of. A reader only moves forward
(`Composed.reaches`), and if it fails, it tells the place where it stopped, or the rules have an
empty separator (`Composed.halt`).

From the first one it follows that the two repetitions of the grammar, over the items of a table and
over the attributes of a field, never stand still: an item and an attribute take a character at
least (`item?_advances`, `attribute?_advances`).
-/

namespace SchemaScript.Grammar

open Reader

variable {book : Rulebook} {α : Type}

/-! ## Moving forward -/

/-- A repetition moves forward if its items do. -/
theorem reaches_stop_many {item : Reader (Option α)} (hItem : ∀ c : Cursor, c.Reaches (stop item c))
    (c : Cursor) : c.Reaches (stop (many item) c) := by
  -- along the items, each of which starts where the one before ended
  induction c using many_induction item with
  | again c ih =>
    have hFirst := hItem c
    cases hRead : item c with
    | error e d =>
      rw [stop_of_error hRead] at hFirst
      rwa [stop_of_error (many_of_error hRead)]
    | ok found d =>
      rw [stop_of_ok hRead] at hFirst
      cases found with
      | none => rwa [stop_of_ok (many_of_none hRead)]
      | some x =>
        by_cases hMoved : d.rest.length < c.rest.length
        · -- the rest of the repetition starts behind the first item
          rw [stop, many_of_some hRead hMoved, ← stop, stop_map]
          exact hFirst.trans (ih x d hRead hMoved)
        · rwa [stop_of_ok (many_of_stuck hRead hMoved)]

/-- Whatever the grammar reads, it moves forward, also if it fails. -/
theorem Composed.reaches {r : Reader α} (hComposed : Composed book r) (c : Cursor) :
    c.Reaches (stop r c) := by
  -- one case for each part of the grammar
  induction hComposed generalizing c with
  | pure x => exact .refl c
  | @bind α β r f _ _ ihFirst ihThen =>
    have hFirst := ihFirst c
    cases hRead : r c with
    | ok x m =>
      rw [stop_of_ok hRead] at hFirst
      rw [stop_bind_of_ok hRead]
      exact hFirst.trans (ihThen x m)
    | error e m =>
      rw [stop_of_error hRead] at hFirst
      rwa [stop_bind_of_error hRead]
  | fail _ => exact .refl c
  | accept _ => exact (Cursor.reaches_skipBlanks c).trans (skips_accept _ c)
  | expect _ => exact (Cursor.reaches_skipBlanks c).trans (skips_expect _ c)
  | keyword _ => exact (Cursor.reaches_skipBlanks c).trans (skips_keyword _ c)
  | takeUntil _ _ => exact reaches_stop_takeUntil _ _ c
  | parameters _ => exact reaches_stop_parameters _ c
  | identifier => exact (Cursor.reaches_skipBlanks c).trans (skips_identifier c)
  | number => exact (Cursor.reaches_skipBlanks c).trans (skips_number c)
  | qualifiedName => exact (Cursor.reaches_skipBlanks c).trans (skips_qualifiedName c)
  | qualifiedName? => exact (Cursor.reaches_skipBlanks c).trans (skips_qualifiedName? c)
  | many _ ih => exact reaches_stop_many ih c

/-- Where the grammar succeeds, it ends further on. -/
theorem Composed.reaches_of_ok {r : Reader α} (hComposed : Composed book r) {c d : Cursor} {x : α}
    (hRead : r c = .ok x d) : c.Reaches d := by
  have hReach := hComposed.reaches c
  rwa [stop_of_ok hRead] at hReach

/-! ## Failing -/

/-- What can be said of a failure and the cursor where it left off: a mismatch tells that place, and
a delimiter that was searched for is one of the grammar or a terminator and does not lie ahead. -/
def FailsAt (book : Rulebook) (d : Cursor) : Halt → Prop
  | .mismatch m => m = .atCursor m.expected d ∧
      ∀ t, m.expected = .delimiter t → Text.before? t d.rest = none ∧
        ((∃ x ∈ delimiters, t = [x]) ∨ ∃ construct, t = (book construct).terminator)
  | .rules e => e = .emptySeparator ∧ ∃ construct, (book construct).separator = []

/-- A mismatch that no search is to blame for tells its place and nothing else. -/
theorem failsAt_atCursor {expected : Expectation} (hPlace : isSearch expected = false)
    (d : Cursor) : FailsAt book d (.mismatch (.atCursor expected d)) := by
  refine ⟨rfl, fun t hSearch => ?_⟩
  have hDelimiter : expected = .delimiter t := hSearch
  rw [hDelimiter] at hPlace
  cases hPlace

/-- Free text is not found exactly if the delimiter does not lie ahead. -/
theorem before?_eq_none_of_takeUntil? {c : Cursor} {delimiter : Text} {inclusive : Bool}
    (hNone : c.takeUntil? delimiter inclusive = none) : Text.before? delimiter c.rest = none := by
  unfold Cursor.takeUntil? at hNone
  exact Option.map_eq_none_iff.mp hNone

/-- A sequence fails as the reader does that fails in it. -/
theorem failsAt_bind {β : Type} {r : Reader α} {f : α → Reader β}
    (hFirst : ∀ c d e, r c = .error e d → FailsAt book d e)
    (hThen : ∀ x c d e, f x c = .error e d → FailsAt book d e) {c d : Cursor} {e : Halt}
    (hFail : (r >>= f) c = .error e d) : FailsAt book d e := by
  cases hRead : r c with
  | ok x m =>
    rw [bind_of_ok hRead] at hFail
    exact hThen x m d e hFail
  | error e' m =>
    rw [bind_of_error hRead] at hFail
    cases hFail
    exact hFirst c d e hRead

theorem failsAt_expect {literal : Text} {c d : Cursor} {e : Halt}
    (hFail : expect literal c = .error e d) : FailsAt book d e := by
  rw [expect_apply] at hFail
  split at hFail
  · cases hFail
  · cases hFail
    exact failsAt_atCursor rfl _

/-- A search fails for one of the delimiters of the grammar. -/
theorem failsAt_takeUntil {delimiter : Char} {inclusive : Bool}
    (hDelimiter : delimiters.contains delimiter = true) {c d : Cursor} {e : Halt}
    (hFail : takeUntil [delimiter] inclusive c = .error e d) : FailsAt book d e := by
  rw [takeUntil_apply] at hFail
  split at hFail
  · cases hFail
  · next hNone =>
    cases hFail
    refine ⟨rfl, fun t hSearch => ?_⟩
    cases hSearch
    have hMem : delimiter ∈ delimiters := List.contains_iff_mem.mp hDelimiter
    exact ⟨before?_eq_none_of_takeUntil? hNone, Or.inl ⟨delimiter, hMem, rfl⟩⟩

/-- Parameters fail for their terminator, or because they cannot be decoded. -/
theorem failsAt_parameters {construct : Construct} {c d : Cursor} {e : Halt}
    (hFail : Reader.parameters (book construct) c = .error e d) : FailsAt book d e := by
  rw [parameters_apply] at hFail
  split at hFail
  · -- the terminator does not lie ahead
    next hNone =>
    cases hFail
    refine ⟨rfl, fun t hSearch => ?_⟩
    cases hSearch
    exact ⟨before?_eq_none_of_takeUntil? hNone, Or.inr ⟨construct, rfl⟩⟩
  · split at hFail
    · cases hFail
    · -- what was taken could not be decoded
      next hDecode =>
      cases hFail
      obtain ⟨hEmpty, rfl⟩ := Parameters.decode_eq_error_iff.mp hDecode
      exact ⟨rfl, construct, hEmpty⟩

theorem failsAt_number {c d : Cursor} {e : Halt} (hFail : Reader.number c = .error e d) :
    FailsAt book d e := by
  rw [number_apply] at hFail
  split at hFail
  · cases hFail
    exact failsAt_atCursor rfl _
  · cases hFail

theorem failsAt_identifier {c d : Cursor} {e : Halt} (hFail : identifier c = .error e d) :
    FailsAt book d e := by
  rw [identifier_apply] at hFail
  split at hFail
  · cases hFail
    exact failsAt_atCursor rfl _
  · cases hFail

/-- A name fails as its first word does, since what may follow is optional. -/
theorem failsAt_qualifiedName {c d : Cursor} {e : Halt} (hFail : qualifiedName c = .error e d) :
    FailsAt book d e := by
  cases hFirst : identifier c with
  | error e' d' =>
    rw [qualifiedName_of_error hFirst] at hFail
    cases hFail
    exact failsAt_identifier hFirst
  | ok first m =>
    rw [qualifiedName_of_ok hFirst] at hFail
    split at hFail <;> cases hFail

/-- An optional name fails as a name does. -/
theorem failsAt_qualifiedName? {c d : Cursor} {e : Halt}
    (hFail : qualifiedName? c = .error e d) : FailsAt book d e := by
  rw [qualifiedName?_apply] at hFail
  split at hFail
  · refine failsAt_bind (fun c d e hName => failsAt_qualifiedName hName) ?_ hFail
    intro q c d e hSome
    cases hSome
  · cases hFail

/-- A repetition fails as one of its items does. -/
theorem failsAt_many {item : Reader (Option α)}
    (hItem : ∀ c d e, item c = .error e d → FailsAt book d e) {c d : Cursor} {e : Halt}
    (hFail : many item c = .error e d) : FailsAt book d e := by
  -- along the items that were found
  induction c using many_induction item with
  | again c ih =>
    cases hRead : item c with
    | error e' d' =>
      rw [many_of_error hRead] at hFail
      cases hFail
      exact hItem c d e hRead
    | ok found m =>
      cases found with
      | none =>
        rw [many_of_none hRead] at hFail
        cases hFail
      | some x =>
        by_cases hMoved : m.rest.length < c.rest.length
        · rw [many_of_some hRead hMoved] at hFail
          -- giving the items never fails
          cases hMore : many item m with
          | ok xs stop' =>
            rw [bind_of_ok hMore] at hFail
            cases hFail
          | error e' stop' =>
            rw [bind_of_error hMore] at hFail
            cases hFail
            exact ih x m hRead hMoved hMore
        · rw [many_of_stuck hRead hMoved] at hFail
          cases hFail

/-- Whatever the grammar reads, a failure is a mismatch at the place where it left off, or it is due
to an empty separator. -/
theorem Composed.halt {r : Reader α} (hComposed : Composed book r) {c d : Cursor} {e : Halt}
    (hFail : r c = .error e d) : FailsAt book d e := by
  induction hComposed generalizing c d e with
  | pure x => cases hFail
  | bind _ _ ihFirst ihThen =>
    exact failsAt_bind (fun c d e hRead => ihFirst hRead) (fun x c d e hRead => ihThen x hRead)
      hFail
  | fail hPlace =>
    cases hFail
    exact failsAt_atCursor hPlace c
  | accept _ =>
    -- a probe answers
    obtain ⟨b, m, hRead⟩ := accept_eq_ok _ c
    rw [hRead] at hFail
    cases hFail
  | keyword _ =>
    obtain ⟨b, m, hRead⟩ := keyword_eq_ok _ c
    rw [hRead] at hFail
    cases hFail
  | expect _ => exact failsAt_expect hFail
  | takeUntil _ hDelimiter => exact failsAt_takeUntil hDelimiter hFail
  | parameters _ => exact failsAt_parameters hFail
  | identifier => exact failsAt_identifier hFail
  | number => exact failsAt_number hFail
  | qualifiedName => exact failsAt_qualifiedName hFail
  | qualifiedName? => exact failsAt_qualifiedName? hFail
  | many _ ih => exact failsAt_many (fun c d e hRead => ih hRead) hFail

/-- With separators that separate, only mismatches stop the grammar. -/
theorem Composed.mismatch_of_error {r : Reader α} (hComposed : Composed book r)
    (hSeparators : ∀ construct, (book construct).separator ≠ []) {c d : Cursor} {e : Halt}
    (hFail : r c = .error e d) : ∃ expected, e = .mismatch (.atCursor expected d) := by
  have hHalt := hComposed.halt hFail
  -- the rules are at fault only if a separator is empty
  cases e with
  | mismatch m => exact ⟨m.expected, congrArg Halt.mismatch hHalt.1⟩
  | rules e =>
    obtain ⟨-, construct, hEmpty⟩ := hHalt
    exact absurd hEmpty (hSeparators construct)

/-! ## Taking a character at least -/

/-- Whether a reader moves the cursor whenever it finds something. -/
def Advances (item : Reader (Option α)) : Prop :=
  ∀ c x d, item c = .ok (some x) d → c.pos < d.pos

theorem advances_none : Advances (pure none : Reader (Option α)) := by
  intro c x d hRead
  cases hRead

/-- Behind a literal that is found nothing has to move any more. -/
theorem Advances.choice {probe : Reader Bool} {r s : Reader (Option α)}
    (hProbe : Composed book probe)
    (hFound : ∀ c d, probe c = .ok true d → d.rest.length < c.rest.length)
    (hThen : Composed book r) (hElse : Advances s) : Advances (do if ← probe then r else s) := by
  intro c x d hRead
  obtain ⟨found, m, hAnswer, hRest⟩ := bind_eq_ok_iff.mp hRead
  have hReach := hProbe.reaches_of_ok hAnswer
  cases found with
  | true =>
    have hMoved := hReach.pos_lt_iff.mpr (hFound c m hAnswer)
    have hLater := (hThen.reaches_of_ok hRest).pos_le
    omega
  | false =>
    have hMoved := hElse m x d hRest
    have hBefore := hReach.pos_le
    omega

/-- A literal with characters moves the cursor. -/
theorem Advances.accept {literal : Text} {r s : Reader (Option α)} (book : Rulebook)
    (hToken : isToken literal = true) (hSome : literal ≠ []) (hThen : Composed book r)
    (hElse : Advances s) : Advances (do if ← Reader.accept literal then r else s) :=
  .choice (.accept hToken) (fun _ _ hFound => length_lt_of_accept hSome hFound) hThen hElse

/-- What is found first moves the cursor, or nothing is found first. -/
theorem Advances.first {β : Type} {r : Reader (Option β)} {f : Option β → Reader (Option α)}
    (hComposed : Composed book r) (hFirst : Advances r) (hSome : ∀ y, Composed book (f (some y)))
    (hNone : Advances (f none)) : Advances (r >>= f) := by
  intro c x d hRead
  obtain ⟨found, m, hBegin, hRest⟩ := bind_eq_ok_iff.mp hRead
  cases found with
  | some y =>
    have hMoved := hFirst c y m hBegin
    have hLater := ((hSome y).reaches_of_ok hRest).pos_le
    omega
  | none =>
    have hMoved := hNone m x d hRest
    have hBefore := (hComposed.reaches_of_ok hBegin).pos_le
    omega

/-- A constraint takes its keyword at least. -/
theorem constraint?_advances (book : Rulebook) : Advances (constraint? book) :=
  .choice (.keyword rfl) (fun _ _ hFound => length_lt_of_keyword hFound)
    (.bind .qualifiedName fun name => .map (composed_constraintKind name) _) advances_none

/-- An attribute takes a character at least. -/
theorem attribute?_advances (book : Rulebook) : Advances (attribute? book) := by
  -- the literals are tried where there is no constraint
  refine .first composed_constraint? (constraint?_advances book) (fun _ => .pure _) ?_
  refine .accept book rfl (by decide) (.pure _) (.accept book rfl (by decide) ?_
    (.accept book rfl (by decide) (.map (composed_quotedLiteral? book) _) advances_none))
  exact .bind .identifier fun _ => .bind (.expect rfl) fun _ => .pure _

/-- A name takes its first word at least. -/
theorem qualifiedName_length_lt {c d : Cursor} {q : QualifiedName}
    (hRead : qualifiedName c = .ok q d) : d.rest.length < c.rest.length := by
  cases hFirst : identifier c with
  | error e m =>
    rw [qualifiedName_of_error hFirst] at hRead
    cases hRead
  | ok first m =>
    have hMoved := length_lt_of_identifier hFirst
    have hReach := reaches_stop_qualifiedName hFirst
    rw [stop_of_ok hRead] at hReach
    have := hReach.length_le
    omega

theorem qualifiedName?_advances (book : Rulebook) : Advances qualifiedName? := by
  intro c q d hRead
  have hReach := (.qualifiedName? : Composed book qualifiedName?).reaches_of_ok hRead
  rw [hReach.pos_lt_iff]
  rw [qualifiedName?_apply] at hRead
  -- where no word starts there is no name
  split at hRead
  · obtain ⟨q', hName, -⟩ := map_eq_ok_iff.mp hRead
    have := qualifiedName_length_lt hName
    have := (Cursor.reaches_skipBlanks c).length_le
    omega
  · cases hRead

/-- A field takes its name at least. -/
theorem field?_advances (book : Rulebook) : Advances (field? book) :=
  .first (.qualifiedName? : Composed book qualifiedName?) (qualifiedName?_advances book)
    (fun _ => .bind composed_fieldType fun _ => .map (.many composed_attribute?) _) advances_none

/-- An item takes a keyword or a name at least. -/
theorem constraintOrField?_advances (book : Rulebook) : Advances (constraintOrField? book) :=
  .first composed_constraint? (constraint?_advances book) (fun _ => .pure _)
    (.first composed_field? (field?_advances book) (fun _ => .pure _) advances_none)

/-- An item of a table takes a character at least. -/
theorem item?_advances (book : Rulebook) : Advances (item? book) :=
  .first composed_constraintOrField? (constraintOrField?_advances book)
    (fun _ => .bind (.accept rfl) fun _ => .pure _) advances_none

end SchemaScript.Grammar
