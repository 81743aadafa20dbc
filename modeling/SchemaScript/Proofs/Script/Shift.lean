import SchemaScript.Proofs.Cursor.Carry
import SchemaScript.Proofs.Grammar.Progress
import SchemaScript.Proofs.Script.Trace

/-!
# Text before a script

No reader looks back, so text before a script changes nothing but positions: what is read at a
cursor is read at the same place of a longer text, with its mismatches told for the new place
(`Composed.shift`, `statement?_shift`).

With it a whole script can be read behind another one (`Trace.shift`): its statements are the same,
and the positions of its diagnostics grow by the length of the text before.
-/

namespace SchemaScript

/-! ## Readers -/

/-- All that a reader asks of a cursor has the same answer behind more text. -/
theorem Cursor.agrees_shift (before : Text) (c : Cursor) : Cursor.Agrees (shift before) c where
  skip := skipBlanks_shift
  literal := fun _ _ => rfl
  keyword := fun _ _ => rfl
  word := rfl
  number := rfl
  startsWord := rfl
  advance := fun _ _ => advance_shift

/-- A search finds the same text behind other text. -/
theorem Cursor.takeUntil?_shift (delimiter : Text) (inclusive : Bool) (before : Text)
    (c : Cursor) :
    (c.shift before).takeUntil? delimiter inclusive =
      (c.takeUntil? delimiter inclusive).map (Prod.map id (shift before)) := by
  unfold takeUntil?
  rw [rest_shift, Option.map_map]
  congr 1
  funext found
  simp

theorem Cursor.takeUntilOrRest_shift (delimiter : Text) (inclusive : Bool) (before : Text)
    (c : Cursor) :
    (c.shift before).takeUntilOrRest delimiter inclusive =
      Prod.map id (shift before) (c.takeUntilOrRest delimiter inclusive) := by
  unfold takeUntilOrRest takeRest
  rw [takeUntil?_shift]
  cases c.takeUntil? delimiter inclusive <;> simp

namespace Grammar

open Reader Cursor

variable {book : Rulebook} {α : Type}

/-- A name is read behind other text too. -/
theorem qualifiedName_shift (before : Text) (c : Cursor) :
    qualifiedName (c.shift before) = carry (shift before) (qualifiedName c) :=
  qualifiedName_carry (identifier_carry (agrees_shift before c).onNames) fun _ d _ =>
    wordAfterPoint?_carry (agrees_shift before d).onNames fun _ => (agrees_shift before _).onNames

/-- A repetition is read behind other text if its items are. -/
theorem many_shift {item : Reader (Option α)} {before : Text}
    (hItem : ∀ c : Cursor, item (c.shift before) = carry (shift before) (item c)) (c : Cursor) :
    many item (c.shift before) = carry (shift before) (many item c) := by
  induction c using many_induction item with
  | again c ih => exact many_carry (hItem c) (fun _ _ _ => Iff.rfl) ih

/-- What the grammar reads, it reads behind other text too. -/
theorem Composed.shift {r : Reader α} (hComposed : Composed book r) (before : Text) (c : Cursor) :
    r (c.shift before) = carry (Cursor.shift before) (r c) := by
  induction hComposed generalizing c with
  | pure x => rfl
  | bind _ _ ihFirst ihThen => exact bind_carry (ihFirst c) fun x d _ => ihThen x d
  | fail _ => rfl
  | accept hToken => exact accept_carry (agrees_shift before c) hToken
  | expect hToken => exact expect_carry (agrees_shift before c) hToken
  | keyword hToken => exact keyword_carry (agrees_shift before c) hToken
  | takeUntil _ _ => exact takeUntil_carry (takeUntil?_shift _ _ before c)
  | parameters _ => exact parameters_carry (takeUntil?_shift _ _ before c)
  | identifier => exact identifier_carry (agrees_shift before c).onNames
  | number => exact number_carry (agrees_shift before c).onNames
  | qualifiedName => exact qualifiedName_shift before c
  | qualifiedName? =>
    refine qualifiedName?_carry (agrees_shift before c).onNames fun _ => ?_
    exact qualifiedName_shift before c.skipBlanks
  | many _ ih => exact many_shift ih c

/-- A statement is read behind other text too, or fails there for the same reason. -/
theorem statement?_shift (book : Rulebook) (before : Text) (c : Cursor) :
    statement? book (c.shift before) = carry (Cursor.shift before) (statement? book c) := by
  rw [statement?_eq]
  refine bind_carry (accept_carry (agrees_shift before c) (by decide)) fun found d _ => ?_
  -- a comment is apart, since it is not composed of the parts of the grammar
  cases found with
  | true =>
    refine bind_carry ?_ fun _ _ _ => rfl
    rw [comment_apply, comment_apply, takeUntilOrRest_shift]
    rfl
  | false => exact composed_directive?.shift before d

end Grammar

/-! ## Runs -/

/-- The mismatch behind a text of a given length. -/
def Mismatch.shift (n : Nat) (m : Mismatch) : Mismatch := { m with position := m.position + n }

/-- The diagnostic behind a text of a given length. -/
def Diagnostic.shift (n : Nat) (d : Diagnostic) : Diagnostic where
  skipped := d.skipped
  position := d.position + n
  cause := d.cause.map (Mismatch.shift n)

/-- The outcome behind a text of a given length. -/
def Outcome.shift (n : Nat) : Outcome → Outcome
  | statement s => statement s
  | skipped d => skipped (d.shift n)

/-- The step behind a text. -/
def Step.shift (before : Text) (s : Step) : Step where
  start := s.start.shift before
  outcome := s.outcome.shift before.length
  stop := s.stop.shift before

@[simp] theorem Outcome.statement?_shift (n : Nat) (o : Outcome) :
    (o.shift n).statement? = o.statement? := by
  cases o <;> rfl

@[simp] theorem Outcome.diagnostic?_shift (n : Nat) (o : Outcome) :
    (o.shift n).diagnostic? = o.diagnostic?.map (Diagnostic.shift n) := by
  cases o <;> rfl

/-- A mismatch tells the new place, and shows the same text. -/
theorem Mismatch.atCursor_shift (expected : Expectation) (before : Text) (c : Cursor) :
    atCursor expected (c.shift before) = (atCursor expected c).shift before.length := by
  simp [atCursor, Mismatch.shift]

namespace Script

open Reader Grammar

variable {book : Rulebook} {c final : Cursor} {steps : List Step}

/-- The same text is skipped, with its place moved. -/
theorem skipStatement_shift (cause : Option Mismatch) (before : Text) (c : Cursor) :
    skipStatement (cause.map (Mismatch.shift before.length)) (c.shift before) =
      Prod.map (Outcome.shift before.length) (Cursor.shift before) (skipStatement cause c) := by
  rw [skipStatement_eq, skipStatement_eq, Cursor.takeUntilOrRest_shift, Cursor.pos_shift]
  rfl

/-- A step is taken behind other text too. -/
theorem step_shift {outcome : Outcome} {stop : Cursor} (before : Text)
    (hStep : step book c = .ok (outcome, stop)) :
    step book (c.shift before) =
      .ok (outcome.shift before.length, stop.shift before) := by
  have hShift := statement?_shift book before c
  rcases step_cases hStep with ⟨s, hRead, rfl⟩ | ⟨left, cause, hSkip, hLeft⟩
  · rw [hRead] at hShift
    exact step_of_some hShift
  · have hSkip' := skipStatement_shift cause before left
    rw [hSkip] at hSkip'
    rcases hLeft with ⟨hNone, rfl⟩ | ⟨m, hFail, rfl⟩
    · rw [hNone] at hShift
      exact (step_of_none hShift).trans (congrArg Except.ok hSkip')
    · rw [hFail] at hShift
      -- the mismatch is one at the cursor where reading left off
      have hPlace : m = .atCursor m.expected left := (statement?_halt hFail).1
      have hMoved : Mismatch.atCursor m.expected (left.shift before) = m.shift before.length := by
        rw [Mismatch.atCursor_shift, ← hPlace]
      have hStep' := step_of_mismatch hShift
      rw [hMoved] at hStep'
      exact hStep'.trans (congrArg Except.ok hSkip')

/-- The steps through a script are taken behind another text too. -/
theorem Trace.shift (hTrace : Trace book c steps final) (before : Text) :
    Trace book (c.shift before) (steps.map (Step.shift before)) (final.shift before) := by
  -- step by step, with the blanks between the steps the same
  induction hTrace with
  | @done c hEnd =>
    rw [← Cursor.skipBlanks_shift]
    exact .done (by rwa [Cursor.skipBlanks_shift])
  | @next c stop final outcome steps hMore hStep hMoved _ ih =>
    have hStep' := step_shift before hStep
    rw [← Cursor.skipBlanks_shift] at hStep'
    have hNext := Trace.next (by rwa [Cursor.skipBlanks_shift]) hStep' (by simpa using hMoved) ih
    rwa [Cursor.skipBlanks_shift] at hNext

end Script

end SchemaScript
