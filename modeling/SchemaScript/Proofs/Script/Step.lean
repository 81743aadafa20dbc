import SchemaScript.Proofs.Cursor.FreeText
import SchemaScript.Proofs.Grammar.Progress
import SchemaScript.Script.Run

/-!
# What a step does

A step starts with one of four keys, the hyphens of a comment and three keywords, or there is no
statement at its start (`statement?_cases`). Whatever happens then, the cursor has moved when the
step is over (`step_moves`): a key has characters, and so has a text that is skipped because no
statement started.
-/

namespace SchemaScript.Grammar

open Reader

variable {book : Rulebook} {c d : Cursor}

/-! ## How a statement starts -/

theorem comment_apply (c : Cursor) :
    comment c = .ok (.comment (c.takeUntilOrRest "\n" false).1)
      (c.takeUntilOrRest "\n" false).2 := rfl

/-- Behind two hyphens the rest is a comment. -/
theorem statement?_of_hyphens {book : Rulebook} (hProbe : accept "--" c = .ok true d) :
    statement? book c = (comment >>= fun s => pure (some s)) d := by
  rw [statement?_eq, bind_of_ok hProbe]
  rfl

/-- Without hyphens there is a directive or nothing. -/
theorem statement?_of_no_hyphens {book : Rulebook} (hProbe : accept "--" c = .ok false d) :
    statement? book c = directive? book d := by
  rw [statement?_eq, bind_of_ok hProbe]
  rfl

/-- A statement is a comment or a directive, by the two characters ahead. -/
theorem statement?_cases (book : Rulebook) (c : Cursor) :
    (∃ m, accept "--" c = .ok true m ∧
      statement? book c = .ok (some (.comment (m.takeUntilOrRest "\n" false).1))
        (m.takeUntilOrRest "\n" false).2) ∨
    (accept "--" c = .ok false c.skipBlanks ∧
      statement? book c = directive? book c.skipBlanks) := by
  obtain ⟨b, m, hProbe⟩ := accept_eq_ok "--" c
  cases b with
  | true => exact Or.inl ⟨m, hProbe, statement?_of_hyphens hProbe⟩
  | false =>
    have hPlace := eq_skipBlanks_of_accept hProbe
    subst hPlace
    exact Or.inr ⟨hProbe, statement?_of_no_hyphens hProbe⟩

/-- A directive that was read has moved the cursor, since its keyword was passed. -/
theorem directive?_advances (book : Rulebook) : Advances (directive? book) :=
  .choice (.keyword rfl) (fun _ _ hFound => length_lt_of_keyword hFound)
    (.map composed_creation _)
    (.choice (.keyword rfl) (fun _ _ hFound => length_lt_of_keyword hFound)
      (.map composed_alteration _)
      (.choice (.keyword rfl) (fun _ _ hFound => length_lt_of_keyword hFound)
        (.map (composed_setting book) _) advances_none))

/-! ## Statements of either kind -/

/-- A statement moves forward, whether it succeeds or not. -/
theorem reaches_stop_statement? (book : Rulebook) (c : Cursor) :
    c.Reaches (stop (statement? book) c) := by
  rcases statement?_cases book c with ⟨m, hProbe, hRead⟩ | ⟨hProbe, hRead⟩
  · rw [stop_of_ok hRead]
    exact ((.accept rfl : Composed book (Reader.accept "--")).reaches_of_ok hProbe).trans
      (reaches_takeUntilOrRest _ _ m)
  · rw [stop, hRead, ← stop]
    exact (Cursor.reaches_skipBlanks c).trans (composed_directive?.reaches _)

/-- A statement that was read has moved the cursor. -/
theorem statement?_advances (book : Rulebook) : Advances (statement? book) := by
  intro c s d hRead
  rcases statement?_cases book c with ⟨m, hProbe, hComment⟩ | ⟨hProbe, hDirective⟩
  · -- the hyphens are passed in any case
    rw [hComment] at hRead
    cases hRead
    have hReach := (.accept rfl : Composed book (Reader.accept "--")).reaches_of_ok hProbe
    have hMoved := hReach.pos_lt_iff.mpr (length_lt_of_accept (by decide) hProbe)
    have := (reaches_takeUntilOrRest "\n" false m).pos_le
    omega
  · rw [hDirective] at hRead
    have := directive?_advances book _ s d hRead
    have := (Cursor.reaches_skipBlanks c).pos_le
    omega

/-- A statement fails by a mismatch that tells where reading left off, or by an empty separator. -/
theorem statement?_halt {e : Halt} (hFail : statement? book c = .error e d) :
    FailsAt book d e := by
  rcases statement?_cases book c with ⟨m, hProbe, hComment⟩ | ⟨hProbe, hDirective⟩
  · rw [hComment] at hFail
    cases hFail
  · rw [hDirective] at hFail
    exact composed_directive?.halt hFail

end SchemaScript.Grammar

namespace SchemaScript.Script

open Reader Grammar

variable {book : Rulebook} {c : Cursor}

/-! ## Steps -/

theorem skipStatement_eq (cause : Option Mismatch) (c : Cursor) :
    skipStatement cause c =
      (.skipped ⟨(c.takeUntilOrRest ";" true).1, c.pos, cause⟩,
        (c.takeUntilOrRest ";" true).2) := rfl

/-- The cursor where an outcome was settled: behind the statement, or where reading left off. -/
theorem step_cases {outcome : Outcome} {stop : Cursor}
    (hStep : step book c = .ok (outcome, stop)) :
    (∃ s, statement? book c = .ok (some s) stop ∧ outcome = .statement s) ∨
    (∃ left cause, skipStatement cause left = (outcome, stop) ∧
      ((statement? book c = .ok none left ∧ cause = none) ∨
        ∃ m, statement? book c = .error (.mismatch m) left ∧ cause = some m)) := by
  -- one case for each way in which reading ends
  unfold step at hStep
  cases hRead : statement? book c with
  | ok found left =>
    rw [hRead] at hStep
    cases found with
    | some s =>
      cases hStep
      exact Or.inl ⟨s, rfl, rfl⟩
    | none => exact Or.inr ⟨left, none, Except.ok.inj hStep, Or.inl ⟨rfl, rfl⟩⟩
  | error e left =>
    rw [hRead] at hStep
    cases e with
    | mismatch m => exact Or.inr ⟨left, some m, Except.ok.inj hStep, Or.inr ⟨m, rfl, rfl⟩⟩
    | rules e => cases hStep

/-- A step that ended with a statement has read it. -/
theorem statement?_of_step {s : Statement} {stop : Cursor}
    (hStep : step book c = .ok (.statement s, stop)) : statement? book c = .ok (some s) stop := by
  rcases step_cases hStep with ⟨s', hRead, hSame⟩ | ⟨left, cause, hSkip, -⟩
  · cases hSame
    exact hRead
  · rw [skipStatement_eq] at hSkip
    cases hSkip

/-- A statement that was read is what the step ends with. -/
theorem step_of_some {s : Statement} {d : Cursor} (hRead : statement? book c = .ok (some s) d) :
    step book c = .ok (.statement s, d) := by
  rw [step, hRead]

theorem step_of_none {d : Cursor} (hRead : statement? book c = .ok none d) :
    step book c = .ok (skipStatement none d) := by
  rw [step, hRead]

theorem step_of_mismatch {m : Mismatch} {d : Cursor}
    (hRead : statement? book c = .error (.mismatch m) d) :
    step book c = .ok (skipStatement (some m) d) := by
  rw [step, hRead]

/-- With separators that separate, a step ends with an outcome. -/
theorem step_eq_ok (hSeparators : ∀ construct, (book construct).separator ≠ []) (c : Cursor) :
    ∃ outcome stop, step book c = .ok (outcome, stop) := by
  cases hRead : statement? book c with
  | ok found left =>
    cases found with
    | some s => exact ⟨_, _, step_of_some hRead⟩
    | none => exact ⟨_, _, step_of_none hRead⟩
  | error e left =>
    -- rules are at fault only if they have an empty separator
    cases e with
    | mismatch m => exact ⟨_, _, step_of_mismatch hRead⟩
    | rules e =>
      obtain ⟨-, construct, hEmpty⟩ := statement?_halt hRead
      exact absurd hEmpty (hSeparators construct)

/-- Where reading left off lies ahead of where it started. -/
theorem reaches_left {left : Cursor} {cause : Option Mismatch}
    (hLeft : (statement? book c = .ok none left ∧ cause = none) ∨
      ∃ m, statement? book c = .error (.mismatch m) left ∧ cause = some m) : c.Reaches left := by
  have hReach := reaches_stop_statement? book c
  rcases hLeft with ⟨hNone, -⟩ | ⟨m, hFail, -⟩
  · rwa [stop_of_ok hNone] at hReach
  · rwa [stop_of_error hFail] at hReach

/-- A step moves forward, over a statement or over what is skipped. -/
theorem step_reaches {outcome : Outcome} {stop : Cursor}
    (hStep : step book c = .ok (outcome, stop)) : c.Reaches stop := by
  rcases step_cases hStep with ⟨s, hRead, -⟩ | ⟨left, cause, hSkip, hLeft⟩
  · have hReach := reaches_stop_statement? book c
    rwa [stop_of_ok hRead] at hReach
  · rw [skipStatement_eq] at hSkip
    cases hSkip
    exact (reaches_left hLeft).trans (reaches_takeUntilOrRest _ _ left)

/-- A step that starts at a character moves the cursor. -/
theorem step_moves {outcome : Outcome} {stop : Cursor} (hMore : c.rest ≠ [])
    (hStep : step book c = .ok (outcome, stop)) : c.pos < stop.pos := by
  rcases step_cases hStep with ⟨s, hRead, -⟩ | ⟨left, cause, hSkip, hLeft⟩
  · exact statement?_advances book c s stop hRead
  · rw [(step_reaches hStep).pos_lt_iff]
    rw [skipStatement_eq] at hSkip
    cases hSkip
    have hReach := reaches_left hLeft
    -- what is skipped has characters, unless reading went to the end
    by_cases hEnd : left.rest = []
    · -- the text was read to its end before it was skipped
      have hSkip := (reaches_takeUntilOrRest ";" true left).length_le
      have := List.length_pos_iff.mpr hMore
      rw [hEnd, List.length_nil] at hSkip
      omega
    · have := Cursor.length_takeUntilOrRest_lt hEnd
      have := hReach.length_le
      omega

end SchemaScript.Script
