import SchemaScript.Proofs.Parameters.Rulebook
import SchemaScript.Proofs.Script.Trace
import SchemaScript.Script.Log

/-!
# What the log tells

A run writes three records: the lines of its log, the statements that were read and the diagnostics
of what was skipped. `Told` is the story that they have in common, iteration by iteration: each one
writes a line about what remains, and then it either records a statement and is silent, or records a
diagnostic and writes a warning.

Every run tells such a story (`Trace.told`), so one record can be read off the others
(`Script.run_logged`): there is one line about what remains for each statement and each diagnostic,
with numbers that fall from line to line, and the warnings are those of the diagnostics, in order.
-/

namespace SchemaScript

open Text

/-! ## Lines -/

/-- The line about the last `n` characters of a text, with the first 50 of them. -/
def Text.progressLine (t : Text) (n : Nat) : Text :=
  "DEBUG " ++ ofNat n ++ " characters remaining: " ++
    quoted ((t.drop (t.length - n)).take (min 50 n)) ++ " [...]"

/-- The warning about a text that was skipped: its place, the text itself, and the reason. -/
def Diagnostic.warning (d : Diagnostic) : Text :=
  "WARNING Skipped unrecognized statement at " ++ ofNat d.position ++ ": " ++ quoted d.skipped ++
    " (" ++ (match d.cause with
      | none => "no statement matched"
      | some m => m.message) ++ ")"

/-- The line about a skipped text is the warning of its diagnostic. -/
theorem LogRecord.render_skipped (d : Diagnostic) : (skipped d).render = d.warning := by
  obtain ⟨text, position, cause⟩ := d
  -- the two differ in how the reason is spelled out
  cases cause with
  | none => rfl
  | some m => rfl

/-- The line about what remains depends on the text and on how much of it is left. -/
theorem LogRecord.render_progress (c : Cursor) :
    (progress c.remaining (c.peek 50)).render = c.text.progressLine c.remaining := by
  -- what is ahead of the cursor is the end of the text
  have hSum := c.pos_add_remaining
  have hPlace : c.text.length - c.remaining = c.pos := by omega
  have hPreview : c.peek 50 =
      (c.text.drop (c.text.length - c.remaining)).take (min 50 c.remaining) := by
    rw [hPlace, Cursor.drop_pos_text]
    show c.rest.take 50 = c.rest.take (min 50 c.rest.length)
    rw [List.take_eq_take_iff, min_assoc, min_self]
  rw [hPreview]
  rfl

/-- A line about what remains has the level of such lines. -/
theorem Text.isProgress_progressLine (t : Text) (n : Nat) : isProgress (progressLine t n) = true :=
  rfl

/-- A line about what remains is no warning. -/
theorem Text.isWarning_progressLine (t : Text) (n : Nat) : isWarning (progressLine t n) = false :=
  rfl

/-- A warning has the level of warnings. -/
theorem Diagnostic.isWarning_warning (d : Diagnostic) : isWarning d.warning = true := rfl

/-- A warning is no line about what remains. -/
theorem Diagnostic.isProgress_warning (d : Diagnostic) : isProgress d.warning = false := rfl

namespace Script

/-! ## The story of a run -/

/-- The story of a run from a cursor on: the lines that it writes, the statements and the
diagnostics that it records, with one block of lines for each iteration. -/
inductive Told (book : Rulebook) :
    Cursor → List Text → List Statement → List Diagnostic → Prop
  | done {c : Cursor} (hEnd : c.skipBlanks.rest = []) : Told book c [] [] []
  | read {c stop : Cursor} {x : Statement} {lines : List Text} {statements : List Statement}
      {diagnostics : List Diagnostic} (hMore : c.skipBlanks.rest ≠ [])
      (hStep : step book c.skipBlanks = .ok (.statement x, stop))
      (hLater : Told book stop lines statements diagnostics) :
      Told book c (c.text.progressLine c.skipBlanks.remaining :: lines) (x :: statements)
        diagnostics
  | skip {c stop : Cursor} {d : Diagnostic} {lines : List Text} {statements : List Statement}
      {diagnostics : List Diagnostic} (hMore : c.skipBlanks.rest ≠ [])
      (hStep : step book c.skipBlanks = .ok (.skipped d, stop))
      (hLater : Told book stop lines statements diagnostics) :
      Told book c (c.text.progressLine c.skipBlanks.remaining :: d.warning :: lines) statements
        (d :: diagnostics)

variable {book : Rulebook} {c final : Cursor} {steps : List Step} {lines : List Text}
  {statements : List Statement} {diagnostics : List Diagnostic}

/-- The steps of a run tell a story. -/
theorem Trace.told (hTrace : Trace book c steps final) :
    Told book c (Run.ofSteps steps final).lines (Run.ofSteps steps final).statements
      (Run.ofSteps steps final).diagnostics := by
  induction hTrace with
  | done hEnd => exact .done hEnd
  | @next c stop final outcome steps hMore hStep _ _ ih =>
    have hLine := LogRecord.render_progress c.skipBlanks
    rw [Cursor.text_skipBlanks] at hLine
    -- the block of this step is one line, or a line and a warning
    cases outcome with
    | statement x =>
      have hTold := Told.read hMore hStep ih
      rw [← hLine] at hTold
      exact hTold
    | skipped d =>
      have hTold := Told.skip hMore hStep ih
      rw [← hLine, ← LogRecord.render_skipped] at hTold
      exact hTold

/-! ## What a story tells -/

/-- The warnings are those of the diagnostics, in the same order. -/
theorem Told.warnings_eq (hTold : Told book c lines statements diagnostics) :
    lines.filter isWarning = diagnostics.map Diagnostic.warning := by
  induction hTold with
  | done _ => rfl
  | read _ _ _ ih =>
    -- the only line of this block is about what remains
    rw [List.filter_cons_of_neg (by simp [isWarning_progressLine])]
    exact ih
  | skip _ _ _ ih =>
    rw [List.filter_cons_of_neg (by simp [isWarning_progressLine]),
      List.filter_cons_of_pos (Diagnostic.isWarning_warning _), ih, List.map_cons]

/-- A step that starts at a character leaves less text ahead than there was at its start. -/
theorem remaining_lt_of_step {stop : Cursor} {outcome : Outcome} (hMore : c.skipBlanks.rest ≠ [])
    (hStep : step book c.skipBlanks = .ok (outcome, stop)) :
    stop.text = c.text ∧ stop.remaining < c.skipBlanks.remaining ∧
      c.skipBlanks.remaining ≤ c.remaining := by
  have hSkip := Cursor.reaches_skipBlanks c
  have hReach := step_reaches hStep
  have hMoved := hReach.pos_lt_iff.mp (step_moves hMore hStep)
  exact ⟨(hSkip.trans hReach).text_eq, hMoved, hSkip.length_le⟩

/-- Whether lines are some lines about what remains of a text, so many of them and with numbers
that fall from one line to the next. -/
def CountsDown (t : Text) (bound count : Nat) (lines : List Text) : Prop :=
  ∃ numbers : List Nat, lines = numbers.map t.progressLine ∧ numbers.length = count ∧
    numbers.Pairwise (· > ·) ∧ ∀ n ∈ numbers, 1 ≤ n ∧ n ≤ bound

/-- A line with a larger number may be put before lines that count down. -/
theorem CountsDown.cons {t : Text} {bound bound' count n : Nat}
    (hLater : CountsDown t bound count lines) (hLess : bound < n) (hBound : n ≤ bound') :
    CountsDown t bound' (count + 1) (t.progressLine n :: lines) := by
  obtain ⟨numbers, rfl, rfl, hFall, hRange⟩ := hLater
  refine ⟨n :: numbers, rfl, rfl, List.pairwise_cons.mpr ⟨?_, hFall⟩, ?_⟩
  · intro m hMem
    -- the later numbers are at most the later bound
    have hUpTo := (hRange m hMem).2
    omega
  · intro m hMem
    rcases List.mem_cons.mp hMem with rfl | hMem
    · omega
    · have hUpTo := hRange m hMem
      omega

/-- The lines about what remains are one for each statement and each diagnostic. -/
theorem Told.countsDown (hTold : Told book c lines statements diagnostics) :
    CountsDown c.text c.remaining (statements.length + diagnostics.length)
      (lines.filter isProgress) := by
  induction hTold with
  | done _ => exact ⟨[], rfl, rfl, .nil, by simp⟩
  | @read c stop x lines statements diagnostics hMore hStep _ ih =>
    obtain ⟨hText, hLess, hBound⟩ := remaining_lt_of_step hMore hStep
    rw [hText] at ih
    rw [List.filter_cons_of_pos (isProgress_progressLine _ _), List.length_cons, Nat.add_right_comm]
    exact ih.cons hLess hBound
  | @skip c stop d lines statements diagnostics hMore hStep _ ih =>
    obtain ⟨hText, hLess, hBound⟩ := remaining_lt_of_step hMore hStep
    rw [hText] at ih
    -- the warning is of the other level
    rw [List.filter_cons_of_pos (isProgress_progressLine _ _),
      List.filter_cons_of_neg (by simp [Diagnostic.isProgress_warning]), List.length_cons,
      ← Nat.add_assoc]
    exact ih.cons hLess hBound

end Script

/-! ## Runs -/

/-- Whether the log of a run tells what the run recorded: as many lines about what remains of the
text as there are outcomes, counting down, and the warnings of the diagnostics in their order, so
that a run without a warning is one that succeeded. -/
structure Run.Logged (text : Text) (r : Run) : Prop where
  progress : Script.CountsDown text text.length (r.statements.length + r.diagnostics.length)
    (r.lines.filter isProgress)
  warnings : r.lines.filter isWarning = r.diagnostics.map Diagnostic.warning
  silent : (∀ line ∈ r.lines, isWarning line = false) ↔ r.succeeded = true

namespace Script

variable {book : Rulebook}

/-- **The log and the run tell the same story.** With separators that separate, a run through any
script writes one block of lines for each of its iterations, what it writes about the remaining text
counts its outcomes, and its warnings are those of its diagnostics. -/
theorem run_logged (hSeparators : ∀ construct, (book construct).separator ≠ []) (script : Text) :
    ∃ r, run book script = .ok r ∧
      Told book (.ofText script) r.lines r.statements r.diagnostics ∧
      r.Logged (normalize script) := by
  obtain ⟨r, hRun, hTrace⟩ := exists_runFrom hSeparators (.ofText script)
  have hTold := hTrace.told
  rw [← runFrom_eq_ofSteps hRun] at hTold
  have hWarnings := hTold.warnings_eq
  refine ⟨r, hRun, hTold, hTold.countsDown, hWarnings, ?_⟩
  -- without warnings there are no diagnostics, and the other way round
  have hNone : (∀ line ∈ r.lines, isWarning line = false) ↔ r.lines.filter isWarning = [] := by
    simp [List.filter_eq_nil_iff]
  rw [hNone, hWarnings, List.map_eq_nil_iff, Run.succeeded, List.isEmpty_iff]

/-- A statement, a text that breaks off and one that opens no statement. -/
theorem run_logged_breaking :
    (∀ construct, (Rulebook.standard construct).separator ≠ []) ∧
      ∃ r, run Rulebook.standard "SET A = 1;\nCREATE VIEW v;BOGUS" = .ok r ∧
        (r.lines.filter isProgress).length = 3 ∧ r.succeeded = false ∧
        Told Rulebook.standard (.ofText "SET A = 1;\nCREATE VIEW v;BOGUS") r.lines r.statements
          r.diagnostics ∧
        r.Logged (normalize "SET A = 1;\nCREATE VIEW v;BOGUS") := by
  have hValue : (run Rulebook.standard "SET A = 1;\nCREATE VIEW v;BOGUS").toOption.map
      (fun r => ((r.lines.filter isProgress).length, r.succeeded)) = some (3, false) := by
    decide +kernel
  obtain ⟨r, hRun, hTold, hLogged⟩ :=
    run_logged Rulebook.standard_separator_ne_nil "SET A = 1;\nCREATE VIEW v;BOGUS"
  rw [hRun] at hValue
  obtain ⟨hCount, hFailed⟩ := Prod.mk.inj (Option.some.inj hValue)
  exact ⟨Rulebook.standard_separator_ne_nil, r, hRun, hCount, hFailed, hTold, hLogged⟩

end Script

end SchemaScript
