import SchemaScript.Proofs.Grammar.Alike
import SchemaScript.Proofs.Script.Trace

/-!
# Scripts under other rules

Rules for parameters cannot change the structure of what is read. If two rulebooks end parameters
at the same texts, the runs through a script take the same steps from the same places to the same
places, with the same diagnostics and with statements whose fixed parts are the same
(`Script.run_fixedPart`).

The two runs are followed side by side. A step does alike under both rulebooks, and stops where the
other one stops, so that the next steps start at the same place again.
-/

namespace SchemaScript

/-- A step without what rules decode. -/
def Step.fixedPart (s : Step) : Step := { s with outcome := s.outcome.fixedPart }

/-- The statements of the fixed parts are the fixed parts of the statements. -/
theorem filterMap_statement?_fixedPart (steps : List Step) :
    (steps.map Step.fixedPart).filterMap (fun s => s.outcome.statement?) =
      (steps.filterMap fun s => s.outcome.statement?).map Statement.fixedPart := by
  simp [List.filterMap_map, List.map_filterMap, Step.fixedPart, Function.comp_def]

/-- A diagnostic is all fixed. -/
theorem filterMap_diagnostic?_fixedPart (steps : List Step) :
    (steps.map Step.fixedPart).filterMap (fun s => s.outcome.diagnostic?) =
      steps.filterMap fun s => s.outcome.diagnostic? := by
  simp [List.filterMap_map, Step.fixedPart, Function.comp_def]

namespace Script

open Grammar

variable {book book' : Rulebook} {c stop final : Cursor} {steps : List Step}

/-- A step reads the same fixed part under both rulebooks, or skips the same text. -/
theorem step_fixedPart (hEnd : book.EndAlike book') {outcome : Outcome}
    (hStep : step book c = .ok (outcome, stop)) :
    ∃ outcome', step book' c = .ok (outcome', stop) ∧ outcome'.fixedPart = outcome.fixedPart := by
  have hAlike := alike_statement? hEnd c
  rcases step_cases hStep with ⟨s, hRead, rfl⟩ | ⟨left, cause, hSkip, hLeft⟩
  · rw [hRead] at hAlike
    obtain ⟨found, hRead', hSame⟩ := hAlike.exists_ok
    obtain ⟨s', rfl, hPart⟩ : ∃ s', found = some s' ∧ s'.fixedPart = s.fixedPart := by
      simpa using hSame.symm
    exact ⟨.statement s', step_of_some hRead', congrArg Outcome.statement hPart⟩
  · -- what is skipped does not depend on the rules
    refine ⟨outcome, ?_, rfl⟩
    rcases hLeft with ⟨hNone, rfl⟩ | ⟨m, hFail, rfl⟩
    · rw [hNone] at hAlike
      obtain ⟨found, hRead', hSame⟩ := hAlike.exists_ok
      obtain rfl : found = none := by simpa using hSame.symm
      exact (step_of_none hRead').trans (congrArg Except.ok hSkip)
    · rw [hFail] at hAlike
      exact (step_of_mismatch hAlike.eq_error).trans (congrArg Except.ok hSkip)

/-- The steps through a script are taken under both rulebooks. -/
theorem Trace.fixedPart (hEnd : book.EndAlike book') (hTrace : Trace book c steps final) :
    ∃ steps', Trace book' c steps' final ∧
      steps'.map Step.fixedPart = steps.map Step.fixedPart := by
  induction hTrace with
  | done hLast => exact ⟨[], .done hLast, rfl⟩
  | next hMore hStep hMoved _ ih =>
    -- each step stops at the same place under both rulebooks, so the next ones start alike
    obtain ⟨outcome', hStep', hPart⟩ := step_fixedPart hEnd hStep
    obtain ⟨later', hLater', hSame⟩ := ih
    refine ⟨_, .next hMore hStep' hMoved hLater', ?_⟩
    simp only [List.map_cons, hSame, Step.fixedPart, hPart]

/-- **Rules cannot change the structure of what is read.** Under two rulebooks that end parameters
alike, a script is read with the same success, the same diagnostics and, one by one, the same
statements but for what the rules decode. -/
theorem run_fixedPart (hEnd : book.EndAlike book') (script : Text) :
    ∃ r r', run book script = .ok r ∧ run book' script = .ok r' ∧
      r'.succeeded = r.succeeded ∧ r'.diagnostics = r.diagnostics ∧
      r'.statements.map Statement.fixedPart = r.statements.map Statement.fixedPart := by
  obtain ⟨r, hRun, hTrace⟩ := exists_runFrom hEnd.separator (.ofText script)
  obtain ⟨steps', hTrace', hSame⟩ := hTrace.fixedPart hEnd
  have hDiagnostics : (Run.ofSteps steps' r.final).diagnostics = r.diagnostics := by
    rw [Run.diagnostics_ofSteps, diagnostics_of_runFrom hRun, ← filterMap_diagnostic?_fixedPart,
      hSame, filterMap_diagnostic?_fixedPart]
  refine ⟨r, _, hRun, hTrace'.runFrom_eq, ?_, hDiagnostics, ?_⟩
  · unfold Run.succeeded
    rw [hDiagnostics]
  · rw [Run.statements_ofSteps, statements_of_runFrom hRun, ← filterMap_statement?_fixedPart,
      hSame, filterMap_statement?_fixedPart]

/-- Rules that tear parameters apart at other places than the standard ones do. -/
def tearingRules : Rulebook := fun _ =>
  { separator := "E", merger := ";", mergeKeys := ["", "O I"], optionKeys := ["", "UNIQU"] }

/-- An index and a table with a foreign key, whose parameters set what the grammar sets again, and a
text that is no statement between them. -/
def clashingScript : Text :=
  "CREATE UNIQUE INDEX i ON t (a ASC) UNIQUE NO INCLUDE( b );
  CREATE TABLE t IN d;
  ALTER TABLE t ADD CONSTRAINT k FOREIGN KEY (a , b) REFERENCES u (c) KEYS x REFERENCES y;"

/-- The two rulebooks read the script with different parameters, and with the same fixed parts. -/
theorem run_fixedPart_tearing :
    Rulebook.standard.EndAlike tearingRules ∧
      ∃ r r', run Rulebook.standard clashingScript = .ok r ∧
        run tearingRules clashingScript = .ok r' ∧ r.statements ≠ r'.statements ∧
        r'.succeeded = r.succeeded ∧ r'.diagnostics = r.diagnostics ∧
        r'.statements.map Statement.fixedPart = r.statements.map Statement.fixedPart := by
  have hEnd : Rulebook.standard.EndAlike tearingRules :=
    { terminator := Rulebook.standard_terminator
      separator := Rulebook.standard_separator_ne_nil
      separator' := fun _ => List.cons_ne_nil _ _ }
  have hDiffer : (run Rulebook.standard clashingScript).toOption.map Run.statements ≠
      (run tearingRules clashingScript).toOption.map Run.statements := by
    decide +kernel
  obtain ⟨r, r', hRun, hRun', hSame⟩ := run_fixedPart hEnd clashingScript
  rw [hRun, hRun'] at hDiffer
  exact ⟨hEnd, r, r', hRun, hRun', fun hEq => hDiffer (congrArg some hEq), hSame⟩

end Script

end SchemaScript
