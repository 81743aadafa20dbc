import SchemaScript.Proofs.Grammar.Rebroken
import SchemaScript.Proofs.Script.Continuation

/-!
# Scripts with other line breaks

A line feed is as good as a space. Two scripts that differ in line breaks alone are read to the same
statements, and their diagnostics tell of the same places (`Script.run_rebroken`). What diagnostics
show of the text may differ, since it is not trimmed.

The runs are followed side by side, each step from the same place of both texts.
-/

namespace SchemaScript.Script

open Text Reader Grammar

variable {s t : Text} {c stop final : Cursor} {steps : List Step} {outcome : Outcome}

theorem skipStatement_rebroken (hRebroken : Rebroken s t) (hText : c.text = s)
    (cause : Option Mismatch) :
    skipStatement cause (c.inText t) =
      Prod.map id (Cursor.inText t) (skipStatement cause c) := by
  have hLength : t.length = c.text.length := by rw [hRebroken.length_eq, hText]
  have hSkip : (c.inText t).takeUntilOrRest ";" true =
      Prod.map id (Cursor.inText t) (c.takeUntilOrRest ";" true) :=
    Cursor.takeUntilOrRest_inText hRebroken hText (by decide) true
  rw [skipStatement_eq, skipStatement_eq, hSkip, Cursor.pos_inText hLength]
  rfl

/-- A step ends with the same outcome at the same place of both texts, but for what it shows of
them. -/
theorem step_rebroken (hRebroken : Rebroken s t) (hText : c.text = s)
    (hStep : step Rulebook.standard c = .ok (outcome, stop)) :
    ∃ outcome', step Rulebook.standard (c.inText t) = .ok (outcome', stop.inText t) ∧
      outcome'.withoutContext = outcome.withoutContext := by
  have hRead' := statement?_rebroken hRebroken hText
  rcases step_cases hStep with ⟨x, hRead, rfl⟩ | ⟨left, cause, hSkip, hLeft⟩
  · rw [hRead] at hRead'
    exact ⟨.statement x, step_of_some hRead', rfl⟩
  · have hLeftText : left.text = s := by rw [(reaches_left hLeft).text_eq, hText]
    have hSkip' := skipStatement_rebroken hRebroken hLeftText
    rcases hLeft with ⟨hNone, rfl⟩ | ⟨m, hFail, rfl⟩
    · rw [hNone] at hRead'
      refine ⟨outcome, (step_of_none hRead').trans ?_, rfl⟩
      rw [hSkip', hSkip]
      rfl
    · rw [hFail] at hRead'
      -- the mismatch is told for the same place, and shows the text behind it
      have hLength : t.length = left.text.length := by rw [hRebroken.length_eq, hLeftText]
      have hPlace : m.position = (left.inText t).pos := by
        rw [Cursor.pos_inText hLength]
        exact congrArg Mismatch.position (statement?_halt hFail).1
      have hOutcome := skipStatement_withoutContext m (left.inText t) (left.inText t) hPlace
      rw [hSkip' (some m), hSkip] at hOutcome
      refine ⟨_, (step_of_mismatch hRead').trans (congrArg Except.ok (Prod.ext rfl ?_)), hOutcome⟩
      -- where skipping ends does not depend on the cause
      rw [hSkip']
      exact congrArg (Cursor.inText t) (congrArg Prod.snd hSkip)

/-- The steps through a text are taken at the same places of the other one. -/
theorem Trace.rebroken (hRebroken : Rebroken s t)
    (hTrace : Trace Rulebook.standard c steps final) (hText : c.text = s) :
    ∃ steps', Trace Rulebook.standard (c.inText t) steps' (final.inText t) ∧
      steps'.map (fun x => x.outcome.withoutContext) =
        steps.map fun x => x.outcome.withoutContext := by
  have hLength : ∀ d : Cursor, d.text = s → (d.inText t).pos = d.pos := by
    intro d hHere
    exact Cursor.pos_inText (by rw [hRebroken.length_eq, hHere])
  induction hTrace with
  | @done c hEnd =>
    have hNext : c.skipBlanks.text = s := c.text_skipBlanks.trans hText
    have hEnd' := (Cursor.rest_inText_eq_nil_iff hRebroken.same hNext).mpr hEnd
    rw [← Cursor.skipBlanks_inText hRebroken.same hText] at hEnd' ⊢
    exact ⟨[], .done hEnd', rfl⟩
  | @next c stop final outcome steps hMore hStep hMoved _ ih =>
    have hNext : c.skipBlanks.text = s := c.text_skipBlanks.trans hText
    have hStopText : stop.text = s := by rw [(step_reaches hStep).text_eq, hNext]
    have hSkip := Cursor.skipBlanks_inText hRebroken.same hText
    have hMore' := (Cursor.rest_inText_eq_nil_iff hRebroken.same hNext).not.mpr hMore
    -- the steps match one by one, since each stops at the same position
    obtain ⟨outcome', hStep', hOutcome⟩ := step_rebroken hRebroken hNext hStep
    obtain ⟨later', hLater', hOutcomes⟩ := ih hStopText
    rw [← hSkip] at hMore' hStep'
    refine ⟨_, .next hMore' hStep' ?_ hLater', ?_⟩
    · rw [hSkip, hLength _ hNext, hLength _ hStopText]
      exact hMoved
    · rw [List.map_cons, List.map_cons, hOutcome, hOutcomes]

/-- **Line breaks are as good as spaces.** Two scripts that differ in line breaks alone are read
with the same success and to the same statements, and their diagnostics are the same but for what
they show of the text. -/
theorem run_rebroken (hRebroken : Rebroken s t) :
    ∃ r r', run Rulebook.standard s = .ok r ∧ run Rulebook.standard t = .ok r' ∧
      r'.succeeded = r.succeeded ∧ r'.statements = r.statements ∧
      r'.diagnostics.map Diagnostic.withoutContext =
        r.diagnostics.map Diagnostic.withoutContext := by
  -- both scripts are normalized already, so positions are those of the scripts
  have hStart : Cursor.ofText s = ⟨[], s⟩ := by
    rw [Cursor.ofText, normalize_of_spaced hRebroken.lone.spaced]
  have hStart' : Cursor.ofText t = (Cursor.ofText s).inText t := by
    rw [Cursor.ofText, normalize_of_spaced hRebroken.lone'.spaced, hStart]
    rfl
  obtain ⟨steps, final, hTrace⟩ := exists_trace Rulebook.standard_separator_ne_nil (.ofText s)
  obtain ⟨steps', hTrace', hSame⟩ := hTrace.rebroken hRebroken (by rw [hStart]; rfl)
  rw [← hStart'] at hTrace'
  have hStatements : (Run.ofSteps steps' (final.inText t)).statements =
      (Run.ofSteps steps final).statements := by
    have hRead := congrArg (List.filterMap Outcome.statement?) hSame
    rw [Run.statements_ofSteps, Run.statements_ofSteps]
    simpa [List.filterMap_map, Function.comp_def] using hRead
  have hDiagnostics :
      (Run.ofSteps steps' (final.inText t)).diagnostics.map Diagnostic.withoutContext =
        (Run.ofSteps steps final).diagnostics.map Diagnostic.withoutContext := by
    have hSkipped := congrArg (List.filterMap Outcome.diagnostic?) hSame
    rw [Run.diagnostics_ofSteps, Run.diagnostics_ofSteps]
    simpa [List.filterMap_map, List.map_filterMap, Function.comp_def] using hSkipped
  refine ⟨_, _, hTrace.runFrom_eq, hTrace'.runFrom_eq, ?_, hStatements, hDiagnostics⟩
  simpa [Run.succeeded] using congrArg List.isEmpty hDiagnostics

/-- A table with parameters, and a text that is no statement, on one line. -/
def longLine : Text := "CREATE TABLE t (a INT NOT NULL) IN d DATA CAPTURE NONE; NO STATEMENT;"

/-- The same words on many lines. -/
def shortLines : Text :=
  "CREATE\nTABLE t\n(a INT\nNOT NULL) IN\nd DATA\nCAPTURE NONE;\nNO\nSTATEMENT;"

theorem run_rebroken_shortLines :
    longLine ≠ shortLines ∧ Rebroken longLine shortLines ∧
      ∃ r r', run Rulebook.standard longLine = .ok r ∧ run Rulebook.standard shortLines = .ok r' ∧
        r'.succeeded = r.succeeded ∧ r'.statements = r.statements ∧
        r'.diagnostics.map Diagnostic.withoutContext =
          r.diagnostics.map Diagnostic.withoutContext := by
  have hRebroken : Rebroken longLine shortLines :=
    { same := by decide +kernel
      lone := by decide +kernel
      lone' := by decide +kernel
      noComment := by decide +kernel
      pairs := by decide +kernel }
  exact ⟨by decide +kernel, hRebroken, run_rebroken hRebroken⟩

end SchemaScript.Script
