import SchemaScript.Proofs.Cursor.Reads
import SchemaScript.Proofs.Parameters.Rulebook
import SchemaScript.Proofs.Script.Continuation
import SchemaScript.Proofs.Script.Shift

/-!
# Scripts one after the other

A script that ends with a line and is read without a diagnostic can be put before any other script
that does not start with a semicolon: the statements of both are read, and the diagnostics are those
of the second one, told for their places in the whole (`run_append`).

Two facts make it up. What is read in the first script is settled there, and so it is read in the
same way when the text goes on (`Trace.extend`); and the second script is read behind the first one
as it is read alone, but for positions (`Trace.shift`).
-/

namespace SchemaScript

open Cursor Text

namespace Script

variable {u : Text} {steps steps' : List Step}

/-! ## What a longer text keeps of steps -/

/-- A step that goes on as before reads the same statement. -/
theorem statements_of_continues (hSame : List.Forall₂ (Continues u) steps steps') :
    steps'.filterMap (fun s => s.outcome.statement?) =
      steps.filterMap (fun s => s.outcome.statement?) := by
  induction hSame with
  | nil => rfl
  | @cons s s' steps steps' hStep _ ih =>
    have hStatement := congrArg Outcome.statement? hStep.outcome
    rw [Outcome.statement?_withoutContext, Outcome.statement?_withoutContext] at hStatement
    rw [List.filterMap_cons, List.filterMap_cons, hStatement, ih]

/-- It gives the same diagnostic, but for the context, which may reach into the text behind. -/
theorem diagnostics_of_continues (hSame : List.Forall₂ (Continues u) steps steps') :
    (steps'.filterMap fun s => s.outcome.diagnostic?).map Diagnostic.withoutContext =
      (steps.filterMap fun s => s.outcome.diagnostic?).map Diagnostic.withoutContext := by
  induction hSame with
  | nil => rfl
  | @cons s s' steps steps' hStep _ ih =>
    have hDiagnostic := congrArg Outcome.diagnostic? hStep.outcome
    rw [Outcome.diagnostic?_withoutContext, Outcome.diagnostic?_withoutContext] at hDiagnostic
    rw [List.filterMap_cons, List.filterMap_cons]
    -- a diagnostic stays one, and a statement stays none
    cases hFirst : s.outcome.diagnostic? with
    | none =>
      rw [hFirst, Option.map_none, Option.map_eq_none_iff] at hDiagnostic
      rw [hDiagnostic]
      exact ih
    | some d =>
      rw [hFirst] at hDiagnostic
      obtain ⟨d', hSecond, hContext⟩ := Option.map_eq_some_iff.mp hDiagnostic
      rw [hSecond, List.map_cons, List.map_cons, hContext, ih]

/-- Moving the steps does not touch the statements. -/
theorem statements_shift (before : Text) (steps : List Step) :
    (steps.map (Step.shift before)).filterMap (fun s => s.outcome.statement?) =
      steps.filterMap fun s => s.outcome.statement? := by
  rw [List.filterMap_map]
  congr 1
  funext s
  exact Outcome.statement?_shift before.length s.outcome

/-- Moving the steps moves the diagnostics. -/
theorem diagnostics_shift (before : Text) (steps : List Step) :
    (steps.map (Step.shift before)).filterMap (fun s => s.outcome.diagnostic?) =
      (steps.filterMap fun s => s.outcome.diagnostic?).map (Diagnostic.shift before.length) := by
  rw [List.filterMap_map, List.map_filterMap]
  congr 1
  funext s
  exact Outcome.diagnostic?_shift before.length s.outcome

/-! ## Scripts -/

/-- A script behind one that ends with a line is normalized by itself. -/
theorem ofText_append {a : Text} (hLine : EndsLine a) (b : Text) :
    Cursor.ofText (a ++ b) = (Cursor.ofText a).extend (normalize b) := by
  unfold ofText extend
  rw [normalize_append hLine]

/-- A script behind a text is the script moved to the end of the text. -/
theorem shift_ofText (before b : Text) :
    (Cursor.ofText b).shift before = ⟨before.reverse, normalize b⟩ := rfl

/-- A script that opens with a statement is read as that statement and then as what stands behind
it, blanks apart. -/
theorem run_of_reads_first {book : Rulebook}
    (hSeparators : ∀ construct, (book construct).separator ≠ []) {script before behind left : Text}
    {s : Statement} (hSplit : normalize script = before ++ normalize behind)
    (hStart : ∃ c t, normalize script = c :: t ∧ isBlank c = false)
    (hReads : Reads (Grammar.statement? book) (normalize script) (some s) left)
    (hLeft : left.dropWhile isBlank = (normalize behind).dropWhile isBlank) :
    ∃ r later, run book script = .ok r ∧ run book behind = .ok later ∧
      r.statements = s :: later.statements ∧
      r.diagnostics = later.diagnostics.map (Diagnostic.shift before.length) := by
  obtain ⟨c, t, hText, hBlank⟩ := hStart
  have hSkip : (Cursor.ofText script).skipBlanks = Cursor.ofText script :=
    skipBlanks_of_nonblank hText hBlank
  have hMore : (Cursor.ofText script).skipBlanks.rest ≠ [] := by
    rw [hSkip, show (Cursor.ofText script).rest = c :: t from hText]
    exact List.cons_ne_nil c t
  obtain ⟨seen, hRead⟩ := hReads []
  have hStep : step book (Cursor.ofText script) = .ok (.statement s, ⟨seen, left⟩) :=
    step_of_some hRead
  obtain ⟨steps, final, hTrace⟩ := exists_trace hSeparators (Cursor.ofText behind)
  -- behind the statement stands the other script, moved to that place
  have hPlace : ((Cursor.ofText behind).shift before).skipBlanks = skipBlanks ⟨seen, left⟩ := by
    have hReach : (Cursor.ofText script).Reaches ⟨seen, left⟩ := step_reaches hStep
    have hWhole : (Cursor.mk seen left).text = normalize script := hReach.text_eq
    refine eq_of_text_eq ?_ ?_
    · rw [text_skipBlanks, text_skipBlanks, hWhole, hSplit, shift_ofText, text,
        List.reverse_reverse]
    · rw [rest_skipBlanks, rest_skipBlanks, hLeft, shift_ofText]
  have hLater := (hTrace.shift before).of_skipBlanks_eq hPlace
  rw [← hSkip] at hStep
  have hAll := Trace.next hMore hStep (step_moves hMore hStep) hLater
  refine ⟨_, _, hAll.runFrom_eq, hTrace.runFrom_eq, ?_, ?_⟩
  · rw [Run.statements_ofSteps, Run.statements_ofSteps]
    exact congrArg (s :: ·) (statements_shift before steps)
  · rw [Run.diagnostics_ofSteps, Run.diagnostics_ofSteps]
    exact diagnostics_shift before steps

/-- The runs through two scripts, where the diagnostics of the first one are closed in it, make up a
run through both. -/
theorem exists_run_append {a b : Text} {ra : Run} (hLine : EndsLine a)
    (hRun : run Rulebook.standard a = .ok ra)
    (hClosed : ∀ d ∈ ra.diagnostics, d.ClosedIn (normalize a))
    (hNext : (b.dropWhile isBlank).head? ≠ some ';') :
    ∃ rb r before, run Rulebook.standard b = .ok rb ∧
      run Rulebook.standard (a ++ b) = .ok r ∧
      r.steps = before ++ rb.steps.map (Step.shift (normalize a)) ∧
      List.Forall₂ (Continues (normalize b)) ra.steps before := by
  have hTrace := trace_of_runFrom Rulebook.standard_separator_ne_nil hRun
  obtain ⟨rb, hRunB, hTraceB⟩ :=
    exists_runFrom Rulebook.standard_separator_ne_nil (Cursor.ofText b)
  have hText : (Cursor.ofText a).text = normalize a := rfl
  -- the second trace starts where the text of the first one ends
  have hLater := hTraceB.shift (normalize a)
  rw [shift_ofText, ← hText] at hLater
  have hNextNormal : ((normalize b).dropWhile isBlank).head? ≠ some ';' := by
    rwa [head?_dropWhile_normalize]
  -- the diagnostics of a run are those of its steps
  have hClosedSteps : ∀ s ∈ ra.steps, ∀ d, s.outcome.diagnostic? = some d →
      d.ClosedIn (Cursor.ofText a).text := by
    intro s hMem d hDiagnostic
    refine hClosed d ?_
    rw [diagnostics_of_runFrom hRun]
    exact List.mem_filterMap.mpr ⟨s, hMem, hDiagnostic⟩
  obtain ⟨before, hAll, hSame⟩ := hTrace.extend Rulebook.standard_terminator
    (endsLine_normalize hLine) hNextNormal hClosedSteps hLater
  rw [← ofText_append hLine] at hAll
  exact ⟨rb, _, before, hRunB, hAll.runFrom_eq, Run.steps_ofSteps, hSame⟩

/-- **Scripts compose.** A script that ends with a line and is read with success, followed by a
script that does not start with a semicolon, gives the statements of both, and the diagnostics of
the second one, their positions and those of their causes being behind the first one. -/
theorem run_append {a b : Text} {ra : Run} (hLine : EndsLine a)
    (hRun : run Rulebook.standard a = .ok ra) (hRead : ra.succeeded = true)
    (hNext : (b.dropWhile isBlank).head? ≠ some ';') :
    ∃ rb r, run Rulebook.standard b = .ok rb ∧ run Rulebook.standard (a ++ b) = .ok r ∧
      r.statements = ra.statements ++ rb.statements ∧
      r.diagnostics = rb.diagnostics.map (Diagnostic.shift (normalize a).length) := by
  have hNone : ra.diagnostics = [] := List.isEmpty_iff.mp hRead
  have hClosed : ∀ d ∈ ra.diagnostics, d.ClosedIn (normalize a) := by
    intro d hMem
    rw [hNone] at hMem
    cases hMem
  obtain ⟨rb, r, before, hRunB, hRunAll, hSteps, hSame⟩ :=
    exists_run_append hLine hRun hClosed hNext
  -- the steps of the first run give its statements, and no diagnostic as before
  refine ⟨rb, r, hRunB, hRunAll, ?_, ?_⟩
  · rw [statements_of_runFrom hRunAll, statements_of_runFrom hRun, statements_of_runFrom hRunB,
      hSteps, List.filterMap_append, statements_of_continues hSame, statements_shift]
  · have hBefore := diagnostics_of_continues hSame
    rw [← diagnostics_of_runFrom hRun, hNone, List.map_nil, List.map_eq_nil_iff] at hBefore
    rw [diagnostics_of_runFrom hRunAll, diagnostics_of_runFrom hRunB, hSteps, List.filterMap_append,
      hBefore, diagnostics_shift, List.nil_append]

/-- A script that ends with a comment before one that breaks off. -/
theorem run_append_comment :
    ∃ ra rb r, EndsLine "SET A = 1;\n-- done\n" ∧
      run Rulebook.standard "SET A = 1;\n-- done\n" = .ok ra ∧ ra.succeeded = true ∧
      (("\n CREATE VIEW v;" : Text).dropWhile isBlank).head? ≠ some ';' ∧
      run Rulebook.standard "\n CREATE VIEW v;" = .ok rb ∧
      run Rulebook.standard (("SET A = 1;\n-- done\n" : Text) ++ "\n CREATE VIEW v;") = .ok r ∧
      r.statements = ra.statements ++ rb.statements ∧
      r.diagnostics = rb.diagnostics.map (Diagnostic.shift 19) := by
  -- the run is evaluated once, to see that it succeeds
  have hValue : (run Rulebook.standard "SET A = 1;\n-- done\n").toOption.map Run.succeeded =
      some true := by
    decide +kernel
  cases hRun : run Rulebook.standard "SET A = 1;\n-- done\n" with
  | error e =>
    rw [hRun] at hValue
    cases hValue
  | ok ra =>
    rw [hRun] at hValue
    have hRead : ra.succeeded = true := Option.some.inj hValue
    have hLine : EndsLine "SET A = 1;\n-- done\n" := rfl
    have hNext : (("\n CREATE VIEW v;" : Text).dropWhile isBlank).head? ≠ some ';' := by decide
    obtain ⟨rb, r, hRunB, hRunAll, hStatements, hDiagnostics⟩ :=
      run_append hLine hRun hRead hNext
    exact ⟨ra, rb, r, hLine, rfl, hRead, hNext, hRunB, hRunAll, hStatements, hDiagnostics⟩

end Script

end SchemaScript
