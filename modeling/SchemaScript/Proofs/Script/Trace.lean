import Mathlib.Data.List.Pairwise
import SchemaScript.Proofs.Script.Step

/-!
# Traces of a run

A run goes on only behind a step that moved the cursor. `Trace` is the run without that check: the
steps follow one another until only blanks are left, and each of them has moved the cursor. Every
script has a trace if the separators separate (`exists_trace`), and a run tells nothing but the
trace (`Trace.runFrom_eq`).

What is known of a step is lifted to whole runs by induction on the trace.
-/

namespace SchemaScript

namespace Script

/-- The steps from a cursor to the end of the text. -/
inductive Trace (book : Rulebook) : Cursor → List Step → Cursor → Prop
  | done {c : Cursor} (hEnd : c.skipBlanks.rest = []) : Trace book c [] c.skipBlanks
  | next {c stop final : Cursor} {outcome : Outcome} {steps : List Step}
      (hMore : c.skipBlanks.rest ≠ [])
      (hStep : step book c.skipBlanks = .ok (outcome, stop))
      (hMoved : c.skipBlanks.pos < stop.pos)
      (hLater : Trace book stop steps final) :
      Trace book c (⟨c.skipBlanks, outcome, stop⟩ :: steps) final

variable {book : Rulebook} {c d final : Cursor} {steps : List Step}

/-- The blanks at the start do not matter. -/
theorem Trace.of_skipBlanks_eq (hTrace : Trace book c steps final)
    (hSame : c.skipBlanks = d.skipBlanks) : Trace book d steps final := by
  cases hTrace with
  | done hEnd =>
    rw [hSame] at hEnd ⊢
    exact .done hEnd
  | next hMore hStep hMoved hLater =>
    rw [hSame] at hMore hStep hMoved ⊢
    exact .next hMore hStep hMoved hLater

/-- A trace goes forward in one text. -/
theorem Trace.reaches (hTrace : Trace book c steps final) : c.Reaches final := by
  induction hTrace with
  | done _ => exact Cursor.reaches_skipBlanks _
  | next _ hStep _ _ ih =>
    exact ((Cursor.reaches_skipBlanks _).trans (step_reaches hStep)).trans ih

/-- It ends where no text is left. -/
theorem Trace.rest_final (hTrace : Trace book c steps final) : final.rest = [] := by
  induction hTrace with
  | done hEnd => exact hEnd
  | next _ _ _ _ ih => exact ih

theorem Trace.text_final (hTrace : Trace book c steps final) : final.text = c.text :=
  hTrace.reaches.text_eq

/-- A run takes the steps of the trace. -/
theorem Trace.runFrom_eq (hTrace : Trace book c steps final) :
    runFrom book c = .ok (.ofSteps steps final) := by
  induction hTrace with
  | done hEnd => exact runFrom_of_eq_nil hEnd
  | @next c stop final outcome steps hMore hStep hMoved _ ih =>
    -- the run checks that text was taken, and it was
    have hShorter := (step_reaches hStep).pos_lt_iff.mp hMoved
    have hSkip := (Cursor.reaches_skipBlanks c).length_le
    rw [runFrom_of_step hMore hStep (by omega), ih]
    rfl

/-- With separators that separate, the steps come to the end of the text. -/
theorem exists_trace (hSeparators : ∀ construct, (book construct).separator ≠ []) (c : Cursor) :
    ∃ steps final, Trace book c steps final := by
  -- each step leaves less text ahead
  induction hLength : c.rest.length using Nat.strong_induction_on generalizing c with
  | h length ih =>
    by_cases hEnd : c.skipBlanks.rest = []
    · exact ⟨[], _, .done hEnd⟩
    · obtain ⟨outcome, stop, hStep⟩ := step_eq_ok hSeparators c.skipBlanks
      have hMoved := step_moves hEnd hStep
      have hShorter := (step_reaches hStep).pos_lt_iff.mp hMoved
      have hSkip := (Cursor.reaches_skipBlanks c).length_le
      obtain ⟨steps, final, hLater⟩ := ih stop.rest.length (by omega) stop rfl
      exact ⟨_, final, .next hEnd hStep hMoved hLater⟩

/-- With separators that separate, there is a run from everywhere, and its steps are a trace. -/
theorem exists_runFrom (hSeparators : ∀ construct, (book construct).separator ≠ []) (c : Cursor) :
    ∃ r, runFrom book c = .ok r ∧ Trace book c r.steps r.final := by
  obtain ⟨steps, final, hTrace⟩ := exists_trace hSeparators c
  refine ⟨_, hTrace.runFrom_eq, ?_⟩
  rwa [Run.steps_ofSteps, Run.final_ofSteps]

/-- With separators that separate, a run has a trace. -/
theorem trace_of_runFrom (hSeparators : ∀ construct, (book construct).separator ≠ []) {r : Run}
    (hRun : runFrom book c = .ok r) : Trace book c r.steps r.final := by
  obtain ⟨r', hRun', hTrace⟩ := exists_runFrom hSeparators c
  obtain rfl : r' = r := Except.ok.inj (hRun'.symm.trans hRun)
  exact hTrace

/-- Each step of a trace moves the cursor. -/
theorem Trace.start_lt_stop (hTrace : Trace book c steps final) :
    ∀ s ∈ steps, s.start.pos < s.stop.pos := by
  induction hTrace with
  | done _ =>
    intro s hMem
    cases hMem
  | next _ _ hMoved _ ih =>
    intro s hMem
    rcases List.mem_cons.mp hMem with rfl | hLater
    · exact hMoved
    · exact ih s hLater

end Script

/-! ## The steps of a trace -/

/-- An outcome has a statement exactly if it is one. -/
theorem Outcome.statement?_eq_some_iff {o : Outcome} {s : Statement} :
    o.statement? = some s ↔ o = .statement s := by
  cases o <;> simp [Outcome.statement?]

/-- Whether a step was taken where a character stands that is no blank. -/
structure Step.Taken (book : Rulebook) (s : Step) : Prop where
  atCharacter : s.start.skipBlanks = s.start
  more : s.start.rest ≠ []
  step_eq : Script.step book s.start = .ok (s.outcome, s.stop)

/-- Whether one of two steps starts at the place where the other one stopped, or further on. -/
def Step.Apart (s s' : Step) : Prop := s.stop.Reaches s'.start ∨ s'.stop.Reaches s.start

instance : Std.Symm Step.Apart := ⟨fun _ _ => Or.symm⟩

namespace Script

variable {book : Rulebook} {c final : Cursor} {steps : List Step}

/-- Every step of a trace was taken at a character. -/
theorem Trace.taken (hTrace : Trace book c steps final) : ∀ s ∈ steps, s.Taken book := by
  induction hTrace with
  | done _ =>
    intro s hMem
    cases hMem
  | next hMore hStep _ _ ih =>
    intro s hMem
    rcases List.mem_cons.mp hMem with rfl | hLater
    · exact ⟨Cursor.skipBlanks_skipBlanks _, hMore, hStep⟩
    · exact ih s hLater

/-- Every step starts at the place where the trace does or further on. -/
theorem Trace.reaches_start (hTrace : Trace book c steps final) :
    ∀ s ∈ steps, c.Reaches s.start := by
  induction hTrace with
  | done _ =>
    intro s hMem
    cases hMem
  | @next c _ _ _ _ _ hStep _ _ ih =>
    intro s hMem
    have hSkip := Cursor.reaches_skipBlanks c
    rcases List.mem_cons.mp hMem with rfl | hLater
    · exact hSkip
    · exact (hSkip.trans (step_reaches hStep)).trans (ih s hLater)

/-- A step starts at the place where an earlier one stopped, or further on. -/
theorem Trace.pairwise_reaches (hTrace : Trace book c steps final) :
    steps.Pairwise fun s s' => s.stop.Reaches s'.start := by
  induction hTrace with
  | done _ => exact List.Pairwise.nil
  | next _ _ _ hLater ih => exact List.pairwise_cons.mpr ⟨hLater.reaches_start, ih⟩

/-- Two steps of a trace do not meet. -/
theorem Trace.apart {s s' : Step} (hTrace : Trace book c steps final) (hMem : s ∈ steps)
    (hMem' : s' ∈ steps) (hOther : s ≠ s') : s.Apart s' :=
  (hTrace.pairwise_reaches.imp (S := Step.Apart) Or.inl).forall hMem hMem' hOther

end Script

end SchemaScript
