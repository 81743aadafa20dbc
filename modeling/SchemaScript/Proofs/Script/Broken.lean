import SchemaScript.Proofs.Grammar.Broken
import SchemaScript.Proofs.Script.Termination

/-!
# Runs on both sides of a break

A script that is read without diagnostics is compared with a text in which a line feed takes the
place of one space. Every step before the break is taken in both texts (`Trace.exchange`), and if
the step with the break ends at the same place, so is every step behind it (`Trace.behind`). So only
the step with the break is read anew (`exists_run_of_broken`), and what becomes of it is for the
grammar to say.
-/

namespace SchemaScript

open Text Reader Grammar

/-- The step at the same places of another text, with the same outcome. -/
def Step.inText (t : Text) (x : Step) : Step := ⟨x.start.inText t, x.outcome, x.stop.inText t⟩

/-! ## Statements and steps -/

namespace Grammar

variable {n : Nat} {s t : Text} {c : Cursor} (hBroken : BrokenAt n s t)
include hBroken

/-- A comment that ends before the break ends at a line feed, and so it does in both texts. -/
theorem readsBefore_comment : ReadsBefore n s t comment := by
  intro c x d hText hRead hBefore
  have hLine : '\n' ∈ c.rest := by
    by_contra hNone
    -- the comment would be all that is left, and the break with it
    have hTake : c.takeUntilOrRest "\n" false = c.takeRest :=
      Cursor.takeUntilOrRest_of_not_mem hNone false
    rw [comment_apply, hTake] at hRead
    cases hRead
    have hWithin := (List.getElem?_eq_some_iff.mp hBroken.space).1
    have hSum := c.pos_add_remaining
    simp only [Cursor.takeRest, Cursor.pos_advance, Nat.min_self] at hBefore
    rw [hText, Cursor.remaining] at hSum
    omega
  obtain ⟨found, behind, hRest, hFirst⟩ := List.eq_append_cons_of_mem hLine
  have hEnd : ∀ behind : Text, ('\n' :: behind) = [] ∨ ('\n' :: behind).head? = some '\n' :=
    fun _ => Or.inr rfl
  have hTake := Cursor.takeUntilOrRest_line hFirst (hEnd behind) hRest
  have hPlace := Cursor.advance_of_append hRest
  rw [← hPlace] at hTake
  rw [comment_apply, hTake] at hRead
  cases hRead
  have hWithin : found.length ≤ c.rest.length := by
    rw [hRest, List.length_append]
    omega
  rw [Cursor.pos_advance, Nat.min_eq_left hWithin] at hBefore
  obtain ⟨behind', hRest'⟩ :=
    Cursor.exists_rest_inText hBroken hText hRest (by decide) hBefore
  have hTake' := Cursor.takeUntilOrRest_line hFirst (hEnd behind') hRest'
  rw [← Cursor.advance_of_append hRest', Cursor.advance_inText t hWithin] at hTake'
  rw [comment_apply, hTake']

/-- A statement that ends before the break is read in both texts. -/
theorem readsBefore_statement? : ReadsBefore n s t (statement? Rulebook.standard) := by
  have hProbe : Composed Rulebook.standard (Reader.accept "--") := .accept rfl
  have hComment : ReadsBefore n s t (comment >>= fun x => pure (some x)) := by
    refine .bind (fun c => reaches_takeUntilOrRest "\n" false c) (fun _ c => .refl c)
      (readsBefore_comment hBroken) fun _ => .of_carry fun _ _ => rfl
  rw [statement?_eq]
  -- the probe for a comment is a part of its own, and a comment is no composed reader
  refine .bind hProbe.reaches (fun found c => ?_) (hProbe.before hBroken) fun found => ?_
  · cases found with
    | true =>
      show c.Reaches (stop (comment >>= fun x => pure (some x)) c)
      rw [stop_map]
      exact reaches_takeUntilOrRest "\n" false c
    | false => exact composed_directive?.reaches c
  · cases found with
    | true => exact hComment
    | false => exact composed_directive?.before hBroken

/-- A statement that starts behind the break is read in both texts. -/
theorem statement?_behind (hText : c.text = s) (hBehind : n < c.pos) :
    statement? Rulebook.standard (c.inText t) =
      carry (Cursor.inText t) (statement? Rulebook.standard c) :=
  behind_of_shift hBroken (statement?_shift _) (reaches_stop_statement? _) hText hBehind

end Grammar

namespace Script

variable {n : Nat} {s t : Text} {c stop final : Cursor} {steps : List Step} {x : Step}

/-- A step at the same place of the other text comes before those behind it there. -/
theorem Trace.next_inText (hBroken : BrokenAt n s t) {outcome : Outcome} (hText : c.text = s)
    (hMore : c.skipBlanks.rest ≠ [])
    (hStep : step Rulebook.standard (c.skipBlanks.inText t) = .ok (outcome, stop))
    (hLater : Trace Rulebook.standard stop steps final) :
    Trace Rulebook.standard (c.inText t) (⟨c.skipBlanks.inText t, outcome, stop⟩ :: steps)
      final := by
  have hNext : c.skipBlanks.text = s := c.text_skipBlanks.trans hText
  have hMore' := (Cursor.rest_inText_eq_nil_iff hBroken.same hNext).not.mpr hMore
  have hMoved := step_moves hMore' hStep
  rw [← Cursor.skipBlanks_inText hBroken.same hText] at hMore' hStep hMoved ⊢
  exact .next hMore' hStep hMoved hLater

/-- Behind the break the steps of a run without diagnostics are the same in both texts. -/
theorem Trace.behind (hBroken : BrokenAt n s t) (hTrace : Trace Rulebook.standard c steps final)
    (hText : c.text = s) (hBehind : n < c.pos)
    (hRead : ∀ x ∈ steps, ∃ y, x.outcome = .statement y) :
    Trace Rulebook.standard (c.inText t) (steps.map (Step.inText t)) (final.inText t) := by
  induction hTrace with
  | @done c hEnd =>
    have hNext : c.skipBlanks.text = s := c.text_skipBlanks.trans hText
    rw [List.map_nil, ← Cursor.skipBlanks_inText hBroken.same hText]
    refine .done ?_
    rwa [Cursor.skipBlanks_inText hBroken.same hText,
      Cursor.rest_inText_eq_nil_iff hBroken.same hNext]
  | @next c stop final outcome steps hMore hStep _ _ ih =>
    have hNext : c.skipBlanks.text = s := c.text_skipBlanks.trans hText
    have hBehind' := hBehind.trans_le (Cursor.reaches_skipBlanks c).pos_le
    have hReach := step_reaches hStep
    obtain ⟨y, hStatement⟩ := hRead _ (List.mem_cons_self ..)
    cases hStatement
    have hRead' := statement?_behind hBroken hNext hBehind'
    rw [statement?_of_step hStep] at hRead'
    -- the next step starts behind this one, and so behind the break
    have hLater := ih (hReach.text_eq.trans hNext) (hBehind'.trans_le hReach.pos_le)
      fun x hMem => hRead x (List.mem_cons_of_mem _ hMem)
    exact .next_inText hBroken hText hMore (step_of_some hRead') hLater

/-- If the steps before a step are read in both texts, the run through the other text takes them
too, and what follows it does from there. -/
theorem Trace.exchange (hBroken : BrokenAt n s t) {earlier later later' : List Step}
    {outcome : Outcome} {stop' final' : Cursor}
    (hTrace : Trace Rulebook.standard c (earlier ++ x :: later) final) (hText : c.text = s)
    (hRead : ∀ x ∈ earlier, ∃ y, x.outcome = .statement y) (hBefore : x.start.pos ≤ n)
    (hStep : step Rulebook.standard (x.start.inText t) = .ok (outcome, stop'))
    (hLater : Trace Rulebook.standard stop' later' final') :
    Trace Rulebook.standard (c.inText t)
      (earlier.map (Step.inText t) ++ ⟨x.start.inText t, outcome, stop'⟩ :: later') final' := by
  induction earlier generalizing c with
  | nil =>
    cases hTrace with
    | next hMore _ _ _ => exact .next_inText hBroken hText hMore hStep hLater
  | cons first earlier ih =>
    cases hTrace with
    | next hMore hFirst _ hTrace =>
      have hNext : c.skipBlanks.text = s := c.text_skipBlanks.trans hText
      obtain ⟨y, hStatement⟩ := hRead _ (List.mem_cons_self ..)
      cases hStatement
      -- the first step ends before the break, since a later one starts there
      have hEnd := (hTrace.reaches_start x (by simp)).pos_le.trans hBefore
      have hFirst' :=
        readsBefore_statement? hBroken _ _ _ hNext (statement?_of_step hFirst) hEnd
      have hSteps := ih hTrace ((step_reaches hFirst).text_eq.trans hNext)
        fun x hMem => hRead x (List.mem_cons_of_mem _ hMem)
      exact .next_inText hBroken hText hMore (step_of_some hFirst') hSteps

/-! ### What was read -/

/-- Behind one of its steps a run goes on with the later ones. -/
theorem Trace.of_append {book : Rulebook} {c final : Cursor} {earlier later : List Step} {x : Step}
    (hTrace : Trace book c (earlier ++ x :: later) final) : Trace book x.stop later final := by
  induction earlier generalizing c with
  | nil =>
    cases hTrace with
    | next _ _ _ hLater => exact hLater
  | cons first earlier ih =>
    cases hTrace with
    | next _ _ _ hLater => exact ih hLater

/-- A run without diagnostics read a statement in each step. -/
theorem diagnostics_eq_nil_iff {book : Rulebook} {c : Cursor} {r : Run}
    (hRun : runFrom book c = .ok r) :
    r.diagnostics = [] ↔ ∀ x ∈ r.steps, ∃ y, x.outcome = .statement y := by
  have hStep : ∀ x : Step, x.outcome.diagnostic? = none ↔ ∃ y, x.outcome = .statement y := by
    intro x
    cases x.outcome <;> simp [Outcome.diagnostic?]
  simp only [diagnostics_of_runFrom hRun, List.filterMap_eq_nil_iff, hStep]

/-- What is read in one text is read in the other one as well. -/
theorem exists_statement_inText {steps : List Step} (t : Text)
    (hRead : ∀ x ∈ steps, ∃ y, x.outcome = .statement y) :
    ∀ x ∈ steps.map (Step.inText t), ∃ y, x.outcome = .statement y := by
  intro x hMem
  obtain ⟨x', hMem', rfl⟩ := List.mem_map.mp hMem
  exact hRead x' hMem'

/-- Runs that differ in what one of their steps reads do not read the same. -/
theorem statements_ne {book : Rulebook} {c c' : Cursor} {r r' : Run} {earlier later : List Step}
    {x x' : Step} {y y' : Statement} (hRun : runFrom book c = .ok r)
    (hRun' : runFrom book c' = .ok r') (hSteps : r.steps = earlier ++ x :: later)
    (hSteps' : r'.steps = earlier.map (Step.inText t) ++ x' :: later.map (Step.inText t))
    (hOutcome : x.outcome = .statement y) (hOutcome' : x'.outcome = .statement y')
    (hOther : y' ≠ y) : r'.statements ≠ r.statements := by
  have hKept : ∀ steps : List Step,
      (steps.map (Step.inText t)).filterMap (fun x => x.outcome.statement?) =
        steps.filterMap fun x => x.outcome.statement? := fun steps => by
    rw [List.filterMap_map]
    rfl
  have hHere : x.outcome.statement? = some y := Outcome.statement?_eq_some_iff.mpr hOutcome
  have hThere : x'.outcome.statement? = some y' := Outcome.statement?_eq_some_iff.mpr hOutcome'
  intro hSame
  simp only [statements_of_runFrom hRun, statements_of_runFrom hRun', hSteps, hSteps',
    List.filterMap_append, List.filterMap_cons, hKept, hHere, hThere] at hSame
  exact hOther (List.cons.inj (List.append_cancel_left hSame)).1

/-- **Only the step with the break is read anew.** In the other text the steps before it stay as
they are, and so do those behind it if it stops at the same place. -/
theorem exists_run_of_broken {script script' : Text} {n : Nat} {r : Run}
    {earlier later : List Step} {x : Step} (hRun : run Rulebook.standard script = .ok r)
    (hRead : r.diagnostics = []) (hBroken : BrokenAt n (normalize script) (normalize script'))
    (hSteps : r.steps = earlier ++ x :: later) (hBefore : x.start.pos ≤ n)
    (hBehind : n < x.stop.pos) :
    ∃ r' x' later', run Rulebook.standard script' = .ok r' ∧
      r'.steps = earlier.map (Step.inText (normalize script')) ++ x' :: later' ∧
      x'.Taken Rulebook.standard ∧ x'.start = x.start.inText (normalize script') ∧
      (x'.stop = x.stop.inText (normalize script') →
        later' = later.map (Step.inText (normalize script')) ∧
          ((∃ y, x'.outcome = .statement y) → r'.diagnostics = [])) := by
  have hStatements := (diagnostics_eq_nil_iff hRun).mp hRead
  have hTrace := trace_of_runFrom Rulebook.standard_separator_ne_nil hRun
  have hMem : x ∈ r.steps := by simp [hSteps]
  have hTaken := hTrace.taken x hMem
  have hText : x.start.text = normalize script := (hTrace.reaches_start x hMem).text_eq
  rw [hSteps] at hTrace hStatements
  have hEarlier : ∀ z ∈ earlier, ∃ y, z.outcome = .statement y :=
    fun z hMem => hStatements z (List.mem_append_left _ hMem)
  have hLater : ∀ z ∈ later, ∃ y, z.outcome = .statement y :=
    fun z hMem => hStatements z (List.mem_append_right _ (List.mem_cons_of_mem _ hMem))
  -- the step at the same place of the other text, and what follows it there
  obtain ⟨outcome, stop, hStep⟩ := step_eq_ok Rulebook.standard_separator_ne_nil
    (x.start.inText (normalize script'))
  obtain ⟨later', final, hTrace'⟩ := exists_trace Rulebook.standard_separator_ne_nil stop
  have hAll := hTrace.exchange hBroken rfl hEarlier hBefore hStep hTrace'
  have hTaken' : Step.Taken Rulebook.standard
      ⟨x.start.inText (normalize script'), outcome, stop⟩ := by
    refine ⟨?_, ?_, hStep⟩
    · dsimp only
      rw [Cursor.skipBlanks_inText hBroken.same hText, hTaken.atCharacter]
    · exact (Cursor.rest_inText_eq_nil_iff hBroken.same hText).not.mpr hTaken.more
  refine ⟨_, _, later', hAll.runFrom_eq, Run.steps_ofSteps, hTaken', rfl, ?_⟩
  rintro rfl
  have hStopText := (step_reaches hTaken.step_eq).text_eq.trans hText
  have hBehind' := hTrace.of_append.behind hBroken hStopText hBehind hLater
  have hSame : later' = later.map (Step.inText (normalize script')) := by
    have hRuns := Except.ok.inj (hTrace'.runFrom_eq.symm.trans hBehind'.runFrom_eq)
    simpa only [Run.steps_ofSteps] using congrArg Run.steps hRuns
  refine ⟨hSame, fun hThere => ?_⟩
  rw [diagnostics_eq_nil_iff hAll.runFrom_eq, Run.steps_ofSteps, hSame]
  exact List.forall_mem_append.mpr ⟨exists_statement_inText _ hEarlier,
    List.forall_mem_cons.mpr ⟨hThere, exists_statement_inText _ hLater⟩⟩

end Script

end SchemaScript
