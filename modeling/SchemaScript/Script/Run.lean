import SchemaScript.Grammar.Statement

/-!
# Running through a script

A script is read step by step. Each step starts at a character that is no blank and ends with
exactly one outcome: a statement, or a diagnostic for a text that could not be read. Such a text
is skipped from the place where reading stopped up to the next semicolon, so that one bad statement
does not keep the others from being read.

A run keeps its steps with the places where they started and stopped, and three records that it
writes on the way: the statements, the diagnostics, and a log. The log tells before each step how
much of the script remains and how it goes on, and after a step that skipped something what was
skipped, where, and why. That the records fit the steps is a fact about runs
(`Script.runFrom_eq_ofSteps`).

Only an empty separator in the rules ends a run before the end of the script.
-/

namespace SchemaScript

/-! ## Records -/

/-- A text that was skipped. -/
structure Diagnostic where
  skipped : Text
  /-- the place where the skipped text starts, which is where reading stopped -/
  position : Nat
  /-- why reading stopped; nothing if no statement started at the place -/
  cause : Option Mismatch
  deriving DecidableEq, Repr

/-- The wording of a diagnostic. -/
def Diagnostic.message (d : Diagnostic) : Text := "-->" ++ d.skipped

/-- A record of a log. -/
inductive LogRecord where
  /-- how many characters remain, and the first of them -/
  | progress (remaining : Nat) (preview : Text)
  /-- what was skipped -/
  | skipped (d : Diagnostic)
  deriving DecidableEq, Repr

/-- What a step ended with. -/
inductive Outcome where
  | statement (s : Statement)
  | skipped (d : Diagnostic)
  deriving DecidableEq

/-- The statement that a step read, if it read one. -/
def Outcome.statement? : Outcome → Option Statement
  | statement s => some s
  | skipped _ => none

/-- The diagnostic of a step, if it skipped something. -/
def Outcome.diagnostic? : Outcome → Option Diagnostic
  | statement _ => none
  | skipped d => some d

/-- A step of a run. -/
structure Step where
  /-- the first character that is no blank -/
  start : Cursor
  outcome : Outcome
  /-- the place behind everything the step took -/
  stop : Cursor
  deriving DecidableEq

/-- A run through a script. -/
structure Run where
  steps : List Step
  /-- the place where the run ended -/
  final : Cursor
  /-- the statements that were read, in order -/
  statements : List Statement
  /-- the diagnostics, in order -/
  diagnostics : List Diagnostic
  /-- the records of the log, in order -/
  log : List LogRecord
  deriving DecidableEq

namespace Run

/-- Whether every statement was read. -/
def succeeded (r : Run) : Bool := r.diagnostics.isEmpty

/-- The run that ends where it started. -/
def ended (final : Cursor) : Run := ⟨[], final, [], [], []⟩

/-- A step, and the run behind it. What remained at the start of the step is logged. Then a
statement is recorded, or a text that was skipped is recorded and logged. -/
def cons (s : Step) (later : Run) : Run :=
  let opening := .progress s.start.remaining (s.start.peek 50)
  match s.outcome with
  | .statement x =>
    { steps := s :: later.steps
      final := later.final
      statements := x :: later.statements
      diagnostics := later.diagnostics
      log := opening :: later.log }
  | .skipped d =>
    { steps := s :: later.steps
      final := later.final
      statements := later.statements
      diagnostics := d :: later.diagnostics
      log := opening :: .skipped d :: later.log }

end Run

/-! ## Running -/

namespace Script

/-- Skips the text up to the next semicolon and the semicolon, or all that is left. -/
def skipStatement (cause : Option Mismatch) (c : Cursor) : Outcome × Cursor :=
  let (skipped, stop) := c.takeUntilOrRest ";" true
  (.skipped ⟨skipped, c.pos, cause⟩, stop)

/-- Takes one statement, or skips what is none. -/
def step (book : Rulebook) (start : Cursor) : Except RulesError (Outcome × Cursor) :=
  match Grammar.statement? book start with
  | .ok (some s) stop => .ok (.statement s, stop)
  | .ok none stop => .ok (skipStatement none stop)
  | .error (.mismatch m) stop => .ok (skipStatement (some m) stop)
  | .error (.rules e) _ => .error e

/-- Takes one statement after the other until only blanks are left. A run goes on only behind a step
that moved the cursor, so that it always ends. -/
def runFrom (book : Rulebook) (c : Cursor) : Except RulesError Run :=
  if c.skipBlanks.rest = [] then
    .ok (.ended c.skipBlanks)
  else
    match step book c.skipBlanks with
    | .error e => .error e
    | .ok (outcome, stop) =>
      if stop.rest.length < c.rest.length then
        match runFrom book stop with
        | .error e => .error e
        | .ok later => .ok (.cons ⟨c.skipBlanks, outcome, stop⟩ later)
      else .ok (.cons ⟨c.skipBlanks, outcome, stop⟩ (.ended stop))
termination_by c.rest.length

/-- Runs through a script. -/
def run (book : Rulebook) (script : Text) : Except RulesError Run := runFrom book (.ofText script)

end Script

/-! ## What a run records -/

namespace Run

/-- The run of some steps, with everything that they record. -/
def ofSteps (steps : List Step) (final : Cursor) : Run := steps.foldr cons (ended final)

variable {s : Step} {later : Run} {steps : List Step} {final : Cursor}

/-- A step that read a statement records it, and logs one line. -/
theorem cons_of_statement {x : Statement} (hOutcome : s.outcome = .statement x) :
    cons s later =
      { steps := s :: later.steps
        final := later.final
        statements := x :: later.statements
        diagnostics := later.diagnostics
        log := .progress s.start.remaining (s.start.peek 50) :: later.log } := by
  rw [cons, hOutcome]

/-- A step that skipped a text records the diagnostic, and logs it as well. -/
theorem cons_of_skipped {d : Diagnostic} (hOutcome : s.outcome = .skipped d) :
    cons s later =
      { steps := s :: later.steps
        final := later.final
        statements := later.statements
        diagnostics := d :: later.diagnostics
        log := .progress s.start.remaining (s.start.peek 50) :: .skipped d :: later.log } := by
  rw [cons, hOutcome]

/-- Whatever its outcome, a step stands in front of the later ones. -/
@[simp]
theorem steps_cons : (cons s later).steps = s :: later.steps := by
  cases hOutcome : s.outcome with
  | statement x => rw [cons_of_statement hOutcome]
  | skipped d => rw [cons_of_skipped hOutcome]

/-- A run ends where its last step leaves it. -/
@[simp]
theorem final_cons : (cons s later).final = later.final := by
  cases hOutcome : s.outcome with
  | statement x => rw [cons_of_statement hOutcome]
  | skipped d => rw [cons_of_skipped hOutcome]

/-- A statement stands in front of those of the later steps. -/
@[simp]
theorem statements_cons :
    (cons s later).statements = s.outcome.statement?.toList ++ later.statements := by
  cases hOutcome : s.outcome with
  | statement x => rw [cons_of_statement hOutcome]; rfl
  | skipped d => rw [cons_of_skipped hOutcome]; rfl

/-- A diagnostic stands in front of those of the later steps. -/
@[simp]
theorem diagnostics_cons :
    (cons s later).diagnostics = s.outcome.diagnostic?.toList ++ later.diagnostics := by
  cases hOutcome : s.outcome with
  | statement x => rw [cons_of_statement hOutcome]; rfl
  | skipped d => rw [cons_of_skipped hOutcome]; rfl

@[simp]
theorem ofSteps_cons : ofSteps (s :: steps) final = cons s (ofSteps steps final) := rfl

/-- The run of some steps has just these steps. -/
@[simp]
theorem steps_ofSteps : (ofSteps steps final).steps = steps := by
  induction steps with
  | nil => rfl
  | cons s steps ih => rw [ofSteps_cons, steps_cons, ih]

/-- The run of some steps ends where it was made to end. -/
@[simp]
theorem final_ofSteps : (ofSteps steps final).final = final := by
  induction steps with
  | nil => rfl
  | cons s steps ih => rw [ofSteps_cons, final_cons, ih]

/-- The statements are those of the steps, in order. -/
theorem statements_ofSteps :
    (ofSteps steps final).statements = steps.filterMap fun s => s.outcome.statement? := by
  induction steps with
  | nil => rfl
  | cons s steps ih =>
    rw [ofSteps_cons, statements_cons, ih, List.filterMap_cons]
    cases s.outcome.statement? <;> rfl

/-- The diagnostics are those of the steps, in order. -/
theorem diagnostics_ofSteps :
    (ofSteps steps final).diagnostics = steps.filterMap fun s => s.outcome.diagnostic? := by
  induction steps with
  | nil => rfl
  | cons s steps ih =>
    rw [ofSteps_cons, diagnostics_cons, ih, List.filterMap_cons]
    cases s.outcome.diagnostic? <;> rfl

end Run

namespace Script

variable {book : Rulebook} {c stop : Cursor} {outcome : Outcome}

/-- Where only blanks are left, a run ends behind them. -/
theorem runFrom_of_eq_nil (hEnd : c.skipBlanks.rest = []) :
    runFrom book c = .ok (.ended c.skipBlanks) := by
  rw [runFrom, if_pos hEnd]

/-- A step that moved the cursor stands before the run behind it. -/
theorem runFrom_of_step (hMore : c.skipBlanks.rest ≠ [])
    (hStep : step book c.skipBlanks = .ok (outcome, stop))
    (hMoved : stop.rest.length < c.rest.length) :
    runFrom book c = (runFrom book stop).map (.cons ⟨c.skipBlanks, outcome, stop⟩) := by
  rw [runFrom, if_neg hMore, hStep]
  simp only [hMoved, if_true]
  cases runFrom book stop <;> rfl

/-- **A run records what its steps record**, whatever the rules are. -/
theorem runFrom_eq_ofSteps {r : Run} (hRun : runFrom book c = .ok r) :
    r = .ofSteps r.steps r.final := by
  fun_induction runFrom book c generalizing r with
  | case1 c hEnd =>
    cases hRun
    rfl
  | case2 c hMore e hStep => cases hRun
  | case3 c hMore outcome stop hStep hMoved e hLater ih => cases hRun
  | case4 c hMore outcome stop hStep hMoved later hLater ih =>
    cases hRun
    rw [Run.steps_cons, Run.final_cons, Run.ofSteps_cons, ← ih hLater]
  | case5 c hMore outcome stop hStep hStill =>
    -- with an empty separator a run may end behind a step that stood still
    cases hRun
    rw [Run.steps_cons, Run.final_cons]
    rfl

/-- The statements of a run are those of its steps, in order. -/
theorem statements_of_runFrom {r : Run} (hRun : runFrom book c = .ok r) :
    r.statements = r.steps.filterMap fun s => s.outcome.statement? := by
  rw [runFrom_eq_ofSteps hRun, Run.statements_ofSteps, Run.steps_ofSteps]

/-- The diagnostics of a run are those of its steps, in order. -/
theorem diagnostics_of_runFrom {r : Run} (hRun : runFrom book c = .ok r) :
    r.diagnostics = r.steps.filterMap fun s => s.outcome.diagnostic? := by
  rw [runFrom_eq_ofSteps hRun, Run.diagnostics_ofSteps, Run.steps_ofSteps]

end Script

example :
    (Script.run Rulebook.standard "SET A = 1; BOGUS;\n-- done").toOption.map
      (fun r => (r.statements, r.diagnostics)) =
      some ([.setting "A" "1", .comment "done"], [⟨"BOGUS", 11, none⟩]) := by
  decide +kernel

end SchemaScript
