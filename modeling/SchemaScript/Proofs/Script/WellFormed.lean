import SchemaScript.Proofs.Grammar.Yields
import SchemaScript.Proofs.Script.Trace

/-!
# Every statement that is read is well-formed

Whatever the script and whatever the rules for parameters, the statements of a run are well-formed
(`Script.run_wellFormed`), and so are the fields and constraints in them.

The script is normalized before it is read, and no step looks at anything but a part of it that is
left; so what is known of statements that are read of a normalized text holds of every step.
-/

namespace SchemaScript

open Text Grammar

namespace Script

variable {book : Rulebook} {c final stop : Cursor} {steps : List Step}

/-- A statement that a step reads is well-formed if the text ahead is normalized. -/
theorem wellFormed_of_step {s : Statement} (hSpaced : Spaced c.rest)
    (hStep : step book c = .ok (.statement s, stop)) : s.WellFormed :=
  wellFormed_of_statement? hSpaced (statement?_of_step hStep)

/-- Every step of a trace starts in a normalized text if the trace does. -/
theorem Trace.wellFormed (hTrace : Trace book c steps final) (hSpaced : Spaced c.rest) :
    ∀ s ∈ steps, ∀ x, s.outcome.statement? = some x → x.WellFormed := by
  intro s hMem x hStatement
  have hStep := (hTrace.taken s hMem).step_eq
  rw [Outcome.statement?_eq_some_iff.mp hStatement] at hStep
  -- what is ahead of a later step is a part of what is ahead at the start
  exact wellFormed_of_step ((hTrace.reaches_start s hMem).spaced hSpaced) hStep

/-- **Every statement that is read is well-formed.** With separators that separate, a run gives no
other statements, whatever the rules decode. -/
theorem run_wellFormed (hSeparators : ∀ construct, (book construct).separator ≠ [])
    (script : Text) :
    ∃ r, run book script = .ok r ∧ ∀ s ∈ r.statements, s.WellFormed := by
  obtain ⟨r, hRun, hTrace⟩ := exists_runFrom hSeparators (.ofText script)
  have hSpaced : Spaced (Cursor.ofText script).rest := spaced_normalize script
  refine ⟨r, hRun, fun x hMem => ?_⟩
  rw [statements_of_runFrom hRun] at hMem
  obtain ⟨s, hStep, hStatement⟩ := List.mem_filterMap.mp hMem
  exact hTrace.wellFormed hSpaced s hStep x hStatement

/-- Rules under which the parameters of an index and of a foreign key are written with `=`, so that
a script can give the keys that the grammar sets. -/
def assigningRules : Rulebook :=
  (Rulebook.standard.set .index { separator := "=" }).set .foreignKey { separator := "=" }

/-- A table with a foreign key in its body, and an index, each with a parameter that is set
again. -/
def assigningScript : Text :=
  "CREATE TABLE o.t (a DEC(8,2.5) WITH DEFAULT 'x \n y' FOR BIT DATA
    CONSTRAINT k FOREIGN KEY (a , b) REFERENCES u (c) KEYS = a b;) IN d;
  CREATE UNIQUE INDEX i ON t (a\x0d\n ASC) UNIQUE = ;"

theorem run_wellFormed_assigning :
    (∀ construct, (assigningRules construct).separator ≠ []) ∧
      ∃ r, run assigningRules assigningScript = .ok r ∧ r.statements.length = 2 ∧
        ∀ s ∈ r.statements, s.WellFormed := by
  have hSeparators : ∀ construct, (assigningRules construct).separator ≠ [] := by
    intro construct
    cases construct <;> decide
  -- the run is evaluated to see that both statements are read
  have hValue : (run assigningRules assigningScript).toOption.map (fun r => r.statements.length) =
      some 2 := by
    decide +kernel
  obtain ⟨r, hRun, hAll⟩ := run_wellFormed hSeparators assigningScript
  rw [hRun] at hValue
  exact ⟨hSeparators, r, hRun, Option.some.inj hValue, hAll⟩

end Script

end SchemaScript
