import SchemaScript.Proofs.Parameters.Rulebook
import SchemaScript.Proofs.Script.Trace

/-!
# Every script is read to its end

The library has three repetitions: the steps of a run, the items of a table and the attributes of a
field. Each goes on only if the cursor has moved, and this module shows that the check is never
what ends them: they do what they would do without it (`Repeats`, `Trace`). So whatever the script
is, and whatever the rules for parameters are as long as their separators are not empty, a run ends
at the end of the script and no failure escapes from it (`run_reaches_end`).
-/

namespace SchemaScript

namespace Grammar

open Reader

/-- Whether a repetition moves the cursor each time, and so ends only where nothing more is found or
where an item fails. -/
structure Repeats {α : Type} (item : Reader (Option α)) : Prop where
  advances : Advances item
  again : many item = (do
    match ← item with
    | some x => return x :: (← many item)
    | none => return [])

theorem repeats_of_advances {α : Type} {item : Reader (Option α)}
    (hReaches : ∀ c : Cursor, c.Reaches (stop item c)) (hAdvances : Advances item) :
    Repeats item where
  advances := hAdvances
  again := by
    funext c
    have hReach := hReaches c
    cases hRead : item c with
    | error e d => rw [many_of_error hRead, bind_of_error hRead]
    | ok found d =>
      rw [stop_of_ok hRead] at hReach
      rw [bind_of_ok hRead]
      cases found with
      | none => exact many_of_none hRead
      | some x => exact many_of_some hRead (hReach.pos_lt_iff.mp (hAdvances c x d hRead))

/-- The repetition over the items of a table never stands still. -/
theorem repeats_item? (book : Rulebook) : Repeats (item? book) :=
  repeats_of_advances composed_item?.reaches (item?_advances book)

/-- The repetition over the attributes of a field never stands still. -/
theorem repeats_attribute? (book : Rulebook) : Repeats (attribute? book) :=
  repeats_of_advances composed_attribute?.reaches (attribute?_advances book)

end Grammar

namespace Script

/-- **Every script is read to its end.** Rules for existing constructs with separators that are not
empty make a rulebook. With it, no repetition of the grammar stands still, and a run through any
script takes steps that each move the cursor, until the cursor is at the end of the normalized
script; the run has succeeded exactly if it has no diagnostics. -/
theorem run_reaches_end {named : List (Text × Parameters.Rules)}
    (hKnown : ∀ entry ∈ named, ∃ construct : Construct, entry.1 = construct.name)
    (hSeparators : ∀ entry ∈ named, entry.2.separator ≠ []) :
    ∃ book, Rulebook.ofList named = .ok book ∧
      Grammar.Repeats (Grammar.item? book) ∧ Grammar.Repeats (Grammar.attribute? book) ∧
      ∀ script, ∃ r, run book script = .ok r ∧
        Trace book (.ofText script) r.steps r.final ∧
        (∀ s ∈ r.steps, s.start.pos < s.stop.pos) ∧
        r.final.text = Text.normalize script ∧
        r.final.pos = (Text.normalize script).length ∧
        (r.succeeded = true ↔ r.diagnostics = []) := by
  obtain ⟨book, hBook, hSeparate⟩ := Rulebook.exists_ofList hKnown hSeparators
  refine ⟨book, hBook, Grammar.repeats_item? book, Grammar.repeats_attribute? book, ?_⟩
  intro script
  obtain ⟨r, hRun, hTrace⟩ := exists_runFrom hSeparate (.ofText script)
  have hText : r.final.text = Text.normalize script := hTrace.text_final
  refine ⟨r, hRun, hTrace, hTrace.start_lt_stop, hText, ?_, ?_⟩
  · -- nothing of the text is left
    have hSum := Cursor.pos_add_remaining r.final
    have hEnd := hTrace.rest_final
    rw [hText, Cursor.remaining, hEnd, List.length_nil] at hSum
    simpa using hSum
  · exact List.isEmpty_iff

/-- Rules with a terminator that is always found at once, and with one that is found and not passed.
-/
def oddRules : List (Text × Parameters.Rules) :=
  [("index", { terminator := "", merger := "", mergeKeys := [""] }),
   ("foreign_key", { terminator := "\n", separator := "::", optionKeys := [""] })]

/-- With odd rules too, and in a statement that breaks off. -/
theorem run_reaches_end_oddRules :
    (∀ entry ∈ oddRules, ∃ construct : Construct, entry.1 = construct.name) ∧
      (∀ entry ∈ oddRules, entry.2.separator ≠ []) ∧
      ∃ book, Rulebook.ofList oddRules = .ok book ∧
        ∃ r, run book "CREATE INDEX i ON t (a) b;\nCREATE TABLE u (" = .ok r ∧
          r.final.pos = 43 := by
  have hKnown : ∀ entry ∈ oddRules, ∃ construct : Construct, entry.1 = construct.name := by
    intro entry hMem
    simp only [oddRules, List.mem_cons, List.not_mem_nil, or_false] at hMem
    rcases hMem with rfl | rfl
    · exact ⟨.index, rfl⟩
    · exact ⟨.foreignKey, rfl⟩
  have hSeparators : ∀ entry ∈ oddRules, entry.2.separator ≠ [] := by decide
  -- the run is not evaluated, its end is known from the length of the script
  refine ⟨hKnown, hSeparators, ?_⟩
  obtain ⟨book, hBook, -, -, hRuns⟩ := run_reaches_end hKnown hSeparators
  obtain ⟨r, hRun, -, -, -, hEnd, -⟩ := hRuns "CREATE INDEX i ON t (a) b;\nCREATE TABLE u ("
  refine ⟨book, hBook, r, hRun, ?_⟩
  rw [hEnd]
  decide

end Script

end SchemaScript
