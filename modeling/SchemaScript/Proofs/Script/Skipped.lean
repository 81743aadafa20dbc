import SchemaScript.Proofs.Script.Trace
import SchemaScript.Proofs.Text.Clean

/-!
# What diagnostics tell

A diagnostic describes the text that was skipped (`Script.run_describes`): its position is a place
of the script, the skipped text goes from there up to the next semicolon or to the end, and the
cause, if there is one, was found at that same place and shows how the text goes on from there. The
next diagnostic is behind the semicolon, so that no text is skipped twice.

All of it comes from where a step leaves off (`Script.step_skipped`): reading stops with the cursor
at the mismatch, the position is taken there, and the search for the semicolon starts there too.
-/

namespace SchemaScript

open Text

/-! ## Up to the semicolon -/

/-- The first place from `n` on at which a semicolon stands, or the end of the text. -/
def Text.semicolonFrom (n : Nat) (t : Text) : Nat := n + (t.drop n).findIdx (· == ';')

/-- Before the first place of a character it does not stand. -/
theorem Text.not_mem_take_findIdx (x : Char) (t : Text) : x ∉ t.take (t.findIdx (· == x)) := by
  induction t with
  | nil => exact List.not_mem_nil
  | cons c t ih =>
    -- nothing is taken where the character stands first
    by_cases hHere : c = x
    · simp [List.findIdx_cons, hHere]
    · simp [List.findIdx_cons, beq_false_of_ne hHere, Ne.symm hHere, ih]

/-- A character that stands nowhere is found at the end. -/
theorem Text.findIdx_of_not_mem {x : Char} {t : Text} (hMissing : x ∉ t) :
    t.findIdx (· == x) = t.length := by
  refine List.findIdx_eq_length.mpr fun y hMem => ?_
  have hOther : y ≠ x := fun hSame => hMissing (hSame ▸ hMem)
  simpa using hOther

namespace Cursor

variable {c : Cursor}

/-- From the place of a cursor on, the semicolon is sought in what is left. -/
theorem semicolonFrom_pos (c : Cursor) :
    semicolonFrom c.pos c.text = c.pos + c.rest.findIdx (· == ';') := by
  rw [semicolonFrom, drop_pos_text]

/-- Skipping takes the text before the next semicolon and passes the semicolon, or takes all that is
left. -/
theorem takeUntilOrRest_semicolon (c : Cursor) :
    c.takeUntilOrRest ";" true = (trim (c.rest.take (c.rest.findIdx (· == ';'))),
      c.advance (c.rest.findIdx (· == ';') + 1)) := by
  by_cases hMem : ';' ∈ c.rest
  · obtain ⟨found, behind, hFirst, hRest, hTake⟩ :=
      exists_takeUntil?_of_mem (by decide) hMem true
    -- the semicolon stands right behind the text that is found
    have hPlace : c.rest.findIdx (· == ';') = found.length := by
      simp [hRest, List.findIdx_append, findIdx_of_not_mem hFirst, List.findIdx_cons]
    have hSkip : c.takeUntilOrRest ";" true = (trim found, c.advance (found.length + 1)) :=
      congrArg (Option.getD · c.takeRest) hTake
    rw [hSkip, hPlace, hRest, List.take_left]
  · have hPlace : c.rest.findIdx (· == ';') = c.rest.length := findIdx_of_not_mem hMem
    have hSkip : c.takeUntilOrRest ";" true = c.takeRest := takeUntilOrRest_of_not_mem hMem true
    -- there is nothing behind the text that could be passed as well
    have hEnd : c.advance c.rest.length = c.advance (c.rest.length + 1) := by
      simp [advance, List.take_of_length_le]
    rw [hSkip, hPlace, takeRest, List.take_length, hEnd]

end Cursor

namespace Script

open Reader Grammar

variable {book : Rulebook} {c final stop : Cursor} {steps : List Step} {d : Diagnostic}

/-! ## Where a step leaves off -/

/-- A step that skips a text tells the place where reading left off, skips the text from there up to
the next semicolon, and has its cause from there. -/
theorem step_skipped (hStep : step book c = .ok (.skipped d, stop)) :
    ∃ left, c.Reaches left ∧ d.position = left.pos ∧
      d.skipped = trim (left.rest.take (left.rest.findIdx (· == ';'))) ∧
      stop = left.advance (left.rest.findIdx (· == ';') + 1) ∧
      ∀ m ∈ d.cause, m = .atCursor m.expected left := by
  rcases step_cases hStep with ⟨s, -, hOther⟩ | ⟨left, cause, hSkip, hLeft⟩
  · cases hOther
  · rw [skipStatement_eq, Cursor.takeUntilOrRest_semicolon] at hSkip
    cases hSkip
    refine ⟨left, reaches_left hLeft, rfl, rfl, rfl, fun m hCause => ?_⟩
    -- either no statement was recognized, or reading broke off
    rcases hLeft with ⟨-, rfl⟩ | ⟨m', hFail, rfl⟩
    · cases hCause
    · -- whatever failed, failed where the cursor was left
      cases hCause
      exact (statement?_halt hFail).1

/-- Behind a skipped text that is not the last one, the semicolon was passed. -/
theorem semicolonFrom_lt_pos_stop (hStep : step book c = .ok (.skipped d, stop))
    (hMore : stop.rest ≠ []) : semicolonFrom d.position c.text < stop.pos := by
  obtain ⟨left, hReach, hPosition, -, hStop, -⟩ := step_skipped hStep
  rw [hStop, Cursor.rest_advance] at hMore
  -- otherwise the skipped text would have been the last one
  have hShort : left.rest.findIdx (· == ';') + 1 < left.rest.length := by
    by_contra hLong
    exact hMore (List.drop_eq_nil_of_le (by omega))
  rw [hPosition, ← hReach.text_eq, Cursor.semicolonFrom_pos, hStop, Cursor.pos_advance]
  omega

end Script

/-! ## Diagnostics of a run -/

/-- An outcome has a diagnostic if its text was skipped. -/
theorem Outcome.diagnostic?_eq_some_iff {o : Outcome} {d : Diagnostic} :
    o.diagnostic? = some d ↔ o = .skipped d := by
  cases o <;> simp [Outcome.diagnostic?]

/-- Whether a diagnostic of a text describes what was skipped of it. -/
structure Diagnostic.Describes (text : Text) (d : Diagnostic) : Prop where
  position_le : d.position ≤ text.length
  skipped_eq : d.skipped = trim (text.extract d.position (semicolonFrom d.position text))
  noSemicolon : ';' ∉ d.skipped
  message_eq : d.message = "-->" ++ d.skipped
  /-- the cause was found at the place, and its message ends with what it shows of the text -/
  cause : ∀ m ∈ d.cause, m.position = d.position ∧
    m.context = (text.drop d.position).take 20 ++ "[...]" ∧
      (" at " : Text) ++ m.context <:+ m.message

namespace Script

variable {book : Rulebook} {c final stop : Cursor} {steps : List Step} {d : Diagnostic}

/-- A step that skips a text describes it. -/
theorem describes_of_step (hStep : step book c = .ok (.skipped d, stop)) :
    d.Describes c.text := by
  obtain ⟨left, hReach, hPosition, hSkipped, -, hCause⟩ := step_skipped hStep
  -- the text behind the position is what was left to read
  have hRest : c.text.drop d.position = left.rest := by
    rw [hPosition, ← hReach.text_eq, Cursor.drop_pos_text]
  refine ⟨?_, ?_, ?_, rfl, fun m hMem => ?_⟩
  · rw [hPosition, ← hReach.text_eq]
    exact left.pos_le_length
  · -- the slice is the part of what was left up to the semicolon
    rw [List.extract, semicolonFrom, hRest, Nat.add_sub_cancel_left, hSkipped]
  · intro hMem
    rw [hSkipped] at hMem
    rcases mem_trim hMem with hSpace | hTaken
    · cases hSpace
    · exact not_mem_take_findIdx ';' left.rest hTaken
  · rw [hCause m hMem, hRest, hPosition]
    refine ⟨rfl, rfl, m.expected.describe, ?_⟩
    rw [Mismatch.message, List.append_assoc]
    rfl

/-- So do all steps of a run, and of the one text that the run reads. -/
theorem Trace.describes (hTrace : Trace book c steps final) :
    ∀ s ∈ steps, ∀ d, s.outcome.diagnostic? = some d → d.Describes c.text := by
  intro s hMem d hDiagnostic
  have hStep := (hTrace.taken s hMem).step_eq
  rw [Outcome.diagnostic?_eq_some_iff.mp hDiagnostic] at hStep
  rw [← (hTrace.reaches_start s hMem).text_eq]
  exact describes_of_step hStep

/-- A later diagnostic is behind the semicolon up to which an earlier text was skipped. -/
theorem Trace.pairwise_semicolonFrom (hTrace : Trace book c steps final) :
    (steps.filterMap fun s => s.outcome.diagnostic?).Pairwise fun d e =>
      d.position ≤ semicolonFrom d.position c.text ∧
        semicolonFrom d.position c.text < e.position := by
  rw [List.pairwise_filterMap]
  refine hTrace.pairwise_reaches.imp_of_mem fun {s s'} hMem hMem' hLater d hFirst e hSecond => ?_
  have hStep := (hTrace.taken s hMem).step_eq
  have hStep' := (hTrace.taken s' hMem').step_eq
  rw [Outcome.diagnostic?_eq_some_iff.mp hFirst] at hStep
  rw [Outcome.diagnostic?_eq_some_iff.mp hSecond] at hStep'
  -- the later step starts at a character, so text was left behind the earlier one
  have hMore := hLater.rest_ne_nil (hTrace.taken s' hMem').more
  have hBehind := semicolonFrom_lt_pos_stop hStep hMore
  rw [(hTrace.reaches_start s hMem).text_eq] at hBehind
  obtain ⟨left, hReach, hPosition, -⟩ := step_skipped hStep'
  have hStart := (hLater.trans hReach).pos_le
  exact ⟨Nat.le_add_right _ _, by omega⟩

/-- **Diagnostics describe what was skipped.** With separators that separate, each diagnostic of a
run has a place of the script, the text from there up to the next semicolon or to the end, and its
cause, if any, from that place. The next diagnostic is behind that semicolon. -/
theorem run_describes (hSeparators : ∀ construct, (book construct).separator ≠ [])
    (script : Text) :
    ∃ r, run book script = .ok r ∧ (∀ d ∈ r.diagnostics, d.Describes (normalize script)) ∧
      r.diagnostics.Pairwise fun d e =>
        d.position ≤ semicolonFrom d.position (normalize script) ∧
          semicolonFrom d.position (normalize script) < e.position := by
  obtain ⟨r, hRun, hTrace⟩ := exists_runFrom hSeparators (.ofText script)
  refine ⟨r, hRun, ?_⟩
  rw [diagnostics_of_runFrom hRun]
  refine ⟨fun d hMem => ?_, hTrace.pairwise_semicolonFrom⟩
  obtain ⟨s, hStep, hDiagnostic⟩ := List.mem_filterMap.mp hMem
  exact hTrace.describes s hStep d hDiagnostic

/-- Rules under which an index has parameters up to a line feed, with commas between them. -/
def lineRules : Rulebook := Rulebook.standard.set .index { terminator := "\n", separator := "," }

/-- Three texts are skipped, the last of which is not closed. -/
theorem run_describes_lineRules :
    (∀ construct, (lineRules construct).separator ≠ []) ∧
      ∃ r, run lineRules "CREATE VIEW v (x; y);\n  BOGUS" = .ok r ∧
        r.diagnostics.map Diagnostic.position = [14, 18, 23] ∧
        (∀ d ∈ r.diagnostics, d.Describes (normalize "CREATE VIEW v (x; y);\n  BOGUS")) ∧
        r.diagnostics.Pairwise fun d e =>
          d.position ≤ semicolonFrom d.position (normalize "CREATE VIEW v (x; y);\n  BOGUS") ∧
            semicolonFrom d.position (normalize "CREATE VIEW v (x; y);\n  BOGUS") < e.position := by
  have hSeparators : ∀ construct, (lineRules construct).separator ≠ [] := by
    intro construct
    cases construct <;> decide
  have hValue : (run lineRules "CREATE VIEW v (x; y);\n  BOGUS").toOption.map
      (fun r => r.diagnostics.map Diagnostic.position) = some [14, 18, 23] := by
    decide +kernel
  obtain ⟨r, hRun, hAll, hOrder⟩ := run_describes hSeparators "CREATE VIEW v (x; y);\n  BOGUS"
  rw [hRun] at hValue
  exact ⟨hSeparators, r, hRun, Option.some.inj hValue, hAll, hOrder⟩

end Script

end SchemaScript
