import SchemaScript.Proofs.Grammar.Ending
import SchemaScript.Proofs.Parameters.Rulebook
import SchemaScript.Proofs.Script.Dispatch

/-!
# The steps of a run tile the script

Each step of a run has a range of the script, from the character at its start to the place where it
stopped. With the standard rules the ranges lie one behind the other with nothing but blanks between
them, and each ends where its outcome asks for (`Script.run_tiles`): a comment with its line, a
statement with its semicolon, the addition of a constraint with a semicolon or a parenthesis, and a
text that was skipped with the next semicolon or with the script.

The addition of a constraint is the one outcome whose range may go on over blanks, since a semicolon
is looked for behind it.
-/

namespace SchemaScript

open Text Reader Grammar

/-! ## Slices of a text -/

namespace Cursor

variable {c d : Cursor} {x : Char}

/-- The last character that was seen is the last one of a slice that has characters. -/
theorem Reaches.getLast?_extract (hReach : c.Reaches d) (hMoved : c.pos < d.pos)
    (hLast : d.seen.head? = some x) : (c.text.extract c.pos d.pos).getLast? = some x := by
  have hSeen := hReach.extract.2
  have hSome : (c.text.extract c.pos d.pos).reverse ≠ [] := by
    intro hNone
    rw [hNone, List.nil_append] at hSeen
    rw [pos, pos, hSeen] at hMoved
    omega
  rwa [hSeen, List.head?_append_of_ne_nil _ hSome, List.head?_reverse] at hLast

/-- Blanks are what is passed where blanks are skipped. -/
theorem isBlank_of_mem_extract (hMem : x ∈ c.text.extract c.pos c.skipBlanks.pos) :
    isBlank x = true := by
  have hSplit : c.rest = c.rest.takeWhile isBlank ++ c.skipBlanks.rest := by
    rw [rest_skipBlanks, List.takeWhile_append_dropWhile]
  rw [(reaches_skipBlanks c).extract_eq hSplit] at hMem
  exact List.all_eq_true.mp List.all_takeWhile x hMem

/-- Only blanks stand before the place to which a cursor goes where blanks are skipped. -/
theorem isBlank_of_getElem? {n : Nat} (hPlace : c.text[n]? = some x) (hBehind : c.pos ≤ n)
    (hBefore : n < c.skipBlanks.pos) : isBlank x = true := by
  refine isBlank_of_mem_extract (c := c) (List.mem_of_getElem? (i := n - c.pos) ?_)
  rw [List.extract, List.getElem?_take_of_lt (by omega), List.getElem?_drop,
    Nat.add_sub_cancel' hBehind]
  exact hPlace

end Cursor

/-- Blanks at the end do not matter to what stands before them. -/
theorem Text.stripEnd_append {t behind : Text} {x : Char} (hLast : t.getLast? = some x)
    (hBlank : isBlank x = false) (hBehind : ∀ y ∈ behind, isBlank y = true) :
    stripEnd (t ++ behind) = t := by
  obtain ⟨front, rfl⟩ := List.getLast?_eq_some_iff.mp hLast
  have hReverse : ∀ y ∈ behind.reverse, isBlank y = true := fun y hMem =>
    hBehind y (List.mem_reverse.mp hMem)
  rw [stripEnd, List.reverse_append, dropWhile_append_of_forall hReverse, List.reverse_append,
    List.reverse_singleton, List.singleton_append, List.dropWhile_cons_of_neg (by simp [hBlank]),
    List.reverse_cons, List.reverse_reverse]

/-! ## Ranges -/

/-- Whether a place is in the range of a step. -/
def Step.Covers (n : Nat) (s : Step) : Prop := s.start.pos ≤ n ∧ n < s.stop.pos

/-- The text in the range of a step. -/
def Step.taken (text : Text) (s : Step) : Text := text.extract s.start.pos s.stop.pos

/-- Whether the range of a step ends where its outcome asks for. -/
def Step.EndsRight (text : Text) (s : Step) : Prop :=
  match s.outcome with
  | .statement (.comment _) =>
    ("--" : Text) <+: s.taken text ∧ '\n' ∉ s.taken text ∧
      (text.drop s.stop.pos = [] ∨ (text.drop s.stop.pos).head? = some '\n')
  | .statement (.addConstraint _ _) =>
    (stripEnd (s.taken text)).getLast? = some ';' ∨
      (stripEnd (s.taken text)).getLast? = some ')' ∧ (text.drop s.stop.pos).head? ≠ some ';'
  | .statement _ => (s.taken text).getLast? = some ';'
  | .skipped d =>
    (s.start.pos ≤ d.position ∧ d.position ≤ s.stop.pos) ∧
      if ';' ∈ text.drop d.position then s.stop.pos = semicolonFrom d.position text + 1
      else s.stop.pos = text.length

/-- Whether statements and diagnostics are what some steps record in their order: each step adds one
statement or one diagnostic, and nothing else is added. -/
inductive Records : List Step → List Statement → List Diagnostic → Prop
  | none : Records [] [] []
  | statement {s : Step} {x : Statement} {steps : List Step} {statements : List Statement}
      {diagnostics : List Diagnostic} (hOutcome : s.outcome = .statement x)
      (hLater : Records steps statements diagnostics) :
      Records (s :: steps) (x :: statements) diagnostics
  | diagnostic {s : Step} {d : Diagnostic} {steps : List Step} {statements : List Statement}
      {diagnostics : List Diagnostic} (hOutcome : s.outcome = .skipped d)
      (hLater : Records steps statements diagnostics) :
      Records (s :: steps) statements (d :: diagnostics)

/-- Whether the ranges of a run's steps tile a text, and each step has one record, a statement or a
diagnostic, in the order of the ranges. -/
structure Run.Tiles (text : Text) (r : Run) : Prop where
  within : ∀ s ∈ r.steps, s.start.pos < s.stop.pos ∧ s.stop.pos ≤ text.length
  ordered : r.steps.Pairwise fun s s' => s.stop.pos ≤ s'.start.pos
  outside : ∀ n x, text[n]? = some x → (∀ s ∈ r.steps, ¬ s.Covers n) → isBlank x = true
  ends : ∀ s ∈ r.steps, s.EndsRight text
  records : Records r.steps r.statements r.diagnostics

namespace Grammar

variable {book : Rulebook} {c d : Cursor}

/-! ## Where statements end -/

/-- A comment goes up to the line feed, or up to the end of the text. -/
theorem exists_line (c : Cursor) :
    ∃ found left, '\n' ∉ found ∧ (left = [] ∨ left.head? = some '\n') ∧ c.rest = found ++ left ∧
      (c.takeUntilOrRest "\n" false).2 = ⟨found.reverse ++ c.seen, left⟩ := by
  have hSplit : c.rest = c.rest.takeWhile (· != '\n') ++ c.rest.dropWhile (· != '\n') :=
    List.takeWhile_append_dropWhile.symm
  have hFirst : '\n' ∉ c.rest.takeWhile (· != '\n') := by
    intro hMem
    have hOther := List.all_eq_true.mp List.all_takeWhile '\n' hMem
    simp at hOther
  have hEnd : c.rest.dropWhile (· != '\n') = [] ∨
      (c.rest.dropWhile (· != '\n')).head? = some '\n' := by
    cases hLeft : c.rest.dropWhile (· != '\n') with
    | nil => exact Or.inl rfl
    | cons x left =>
      have hHead := List.head_dropWhile_not (· != '\n') (l := c.rest) (by simp [hLeft])
      exact Or.inr (by simpa [hLeft] using hHead)
  exact ⟨_, _, hFirst, hEnd, hSplit,
    congrArg Prod.snd (Cursor.takeUntilOrRest_line hFirst hEnd hSplit)⟩

/-- An alteration ends with a semicolon, or with the blanks behind a semicolon or a parenthesis, and
then no semicolon stands behind them. -/
theorem alteration_ends (hTerminators : ∀ construct, (book construct).terminator = ";")
    {x : Statement} (hRead : alteration book c = .ok x d) :
    ∃ m, c.Reaches m ∧ Ends ";)" m ∧
      (d = m.skipBlanks ∧ d.rest.head? ≠ some ';' ∨
        d.seen.head? = some ';' ∧ m.Reaches d) := by
  rw [alteration_eq] at hRead
  obtain ⟨added, m, hAddition, hRead⟩ := bind_eq_ok_iff.mp hRead
  obtain ⟨found, hAccept, -⟩ := map_eq_ok_iff.mp hRead
  refine ⟨m, composed_addition.reaches_of_ok hAddition,
    endsWith_addition hTerminators c added m hAddition, ?_⟩
  rw [accept_apply] at hAccept
  by_cases hNext : (";" : Text).isPrefixOf m.skipBlanks.rest = true
  · rw [if_pos hNext] at hAccept
    cases hAccept
    exact Or.inr ⟨Cursor.head?_seen_advance_one (isPrefixOf_singleton_iff.mp hNext),
      (Cursor.reaches_skipBlanks m).trans (Cursor.reaches_advance _ _)⟩
  · rw [if_neg hNext] at hAccept
    cases hAccept
    exact Or.inl ⟨rfl, fun hHead => hNext (isPrefixOf_singleton_iff.mpr hHead)⟩

end Grammar

namespace Script

variable {book : Rulebook} {c final : Cursor} {steps : List Step} {s : Step}

/-! ## Where steps end -/

/-- The range of a step that skipped a text ends behind the next semicolon, or with the text. -/
theorem skipped_endsRight {d : Diagnostic} (hTaken : s.Taken book)
    (hOutcome : s.outcome = .skipped d) : s.EndsRight s.start.text := by
  have hStep := hTaken.step_eq
  rw [hOutcome] at hStep
  -- reading left off at the position, and the search for the semicolon started there
  obtain ⟨left, hReach, hPosition, -, hStop, -⟩ := step_skipped hStep
  have hRest : s.start.text.drop d.position = left.rest := by
    rw [hPosition, ← hReach.text_eq, Cursor.drop_pos_text]
  have hEnd : semicolonFrom d.position s.start.text = left.pos + left.rest.findIdx (· == ';') := by
    rw [semicolonFrom, hRest, hPosition]
  have hSum := left.pos_add_remaining
  have hPos : s.stop.pos =
      left.pos + min (left.rest.findIdx (· == ';') + 1) left.rest.length := by
    rw [hStop, Cursor.pos_advance]
  have hStart := hReach.pos_le
  rw [hReach.text_eq, Cursor.remaining] at hSum
  unfold Step.EndsRight
  rw [hOutcome]
  dsimp only
  refine ⟨by omega, ?_⟩
  rw [hRest, hEnd]
  split
  · next hMem =>
    have hIndex : left.rest.findIdx (· == ';') < left.rest.length :=
      List.findIdx_lt_length.mpr ⟨';', hMem, beq_self_eq_true _⟩
    omega
  · next hMissing =>
    have hIndex : left.rest.findIdx (· == ';') = left.rest.length := findIdx_of_not_mem hMissing
    omega

/-- The range of a step that read a statement ends where that statement ends. -/
theorem statement_endsRight (hTerminators : ∀ construct, (book construct).terminator = ";")
    {x : Statement} (hTaken : s.Taken book) (hMoved : s.start.pos < s.stop.pos)
    (hOutcome : s.outcome = .statement x) : s.EndsRight s.start.text := by
  obtain ⟨key, hKey, hPrefix, hBody⟩ := body_eq_ok hTaken hOutcome
  have hReach : s.start.Reaches s.stop := step_reaches hTaken.step_eq
  have hLeft : s.start.text.drop s.stop.pos = s.stop.rest := by
    rw [← hReach.text_eq, Cursor.drop_pos_text]
  have hSemicolon : Ends ";" s.stop → (s.taken s.start.text).getLast? = some ';' := by
    rintro ⟨y, hLast, hSeen⟩
    obtain rfl := List.mem_singleton.mp hLast
    exact hReach.getLast?_extract hMoved hSeen
  unfold Step.EndsRight
  rw [hOutcome, hLeft]
  cases x with
  | comment body =>
    -- the range is the hyphens and what stands behind them in the line
    obtain rfl := List.mem_singleton.mp hKey
    obtain ⟨line, hLine⟩ := hPrefix
    have hBehind : s.start.advance 2 = ⟨('-' :: '-' :: s.start.seen), line⟩ :=
      Cursor.advance_of_append hLine.symm
    obtain ⟨found, left, hFirst, hEnd, hRest, hStop⟩ := exists_line (s.start.advance 2)
    have hHere : s.stop = ((s.start.advance 2).takeUntilOrRest "\n" false).2 :=
      (EStateM.Result.ok.inj hBody).2.symm
    rw [hBehind] at hRest
    have hSlice : s.taken s.start.text = ("--" : Text) ++ found := by
      refine hReach.extract_eq ?_
      rw [hHere, hStop, ← hLine, List.append_assoc]
      exact congrArg _ hRest
    rw [hSlice, hHere, hStop]
    refine ⟨List.prefix_append _ _, ?_, hEnd⟩
    simp [hFirst]
  | addConstraint target added =>
    -- the constraint ends at a cursor from which the range may go on
    obtain ⟨m, hAddition, ⟨y, hLast, hSeen⟩, hEnd⟩ := alteration_ends hTerminators hBody
    have hFirst := (Cursor.reaches_advance key.length s.start).trans hAddition
    have hSome : s.start.pos < m.pos :=
      (pos_lt_advance_key hKey hPrefix).trans_le hAddition.pos_le
    have hFound := hFirst.getLast?_extract hSome hSeen
    have hNoBlank : isBlank y = false := nonblank_of_all (by decide) y hLast
    rcases hEnd with ⟨hStop, hNext⟩ | ⟨hStop, -⟩
    · -- only blanks were passed behind the constraint
      have hSlice : stripEnd (s.taken s.start.text) = s.start.text.extract s.start.pos m.pos := by
        rw [Step.taken, hStop, hFirst.extract_trans (Cursor.reaches_skipBlanks m)]
        exact stripEnd_append hFound hNoBlank fun z hMem => Cursor.isBlank_of_mem_extract hMem
      rw [hSlice, hFound]
      rcases List.mem_pair.mp hLast with rfl | rfl
      · exact Or.inl rfl
      · exact Or.inr ⟨rfl, hNext⟩
    · -- the semicolon was passed, and nothing behind it
      have hSemicolon := hReach.getLast?_extract hMoved hStop
      have hSame := stripEnd_append hSemicolon (by decide) (List.forall_mem_nil _)
      rw [List.append_nil] at hSame
      exact Or.inl ((congrArg List.getLast? hSame).trans hSemicolon)
  | setting parameter value => exact hSemicolon (endsWith_setting _ _ _ hBody)
  | _ => exact hSemicolon (endsWith_creation hTerminators _ _ _ hBody)

/-! ## Runs -/

/-- A run records one statement or one diagnostic for each of its steps. -/
theorem records_of_runFrom {r : Run} (hRun : runFrom book c = .ok r) :
    Records r.steps r.statements r.diagnostics := by
  rw [runFrom_eq_ofSteps hRun, Run.steps_ofSteps]
  induction r.steps with
  | nil => exact .none
  | cons s steps ih =>
    rw [Run.ofSteps_cons]
    cases hOutcome : s.outcome with
    | statement x =>
      rw [Run.cons_of_statement hOutcome]
      exact .statement hOutcome ih
    | skipped d =>
      rw [Run.cons_of_skipped hOutcome]
      exact .diagnostic hOutcome ih

/-- What lies between the ranges of the steps, before the first one and behind the last one is
blank. -/
theorem Trace.isBlank_outside (hTrace : Trace book c steps final) {n : Nat} {x : Char}
    (hPlace : c.text[n]? = some x) (hBehind : c.pos ≤ n) (hFree : ∀ s ∈ steps, ¬ s.Covers n) :
    isBlank x = true := by
  induction hTrace with
  | @done c hEnd =>
    have hWithin := (List.getElem?_eq_some_iff.mp hPlace).1
    have hSum := c.skipBlanks.pos_add_remaining
    rw [Cursor.remaining, hEnd, Cursor.text_skipBlanks, List.length_nil] at hSum
    exact Cursor.isBlank_of_getElem? hPlace hBehind (by omega)
  | @next c stop final outcome steps hMore hStep hMoved hLater ih =>
    have hText := ((Cursor.reaches_skipBlanks c).trans (step_reaches hStep)).text_eq
    obtain ⟨hHere, hFree⟩ := List.forall_mem_cons.mp hFree
    by_cases hBefore : n < c.skipBlanks.pos
    · exact Cursor.isBlank_of_getElem? hPlace hBehind hBefore
    · -- the place is not in the range of the step, so it is behind it
      have hPast : stop.pos ≤ n := by
        by_contra hInside
        exact hHere ⟨Nat.le_of_not_lt hBefore, Nat.lt_of_not_le hInside⟩
      rw [← hText] at hPlace
      exact ih hPlace hPast hFree

/-- A run from the start of a text tiles it. -/
theorem tiles_of_trace (hTerminators : ∀ construct, (book construct).terminator = ";") {r : Run}
    (hRun : runFrom book c = .ok r) (hTrace : Trace book c r.steps r.final) (hStart : c.pos = 0) :
    r.Tiles c.text where
  within := by
    intro s hMem
    refine ⟨hTrace.start_lt_stop s hMem, ?_⟩
    -- a step stays within the text it was given
    have hReach := (hTrace.reaches_start s hMem).trans (step_reaches (hTrace.taken s hMem).step_eq)
    rw [← hReach.text_eq]
    exact s.stop.pos_le_length
  ordered := hTrace.pairwise_reaches.imp Cursor.Reaches.pos_le
  outside := by
    intro n x hPlace hFree
    exact hTrace.isBlank_outside hPlace (by omega) hFree
  ends := by
    intro s hMem
    have hTaken := hTrace.taken s hMem
    rw [← (hTrace.reaches_start s hMem).text_eq]
    cases hOutcome : s.outcome with
    | statement x =>
      exact statement_endsRight hTerminators hTaken (hTrace.start_lt_stop s hMem) hOutcome
    | skipped d => exact skipped_endsRight hTaken hOutcome
  records := records_of_runFrom hRun

/-- **The steps of a run tile the script.** With the standard rules, the ranges of the steps lie one
behind the other, only blanks lie outside them, and each ends where its outcome asks for. The run
records one statement or one diagnostic for each range, in their order. -/
theorem run_tiles (script : Text) :
    ∃ r, run Rulebook.standard script = .ok r ∧
      Trace Rulebook.standard (.ofText script) r.steps r.final ∧ r.Tiles (normalize script) := by
  obtain ⟨r, hRun, hTrace⟩ := exists_runFrom Rulebook.standard_separator_ne_nil (.ofText script)
  exact ⟨r, hRun, hTrace, tiles_of_trace Rulebook.standard_terminator hRun hTrace rfl⟩

-- the range of the alteration goes on up to the comment
example :
    (run Rulebook.standard "ALTER TABLE t ADD CONSTRAINT c CHECK (x) \n--y").toOption.map
      (fun r => r.steps.map fun s => (s.start.pos, s.stop.pos)) = some [(0, 42), (42, 45)] := by
  decide +kernel

end Script

end SchemaScript
