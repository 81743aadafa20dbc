import SchemaScript.Proofs.Script.Composition

/-!
# What one bad statement does to the rest

A text that cannot be read is skipped up to the next semicolon, so that the statements behind the
semicolon are read as if they stood alone. That is so only if the text is given up before its
semicolon. Free text is searched up to its delimiter wherever that is, and a search for `=`, for a
parenthesis or for a quote takes the semicolon and the statements behind it on its way: `SET A;`
takes the `=` of the statement that follows.

`Confined` says of a text that it does no such thing when it is run alone with its semicolon: every
diagnostic is at a place up to the semicolon, and none is caused by a search. This is exactly what
it takes for the text to leave alone whatever stands behind it (`leavesIntact_iff_confined`). One
text that holds each delimiter is enough to tell: where a bad statement is not confined, a step
takes some of that text along (`Trace.exists_straddling`).
-/

namespace SchemaScript

open Reader Grammar Cursor Text

/-! ## Keeping apart -/

/-- Whether a step starts before a place and takes nothing behind it but blanks. -/
def Step.EndsBy (n : Nat) (s : Step) : Prop :=
  s.start.pos < n ∧ ∀ x ∈ s.stop.seen.reverse.drop n, isBlank x = true

namespace Script

/-- Whether the steps of a run through a text, its semicolon and a second text fall apart into those
up to the semicolon and those behind it, and the latter have the outcomes of a run through the
second text alone. -/
structure FallsApart (s : Text) (all second : Run) (before after : List Step) : Prop where
  steps : all.steps = before ++ after
  upTo : ∀ x ∈ before, x.EndsBy ((normalize s).length + 1)
  behind : ∀ x ∈ after, (normalize s).length + 1 ≤ x.start.pos
  statements : after.filterMap (fun x => x.outcome.statement?) = second.statements
  diagnostics : (after.filterMap fun x => x.outcome.diagnostic?).map (fun d =>
      (d.skipped, d.position)) =
    second.diagnostics.map fun d => (d.skipped, d.position + (normalize (s ++ ";\n")).length)

/-- Whether a text with its semicolon leaves what stands behind it as it is. -/
def LeavesIntact (s b : Text) : Prop :=
  ∃ all second before after, run Rulebook.standard (s ++ ";\n" ++ b) = .ok all ∧
    run Rulebook.standard b = .ok second ∧ FallsApart s all second before after

/-- Whether a text is given up before its semicolon, if it is given up: run alone, it has no
diagnostic behind the semicolon, and none that comes from a search for a delimiter. -/
def Confined (s : Text) : Prop :=
  ∃ r, run Rulebook.standard (s ++ ";\n") = .ok r ∧
    ∀ d ∈ r.diagnostics, d.position ≤ (normalize s).length ∧
      ∀ m delimiter, d.cause = some m → m.expected ≠ .delimiter delimiter

/-! ## The text up to the semicolon -/

theorem normalize_append_semicolon (s : Text) :
    normalize (s ++ ";\n") = normalize s ++ ";\n" :=
  normalize_append_cons (by decide) (by decide) s ['\n']

/-- A text without a semicolon closes the diagnostics up to the semicolon put behind it. -/
theorem closedIn_iff {s : Text} (hOne : ';' ∉ s) (d : Diagnostic) :
    d.ClosedIn (normalize (s ++ ";\n")) ↔ d.position ≤ (normalize s).length ∧
      ∀ m delimiter, d.cause = some m → m.expected ≠ .delimiter delimiter := by
  have hNone : ';' ∉ normalize s := by
    intro hMem
    rcases mem_normalize hMem with hSpace | hMem
    · cases hSpace
    · exact hOne hMem
  unfold Diagnostic.ClosedIn
  refine and_congr_left fun _ => ?_
  rw [normalize_append_semicolon, List.drop_append]
  constructor
  · intro hMem
    by_contra hBehind
    -- behind the semicolon there is a line feed at most
    obtain ⟨k, hk⟩ : ∃ k, d.position - (normalize s).length = k + 1 :=
      ⟨d.position - (normalize s).length - 1, by omega⟩
    rw [List.drop_eq_nil_of_le (by omega), hk] at hMem
    have hBreak := List.mem_of_mem_drop (i := k) hMem
    revert hBreak
    decide
  · intro hWithin
    rw [Nat.sub_eq_zero_of_le hWithin]
    exact List.mem_append_right _ (List.mem_cons_self ..)

/-- Before the end of a text that ends with a semicolon and a line feed, a character that is no
blank has the semicolon ahead. -/
theorem semicolon_ahead {t : Text} {c : Cursor} (hText : c.text = t ++ ";\n")
    (hMore : c.skipBlanks.rest ≠ []) :
    ';' ∈ c.skipBlanks.rest ∧ c.skipBlanks.pos ≤ t.length := by
  rw [← text_skipBlanks] at hText
  have hSplit : c.skipBlanks.seen.reverse ++ c.skipBlanks.rest = (t ++ [';']) ++ ['\n'] := by
    rw [List.append_assoc]
    exact hText
  have hLine : EndsLine c.skipBlanks.rest := by
    have hAll : EndsLine (c.skipBlanks.seen.reverse ++ c.skipBlanks.rest) := by
      rw [hSplit]
      exact endsLine_iff.mpr ⟨_, rfl⟩
    exact hAll.of_append hMore
  obtain ⟨line, hRest⟩ := endsLine_iff.mp hLine
  have hLineSome : line ≠ [] := by
    rintro rfl
    -- the line feed alone would be a blank that was not passed
    have hBlank := rest_skipBlanks_cons hRest
    revert hBlank
    decide
  -- what is ahead and the whole text end with the same two characters
  obtain ⟨init, last, rfl⟩ := List.eq_nil_or_concat line |>.resolve_left hLineSome
  rw [hRest, ← List.append_assoc] at hSplit
  have hFront := List.append_cancel_right hSplit
  rw [List.concat_eq_append, ← List.append_assoc] at hFront
  obtain ⟨hInit, hLast⟩ := List.append_inj' hFront rfl
  cases hLast
  refine ⟨by rw [hRest]; simp, ?_⟩
  rw [← hInit, List.length_append, List.length_reverse]
  exact Nat.le_add_right _ _

/-! ## Steps over the semicolon -/

section

variable {book : Rulebook} {c stop stop' final final' : Cursor} {outcome outcome' : Outcome}
  {steps steps' : List Step} {u : Text}

/-- Skipping that ends before an added text without a semicolon found its semicolon before it. -/
theorem mem_rest_of_skipStatement {cause : Option Mismatch} (hNone : ';' ∉ u) (hSome : u ≠ [])
    (hSkip : (skipStatement cause (c.extend u)).2 = stop.extend u) : ';' ∈ c.rest := by
  by_contra hMissing
  have hNowhere : ';' ∉ (c.extend u).rest := by simp [hMissing, hNone]
  have hAll := takeUntilOrRest_of_not_mem hNowhere true
  rw [skipStatement_eq, show (c.extend u).takeUntilOrRest ";" true = _ from hAll] at hSkip
  -- all the text would be skipped
  have hEnd := congrArg Cursor.rest hSkip
  simp [takeRest, hSome] at hEnd

variable (hTerminators : ∀ construct, (book construct).terminator = ";")
  (hProbe : ∀ x ∈ delimiters, x ≠ ';' → x ∈ u) (hNone : ';' ∉ u)

include hTerminators hProbe

/-- With a semicolon ahead and every other delimiter behind it, no search comes to nothing. -/
theorem expected_ne_delimiter {m : Mismatch} {left : Cursor} (hMem : ';' ∈ left.rest)
    (hFail : statement? book c = .error (.mismatch m) (left.extend u)) (t : Text) :
    m.expected ≠ .delimiter t := by
  intro hSearch
  obtain ⟨hMissing, hKnown⟩ := (statement?_halt hFail).2 t hSearch
  have hDelimiter : ∃ x ∈ delimiters, t = [x] := by
    rcases hKnown with hKnown | ⟨construct, hTerminator⟩
    · exact hKnown
    · exact ⟨';', by decide, hTerminator.trans (hTerminators construct)⟩
  obtain ⟨x, hMemDelimiters, rfl⟩ := hDelimiter
  refine before?_singleton_eq_none_iff.mp hMissing ?_
  by_cases hSame : x = ';'
  · exact List.mem_append_left u (hSame ▸ hMem)
  · exact List.mem_append_right _ (hProbe x hMemDelimiters hSame)

include hNone

/-- A step whose diagnostic the text does not close goes on into any text that holds the delimiters
but the semicolon. -/
theorem step_straddles (hLine : EndsLine c.rest) (hStart : c.skipBlanks = c)
    (hAhead : ';' ∈ c.rest) (hStep : step book c = .ok (outcome, stop)) {d : Diagnostic}
    (hDiagnostic : outcome.diagnostic? = some d) (hOpen : ¬ d.ClosedIn c.text)
    (hStep' : step book (c.extend u) = .ok (outcome', stop')) :
    stop'.rest.length < u.length := by
  by_contra hBefore
  have hMore : c.skipBlanks.rest ≠ [] := by
    rw [hStart]
    exact List.ne_nil_of_mem hAhead
  obtain ⟨e, -, rfl⟩ := exists_eq_extend (step_reaches hStep') (by omega)
  rcases step_cases hStep' with ⟨s, hRead, -⟩ | ⟨left', cause, hSkip, hLeft⟩
  · -- a statement read within the text would be one of the text
    obtain ⟨s', e', hHere⟩ := statement?_of_extend hTerminators hLine hMore hRead
    rw [step_of_some hHere] at hStep
    cases hStep
    cases hDiagnostic
  · have hLater : left'.Reaches (e.extend u) := by
      rw [skipStatement_eq] at hSkip
      obtain ⟨-, hStop⟩ := Prod.mk.inj hSkip
      exact hStop ▸ reaches_takeUntilOrRest ";" true left'
    have hLength := hLater.length_le
    obtain ⟨left, -, rfl⟩ := exists_eq_extend (reaches_left hLeft) (by omega)
    -- the skipped text ends within the text, since the added text has no semicolon
    have hSome : u ≠ [] := List.ne_nil_of_mem (hProbe '=' (by decide) (by decide))
    have hMem : ';' ∈ left.rest :=
      mem_rest_of_skipStatement hNone hSome (congrArg Prod.snd hSkip)
    have hSettled : left.Settled := ⟨List.ne_nil_of_mem hMem, ';', by decide, Or.inr hMem⟩
    have hText : left.text = c.text := (reaches_of_extend (reaches_left hLeft)).text_eq
    have hSemicolon : ';' ∈ c.text.drop left.pos := by rwa [← hText, drop_pos_text]
    have hStop : Reader.stop (statement? book) (c.extend u) = left.extend u := by
      rcases hLeft with ⟨hRead, -⟩ | ⟨m, hFail, -⟩
      · exact stop_of_ok hRead
      · exact stop_of_error hFail
    -- so the text alone is left off at the same place, for the same reason
    have hCarry := statement?_extend hTerminators hLine hMore (Or.inr ⟨left, hSettled, hStop⟩)
    rcases hLeft with ⟨hRead, -⟩ | ⟨m', hFail, -⟩
    · rw [hRead] at hCarry
      obtain ⟨left', hHere, hSame⟩ := carry_eq_ok_iff.mp hCarry.symm
      obtain rfl := extend_inj hSame
      rw [step_of_none hHere] at hStep
      have hSkipped := diagnostic?_of_skipStatement (Except.ok.inj hStep)
      rw [hDiagnostic] at hSkipped
      cases hSkipped
      refine hOpen ⟨hSemicolon, fun m t hCause => ?_⟩
      cases hCause
    · have hNoSearch := expected_ne_delimiter hTerminators hProbe hMem hFail
      rw [hFail] at hCarry
      obtain ⟨m, left', hHere, hSame, rfl⟩ := carry_eq_mismatch hCarry.symm
      obtain rfl := extend_inj hSame
      rw [step_of_mismatch hHere] at hStep
      have hSkipped := diagnostic?_of_skipStatement (Except.ok.inj hStep)
      rw [hDiagnostic] at hSkipped
      cases hSkipped
      refine hOpen ⟨hSemicolon, fun m' t hCause => ?_⟩
      cases hCause
      exact hNoSearch t

/-- In the trace through a text with its semicolon and a text that holds the other delimiters, some
step takes both, unless the first text closes its diagnostics. -/
theorem Trace.exists_straddling {t : Text} (hTrace : Trace book c steps final)
    (hText : c.text = t ++ ";\n") (hTrace' : Trace book (c.extend u) steps' final')
    (hNext : (u.dropWhile isBlank).head? ≠ some ';')
    (hOpen : ∃ s ∈ steps, ∃ d, s.outcome.diagnostic? = some d ∧ ¬ d.ClosedIn c.text) :
    ∃ x ∈ steps', x.start.pos ≤ t.length ∧ x.stop.text = c.text ++ u ∧
      x.stop.rest.length < u.length := by
  induction hTrace generalizing steps' with
  | done hEnd =>
    obtain ⟨s, hMem, -⟩ := hOpen
    cases hMem
  | @next c stop final outcome steps hMore hStep _ _ ih =>
    have hStart : (c.extend u).skipBlanks = c.skipBlanks.extend u := skipBlanks_extend hMore
    obtain ⟨hAhead, hPlace⟩ := semicolon_ahead hText hMore
    have hLine : EndsLine c.skipBlanks.rest := by
      have hAll : EndsLine c.skipBlanks.text := by
        rw [text_skipBlanks, hText]
        exact (show EndsLine ";\n" from rfl).append t
      exact hAll.of_append hMore
    cases hTrace' with
    | done hEnd' =>
      rw [hStart, rest_extend] at hEnd'
      exact absurd hEnd' (List.append_ne_nil_of_left_ne_nil hMore u)
    | @next _ stop' _ outcome' steps' _ hStep' _ hLater' =>
      rw [hStart] at hStep'
      by_cases hHere : ∀ d, outcome.diagnostic? = some d → d.ClosedIn c.text
      · -- this step is taken in the text alone, and a later one is not
        have hMore' : c.skipBlanks.skipBlanks.rest ≠ [] := by rwa [skipBlanks_skipBlanks]
        obtain ⟨outcome'', stop'', hSame, -, hStop⟩ := step_extend hTerminators hLine hMore' hNext
          hStep (by rwa [text_skipBlanks])
        rw [hStep'] at hSame
        cases hSame
        have hStopText : stop.text = c.text :=
          ((reaches_skipBlanks c).trans (step_reaches hStep)).text_eq
        have hOpenLater : ∃ s ∈ steps, ∃ d, s.outcome.diagnostic? = some d ∧
            ¬ d.ClosedIn stop.text := by
          obtain ⟨s, hMem, d, hDiagnostic, hNot⟩ := hOpen
          rcases List.mem_cons.mp hMem with rfl | hMem
          · exact absurd (hHere d hDiagnostic) hNot
          · exact ⟨s, hMem, d, hDiagnostic, hStopText ▸ hNot⟩
        obtain ⟨x, hMem, hFacts⟩ := ih (hStopText.trans hText) (hLater'.of_skipBlanks_eq hStop)
          hOpenLater
        rw [hStopText] at hFacts
        exact ⟨x, List.mem_cons_of_mem _ hMem, hFacts⟩
      · -- this step is the one
        obtain ⟨d, hDiagnostic, hNot⟩ : ∃ d, outcome.diagnostic? = some d ∧
            ¬ d.ClosedIn c.skipBlanks.text := by
          rw [text_skipBlanks]
          simpa using hHere
        have hShort := step_straddles hTerminators hProbe hNone hLine (skipBlanks_skipBlanks c)
          hAhead hStep hDiagnostic hNot hStep'
        refine ⟨_, List.mem_cons_self .., ?_, ?_, hShort⟩
        · rw [hStart]
          exact hPlace
        · have hReach := step_reaches hStep'
          rw [← hStart] at hReach
          rw [((reaches_skipBlanks _).trans hReach).text_eq]
          simp [text, Cursor.extend]

end

/-! ## The exact condition -/

/-- A step that ends by a place takes nothing of a text behind it that starts with no blank. -/
theorem not_endsBy_of_straddling {t u : Text} {x : Char} {s : Step} (hBlank : isBlank x = false)
    (hText : s.stop.text = t ++ x :: u) (hShort : s.stop.rest.length < (x :: u).length) {n : Nat}
    (hPlace : n ≤ t.length) : ¬ s.EndsBy n := by
  rintro ⟨-, hBlanks⟩
  have hLength := congrArg List.length hText
  unfold text at hText hLength
  simp only [List.length_append, List.length_reverse, List.length_cons] at hLength hShort
  -- what was seen goes over the start of the second text
  have hPrefix : t ++ [x] <+: s.stop.seen.reverse := by
    refine List.prefix_of_prefix_length_le ⟨u, ?_⟩ (List.prefix_append _ s.stop.rest) ?_
    · rw [hText, List.append_assoc]
      rfl
    · simp only [List.length_append, List.length_reverse, List.length_singleton]
      omega
  obtain ⟨more, hSeen⟩ := hPrefix
  have hMem : x ∈ s.stop.seen.reverse.drop n := by
    rw [← hSeen, List.append_assoc, List.drop_append_of_le_length hPlace]
    exact List.mem_append_right _ (List.mem_cons_self ..)
  have hAll := hBlanks x hMem
  rw [hBlank] at hAll
  cases hAll

/-- Where a step starts and stops in a text that ends with a semicolon and a line feed. -/
theorem Trace.start_pos_le {book : Rulebook} {t : Text} {c final : Cursor} {steps : List Step}
    (hTrace : Trace book c steps final) (hText : c.text = t ++ ";\n") :
    ∀ x ∈ steps, x.start.pos ≤ t.length ∧ x.stop.text = t ++ ";\n" := by
  induction hTrace with
  | done _ =>
    intro x hMem
    cases hMem
  | @next c stop final outcome steps hMore hStep _ _ ih =>
    have hStopText : stop.text = c.text :=
      ((reaches_skipBlanks c).trans (step_reaches hStep)).text_eq
    intro x hMem
    rcases List.mem_cons.mp hMem with rfl | hMem
    · exact ⟨(semicolon_ahead hText hMore).2, hStopText.trans hText⟩
    · exact ih (hStopText.trans hText) x hMem

theorem seen_skipBlanks (c : Cursor) :
    c.skipBlanks.seen.reverse = c.seen.reverse ++ c.rest.takeWhile isBlank := by
  have hTake := List.prefix_iff_eq_take.mp (List.takeWhile_prefix (l := c.rest) isBlank)
  unfold Cursor.skipBlanks advance
  rw [← hTake]
  simp

/-- A step that a longer text keeps takes only blanks of the text added. -/
theorem endsBy_of_continues {t u : Text} {s s' : Step} (hSame : Continues u s s')
    (hStart : s.start.pos ≤ t.length) (hText : s.stop.text = t ++ ";\n") :
    s'.EndsBy (t.length + 1) := by
  refine ⟨?_, fun x hMem => ?_⟩
  · rw [hSame.start, pos_extend]
    omega
  -- what the step took is in what it took of the text and the blanks behind that
  have hMemSkip : x ∈ (s'.stop.skipBlanks.seen.reverse).drop (t.length + 1) := by
    rw [seen_skipBlanks, List.drop_append]
    exact List.mem_append_left _ hMem
  rw [hSame.stop, seen_skipBlanks, List.drop_append] at hMemSkip
  rcases List.mem_append.mp hMemSkip with hSeen | hSkipped
  · have hBehind : x ∈ s.stop.text.drop (t.length + 1) := by
      unfold text
      rw [List.drop_append]
      exact List.mem_append_left _ hSeen
    rw [hText, List.drop_append, List.drop_eq_nil_of_le (by omega), Nat.add_sub_cancel_left]
      at hBehind
    have hBreak : x = '\n' := by simpa using hBehind
    rw [hBreak]
    decide
  · exact List.all_eq_true.mp List.all_takeWhile x (List.mem_of_mem_drop hSkipped)

theorem forall_of_continues {u : Text} {steps steps' : List Step} {p q : Step → Prop}
    (hSame : List.Forall₂ (Continues u) steps steps')
    (hStep : ∀ s s', Continues u s s' → p s → q s') (hAll : ∀ s ∈ steps, p s) :
    ∀ s' ∈ steps', q s' := by
  induction hSame with
  | nil =>
    intro s' hMem
    cases hMem
  | @cons s s' steps steps' hFirst _ ih =>
    intro x hMem
    rcases List.mem_cons.mp hMem with rfl | hMem
    · exact hStep s x hFirst (hAll s (List.mem_cons_self ..))
    · exact ih (fun s hMem => hAll s (List.mem_cons_of_mem _ hMem)) x hMem

/-- A confined text leaves alone whatever stands behind it. -/
theorem Confined.leavesIntact {s b : Text} (hConfined : Confined s) (hOne : ';' ∉ s)
    (hNext : (b.dropWhile isBlank).head? ≠ some ';') : LeavesIntact s b := by
  obtain ⟨first, hRun, hDiagnostics⟩ := hConfined
  have hLine : EndsLine (s ++ ";\n") := (show EndsLine ";\n" from rfl).append s
  have hClosed : ∀ d ∈ first.diagnostics, d.ClosedIn (normalize (s ++ ";\n")) := fun d hMem =>
    (closedIn_iff hOne d).mpr (hDiagnostics d hMem)
  -- the two runs follow one another, the first one with its steps kept
  obtain ⟨second, all, before, hRunB, hRunAll, hSteps, hSame⟩ :=
    exists_run_append hLine hRun hClosed hNext
  have hText : (Cursor.ofText (s ++ ";\n")).text = normalize s ++ ";\n" :=
    normalize_append_semicolon s
  have hTrace := trace_of_runFrom Rulebook.standard_separator_ne_nil hRun
  refine ⟨all, second, before, _, hRunAll, hRunB, ⟨hSteps, ?_, ?_, ?_, ?_⟩⟩
  · exact forall_of_continues hSame
      (fun x x' hContinues hPlace => endsBy_of_continues hContinues hPlace.1 hPlace.2)
      (hTrace.start_pos_le hText)
  · intro x hMem
    obtain ⟨y, -, rfl⟩ := List.mem_map.mp hMem
    have hLength : (normalize (s ++ ";\n")).length = (normalize s).length + 2 := by
      rw [normalize_append_semicolon, List.length_append]
      rfl
    show (normalize s).length + 1 ≤ (y.start.shift _).pos
    rw [pos_shift, hLength]
    omega
  · rw [statements_shift, statements_of_runFrom hRunB]
  · rw [diagnostics_shift, List.map_map, diagnostics_of_runFrom hRunB]
    rfl

/-- **When a statement does no damage.** A text without a semicolon leaves alone whatever stands
behind its semicolon exactly if it is confined: run alone with the semicolon, it is given up before
the semicolon, if at all, and not by a search for a delimiter. -/
theorem leavesIntact_iff_confined {s : Text} (hOne : ';' ∉ s) :
    (∀ b : Text, (b.dropWhile isBlank).head? ≠ some ';' → LeavesIntact s b) ↔ Confined s := by
  refine ⟨fun hIntact => ?_, fun hConfined b hNext => hConfined.leavesIntact hOne hNext⟩
  -- one text that holds every delimiter but the semicolon tells
  obtain ⟨all, second, before, after, hRunAll, -, hApart⟩ := hIntact "=)'" (by decide)
  obtain ⟨r, hRun, hTrace⟩ :=
    exists_runFrom Rulebook.standard_separator_ne_nil (Cursor.ofText (s ++ ";\n"))
  refine ⟨r, hRun, ?_⟩
  -- otherwise a step takes text on both sides of the semicolon, and no step of the run does that
  by_contra hNot
  have hText : (Cursor.ofText (s ++ ";\n")).text = normalize s ++ ";\n" :=
    normalize_append_semicolon s
  have hOpen : ∃ x ∈ r.steps, ∃ d, x.outcome.diagnostic? = some d ∧
      ¬ d.ClosedIn (Cursor.ofText (s ++ ";\n")).text := by
    by_contra hClosed
    refine hNot fun d hMem => ?_
    rw [diagnostics_of_runFrom hRun] at hMem
    obtain ⟨x, hMemSteps, hDiagnostic⟩ := List.mem_filterMap.mp hMem
    refine (closedIn_iff hOne d).mp ?_
    by_contra hHere
    exact hClosed ⟨x, hMemSteps, d, hDiagnostic, hHere⟩
  have hTraceAll := trace_of_runFrom Rulebook.standard_separator_ne_nil hRunAll
  have hLine : EndsLine (s ++ ";\n") := (show EndsLine ";\n" from rfl).append s
  rw [ofText_append hLine] at hTraceAll
  have hProbe : ∀ x ∈ delimiters, x ≠ ';' → x ∈ ("=)'" : Text) := by
    intro x hMem hOther
    have hCases : x = '=' ∨ x = ')' ∨ x = '\'' ∨ x = ';' := by simpa [delimiters] using hMem
    rcases hCases with rfl | rfl | rfl | rfl
    · decide
    · decide
    · decide
    · exact absurd rfl hOther
  obtain ⟨x, hMem, hStart, hStopText, hShort⟩ := hTrace.exists_straddling
    Rulebook.standard_terminator hProbe (by decide) hText hTraceAll (by decide) hOpen
  rw [hApart.steps] at hMem
  rcases List.mem_append.mp hMem with hBefore | hAfter
  · refine not_endsBy_of_straddling (by decide) hStopText hShort ?_ (hApart.upTo x hBefore)
    rw [hText, List.length_append]
    exact Nat.add_le_add_left (by decide) _
  · have hBehind := hApart.behind x hAfter
    omega

/-- A view without its definition is given up where the definition should start. -/
theorem confined_view :
    ';' ∉ ("CREATE VIEW v" : Text) ∧
      ∀ b : Text, (b.dropWhile isBlank).head? ≠ some ';' → LeavesIntact "CREATE VIEW v" b := by
  have hOne : ';' ∉ ("CREATE VIEW v" : Text) := by decide
  refine ⟨hOne, (leavesIntact_iff_confined hOne).mpr ?_⟩
  have hValue : (run Rulebook.standard (("CREATE VIEW v" : Text) ++ ";\n")).toOption.map
      Run.diagnostics = some [⟨"", 13, some ⟨.literal "AS", 13, ";\n[...]"⟩⟩] := by
    decide +kernel
  cases hRun : run Rulebook.standard (("CREATE VIEW v" : Text) ++ ";\n") with
  | error e =>
    rw [hRun] at hValue
    cases hValue
  | ok r =>
    rw [hRun] at hValue
    have hDiagnostics := Option.some.inj hValue
    refine ⟨r, hRun, fun d hMem => ?_⟩
    rw [hDiagnostics, List.mem_singleton] at hMem
    subst hMem
    -- the cause is a missing literal, so no search went on behind the semicolon
    refine ⟨by decide, fun m t hCause hSearch => ?_⟩
    cases hCause
    cases hSearch

/-- A setting without its value takes the name of the next setting for its own. -/
theorem not_leavesIntact_setting :
    ';' ∉ ("SET A" : Text) ∧ (("SET B = 2;\n" : Text).dropWhile isBlank).head? ≠ some ';' ∧
      ¬ LeavesIntact "SET A" "SET B = 2;\n" := by
  refine ⟨by decide, by decide, ?_⟩
  rintro ⟨all, second, before, after, hRunAll, hRunB, hApart⟩
  have hAll : (run Rulebook.standard (("SET A" : Text) ++ ";\n" ++ "SET B = 2;\n")).toOption.map
      Run.statements = some [.setting "A; SET B" "2"] := by
    decide +kernel
  have hSecond : (run Rulebook.standard "SET B = 2;\n").toOption.map Run.statements =
      some [.setting "B" "2"] := by
    decide +kernel
  rw [hRunAll] at hAll
  rw [hRunB] at hSecond
  have hStatements : all.statements = [.setting "A; SET B" "2"] := Option.some.inj hAll
  -- the one statement that was read would be the second setting
  have hLast : all.statements.getLast? = some (.setting "B" "2") := by
    rw [statements_of_runFrom hRunAll, hApart.steps, List.filterMap_append, hApart.statements,
      Option.some.inj hSecond]
    exact List.getLast?_concat
  rw [hStatements] at hLast
  revert hLast
  decide

end Script

end SchemaScript
