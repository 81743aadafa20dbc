import Mathlib.Data.List.Forall2
import SchemaScript.Proofs.Grammar.Extension
import SchemaScript.Proofs.Script.Trace

/-!
# Scripts that go on

A step through a text that ends with a line is taken in the same way if the text goes on, as long
as its outcome is settled in the text: a statement is, and so is a diagnostic that is `ClosedIn` the
text (`step_extend`). The trace through such a text is then the first part of the trace through
the longer text (`Trace.extend`).

The two steps need not stop at the same place, since an alteration looks for a semicolon behind its
end and passes blanks to do so. They stop at the same place but for blanks, if the added text does
not start with the semicolon that is looked for.
-/

namespace SchemaScript

open Reader Grammar Cursor Text

/-! ## Diagnostics that the text closes -/

/-- Whether a text closes a diagnostic: the skipped text ends with a semicolon of the text, and no
search that came to nothing caused it. -/
def Diagnostic.ClosedIn (t : Text) (d : Diagnostic) : Prop :=
  ';' ∈ t.drop d.position ∧ ∀ m delimiter, d.cause = some m → m.expected ≠ .delimiter delimiter

/-- A mismatch but for what it shows of the text. -/
def Mismatch.withoutContext (m : Mismatch) : Mismatch := { m with context := [] }

/-- A diagnostic but for what it shows of the text. -/
def Diagnostic.withoutContext (d : Diagnostic) : Diagnostic :=
  { d with cause := d.cause.map Mismatch.withoutContext }

/-- An outcome but for what it shows of the text. -/
def Outcome.withoutContext : Outcome → Outcome
  | statement s => statement s
  | skipped d => skipped d.withoutContext

@[simp] theorem Outcome.statement?_withoutContext (o : Outcome) :
    o.withoutContext.statement? = o.statement? := by
  cases o <;> rfl

@[simp] theorem Outcome.diagnostic?_withoutContext (o : Outcome) :
    o.withoutContext.diagnostic? = o.diagnostic?.map Diagnostic.withoutContext := by
  cases o <;> rfl

/-! ## Comments -/

namespace Cursor

variable {c d m : Cursor} {u : Text}

/-- The hyphens of a comment are not the end of a text that ends with a line. -/
theorem endsLine_of_accept_hyphens (hLine : EndsLine c.rest)
    (hRead : accept "--" c = .ok true d) : EndsLine d.rest := by
  have hReach := (skips_accept "--" c)
  rw [stop_of_ok hRead] at hReach
  refine ((reaches_skipBlanks c).trans hReach).endsLine hLine ?_
  intro hEnd
  rw [accept_apply] at hRead
  split at hRead
  · next hNext =>
    cases hRead
    obtain ⟨behind, hBehind⟩ := List.isPrefixOf_iff_prefix.mp hNext
    rw [rest_advance, ← hBehind, List.drop_left] at hEnd
    -- nothing behind the hyphens means that the line ends with one
    have hNextLine : EndsLine c.skipBlanks.rest := by
      refine (reaches_skipBlanks c).endsLine hLine ?_
      rw [← hBehind]
      simp
    rw [← hBehind, hEnd] at hNextLine
    cases hNextLine
  · cases hRead

end Cursor

namespace Grammar

variable {book : Rulebook} {c d m : Cursor} {u : Text}

theorem comment_extend (hLine : EndsLine c.rest) (hRead : accept "--" c = .ok true m) (u : Text) :
    comment (m.extend u) = carry (extend u) (comment m) := by
  have hMem := (endsLine_of_accept_hyphens hLine hRead).mem
  have hTake := takeUntilOrRest_extend_of_mem hMem false u
  rw [comment_apply, comment_apply]
  -- a comment ends with its line, and that is in the text
  rw [show (m.extend u).takeUntilOrRest "\n" false = _ from hTake]
  rfl

/-! ## Statements -/

/-- Behind the last character of a statement there is more of a text that ends with a line. -/
theorem settled_of_ends (hLine : EndsLine c.rest) (hReach : c.Reaches d) (hEnds : Ends ";)" d) :
    d.Settled := by
  obtain ⟨x, hFirm, hLast⟩ := hEnds
  refine ⟨?_, x, hFirm, Or.inl hLast⟩
  intro hEnd
  obtain ⟨taken, hRest, hSeen⟩ := hReach
  rw [hEnd, List.append_nil] at hRest
  obtain ⟨line, hText⟩ := endsLine_iff.mp hLine
  -- the last character would be the line feed
  rw [hSeen, ← hRest, hText] at hLast
  have hBreak : x = '\n' := by simpa using hLast.symm
  subst hBreak
  revert hFirm
  decide

theorem closing_eq {s : Statement} {b : Bool} (hAccept : accept ";" c = .ok b m) :
    closing (some (s, true)) c = .ok (some s) m := by
  show (accept ";" >>= fun _ => pure (some s)) c = _
  rw [bind_of_ok hAccept]
  rfl

/-- Behind a clause, nothing fails. -/
theorem exists_closing (clause : Statement × Bool) (c : Cursor) :
    ∃ d, closing (some clause) c = .ok (some clause.1) d ∧ c.Reaches d := by
  obtain ⟨s, mayClose⟩ := clause
  cases mayClose with
  | false => exact ⟨c, rfl, .refl c⟩
  | true =>
    obtain ⟨b, d, hAccept⟩ := accept_eq_ok ";" c
    have hReach := skips_accept ";" c
    rw [stop_of_ok hAccept] at hReach
    exact ⟨d, closing_eq hAccept, (reaches_skipBlanks c).trans hReach⟩

theorem accept_semicolon_of_head? (hNext : (c.rest.dropWhile isBlank).head? ≠ some ';') :
    accept ";" c = .ok false c.skipBlanks := by
  rw [accept_apply, rest_skipBlanks, if_neg]
  exact fun hSemicolon => hNext (isPrefixOf_singleton_iff.mp hSemicolon)

/-- What is done behind a clause is done in the same way but for blanks, if the added text does not
start with a semicolon. -/
theorem closing_extend {clause : Statement × Bool} {found : Option Statement}
    (hLine : EndsLine c.rest) (hNext : (u.dropWhile isBlank).head? ≠ some ';')
    (hRead : closing (some clause) c = .ok found d) :
    ∃ d', closing (some clause) (c.extend u) = .ok found d' ∧
      d'.skipBlanks = (d.extend u).skipBlanks := by
  obtain ⟨s, mayClose⟩ := clause
  cases mayClose with
  | false =>
    cases hRead
    exact ⟨_, rfl, rfl⟩
  | true =>
    obtain ⟨isClosed, m, hAccept⟩ := accept_eq_ok ";" c
    rw [closing_eq hAccept] at hRead
    cases hRead
    by_cases hEnd : c.skipBlanks.rest = []
    · -- the blanks up to the end of the text go on into the added text
      have hSkip : (c.extend u).skipBlanks = (⟨c.text.reverse, u⟩ : Cursor).skipBlanks :=
        skipBlanks_extend_of_eq_nil hEnd
      have hHere : accept ";" c = .ok false c.skipBlanks := by
        refine accept_semicolon_of_head? ?_
        rw [← rest_skipBlanks, hEnd]
        simp
      have hThere : accept ";" (c.extend u) = .ok false (c.extend u).skipBlanks := by
        refine accept_semicolon_of_head? ?_
        rw [← rest_skipBlanks, hSkip, rest_skipBlanks]
        exact hNext
      rw [hHere] at hAccept
      cases hAccept
      refine ⟨_, closing_eq hThere, ?_⟩
      have hEnd' : c.skipBlanks.skipBlanks.rest = [] := by rw [skipBlanks_skipBlanks, hEnd]
      rw [skipBlanks_skipBlanks, hSkip, skipBlanks_extend_of_eq_nil hEnd', text_skipBlanks]
    · -- something stands behind the blanks, and it is the same
      have hAgrees : accept ";" (c.extend u) = carry (extend u) (accept ";" c) :=
        accept_carry (agrees_extend hEnd hLine u) (by decide)
      rw [hAccept] at hAgrees
      exact ⟨_, closing_eq hAgrees, rfl⟩

section

variable (hTerminators : ∀ construct, (book construct).terminator = ";")

include hTerminators

/-- A directive that was read in a text that ends with a line is read in the same way if the text
goes on. -/
theorem directive?_extend_of_some {s : Statement} (hLine : EndsLine c.rest)
    (hNext : (u.dropWhile isBlank).head? ≠ some ';')
    (hRead : directive? book c = .ok (some s) d) :
    ∃ d', directive? book (c.extend u) = .ok (some s) d' ∧
      d'.skipBlanks = (d.extend u).skipBlanks := by
  rw [directive?_eq] at hRead ⊢
  obtain ⟨found, m, hClause, hClosing⟩ := bind_eq_ok_iff.mp hRead
  cases found with
  | none => cases hClosing
  | some clause =>
    have hReach := (composed_clause? book).reaches_of_ok hClause
    have hSettled := settled_of_ends hLine hReach (clause?_ends hTerminators hClause)
    have hCarry := (composed_clause? book).extend hTerminators c u hLine (.of_ok hClause hSettled)
    rw [hClause] at hCarry
    rw [bind_of_ok hCarry]
    exact closing_extend (hReach.endsLine hLine hSettled.1) hNext hClosing

/-- A directive that is read within the text, once the text goes on, is a directive of the text. -/
theorem directive?_of_extend {s : Statement} (hLine : EndsLine c.rest)
    (hRead : directive? book (c.extend u) = .ok (some s) (d.extend u)) :
    ∃ d', directive? book c = .ok (some s) d' := by
  rw [directive?_eq] at hRead ⊢
  obtain ⟨found, m', hClause, hClosing⟩ := bind_eq_ok_iff.mp hRead
  cases found with
  | none => cases hClosing
  | some clause =>
    -- the clause stops before the directive does, and so within the text
    obtain ⟨d', hEnd, hLater⟩ := exists_closing clause m'
    rw [hEnd] at hClosing
    cases hClosing
    have hLength := hLater.length_le
    rw [rest_extend, List.length_append] at hLength
    have hReach := (composed_clause? book).reaches_of_ok hClause
    obtain ⟨m, -, rfl⟩ := exists_eq_extend hReach (by omega)
    have hEnds : Ends ";)" (m.extend u) := clause?_ends hTerminators hClause
    have hSettled : m.Settled := settled_of_ends hLine (reaches_of_extend hReach) hEnds
    have hCarry := (composed_clause? book).extend hTerminators c u hLine
      (Or.inr ⟨m, hSettled, stop_of_ok hClause⟩)
    rw [hClause] at hCarry
    obtain ⟨m', hHere, -⟩ := carry_eq_ok_iff.mp hCarry.symm
    obtain ⟨e, hClosing, -⟩ := exists_closing clause m'
    exact ⟨e, (bind_of_ok hHere).trans hClosing⟩

end

/-- A comment is read in the same way if the text goes on; anything else is read as a directive with
and without the text added. -/
theorem statement?_extend_cases (book : Rulebook) (hLine : EndsLine c.rest)
    (hMore : c.skipBlanks.rest ≠ []) (u : Text) :
    (∃ s m, statement? book c = .ok (some s) m ∧
      statement? book (c.extend u) = .ok (some s) (m.extend u)) ∨
    (statement? book c = directive? book c.skipBlanks ∧
      statement? book (c.extend u) = directive? book (c.skipBlanks.extend u)) := by
  have hProbe : accept "--" (c.extend u) = carry (extend u) (accept "--" c) :=
    accept_carry (agrees_extend hMore hLine u) (by decide)
  obtain ⟨found, m, hFound⟩ := accept_eq_ok "--" c
  rw [hFound] at hProbe
  cases found with
  | true =>
    -- the comment ends with a line of the text
    have hComment := comment_extend hLine hFound u
    refine Or.inl ⟨_, _, statement?_of_hyphens hFound, ?_⟩
    rw [statement?_of_hyphens hProbe, bind_of_ok hComment]
    rfl
  | false =>
    have hPlace := eq_skipBlanks_of_accept hFound
    subst hPlace
    exact Or.inr ⟨statement?_of_no_hyphens hFound, statement?_of_no_hyphens hProbe⟩

section

variable (hTerminators : ∀ construct, (book construct).terminator = ";")
  (hLine : EndsLine c.rest) (hMore : c.skipBlanks.rest ≠ [])

include hTerminators hLine hMore

/-- Wherever reading stays within the text, it is the same if the text goes on. -/
theorem statement?_extend (hWithin : StaysWithin (statement? book) u c) :
    statement? book (c.extend u) = carry (extend u) (statement? book c) := by
  rcases statement?_extend_cases book hLine hMore u with ⟨s, m, hHere, hThere⟩ | ⟨hHere, hThere⟩
  · rw [hHere, hThere]
    rfl
  · have hLineRest := (reaches_skipBlanks c).endsLine hLine hMore
    rw [hHere, hThere]
    exact composed_directive?.extend hTerminators _ u hLineRest (hWithin.congr hHere hThere)

/-- A statement of a text that ends with a line is read in the same way if the text goes on. -/
theorem statement?_extend_of_some {s : Statement} (hNext : (u.dropWhile isBlank).head? ≠ some ';')
    (hRead : statement? book c = .ok (some s) d) :
    ∃ d', statement? book (c.extend u) = .ok (some s) d' ∧
      d'.skipBlanks = (d.extend u).skipBlanks := by
  rcases statement?_extend_cases book hLine hMore u with ⟨s, m, hHere, hThere⟩ | ⟨hHere, hThere⟩
  · rw [hRead] at hHere
    cases hHere
    exact ⟨_, hThere, rfl⟩
  · rw [hHere] at hRead
    rw [hThere]
    have hLineRest := (reaches_skipBlanks c).endsLine hLine hMore
    exact directive?_extend_of_some hTerminators hLineRest hNext hRead

/-- A statement that is read within the text, once the text goes on, is a statement of the text. -/
theorem statement?_of_extend {s : Statement}
    (hRead : statement? book (c.extend u) = .ok (some s) (d.extend u)) :
    ∃ s' d', statement? book c = .ok (some s') d' := by
  rcases statement?_extend_cases book hLine hMore u with ⟨s', m, hHere, -⟩ | ⟨hHere, hThere⟩
  · exact ⟨s', m, hHere⟩
  · rw [hThere] at hRead
    rw [hHere]
    have hLineRest := (reaches_skipBlanks c).endsLine hLine hMore
    obtain ⟨d', hDirective⟩ := directive?_of_extend hTerminators hLineRest hRead
    exact ⟨s, d', hDirective⟩

end

end Grammar

namespace Script

variable {book : Rulebook} {c stop stop' final final' : Cursor} {outcome outcome' : Outcome}
  {steps later : List Step} {u : Text}

/-! ## Steps -/

/-- Skipping ends in the text if a semicolon lies ahead there. -/
theorem skipStatement_extend (hMem : ';' ∈ c.rest) (cause : Option Mismatch) (u : Text) :
    skipStatement cause (c.extend u) =
      ((skipStatement cause c).1, (skipStatement cause c).2.extend u) := by
  have hTake := takeUntilOrRest_extend_of_mem hMem true u
  rw [skipStatement_eq, skipStatement_eq]
  rw [show (c.extend u).takeUntilOrRest ";" true = _ from hTake]
  rfl

/-- What a mismatch shows of the text does not matter for what is skipped. -/
theorem skipStatement_withoutContext (m : Mismatch) (c d : Cursor) (hPlace : m.position = c.pos) :
    (skipStatement (some (.atCursor m.expected c)) d).1.withoutContext =
      (skipStatement (some m) d).1.withoutContext := by
  rw [skipStatement_eq, skipStatement_eq]
  simp only [Outcome.withoutContext, Diagnostic.withoutContext, Mismatch.withoutContext,
    Mismatch.atCursor, Option.map_some, hPlace]

theorem diagnostic?_of_skipStatement {cause : Option Mismatch}
    (hSkip : skipStatement cause c = (outcome, stop)) :
    outcome.diagnostic? = some ⟨(c.takeUntilOrRest ";" true).1, c.pos, cause⟩ := by
  rw [skipStatement_eq] at hSkip
  cases hSkip
  rfl

section

variable (hTerminators : ∀ construct, (book construct).terminator = ";")
  (hLine : EndsLine c.rest) (hMore : c.skipBlanks.rest ≠ [])

include hTerminators hLine hMore

/-- A step whose outcome is settled in the text is taken in the same way if the text goes on. -/
theorem step_extend (hNext : (u.dropWhile isBlank).head? ≠ some ';')
    (hStep : step book c = .ok (outcome, stop))
    (hClosed : ∀ d, outcome.diagnostic? = some d → d.ClosedIn c.text) :
    ∃ outcome' stop', step book (c.extend u) = .ok (outcome', stop') ∧
      outcome'.withoutContext = outcome.withoutContext ∧
      stop'.skipBlanks = (stop.extend u).skipBlanks := by
  rcases step_cases hStep with ⟨s, hRead, rfl⟩ | ⟨left, cause, hSkip, hLeft⟩
  · obtain ⟨stop', hRead', hStop⟩ := statement?_extend_of_some hTerminators hLine hMore hNext hRead
    exact ⟨_, stop', step_of_some hRead', rfl, hStop⟩
  · -- the semicolon that ends the skipped text settles the place where reading left off
    have hClosedHere := hClosed _ (diagnostic?_of_skipStatement hSkip)
    have hText := (reaches_left hLeft).text_eq
    have hMem : ';' ∈ left.rest := by
      rw [← left.drop_pos_text, hText]
      exact hClosedHere.1
    have hSettled : left.Settled := ⟨List.ne_nil_of_mem hMem, ';', by decide, Or.inr hMem⟩
    have hFirst : skipStatement cause left = (outcome, stop) := hSkip
    have hThere := skipStatement_extend hMem cause u
    rw [hFirst] at hThere
    rcases hLeft with ⟨hNone, rfl⟩ | ⟨m, hFail, rfl⟩
    · have hCarry := statement?_extend hTerminators hLine hMore (u := u) (.of_ok hNone hSettled)
      rw [hNone] at hCarry
      have hStep' := step_of_none hCarry
      rw [hThere] at hStep'
      exact ⟨outcome, stop.extend u, hStep', rfl, rfl⟩
    · have hWithin : StaysWithin (statement? book) u c :=
        .of_mismatch hFail hSettled fun t => hClosedHere.2 m t rfl
      have hCarry := statement?_extend hTerminators hLine hMore hWithin
      rw [hFail] at hCarry
      have hStep' := step_of_mismatch hCarry
      -- the mismatch is told for the same place, with another context perhaps
      have hPlace : m.position = left.pos := congrArg Mismatch.position (statement?_halt hFail).1
      have hOutcome := skipStatement_withoutContext m (left.extend u) (left.extend u) hPlace
      rw [hThere] at hOutcome
      have hStop : (skipStatement (some (.atCursor m.expected (left.extend u)))
          (left.extend u)).2 = stop.extend u := congrArg Prod.snd hThere
      exact ⟨(skipStatement _ _).1, (skipStatement _ _).2, hStep', hOutcome, by rw [hStop]⟩

end

/-! ## Traces -/

/-- Whether a step of a longer text is a step of the text: they start at the same place, have the
same outcome but for what it shows of the text, and stop at the same place but for blanks. -/
structure Continues (u : Text) (s s' : Step) : Prop where
  start : s'.start = s.start.extend u
  outcome : s'.outcome.withoutContext = s.outcome.withoutContext
  stop : s'.stop.skipBlanks = (s.stop.extend u).skipBlanks

/-- **A script can be read up to a line and then on.** The steps through a text that ends with a
line, all of which are settled in it, come first in a text that goes on, and those through the added
text follow. -/
theorem Trace.extend (hTerminators : ∀ construct, (book construct).terminator = ";")
    (hTrace : Trace book c steps final) (hLine : EndsLine c.text)
    (hNext : (u.dropWhile isBlank).head? ≠ some ';')
    (hClosed : ∀ s ∈ steps, ∀ d, s.outcome.diagnostic? = some d → d.ClosedIn c.text)
    (hLater : Trace book ⟨c.text.reverse, u⟩ later final') :
    ∃ steps', Trace book (c.extend u) (steps' ++ later) final' ∧
      List.Forall₂ (Continues u) steps steps' := by
  induction hTrace with
  | @done c hEnd =>
    -- only blanks are left, and those before the added text do not matter
    exact ⟨[], hLater.of_skipBlanks_eq (skipBlanks_extend_of_eq_nil hEnd).symm, .nil⟩
  | @next c stop final outcome steps hMore hStep _ _ ih =>
    have hReach := reaches_skipBlanks c
    have hLineRest : EndsLine c.skipBlanks.rest := by
      rw [← text_skipBlanks] at hLine
      exact hLine.of_append hMore
    have hMore' : c.skipBlanks.skipBlanks.rest ≠ [] := by rwa [skipBlanks_skipBlanks]
    have hClosedHere := hClosed _ (List.mem_cons_self ..)
    rw [← text_skipBlanks] at hClosedHere
    obtain ⟨outcome', stop', hStep', hOutcome, hStop⟩ :=
      step_extend hTerminators hLineRest hMore' hNext hStep hClosedHere
    have hText : stop.text = c.text := (hReach.trans (step_reaches hStep)).text_eq
    -- the text stays the same from step to step, and with it what is asked of it
    obtain ⟨steps', hSteps', hSame⟩ := ih (hText ▸ hLine)
      (fun s hMem d hDiagnostic => hText ▸ hClosed s (List.mem_cons_of_mem _ hMem) d hDiagnostic)
      (hText ▸ hLater)
    have hNotNil : (c.skipBlanks.extend u).rest ≠ [] := by
      rw [rest_extend]
      exact List.append_ne_nil_of_left_ne_nil hMore u
    have hMoved' := step_moves hNotNil hStep'
    have hStart : (c.extend u).skipBlanks = c.skipBlanks.extend u := skipBlanks_extend hMore
    rw [← hStart] at hNotNil hStep' hMoved'
    refine ⟨⟨(c.extend u).skipBlanks, outcome', stop'⟩ :: steps', ?_, ?_⟩
    · exact .next hNotNil hStep' hMoved' (hSteps'.of_skipBlanks_eq hStop.symm)
    · exact .cons ⟨hStart, hOutcome, hStop⟩ hSame

end Script

end SchemaScript
