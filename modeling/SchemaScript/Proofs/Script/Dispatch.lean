import SchemaScript.Proofs.Script.Skipped

/-!
# How statements open

A step is settled by the first characters at its start (`Script.run_dispatches`). Hyphens make it a
comment. One of the keywords `CREATE`, `ALTER` and `SET`, with a space or a line feed behind it,
commits it to the statements of that keyword: it gives one of them, or a diagnostic with a cause
behind the keyword, and nothing else is tried. Any other text is skipped from the start of the step,
without a cause.

So a diagnostic without a cause is told from the others by its position alone: it is the start of a
step, and the others are behind one.
-/

namespace SchemaScript

open Text Reader Grammar

/-! ## Openings -/

/-- The ways in which a statement opens. -/
inductive Opening where
  | comment
  | creation
  | alteration
  | setting
  deriving DecidableEq

/-- A keyword with one of the characters that may stand behind it. -/
def Grammar.spellings (word : Text) : List Text := [word ++ " ", word ++ "\n"]

namespace Opening

/-- The texts that an opening is written with. -/
def keys : Opening → List Text
  | comment => ["--"]
  | creation => spellings "CREATE"
  | alteration => spellings "ALTER"
  | setting => spellings "SET"

/-- An opening is written with at least one character. -/
theorem ne_nil_of_mem_keys {o : Opening} {key : Text} (hKey : key ∈ o.keys) : key ≠ [] := by
  revert key
  cases o <;> decide

/-- Whether a text starts with an opening. -/
def Opens (t : Text) (o : Opening) : Prop := ∃ key ∈ o.keys, key <+: t

instance (t : Text) (o : Opening) : Decidable (o.Opens t) :=
  inferInstanceAs (Decidable (∃ key ∈ o.keys, key <+: t))

/-- The first character of an opening. -/
def initial : Opening → Char
  | comment => '-'
  | creation => 'C'
  | alteration => 'A'
  | setting => 'S'

/-- A text starts with one opening at most, since the first character tells them apart. -/
theorem Opens.unique {t : Text} {o o' : Opening} (hOpens : o.Opens t) (hOpens' : o'.Opens t) :
    o = o' := by
  -- the keys are not empty, so their first character is the one of the text
  have hInitial : ∀ o : Opening, o.Opens t → t.head? = some o.initial := by
    rintro o ⟨key, hKey, behind, rfl⟩
    have hKeys : ∀ key ∈ o.keys, key.head? = some o.initial := by
      cases o <;> decide
    rw [List.head?_append_of_ne_nil _ (ne_nil_of_mem_keys hKey)]
    exact hKeys key hKey
  have hSame := (hInitial o hOpens).symm.trans (hInitial o' hOpens')
  revert hSame
  cases o <;> cases o' <;> decide

/-- What follows an opening. -/
def body (book : Rulebook) : Opening → Reader Statement
  | comment => Grammar.comment
  | creation => Grammar.creation book
  | alteration => Grammar.alteration book
  | setting => Grammar.setting

end Opening

/-- The opening of a statement. -/
def Statement.opening : Statement → Opening
  | comment _ => .comment
  | database _ _ | tablespace _ _ _ | table _ _ _ _ _ | index _ _ _ _ | view _ _ => .creation
  | setting _ _ => .setting
  | addConstraint _ _ => .alteration

namespace Grammar

variable {book : Rulebook} {c d : Cursor}

/-! ## What follows an opening -/

/-- Behind the keyword of creations, one of five statements is read. -/
theorem gives_creation (book : Rulebook) :
    Gives (fun s : Statement => s.opening = .creation) (creation book) := by
  have hDatabase : Gives (fun s : Statement => s.opening = .creation) (database book) :=
    .bind fun _ => .map fun _ => rfl
  have hTablespace : Gives (fun s : Statement => s.opening = .creation) (tablespace book) :=
    .bind fun _ => .bind fun _ => .bind fun _ => .map fun _ => rfl
  have hTable : Gives (fun s : Statement => s.opening = .creation) (table book) :=
    .bind fun _ => .bind fun _ => .bind fun _ => .bind fun _ => .bind fun _ => .bind fun _ =>
      .map fun _ => rfl
  have hIndex : ∀ unique, Gives (fun s : Statement => s.opening = .creation) (index book unique) :=
    fun _ => .bind fun _ => .bind fun _ => .bind fun _ => .bind fun _ => .map fun _ => rfl
  have hView : Gives (fun s : Statement => s.opening = .creation) view :=
    .bind fun _ => .bind fun _ => .map fun _ => rfl
  -- in the order in which the keywords are tried
  exact .choice hDatabase (.choice hTablespace (.choice hTable
    (.choice (.choice (hIndex true) (.fail _)) (.choice (hIndex false)
      (.choice hView (.fail _))))))

/-- Behind the keyword of alterations, a constraint is added. -/
theorem gives_alteration (book : Rulebook) :
    Gives (fun s : Statement => s.opening = .alteration) (alteration book) := by
  rw [alteration_eq]
  exact .bind fun _ => .map fun _ => rfl

/-- Behind the keyword of settings, a setting is read. -/
theorem gives_setting : Gives (fun s : Statement => s.opening = .setting) setting :=
  .bind fun _ => .bind fun _ => .map fun _ => rfl

/-- What follows an opening is a statement of that opening. -/
theorem gives_body (book : Rulebook) (o : Opening) :
    Gives (fun s : Statement => s.opening = o) (o.body book) := by
  cases o with
  | comment => exact .map fun _ => rfl
  | creation => exact gives_creation book
  | alteration => exact gives_alteration book
  | setting => exact gives_setting

/-- What follows an opening is read forward. -/
theorem reaches_stop_body (book : Rulebook) (o : Opening) (c : Cursor) :
    c.Reaches (stop (o.body book) c) := by
  cases o with
  | comment => exact reaches_takeUntilOrRest "\n" false c
  | creation => exact composed_creation.reaches c
  | alteration => exact composed_alteration.reaches c
  | setting => exact (composed_setting book).reaches c

/-! ## Which opening is taken -/

/-- A choice by a keyword is settled by what stands next. -/
theorem choice_by_spelling {α : Type} (word : Text) (r s : Reader α) (hStart : c.skipBlanks = c) :
    (∃ key ∈ spellings word, key <+: c.rest ∧
      (do if ← keyword word then r else s) c = r (c.advance key.length)) ∨
    ((∀ key ∈ spellings word, ¬ key <+: c.rest) ∧
      (do if ← keyword word then r else s) c = s c) := by
  -- no blanks are passed, so the probe looks at what is ahead
  have hProbe := keyword_apply word c
  rw [hStart] at hProbe
  by_cases hFound : ∃ key ∈ spellings word, key <+: c.rest
  · obtain ⟨key, hKey, hPrefix⟩ := hFound
    refine Or.inl ⟨key, hKey, hPrefix, ?_⟩
    have hRead : keyword word c = .ok true (c.advance key.length) := by
      rw [← List.isPrefixOf_iff_prefix] at hPrefix
      -- both spellings have one character more than the keyword
      rcases List.mem_pair.mp hKey with rfl | rfl
      · rw [hProbe, hPrefix, Bool.true_or, if_pos rfl, List.length_append]
        rfl
      · rw [hProbe, hPrefix, Bool.or_true, if_pos rfl, List.length_append]
        rfl
    exact bind_of_ok hRead
  · have hNone : ∀ key ∈ spellings word, ¬ key <+: c.rest := fun key hKey hPrefix =>
      hFound ⟨key, hKey, hPrefix⟩
    refine Or.inr ⟨hNone, ?_⟩
    have hRead : keyword word c = .ok false c := by
      rw [hProbe, if_neg]
      rw [Bool.or_eq_true, List.isPrefixOf_iff_prefix, List.isPrefixOf_iff_prefix]
      rintro (hSpace | hBreak)
      · exact hNone _ (List.mem_pair.mpr (Or.inl rfl)) hSpace
      · exact hNone _ (List.mem_pair.mpr (Or.inr rfl)) hBreak
    exact bind_of_ok hRead

/-- A statement opens in one of the four ways and is then read behind its opening, or no statement
opens and the cursor stays. -/
theorem statement?_by_opening (book : Rulebook) (hStart : c.skipBlanks = c) :
    (∃ o : Opening, ∃ key ∈ o.keys, key <+: c.rest ∧
      statement? book c = (o.body book >>= fun s => pure (some s)) (c.advance key.length)) ∨
    ((∀ o : Opening, ¬ o.Opens c.rest) ∧ statement? book c = .ok none c) := by
  have hProbe := accept_apply "--" c
  rw [hStart] at hProbe
  by_cases hHyphens : ("--" : Text).isPrefixOf c.rest = true
  · rw [if_pos hHyphens] at hProbe
    exact Or.inl ⟨.comment, "--", List.mem_singleton_self _, List.isPrefixOf_iff_prefix.mp hHyphens,
      statement?_of_hyphens hProbe⟩
  rw [if_neg hHyphens] at hProbe
  rw [statement?_of_no_hyphens hProbe]
  -- the keywords are tried one after the other, each at the start
  rcases choice_by_spelling "CREATE" _ _ hStart with ⟨key, hKey, hPrefix, hThen⟩ | ⟨hCreate, hElse⟩
  · exact Or.inl ⟨.creation, key, hKey, hPrefix, hThen⟩
  rcases choice_by_spelling "ALTER" _ _ hStart with ⟨key, hKey, hPrefix, hThen⟩ | ⟨hAlter, hElse'⟩
  · exact Or.inl ⟨.alteration, key, hKey, hPrefix, hElse.trans hThen⟩
  rcases choice_by_spelling "SET" _ _ hStart with ⟨key, hKey, hPrefix, hThen⟩ | ⟨hSet, hElse''⟩
  · exact Or.inl ⟨.setting, key, hKey, hPrefix, hElse.trans (hElse'.trans hThen)⟩
  refine Or.inr ⟨?_, hElse.trans (hElse'.trans hElse'')⟩
  rintro o ⟨key, hKey, hPrefix⟩
  cases o with
  | comment =>
    obtain rfl := List.mem_singleton.mp hKey
    exact hHyphens (List.isPrefixOf_iff_prefix.mpr hPrefix)
  | creation => exact hCreate key hKey hPrefix
  | alteration => exact hAlter key hKey hPrefix
  | setting => exact hSet key hKey hPrefix

/-- Passing an opening moves the cursor. -/
theorem pos_lt_advance_key {o : Opening} {key : Text} (hKey : key ∈ o.keys)
    (hPrefix : key <+: c.rest) : c.pos < (c.advance key.length).pos := by
  have hSome := List.length_pos_iff.mpr (Opening.ne_nil_of_mem_keys hKey)
  have hShort := hPrefix.length_le
  rw [Cursor.pos_advance]
  omega

end Grammar

/-! ## Steps -/

/-- Whether a step ended as the first characters at its start ask for. -/
structure Step.Dispatched (s : Step) : Prop where
  /-- a comment is read in any case -/
  comment : Opening.comment.Opens s.start.rest → ∃ body, s.outcome = .statement (.comment body)
  /-- a keyword leads to its statements, or to a diagnostic behind the keyword, with a cause -/
  committed : ∀ o, o ≠ .comment → o.Opens s.start.rest →
    (∃ x, s.outcome = .statement x ∧ x.opening = o) ∨
      ∃ d m, s.outcome = .skipped d ∧ d.cause = some m ∧ s.start.pos < d.position
  /-- without an opening, and only then, there is a diagnostic without a cause -/
  unopened : (∀ o : Opening, ¬ o.Opens s.start.rest) ↔
    ∃ d, s.outcome = .skipped d ∧ d.cause = none
  position : ∀ d, s.outcome = .skipped d → d.cause = none → d.position = s.start.pos

namespace Script

variable {book : Rulebook} {c final : Cursor} {steps : List Step} {s : Step}

/-- A step that read a statement passed its opening and read what follows it. -/
theorem body_eq_ok {x : Statement} (hTaken : s.Taken book) (hOutcome : s.outcome = .statement x) :
    ∃ key ∈ x.opening.keys, key <+: s.start.rest ∧
      x.opening.body book (s.start.advance key.length) = .ok x s.stop := by
  have hStep := hTaken.step_eq
  rw [hOutcome] at hStep
  have hRead := statement?_of_step hStep
  -- what was read behind the opening tells which opening it was
  rcases statement?_by_opening book hTaken.atCharacter with ⟨o, key, hKey, hPrefix, hThen⟩ |
    ⟨-, hNone⟩
  · rw [hThen] at hRead
    obtain ⟨x', hBody, hSome⟩ := map_eq_ok_iff.mp hRead
    cases hSome
    obtain rfl : x.opening = o := gives_body book o _ x s.stop hBody
    exact ⟨key, hKey, hPrefix, hBody⟩
  · rw [hNone] at hRead
    cases hRead

/-- A text is skipped behind the opening with a cause, or at the start without an opening. -/
theorem skipped_cases {d : Diagnostic} (hTaken : s.Taken book) (hOutcome : s.outcome = .skipped d) :
    (∃ o : Opening, o.Opens s.start.rest ∧ o ≠ .comment ∧ (∃ m, d.cause = some m) ∧
      s.start.pos < d.position) ∨
    ((∀ o : Opening, ¬ o.Opens s.start.rest) ∧ d.cause = none ∧ d.position = s.start.pos) := by
  have hStep := hTaken.step_eq
  rw [hOutcome] at hStep
  rcases step_cases hStep with ⟨x, -, hStatement⟩ | ⟨left, cause, hSkip, hLeft⟩
  · cases hStatement
  rw [skipStatement_eq] at hSkip
  obtain ⟨hDiagnostic, -⟩ := Prod.mk.inj hSkip
  cases hDiagnostic
  rcases statement?_by_opening book hTaken.atCharacter with ⟨o, key, hKey, hPrefix, hThen⟩ |
    ⟨hNone, hRead⟩
  · rw [hThen] at hLeft
    rcases hLeft with ⟨hRead, -⟩ | ⟨m, hFail, rfl⟩
    · exact absurd hRead map_some_ne_none
    · -- the failure is one of what follows the opening
      have hBehind := reaches_stop_body book o (s.start.advance key.length)
      rw [← stop_map some, stop_of_error hFail] at hBehind
      refine Or.inl ⟨o, ⟨key, hKey, hPrefix⟩, ?_, ⟨m, rfl⟩, ?_⟩
      · rintro rfl
        cases hFail
      · exact (pos_lt_advance_key hKey hPrefix).trans_le hBehind.pos_le
  · -- without an opening nothing fails, and nothing was passed
    rcases hLeft with ⟨hHere, rfl⟩ | ⟨m, hFail, -⟩
    · rw [hRead] at hHere
      cases hHere
      exact Or.inr ⟨hNone, rfl, rfl⟩
    · rw [hRead] at hFail
      cases hFail

/-- Every step that is taken ends as its first characters ask for. -/
theorem dispatched_of_taken (hTaken : s.Taken book) : s.Dispatched := by
  cases hOutcome : s.outcome with
  | statement x =>
    -- the opening is the one of the statement
    obtain ⟨key, hKey, hPrefix, -⟩ := body_eq_ok hTaken hOutcome
    have hOpens : x.opening.Opens s.start.rest := ⟨key, hKey, hPrefix⟩
    refine ⟨fun hComment => ?_, fun o _ hHere => Or.inl ⟨x, hOutcome, hOpens.unique hHere⟩,
      ⟨fun hNone => absurd hOpens (hNone _), ?_⟩, ?_⟩
    · have hOpening := hOpens.unique hComment
      cases x with
      | comment body => exact ⟨body, hOutcome⟩
      | _ => cases hOpening
    · rintro ⟨d, hSkipped, -⟩
      rw [hOutcome] at hSkipped
      cases hSkipped
    · intro d hSkipped
      rw [hOutcome] at hSkipped
      cases hSkipped
  | skipped d =>
    have hSame : ∀ d', s.outcome = .skipped d' → d' = d := by
      intro d' hSkipped
      rw [hOutcome] at hSkipped
      exact (Outcome.skipped.inj hSkipped).symm
    rcases skipped_cases hTaken hOutcome with ⟨o, hOpens, hOther, ⟨m, hCause⟩, hBehind⟩ |
      ⟨hNone, hCause, hPlace⟩
    · -- the diagnostic has a cause, so the step has an opening
      have hNever : ∀ d', s.outcome = .skipped d' → d'.cause ≠ none := by
        intro d' hSkipped hNoCause
        rw [hSame d' hSkipped, hCause] at hNoCause
        cases hNoCause
      refine ⟨fun hComment => absurd (hOpens.unique hComment) hOther,
        fun o _ _ => Or.inr ⟨d, m, hOutcome, hCause, hBehind⟩,
        ⟨fun hNone => absurd hOpens (hNone o), ?_⟩, ?_⟩
      · rintro ⟨d', hSkipped, hNoCause⟩
        exact absurd hNoCause (hNever d' hSkipped)
      · intro d' hSkipped hNoCause
        exact absurd hNoCause (hNever d' hSkipped)
    · -- without an opening there is nothing but the diagnostic at the start
      refine ⟨fun hComment => absurd hComment (hNone _), fun o _ hOpens => absurd hOpens (hNone o),
        ⟨fun _ => ⟨d, hOutcome, hCause⟩, fun _ => hNone⟩, ?_⟩
      intro d' hSkipped _
      rw [hSame d' hSkipped, hPlace]

/-! ## Runs -/

/-- A place that is behind the start of a step and at which a text was skipped is not the start of
any step. -/
theorem Trace.start_pos_ne (hTrace : Trace book c steps final) {s s' : Step} (hMem : s ∈ steps)
    (hMem' : s' ∈ steps) {d : Diagnostic} (hOutcome : s.outcome = .skipped d)
    (hBehind : s.start.pos < d.position) : s'.start.pos ≠ d.position := by
  have hTaken := hTrace.taken s hMem
  have hTaken' := hTrace.taken s' hMem'
  have hStep := hTaken.step_eq
  rw [hOutcome] at hStep
  -- the step itself starts before the place
  by_cases hSame : s = s'
  · subst hSame
    omega
  rcases hTrace.apart hMem hMem' hSame with hLater | hEarlier
  · -- the later step starts behind the semicolon
    have hSemicolon := semicolonFrom_lt_pos_stop hStep (hLater.rest_ne_nil hTaken'.more)
    have hStart := hLater.pos_le
    unfold semicolonFrom at hSemicolon
    omega
  · have hMoved := hTrace.start_lt_stop s' hMem'
    have hStart := hEarlier.pos_le
    omega

/-- **The first characters settle a step.** With separators that separate, each step of a run ends
as the opening at its start asks for, and the diagnostics without a cause are those at the start of
a step that has no opening. -/
theorem run_dispatches (hSeparators : ∀ construct, (book construct).separator ≠ [])
    (script : Text) :
    ∃ r, run book script = .ok r ∧ Trace book (.ofText script) r.steps r.final ∧
      (∀ s ∈ r.steps, s.Dispatched) ∧
      ∀ d ∈ r.diagnostics, d.cause = none ↔
        ∃ s ∈ r.steps, s.start.pos = d.position ∧ ∀ o : Opening, ¬ o.Opens s.start.rest := by
  obtain ⟨r, hRun, hTrace⟩ := exists_runFrom hSeparators (.ofText script)
  refine ⟨r, hRun, hTrace, fun s hMem => dispatched_of_taken (hTrace.taken s hMem),
    fun d hMem => ?_⟩
  rw [diagnostics_of_runFrom hRun] at hMem
  obtain ⟨s, hStep, hDiagnostic⟩ := List.mem_filterMap.mp hMem
  have hOutcome := Outcome.diagnostic?_eq_some_iff.mp hDiagnostic
  have hDispatched := dispatched_of_taken (hTrace.taken s hStep)
  constructor
  · intro hCause
    exact ⟨s, hStep, (hDispatched.position d hOutcome hCause).symm,
      hDispatched.unopened.mpr ⟨d, hOutcome, hCause⟩⟩
  · rintro ⟨s', hStep', hPlace, -⟩
    -- a diagnostic with a cause is behind the start of its step, where no step starts
    rcases skipped_cases (hTrace.taken s hStep) hOutcome with ⟨o, -, -, -, hBehind⟩ | ⟨-, hCause, -⟩
    · exact absurd hPlace (hTrace.start_pos_ne hStep hStep' hOutcome hBehind)
    · exact hCause

/-- A keyword that breaks off, one that is written with more letters, and two statements. -/
theorem run_dispatches_lineRules :
    (∀ construct, (lineRules construct).separator ≠ []) ∧
      ∃ r, run lineRules "CREATE\n;CREATES v; SET\nA=1;--" = .ok r ∧
        r.diagnostics.map (fun d => (d.position, d.cause.isSome)) = [(7, true), (8, false)] ∧
        Trace lineRules (.ofText "CREATE\n;CREATES v; SET\nA=1;--") r.steps r.final ∧
        (∀ s ∈ r.steps, s.Dispatched) ∧
        ∀ d ∈ r.diagnostics, d.cause = none ↔
          ∃ s ∈ r.steps, s.start.pos = d.position ∧ ∀ o : Opening, ¬ o.Opens s.start.rest := by
  have hSeparators : ∀ construct, (lineRules construct).separator ≠ [] := by
    intro construct
    cases construct <;> decide
  have hValue : (run lineRules "CREATE\n;CREATES v; SET\nA=1;--").toOption.map
      (fun r => r.diagnostics.map fun d => (d.position, d.cause.isSome)) =
        some [(7, true), (8, false)] := by
    decide +kernel
  obtain ⟨r, hRun, hTrace, hSteps, hCauses⟩ :=
    run_dispatches hSeparators "CREATE\n;CREATES v; SET\nA=1;--"
  rw [hRun] at hValue
  exact ⟨hSeparators, r, hRun, Option.some.inj hValue, hTrace, hSteps, hCauses⟩

end Script

end SchemaScript
