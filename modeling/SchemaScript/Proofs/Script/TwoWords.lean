import SchemaScript.Proofs.Script.TablePlaces

/-!
# Keywords of two words that are broken

A line feed stands as well as a space between two tokens, but not between the two words of
`PRIMARY KEY`, `FOREIGN KEY`, `NOT NULL` or `WITH DEFAULT`. In a script that is read without
diagnostics, let a line feed take the place of the space in one of them.

* Without its kind a constraint cannot go on, and the statement is skipped from the first word on
  (`Step.skipped_of_kind`).
* Without the attribute its field ends, which is no error in itself. The table goes on with a
  further item, and the two words are a name and a type (`Step.outcome_of_broken`). If both words
  stand apart, nothing is left over: the table has one column more, which takes the attributes
  behind the two words with it (`Step.column_of_broken`). Only a literal behind `WITH DEFAULT`
  still gives the mistake away (`Step.skipped_of_quote`).

So a script is never read as it was (`run_broken`), and a column is added without a diagnostic.
-/

namespace SchemaScript

open Text Reader Grammar

/-! ## A broken attribute -/

section

variable {n : Nat} {s t type : Text} {x x' : Step} {table name : QualifiedName}
  {items : List Item} {attributes : List Attribute} {k m : Cursor} {words : Text × Text}
  (hBroken : BrokenAt n s t) (hTaken' : x'.Taken Rulebook.standard) (hText : x.start.text = s)
  (hStart : x'.start = x.start.inText t)
  (hPlace : x.AttributeAt table items name type attributes k) (hMem : words ∈ attributePairs)
  (hAccept : accept (twoWords words) k = .ok true m)
  (hBreak : k.skipBlanks.pos + words.1.length = n)

include hBroken hTaken' hText hStart hPlace hMem hAccept hBreak

/-- **The field ends before the broken words**, with the attributes that were read. -/
theorem Step.readsOn_of_broken :
    x'.ReadsOn table (items ++ [.field (fieldOf name type attributes)])
      (k.skipBlanks.inText t) := by
  obtain ⟨hBlank, hRest, -⟩ :=
    accepted_inText_of_broken hBroken (hPlace.reaches.text_eq.trans hText) hAccept hBreak
  obtain ⟨opening, place, hOpens, hInTurn, hField⟩ := hPlace
  have hOpening := hOpens.reaches
  have hItems := hInTurn.reaches composed_item?
  have hAttributes := hField.reaches
  have hSkip := (Cursor.reaches_skipBlanks k).pos_le
  have hOpeningText := hOpening.text_eq.trans hText
  have hPlaceText := hItems.text_eq.trans hOpeningText
  have hText' := hAttributes.text_eq.trans hPlaceText
  have hEnd : k.pos ≤ n := by omega
  have hEnd' := hAttributes.pos_le.trans hEnd
  -- what is read before the break is read in both texts
  have hReads := (hOpens.before hBroken hText hStart (hItems.pos_le.trans hEnd')).readsOn hTaken'
    (hInTurn.before hBroken composed_item? hOpeningText hEnd')
  have hField' := hField.before hBroken hPlaceText hEnd
  -- no attribute is found at the line feed, so the field ends
  have hNone : many (attribute? Rulebook.standard) (k.inText t) =
      .ok [] (k.skipBlanks.inText t) := by
    rw [many_attribute?_skipBlanks, Cursor.skipBlanks_inText hBroken.same hText']
    exact many_of_none (attribute?_of_broken hMem hBlank hRest _)
  have hItem := hField'.constraintOrField?_eq.trans (bind_of_ok hNone)
  rw [List.append_nil] at hItem
  -- the item has no comma behind it
  have hNoComma : (k.skipBlanks.inText t).rest.head? ≠ some ',' := by
    rw [hRest]
    rcases List.mem_pair.mp hMem with rfl | rfl <;> simp
  have hNext := hReads.behind_item hItem
  rwa [Cursor.passComma_of_ne hBlank hNoComma] at hNext

/-- The two words are read as a further field, or the statement is skipped. -/
theorem Step.outcome_of_broken :
    (∃ d, x'.outcome = .skipped d ∧ k.skipBlanks.pos ≤ d.position) ∨
      ∃ home later parameters type' attributes', words.2 <+: type' ∧
        x'.outcome = .statement (tableOf table home
          (items ++ .field (fieldOf name type attributes) ::
            .field (fieldOf ⟨words.1, none⟩ type' attributes') :: later) parameters) := by
  have hReads := Step.readsOn_of_broken hBroken hTaken' hText hStart hPlace hMem hAccept hBreak
  have hText' := hPlace.reaches.text_eq.trans hText
  obtain ⟨hBlank, hRest, -⟩ := accepted_inText_of_broken hBroken hText' hAccept hBreak
  rcases hReads.skipped_or hTaken' with ⟨d, hSkipped, hBehind⟩ | ⟨later, q, home, parameters,
    hLater, hOutcome⟩
  · left
    have hLength : t.length = k.skipBlanks.text.length := by
      rw [hBroken.length_eq, Cursor.text_skipBlanks, hText']
    rw [Cursor.pos_inText hLength] at hBehind
    exact ⟨d, hSkipped, hBehind⟩
  · right
    -- what is read next starts with the first word
    cases hItem : constraintOrField? Rulebook.standard (k.skipBlanks.inText t) with
    | error e d =>
      have hFail : item? Rulebook.standard (k.skipBlanks.inText t) = .error e d :=
        bind_of_error hItem
      rw [many_of_error hFail] at hLater
      cases hLater
    | ok found d =>
      obtain ⟨type', attributes', rfl, hType⟩ := exists_field_of_broken hMem hBlank hRest hItem
      rw [many_item?_of_some hItem, map_eq_ok_iff] at hLater
      obtain ⟨later, -, rfl⟩ := hLater
      rw [List.append_assoc] at hOutcome
      exact ⟨home, later, parameters, type', attributes', hType, hOutcome⟩

/-- If the second word is a whole word and no parenthesis opens behind it, the two words are a
further field, and the attributes behind them are those of the further field. -/
theorem Step.readsOn_column {more : List Attribute} {d : Cursor} (hEnd : startsWord m.rest = false)
    (hOpen : m.skipBlanks.rest.head? ≠ some '(')
    (hMore : many (attribute? Rulebook.standard) (m.skipBlanks.inText t) = .ok more d) :
    x'.ReadsOn table (items ++ [.field (fieldOf name type attributes)] ++
      [.field (fieldOf ⟨words.1, none⟩ words.2 more)]) d.passComma := by
  obtain ⟨hBlank, hRest, hAdvance, hNext, -⟩ :=
    accepted_inText_of_broken hBroken (hPlace.reaches.text_eq.trans hText) hAccept hBreak
  rw [Cursor.rest_skipBlanks] at hOpen
  rw [← Cursor.skipBlanks_inText hBroken.same hNext, ← hAdvance] at hMore
  exact (Step.readsOn_of_broken hBroken hTaken' hText hStart hPlace hMem hAccept hBreak).behind_item
    (constraintOrField?_of_broken hMem hBlank hRest hEnd hOpen hMore)

/-- With a quoted literal behind the second word, the statement is skipped at the quote. -/
theorem Step.skipped_of_quote (hEnd : startsWord m.rest = false)
    (hQuote : m.skipBlanks.rest.head? = some '\'') :
    ∃ d, x'.outcome = .skipped d ∧ d.position = m.skipBlanks.pos ∧
      d.cause = some (.atCursor (.literal ")") (m.skipBlanks.inText t)) := by
  obtain ⟨-, -, -, hNext, hBehind⟩ :=
    accepted_inText_of_broken hBroken (hPlace.reaches.text_eq.trans hText) hAccept hBreak
  have hNext' : m.skipBlanks.text = s := m.text_skipBlanks.trans hNext
  have hBehind' := hBehind.trans_le (Cursor.reaches_skipBlanks m).pos_le
  obtain ⟨rest, hThere⟩ := List.head?_eq_some_iff.mp hQuote
  have hThere' : (m.skipBlanks.inText t).rest = '\'' :: rest := by
    rw [Cursor.rest_inText_of_lt hBroken hNext' hBehind', hThere]
  have hMark : '\'' ∈ ("('" : Text) := by decide
  have hBlank : (m.skipBlanks.inText t).skipBlanks = m.skipBlanks.inText t := by
    rw [Cursor.skipBlanks_inText hBroken.same hNext', Cursor.skipBlanks_skipBlanks]
  -- the further field has no attributes, and nothing goes on behind it
  have hNone : many (attribute? Rulebook.standard) (m.skipBlanks.inText t) =
      .ok [] (m.skipBlanks.inText t) := by
    have hMany := many_attribute?_of_mark Rulebook.standard hMark (hBlank.symm ▸ hThere')
    rwa [hBlank] at hMany
  have hOpen : m.skipBlanks.rest.head? ≠ some '(' := by
    rw [hQuote]
    decide
  have hLast := Step.readsOn_column hBroken hTaken' hText hStart hPlace hMem hAccept hBreak hEnd
    hOpen hNone
  rw [Cursor.passComma_of_ne hBlank (by rw [hThere']; simp)] at hLast
  obtain ⟨d, hOutcome, hPosition, hCause⟩ :=
    Script.skipped_of_mismatch hTaken' (hLast.error_of_mark hBlank hMark hThere')
  refine ⟨d, hOutcome, ?_, hCause⟩
  rw [hPosition, Cursor.pos_inText (by rw [hBroken.length_eq, hNext'])]

/-- **A column that was not there.** If the second word is a whole word and no quoted literal
follows, the table is read, with the two words as a further field and the attributes behind them as
the attributes of that field. -/
theorem Step.column_of_broken {y : Statement} (hTaken : x.Taken Rulebook.standard)
    (hOutcome : x.outcome = .statement y) (hEnd : startsWord m.rest = false)
    (hQuote : m.skipBlanks.rest.head? ≠ some '\'') :
    ∃ home more later parameters,
      y = tableOf table home (items ++ .field (fieldOf name type
        (attributes ++ attributeOf words :: more)) :: later) parameters ∧
      x'.outcome = .statement (tableOf table home
        (items ++ .field (fieldOf name type attributes) ::
          .field (fieldOf ⟨words.1, none⟩ words.2 more) :: later) parameters) ∧
      x'.stop = x.stop.inText t := by
  obtain ⟨-, -, -, hNext, hBehind⟩ :=
    accepted_inText_of_broken hBroken (hPlace.reaches.text_eq.trans hText) hAccept hBreak
  have hNext' : m.skipBlanks.text = s := m.text_skipBlanks.trans hNext
  have hBehind' := hBehind.trans_le (Cursor.reaches_skipBlanks m).pos_le
  -- what is read of the table in the text without the break
  have hPlace' := hPlace
  have hStep := hTaken.step_eq
  rw [hOutcome] at hStep
  have hRead := Script.statement?_of_step hStep
  obtain ⟨d, hAttribute, hSkip⟩ := attribute?_of_accept Rulebook.standard hMem hAccept hQuote
  obtain ⟨opening, place, hOpens, hInTurn, hField⟩ := hPlace'
  have hReads := hOpens.readsOn hTaken hInTurn
  have hField := hField.concat hAttribute
  have hOpen := hReads.head?_ne hField hRead
  obtain ⟨more, q, hMore, hReads⟩ := hReads.exists_field hField hRead
  rw [hSkip] at hOpen
  rw [many_attribute?_skipBlanks, hSkip] at hMore
  -- the attributes behind the words are read in both texts, and so is the rest of the table
  have hMany : Composed Rulebook.standard (many (attribute? Rulebook.standard)) :=
    .many composed_attribute?
  have hReach := hMany.reaches_of_ok hMore
  have hMore' := hMany.behind hBroken hNext' hBehind'
  rw [hMore] at hMore'
  have hText' := hReach.text_eq.trans hNext'
  have hBehind'' := hBehind'.trans_le hReach.pos_le
  have hComma := Cursor.reaches_passComma q
  have hReads' := Step.readsOn_column hBroken hTaken' hText hStart hPlace hMem hAccept hBreak hEnd
    hOpen hMore'
  rw [Cursor.passComma_inText hBroken hText' hBehind''] at hReads'
  obtain ⟨home, later, parameters, rfl, hRead'⟩ := hReads.behind hBroken hReads'
    (hComma.text_eq.trans hText') (hBehind''.trans_le hComma.pos_le) hRead
  have hStep' := hTaken'.step_eq
  rw [Script.step_of_some hRead'] at hStep'
  obtain ⟨hOutcome', hStop'⟩ := Prod.mk.inj (Except.ok.inj hStep')
  simp only [List.append_assoc, List.cons_append, List.nil_append] at hOutcome' ⊢
  exact ⟨home, more, later, parameters, rfl, hOutcome'.symm, hStop'.symm⟩

end

/-! ## A broken kind of constraint -/

/-- Where the two words of a kind are broken, the statement is skipped. -/
theorem Step.skipped_of_kind {n : Nat} {s t : Text} {x x' : Step} {name : QualifiedName}
    {k m : Cursor} {words : Text × Text} (hBroken : BrokenAt n s t)
    (hTaken' : x'.Taken Rulebook.standard) (hText : x.start.text = s)
    (hStart : x'.start = x.start.inText t) (hMem : words ∈ kindPairs)
    (hCalls : Calls Rulebook.standard (constraintKind Rulebook.standard name) k
      (statement? Rulebook.standard) x.start)
    (hKeyword : keyword (twoWords words) k = .ok true m)
    (hBreak : k.skipBlanks.pos + words.1.length = n) :
    ∃ d, x'.outcome = .skipped d ∧ d.position = k.skipBlanks.pos ∧
      d.cause = some (.atCursor (.clause .constraintKind) (k.skipBlanks.inText t)) := by
  have hText' := hCalls.reaches.text_eq.trans hText
  have hNext : k.skipBlanks.text = s := k.text_skipBlanks.trans hText'
  have hSkip := (Cursor.reaches_skipBlanks k).pos_le
  obtain ⟨y, -, hPrefix, -⟩ := exists_of_keyword hKeyword
  have hAccept : accept (twoWords words) k =
      .ok true (k.skipBlanks.advance (twoWords words).length) := by
    have hHere := (List.prefix_append ..).trans hPrefix
    rw [accept_apply, if_pos (List.isPrefixOf_iff_prefix.mpr hHere)]
  obtain ⟨hBlank, hRest, -⟩ := accepted_inText_of_broken hBroken hText' hAccept hBreak
  -- the blanks before the words are passed first
  have hFail : constraintKind Rulebook.standard name (k.inText t) =
      .error (.mismatch (.atCursor (.clause .constraintKind) (k.skipBlanks.inText t)))
        (k.skipBlanks.inText t) := by
    have hSame : constraintKind Rulebook.standard name (k.inText t) =
        constraintKind Rulebook.standard name (k.inText t).skipBlanks :=
      bind_skipBlanks (fun c => (keyword_skipBlanks "PRIMARY KEY" c).symm) _ _
    rw [hSame, Cursor.skipBlanks_inText hBroken.same hText']
    exact constraintKind_of_broken _ name hMem hBlank hRest
  have hStatement := (hCalls.before hBroken hText (by omega)).error hFail
  rw [← hStart] at hStatement
  obtain ⟨d, hOutcome, hPosition, hCause⟩ := Script.skipped_of_mismatch hTaken' hStatement
  refine ⟨d, hOutcome, ?_, hCause⟩
  rw [hPosition, Cursor.pos_inText (by rw [hBroken.length_eq, hNext])]

/-! ## Runs -/

/-- What becomes of a step if a line feed takes the place of a space in its text, and the space
stands between the two words of a keyword. -/
structure Step.Breaks (n : Nat) (t : Text) (x x' : Step) : Prop where
  /-- without its kind a constraint ends the statement -/
  kind : ∀ name k m words, words ∈ kindPairs →
    Calls Rulebook.standard (constraintKind Rulebook.standard name) k
      (statement? Rulebook.standard) x.start →
    keyword (twoWords words) k = .ok true m → k.skipBlanks.pos + words.1.length = n →
    ∃ d, x'.outcome = .skipped d ∧ d.position = k.skipBlanks.pos ∧
      d.cause = some (.atCursor (.clause .constraintKind) (k.skipBlanks.inText t))
  /-- a field ends before the words, and they start a further one if the table is read -/
  field : ∀ table items name type attributes k m words, words ∈ attributePairs →
    x.AttributeAt table items name type attributes k →
    accept (twoWords words) k = .ok true m → k.skipBlanks.pos + words.1.length = n →
    (∃ d, x'.outcome = .skipped d ∧ k.skipBlanks.pos ≤ d.position) ∨
      ∃ home later parameters type' attributes', words.2 <+: type' ∧
        x'.outcome = .statement (tableOf table home
          (items ++ .field (fieldOf name type attributes) ::
            .field (fieldOf ⟨words.1, none⟩ type' attributes') :: later) parameters)
  /-- if the words stand apart and no literal follows, the table is read with that further field -/
  column : ∀ table items name type attributes k m words, words ∈ attributePairs →
    x.AttributeAt table items name type attributes k →
    accept (twoWords words) k = .ok true m → k.skipBlanks.pos + words.1.length = n →
    startsWord m.rest = false → m.skipBlanks.rest.head? ≠ some '\'' →
    ∃ home more later parameters,
      x.outcome = .statement (tableOf table home (items ++ .field (fieldOf name type
        (attributes ++ attributeOf words :: more)) :: later) parameters) ∧
      x'.outcome = .statement (tableOf table home
        (items ++ .field (fieldOf name type attributes) ::
          .field (fieldOf ⟨words.1, none⟩ words.2 more) :: later) parameters) ∧
      x'.stop = x.stop.inText t
  /-- if they stand apart and a literal follows, the statement is skipped from the quote on -/
  quote : ∀ table items name type attributes k m words, words ∈ attributePairs →
    x.AttributeAt table items name type attributes k →
    accept (twoWords words) k = .ok true m → k.skipBlanks.pos + words.1.length = n →
    startsWord m.rest = false → m.skipBlanks.rest.head? = some '\'' →
    ∃ d, x'.outcome = .skipped d ∧ d.position = m.skipBlanks.pos ∧
      d.cause = some (.atCursor (.literal ")") (m.skipBlanks.inText t))

/-- Whether a step takes two words as a keyword at a place, with no word going on behind them. -/
inductive Step.Takes (x : Step) (words : Text × Text) (k m : Cursor) : Prop
  | kind (name : QualifiedName) (hMem : words ∈ kindPairs)
      (hCalls : Calls Rulebook.standard (constraintKind Rulebook.standard name) k
        (statement? Rulebook.standard) x.start)
      (hKeyword : keyword (twoWords words) k = .ok true m)
  | field (table : QualifiedName) (items : List Item) (name : QualifiedName) (type : Text)
      (attributes : List Attribute) (hMem : words ∈ attributePairs)
      (hPlace : x.AttributeAt table items name type attributes k)
      (hAccept : accept (twoWords words) k = .ok true m) (hEnd : startsWord m.rest = false)

/-- Another field makes another table. -/
theorem tableOf_ne_of_field (table home home' : QualifiedName) (items later : List Item)
    (parameters parameters' : Parameters) (x x' x'' : Field) :
    tableOf table home (items ++ .field x :: .field x' :: later) parameters ≠
      tableOf table home' (items ++ .field x'' :: later) parameters' := by
  intro hSame
  -- the tables have numbers of fields that differ by one
  have hFields := (Statement.table.inj hSame).2.2.1
  have hLength := congrArg List.length hFields
  simp [List.filterMap_append, Item.field?] at hLength

/-- Where the two words of a keyword are broken, the statement is skipped, or a table with a column
too many is read up to the same place. -/
theorem Step.Breaks.of_takes {n : Nat} {t : Text} {x x' : Step} {words : Text × Text} {k m : Cursor}
    (hBreaks : x.Breaks n t x') (hTakes : x.Takes words k m)
    (hBreak : k.skipBlanks.pos + words.1.length = n) :
    (∃ d, x'.outcome = .skipped d) ∨
      ∃ y, x'.outcome = .statement y ∧ x.outcome ≠ .statement y ∧ x'.stop = x.stop.inText t := by
  cases hTakes with
  | kind name hMem hCalls hKeyword =>
    obtain ⟨d, hSkipped, -⟩ := hBreaks.kind _ _ _ _ hMem hCalls hKeyword hBreak
    exact .inl ⟨d, hSkipped⟩
  | field table items name type attributes hMem hPlace hAccept hEnd =>
    by_cases hQuote : m.skipBlanks.rest.head? = some '\''
    · obtain ⟨d, hSkipped, -⟩ :=
        hBreaks.quote _ _ _ _ _ _ _ _ hMem hPlace hAccept hBreak hEnd hQuote
      exact .inl ⟨d, hSkipped⟩
    · obtain ⟨home, more, later, parameters, hRead, hThere, hStop⟩ :=
        hBreaks.column _ _ _ _ _ _ _ _ hMem hPlace hAccept hBreak hEnd hQuote
      refine .inr ⟨_, hThere, ?_, hStop⟩
      rw [hRead]
      exact fun hSame => tableOf_ne_of_field _ _ _ _ _ _ _ _ _ _ (Outcome.statement.inj hSame).symm

namespace Script

/-- **Keywords of two words cannot be broken across lines.** In a script that is read without
diagnostics, let a line feed take the place of a space. The steps before the one with that space
stay as they are, and so do those behind it if it stops at the same place. The step itself is
skipped if the space stands in the kind of a constraint. If it stands in an attribute of a field,
the step is skipped, or a table is read in which the two words are a further field, and there may be
no diagnostic at all. So the script is never read as it was. -/
theorem run_broken {script script' : Text} {n : Nat} {r : Run} {earlier later : List Step}
    {x : Step} (hRun : run Rulebook.standard script = .ok r) (hRead : r.diagnostics = [])
    (hBroken : BrokenAt n (normalize script) (normalize script'))
    (hSteps : r.steps = earlier ++ x :: later) (hBefore : x.start.pos ≤ n)
    (hBehind : n < x.stop.pos) :
    ∃ r' x' later', run Rulebook.standard script' = .ok r' ∧
      r'.steps = earlier.map (Step.inText (normalize script')) ++ x' :: later' ∧
      x'.start = x.start.inText (normalize script') ∧
      (x'.stop = x.stop.inText (normalize script') →
        later' = later.map (Step.inText (normalize script')) ∧
          ((∃ y, x'.outcome = .statement y) → r'.diagnostics = [])) ∧
      x.Breaks n (normalize script') x' ∧
      ∀ words k m, x.Takes words k m → k.skipBlanks.pos + words.1.length = n →
        ¬ (r'.diagnostics = [] ∧ r'.statements = r.statements) := by
  have hMem : x ∈ r.steps := by simp [hSteps]
  have hTrace := trace_of_runFrom Rulebook.standard_separator_ne_nil hRun
  have hTaken := hTrace.taken x hMem
  have hText : x.start.text = normalize script := (hTrace.reaches_start x hMem).text_eq
  obtain ⟨y, hOutcome⟩ := (diagnostics_eq_nil_iff hRun).mp hRead x hMem
  obtain ⟨r', x', later', hRun', hSteps', hTaken', hStart, hSame⟩ :=
    exists_run_of_broken hRun hRead hBroken hSteps hBefore hBehind
  have hBreaks : x.Breaks n (normalize script') x' :=
    { kind := fun name k m words hMem hCalls hKeyword hBreak =>
        Step.skipped_of_kind hBroken hTaken' hText hStart hMem hCalls hKeyword hBreak
      field := fun table items name type attributes k m words hMem hPlace hAccept hBreak =>
        Step.outcome_of_broken hBroken hTaken' hText hStart hPlace hMem hAccept hBreak
      column := by
        intro table items name type attributes k m words hMem hPlace hAccept hBreak hEnd hQuote
        obtain ⟨home, more, later, parameters, rfl, hThere, hStop⟩ :=
          Step.column_of_broken hBroken hTaken' hText hStart hPlace hMem hAccept hBreak hTaken
            hOutcome hEnd hQuote
        exact ⟨home, more, later, parameters, hOutcome, hThere, hStop⟩
      quote := fun table items name type attributes k m words hMem hPlace hAccept hBreak hEnd
          hQuote =>
        Step.skipped_of_quote hBroken hTaken' hText hStart hPlace hMem hAccept hBreak hEnd hQuote }
  refine ⟨r', x', later', hRun', hSteps', hStart, hSame, hBreaks, ?_⟩
  rintro words k m hTakes hBreak ⟨hNone, hStatements⟩
  rcases hBreaks.of_takes hTakes hBreak with ⟨d, hSkipped⟩ | ⟨y', hThere, hOther, hStop⟩
  · obtain ⟨y', hStatement⟩ := (diagnostics_eq_nil_iff hRun').mp hNone x' (by simp [hSteps'])
    rw [hSkipped] at hStatement
    cases hStatement
  · rw [(hSame hStop).1] at hSteps'
    refine statements_ne hRun hRun' hSteps hSteps' hOutcome hThere ?_ hStatements
    rintro rfl
    exact hOther hOutcome

/-! ### A script with two such keywords -/

/-- A script with an attribute of two words and, in another step, a kind of two words. -/
def pairScript : Text :=
  "CREATE TABLE T (A INT NOT NULL) IN D;\nALTER TABLE T ADD CONSTRAINT C PRIMARY KEY (A);"

/-- The script with a line feed in the attribute. -/
def pairScriptNotNull : Text :=
  "CREATE TABLE T (A INT NOT\nNULL) IN D;\nALTER TABLE T ADD CONSTRAINT C PRIMARY KEY (A);"

/-- The script with a line feed in the kind. -/
def pairScriptPrimaryKey : Text :=
  "CREATE TABLE T (A INT NOT NULL) IN D;\nALTER TABLE T ADD CONSTRAINT C PRIMARY\nKEY (A);"

/-- A place in the script. -/
def pairPlace (n : Nat) : Cursor := (Cursor.ofText pairScript).advance n

/-- The step that reads the attribute. -/
def pairTable : Step where
  start := pairPlace 0
  outcome := .statement (tableOf ⟨"T", none⟩ ⟨"D", none⟩
    [.field (fieldOf ⟨"A", none⟩ "INT" [attributeOf ("NOT", "NULL")])] .empty)
  stop := pairPlace 37

/-- The step that reads the kind. -/
def pairAddition : Step where
  start := pairPlace 38
  outcome := .statement (.addConstraint ⟨"T", none⟩
    (.plain ⟨"C", none⟩ (Parameters.empty.insert "PRIMARY_KEY" "A")))
  stop := pairPlace 85

/-- The run through the script. -/
def pairRun : Run := .ofSteps [pairTable, pairAddition] (pairPlace 85)

/-- The places of the script are known by their position. -/
theorem pos_pairPlace {n : Nat} (hWithin : n ≤ 85) : (pairPlace n).pos = n := by
  have hLength : (Cursor.ofText pairScript).rest.length = 85 := by decide +kernel
  rw [pairPlace, Cursor.pos_advance, hLength, Nat.min_eq_left hWithin]
  exact Nat.zero_add n

/-- The script is read in these two steps. -/
theorem run_pairScript : run Rulebook.standard pairScript = .ok pairRun := by
  have hValue : (run Rulebook.standard pairScript).toOption = some pairRun := by decide +kernel
  cases hRun : run Rulebook.standard pairScript with
  | error e =>
    rw [hRun] at hValue
    cases hValue
  | ok r =>
    rw [hRun] at hValue
    exact congrArg Except.ok (Option.some.inj hValue)

/-- One of the other scripts breaks the attribute. -/
theorem brokenAt_pairScriptNotNull :
    BrokenAt 25 (normalize pairScript) (normalize pairScriptNotNull) := by
  have hBefore : pairScript = ("CREATE TABLE T (A INT NO" : Text) ++ 'T' :: ' ' :: 'N' ::
      "ULL) IN D;\nALTER TABLE T ADD CONSTRAINT C PRIMARY KEY (A);" := by decide +kernel
  have hAfter : pairScriptNotNull = ("CREATE TABLE T (A INT NO" : Text) ++ 'T' :: '\n' :: 'N' ::
      "ULL) IN D;\nALTER TABLE T ADD CONSTRAINT C PRIMARY KEY (A);" := by decide +kernel
  have hPlace : (normalize "CREATE TABLE T (A INT NO").length + 1 = 25 := by decide +kernel
  rw [hBefore, hAfter, ← hPlace]
  exact brokenAt_normalize (by decide) (by decide) _ _

/-- The last script breaks the kind of the constraint. -/
theorem brokenAt_pairScriptPrimaryKey :
    BrokenAt 76 (normalize pairScript) (normalize pairScriptPrimaryKey) := by
  constructor <;> decide +kernel

/-- The attribute is asked for behind the type of the only field. -/
theorem attributeAt_pairTable :
    pairTable.AttributeAt ⟨"T", none⟩ [] ⟨"A", none⟩ "INT" [] (pairPlace 22) := by
  have hCreate : ("CREATE " : Text) <+: (pairPlace 0).rest := by decide +kernel
  have hTable : keyword "TABLE" ((pairPlace 0).advance 7) = .ok true (pairPlace 13) := rfl
  have hTitle : qualifiedName (pairPlace 13) = .ok ⟨"T", none⟩ (pairPlace 14) := rfl
  have hOpen : expect "(" (pairPlace 14) = .ok "(" (pairPlace 16) := rfl
  have hNone : constraint? Rulebook.standard (pairPlace 16) = .ok none (pairPlace 16) := rfl
  have hName : qualifiedName? (pairPlace 16) = .ok (some ⟨"A", none⟩) (pairPlace 17) := rfl
  have hType : fieldType (pairPlace 17) = .ok "INT" (pairPlace 22) := rfl
  have hOpens : pairTable.OpensBody ⟨"T", none⟩ (pairPlace 16) :=
    ⟨"CREATE ", by decide, hCreate, _, _, _, hTable, hTitle, hOpen⟩
  exact ⟨_, _, hOpens, .done _, _, _, _, hNone, hName, hType, .done _⟩

/-- The two words of the attribute are there. -/
theorem accept_pairTable :
    accept (twoWords ("NOT", "NULL")) (pairPlace 22) = .ok true (pairPlace 30) := by
  rfl

/-- No word goes on behind the attribute. -/
theorem startsWord_pairTable : startsWord (pairPlace 30).rest = false := by decide +kernel

/-- So the step that reads the table takes the two words. -/
theorem takes_pairTable : pairTable.Takes ("NOT", "NULL") (pairPlace 22) (pairPlace 30) :=
  .field _ _ _ _ _ (by decide) attributeAt_pairTable accept_pairTable startsWord_pairTable

/-- The space that is broken stands behind the first word. -/
theorem break_pairTable : (pairPlace 22).skipBlanks.pos + ("NOT" : Text).length = 25 := by
  decide +kernel

/-- The kind is asked for behind the name of the constraint. -/
theorem calls_pairAddition :
    Calls Rulebook.standard (constraintKind Rulebook.standard ⟨"C", none⟩) (pairPlace 68)
      (statement? Rulebook.standard) (pairPlace 38) := by
  have hComment : accept "--" (pairPlace 38) = .ok false (pairPlace 38) := rfl
  have hCreate : keyword "CREATE" (pairPlace 38) = .ok false (pairPlace 38) := rfl
  have hAlter : keyword "ALTER" (pairPlace 38) = .ok true (pairPlace 44) := rfl
  have hTable : keyword "TABLE" (pairPlace 44) = .ok true (pairPlace 50) := rfl
  have hTitle : qualifiedName (pairPlace 50) = .ok ⟨"T", none⟩ (pairPlace 51) := rfl
  have hAdd : keyword "ADD" (pairPlace 51) = .ok true (pairPlace 56) := rfl
  have hConstraint : keyword "CONSTRAINT" (pairPlace 56) = .ok true (pairPlace 67) := rfl
  have hName : qualifiedName (pairPlace 67) = .ok ⟨"C", none⟩ (pairPlace 68) := rfl
  -- from the inside to the outside
  have hInner : Calls Rulebook.standard (constraintKind Rulebook.standard ⟨"C", none⟩)
      (pairPlace 68) (constraint? Rulebook.standard) (pairPlace 56) :=
    .later (.keyword rfl) hConstraint (.later .qualifiedName hName (.first .here))
  have hAlteration : Calls Rulebook.standard (constraintKind Rulebook.standard ⟨"C", none⟩)
      (pairPlace 68) (alteration Rulebook.standard) (pairPlace 44) :=
    .later (.keyword rfl) hTable (.later .qualifiedName hTitle
      (.later (.keyword rfl) hAdd (.first hInner)))
  exact .later (.accept rfl) hComment (.later (.keyword rfl) hCreate
    (.later (.keyword rfl) hAlter (.first hAlteration)))

/-- The two words of the kind are there. -/
theorem keyword_pairAddition :
    keyword (twoWords ("PRIMARY", "KEY")) (pairPlace 68) = .ok true (pairPlace 81) := by
  rfl

/-- So the step that reads the addition takes the two words. -/
theorem takes_pairAddition :
    pairAddition.Takes ("PRIMARY", "KEY") (pairPlace 68) (pairPlace 81) :=
  .kind _ (by decide) calls_pairAddition keyword_pairAddition

/-- With the line feed in the attribute the table gets a column, and with the line feed in the kind
the addition is skipped. -/
theorem run_broken_pairScript :
    run Rulebook.standard pairScript = .ok pairRun ∧ pairRun.diagnostics = [] ∧
      BrokenAt 25 (normalize pairScript) (normalize pairScriptNotNull) ∧
      BrokenAt 76 (normalize pairScript) (normalize pairScriptPrimaryKey) ∧
      pairRun.steps = [pairTable, pairAddition] ∧
      (pairTable.start.pos ≤ 25 ∧ 25 < pairTable.stop.pos) ∧
      (pairAddition.start.pos ≤ 76 ∧ 76 < pairAddition.stop.pos) ∧
      (∃ r' x' home more later parameters, run Rulebook.standard pairScriptNotNull = .ok r' ∧
        r'.steps = [x', pairAddition.inText (normalize pairScriptNotNull)] ∧
        x'.outcome = .statement (tableOf ⟨"T", none⟩ home
          (.field (fieldOf ⟨"A", none⟩ "INT" []) ::
            .field (fieldOf ⟨"NOT", none⟩ "NULL" more) :: later) parameters) ∧
        r'.diagnostics = [] ∧ r'.statements ≠ pairRun.statements) ∧
      ∃ r' x' later' d, run Rulebook.standard pairScriptPrimaryKey = .ok r' ∧
        r'.steps = pairTable.inText (normalize pairScriptPrimaryKey) :: x' :: later' ∧
        x'.outcome = .skipped d ∧ d.position = 69 ∧
        ¬ (r'.diagnostics = [] ∧ r'.statements = pairRun.statements) := by
  have hFirst : pairTable.start.pos ≤ 25 ∧ 25 < pairTable.stop.pos := by
    simp [pairTable, pos_pairPlace]
  have hSecond : pairAddition.start.pos ≤ 76 ∧ 76 < pairAddition.stop.pos := by
    simp [pairAddition, pos_pairPlace]
  have hSteps : pairRun.steps = [] ++ pairTable :: [pairAddition] := rfl
  have hSteps' : pairRun.steps = [pairTable] ++ pairAddition :: [] := rfl
  refine ⟨run_pairScript, rfl, brokenAt_pairScriptNotNull, brokenAt_pairScriptPrimaryKey, rfl,
    hFirst, hSecond, ?_, ?_⟩
  · have hQuote : (pairPlace 30).skipBlanks.rest.head? ≠ some '\'' := by decide +kernel
    obtain ⟨r', x', later', hRun, hRead, -, hLater, hBreaks, hNever⟩ :=
      run_broken run_pairScript rfl brokenAt_pairScriptNotNull hSteps hFirst.1 hFirst.2
    obtain ⟨home, more, later, parameters, -, hOutcome, hStop⟩ :=
      hBreaks.column _ _ _ _ _ _ _ _ (by decide) attributeAt_pairTable accept_pairTable
        break_pairTable startsWord_pairTable hQuote
    obtain ⟨hSame, hNone⟩ := hLater hStop
    have hNone := hNone ⟨_, hOutcome⟩
    rw [hSame] at hRead
    exact ⟨r', x', home, more, later, parameters, hRun, hRead, hOutcome, hNone,
      fun hSame => hNever _ _ _ takes_pairTable break_pairTable ⟨hNone, hSame⟩⟩
  · have hPlace : (pairPlace 68).skipBlanks.pos = 69 := by decide +kernel
    have hBreak : (pairPlace 68).skipBlanks.pos + ("PRIMARY" : Text).length = 76 := by
      rw [hPlace]
      rfl
    obtain ⟨r', x', later', hRun, hRead, -, -, hBreaks, hNever⟩ :=
      run_broken run_pairScript rfl brokenAt_pairScriptPrimaryKey hSteps' hSecond.1 hSecond.2
    obtain ⟨d, hSkipped, hPosition, -⟩ :=
      hBreaks.kind _ _ _ _ (by decide) calls_pairAddition keyword_pairAddition hBreak
    exact ⟨r', x', later', d, hRun, hRead, hSkipped, hPosition.trans hPlace,
      hNever _ _ _ takes_pairAddition hBreak⟩

/-- Not every script is read as before with a line feed between the two words of a keyword. -/
theorem not_forall_broken :
    ¬ ∀ (script script' : Text) (n : Nat) (r : Run) (x : Step) (words : Text × Text) (k m : Cursor),
      run Rulebook.standard script = .ok r → r.diagnostics = [] →
      BrokenAt n (normalize script) (normalize script') → x ∈ r.steps → x.Takes words k m →
      k.skipBlanks.pos + words.1.length = n →
      ∃ r', run Rulebook.standard script' = .ok r' ∧ r'.diagnostics = [] ∧
        r'.statements = r.statements := by
  intro hAll
  obtain ⟨r', hRun, -, hSame⟩ := hAll _ _ _ _ _ _ _ _ run_pairScript rfl brokenAt_pairScriptNotNull
    (List.mem_cons_self ..) takes_pairTable break_pairTable
  have hValue : (run Rulebook.standard pairScriptNotNull).toOption.map Run.statements ≠
      some pairRun.statements := by
    decide +kernel
  rw [hRun] at hValue
  exact hValue (congrArg some hSame)

end Script

end SchemaScript
