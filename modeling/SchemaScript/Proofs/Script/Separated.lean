import SchemaScript.Proofs.Cursor.Reads
import SchemaScript.Proofs.Script.Dispatch
import SchemaScript.Proofs.Script.Termination

/-!
# What stands between the items of a table

The items in the body of a table are read one behind the other, and behind each of them a comma may
be passed, but does not have to be (`Grammar.Listed`). So between the texts of two items stand
blanks and at most one comma, and the same holds between the last item and the closing parenthesis.

What goes on behind an item is settled by its first character (`Step.Lists`). At a word character
an item is read again: it is a further item, so that text left over behind a field can become a
field, or the statement is skipped, and then the mismatch that stopped the item is the cause of the
diagnostic and the place where it stopped is its position. Any other character but the closing
parenthesis makes the step a diagnostic at that place.
-/

namespace SchemaScript

open Text Reader Grammar

/-! ## Gaps -/

/-- The characters of a text that are no blanks. -/
def Text.marks (t : Text) : Text := t.filter fun c => !isBlank c

/-- The marks of two texts one behind the other. -/
theorem Text.marks_append (s t : Text) : marks (s ++ t) = marks s ++ marks t :=
  List.filter_append ..

/-- The blanks a text starts with hold no marks. -/
theorem Text.marks_takeWhile (t : Text) : marks (t.takeWhile isBlank) = [] := by
  refine List.filter_eq_nil_iff.mpr fun c hMem => ?_
  have hBlank := List.all_eq_true.mp List.all_takeWhile c hMem
  simp [hBlank]

namespace Cursor

/-- Passes the comma that stands next, if one does, and the blanks around it. -/
def passComma (c : Cursor) : Cursor :=
  if c.skipBlanks.rest.head? = some ',' then (c.skipBlanks.advance 1).skipBlanks else c.skipBlanks

variable {c : Cursor}

/-- No blanks stand behind a comma that was passed. -/
theorem skipBlanks_passComma (c : Cursor) : c.passComma.skipBlanks = c.passComma := by
  unfold passComma
  split <;> exact skipBlanks_skipBlanks _

/-- Passing a comma only moves forward. -/
theorem reaches_passComma (c : Cursor) : c.Reaches c.passComma := by
  unfold passComma
  split
  · exact ((reaches_skipBlanks c).trans (reaches_advance 1 _)).trans (reaches_skipBlanks _)
  · exact reaches_skipBlanks c

/-- What is left are the blanks that stand next and what is left behind them. -/
theorem rest_eq_takeWhile_append (c : Cursor) :
    c.rest = c.rest.takeWhile isBlank ++ c.skipBlanks.rest := by
  rw [rest_skipBlanks, List.takeWhile_append_dropWhile]

/-- Nothing but blanks and one comma at most is passed. -/
theorem exists_gap (c : Cursor) :
    ∃ gap, c.rest = gap ++ c.passComma.rest ∧ (marks gap = [] ∨ marks gap = [',']) := by
  have hBefore := rest_eq_takeWhile_append c
  unfold passComma
  by_cases hComma : c.skipBlanks.rest.head? = some ','
  · obtain ⟨behind, hRest⟩ := List.head?_eq_some_iff.mp hComma
    have hBehind := rest_eq_takeWhile_append (c.skipBlanks.advance 1)
    rw [rest_advance, hRest, List.drop_one, List.tail_cons] at hBehind
    -- the gap is the comma with the blanks on both sides of it
    refine ⟨c.rest.takeWhile isBlank ++ ',' :: behind.takeWhile isBlank, ?_, Or.inr ?_⟩
    · rw [if_pos hComma, List.append_assoc, List.cons_append, ← hBehind, ← hRest]
      exact hBefore
    · have hMark : marks (',' :: behind.takeWhile isBlank) =
          ',' :: marks (behind.takeWhile isBlank) := List.filter_cons_of_pos (by decide)
      rw [marks_append, hMark, marks_takeWhile, marks_takeWhile, List.nil_append]
  · rw [if_neg hComma]
    exact ⟨_, hBefore, Or.inl (marks_takeWhile _)⟩

end Cursor

/-! ## Items one behind the other -/

namespace Grammar

/-- An item of a table with its text and with what stands behind it. -/
structure Entry where
  item : Item
  text : Text
  gap : Text

/-- Whether entries are read one behind the other, from a place where the first one starts to the
place behind the last one and its gap. -/
inductive Listed (book : Rulebook) : Cursor → List Entry → Cursor → Prop
  | done (c : Cursor) : Listed book c [] c
  | next {c stop last : Cursor} {e : Entry} {entries : List Entry}
      (hRead : constraintOrField? book c = .ok (some e.item) stop)
      (hText : c.rest = e.text ++ stop.rest)
      (hGap : stop.rest = e.gap ++ stop.passComma.rest)
      (hLater : Listed book stop.passComma entries last) :
      Listed book c (e :: entries) last

variable {book : Rulebook} {c d last opening : Cursor} {entries : List Entry}
  {name : QualifiedName}

/-! ### Where an item starts -/

/-- An item is read alike before and behind the blanks that stand next. -/
theorem constraintOrField?_skipBlanks (book : Rulebook) (c : Cursor) :
    constraintOrField? book c = constraintOrField? book c.skipBlanks :=
  bind_skipBlanks (bind_skipBlanks (fun c => (keyword_skipBlanks "CONSTRAINT" c).symm) _) _ c

/-- So is an item with the comma behind it. -/
theorem item?_skipBlanks (book : Rulebook) (c : Cursor) :
    item? book c = item? book c.skipBlanks :=
  bind_skipBlanks (constraintOrField?_skipBlanks book) _ c

/-- So are all items that follow. -/
theorem many_item?_skipBlanks (book : Rulebook) (c : Cursor) :
    many (item? book) c = many (item? book) c.skipBlanks := by
  rw [(repeats_item? book).again]
  exact bind_skipBlanks (item?_skipBlanks book) _ c

/-- Where a keyword is found, it stands in one of its spellings. -/
theorem spelling_of_keyword {word : Text} (hRead : keyword word c = .ok true d) :
    ∃ key ∈ spellings word, key <+: c.skipBlanks.rest := by
  obtain ⟨x, hBlank, hPrefix, -⟩ := exists_of_keyword hRead
  refine ⟨word ++ [x], ?_, hPrefix⟩
  -- a keyword is spelled with a space or with a line break behind it
  rcases List.mem_pair.mp hBlank with rfl | rfl
  · exact List.mem_pair.mpr (Or.inl rfl)
  · exact List.mem_pair.mpr (Or.inr rfl)

/-- Where a constraint starts, a word starts. -/
theorem startsWord_of_keyword (hRead : keyword "CONSTRAINT" c = .ok true d) :
    startsWord c.skipBlanks.rest = true := by
  obtain ⟨key, hKey, behind, hRest⟩ := spelling_of_keyword hRead
  rw [← hRest]
  -- both spellings start with the same letter
  rcases List.mem_pair.mp hKey with rfl | rfl
  · exact (by decide : isWord 'C' = true)
  · exact (by decide : isWord 'C' = true)

/-- No constraint is found where its keyword is missing, and only there. -/
theorem constraint?_eq_none_iff :
    constraint? book c = .ok none d ↔ keyword "CONSTRAINT" c = .ok false d := by
  constructor
  · intro hNone
    obtain ⟨found, m, hProbe, hRest⟩ := bind_eq_ok_iff.mp hNone
    cases found with
    | true =>
      obtain ⟨name, m', -, hKind⟩ := bind_eq_ok_iff.mp hRest
      exact absurd hKind map_some_ne_none
    | false =>
      cases hRest
      exact hProbe
  · intro hMissed
    exact bind_of_ok hMissed

/-- No field is found where no word starts, and only there. -/
theorem field?_eq_none_iff :
    field? book c = .ok none d ↔
      startsWord c.skipBlanks.rest = false ∧ d = c.skipBlanks := by
  have hName := qualifiedName?_apply c
  by_cases hStarts : startsWord c.skipBlanks.rest = true
  · rw [if_pos hStarts] at hName
    constructor
    · intro hNone
      -- behind a name something is found, or the reading fails
      obtain ⟨found, m, hFirst, hRest⟩ := bind_eq_ok_iff.mp hNone
      cases found with
      | some name =>
        obtain ⟨type, m', -, hAttributes⟩ := bind_eq_ok_iff.mp hRest
        obtain ⟨attributes, m'', -, hSome⟩ := bind_eq_ok_iff.mp hAttributes
        cases hSome
      | none =>
        rw [hName] at hFirst
        exact absurd hFirst map_some_ne_none
    · rintro ⟨hOther, -⟩
      rw [hStarts] at hOther
      cases hOther
  · rw [if_neg hStarts] at hName
    rw [Bool.not_eq_true] at hStarts
    have hNone : field? book c = .ok none c.skipBlanks := bind_of_ok hName
    rw [hNone, hStarts]
    constructor
    · rintro ⟨⟩
      exact ⟨rfl, rfl⟩
    · rintro ⟨-, rfl⟩
      rfl

/-- No item is found where no word starts, and only there. -/
theorem constraintOrField?_eq_none_iff :
    constraintOrField? book c = .ok none d ↔
      startsWord c.skipBlanks.rest = false ∧ d = c.skipBlanks := by
  constructor
  · intro hNone
    obtain ⟨found, m, hConstraint, hRest⟩ := bind_eq_ok_iff.mp hNone
    cases found with
    | some x => cases hRest
    | none =>
      -- the probe for the constraint passes the blanks, and the field is tried behind them
      obtain rfl := eq_skipBlanks_of_keyword (constraint?_eq_none_iff.mp hConstraint)
      obtain ⟨found, hField, hSame⟩ := map_eq_ok_iff.mp hRest
      obtain rfl : found = none := (Option.map_eq_none_iff.mp hSame.symm)
      rw [field?_eq_none_iff, Cursor.skipBlanks_skipBlanks] at hField
      exact hField
  · rintro ⟨hStarts, rfl⟩
    -- the keyword would start with a word character
    have hMissed : keyword "CONSTRAINT" c = .ok false c.skipBlanks := by
      obtain ⟨b, m, hProbe⟩ := keyword_eq_ok "CONSTRAINT" c
      cases b with
      | true =>
        rw [startsWord_of_keyword hProbe] at hStarts
        cases hStarts
      | false => rwa [← eq_skipBlanks_of_keyword hProbe]
    have hField : field? book c.skipBlanks = .ok none c.skipBlanks := by
      rw [field?_eq_none_iff, Cursor.skipBlanks_skipBlanks]
      exact ⟨hStarts, rfl⟩
    exact (bind_of_ok (constraint?_eq_none_iff.mpr hMissed)).trans (bind_of_ok hField)

/-- An item starts with a word character and takes it at least. -/
theorem exists_text_of_constraintOrField? {item : Item} (hStart : c.skipBlanks = c)
    (hRead : constraintOrField? book c = .ok (some item) d) :
    ∃ text, c.rest = text ++ d.rest ∧ startsWord text = true := by
  have hReach := composed_constraintOrField?.reaches_of_ok hRead
  obtain ⟨text, hText, hSeen⟩ := hReach
  refine ⟨text, hText, ?_⟩
  -- otherwise no item would be found
  have hStarts : startsWord c.rest = true := by
    by_contra hOther
    rw [Bool.not_eq_true, ← hStart] at hOther
    have hNone : constraintOrField? book c = .ok none c.skipBlanks :=
      constraintOrField?_eq_none_iff.mpr ⟨hOther, rfl⟩
    rw [hRead] at hNone
    cases hNone
  cases text with
  | nil =>
    -- the cursor would not have moved
    have hMoved := constraintOrField?_advances book c item d hRead
    rw [List.reverse_nil, List.nil_append] at hSeen
    rw [Cursor.pos, Cursor.pos, hSeen] at hMoved
    omega
  | cons x text =>
    rw [hText] at hStarts
    exact hStarts

/-- Behind an item the comma is passed, if there is one, but not the blanks behind it. -/
theorem item?_of_some {item : Item} (hRead : constraintOrField? book c = .ok (some item) d) :
    ∃ next, item? book c = .ok (some item) next ∧ next.skipBlanks = d.passComma := by
  have hItem : item? book c =
      (accept "," >>= fun _ => pure (some item) : Reader (Option Item)) d := bind_of_ok hRead
  -- whether the comma is there is all that the optional comma depends on
  have hAccept := accept_apply "," d
  unfold Cursor.passComma
  by_cases hComma : d.skipBlanks.rest.head? = some ','
  · have hNext : ("," : Text).isPrefixOf d.skipBlanks.rest = true :=
      isPrefixOf_singleton_iff.mpr hComma
    rw [if_pos hNext] at hAccept
    rw [if_pos hComma]
    exact ⟨_, hItem.trans (bind_of_ok hAccept), rfl⟩
  · have hNone : ("," : Text).isPrefixOf d.skipBlanks.rest = false :=
      isPrefixOf_singleton_eq_false hComma
    rw [hNone] at hAccept
    rw [if_neg hComma]
    exact ⟨_, hItem.trans (bind_of_ok hAccept), Cursor.skipBlanks_skipBlanks d⟩

/-! ### What is known of entries -/

/-- The entries are the whole text between the two places. -/
theorem Listed.rest_eq (hListed : Listed book c entries last) :
    c.rest = entries.flatMap (fun e => e.text ++ e.gap) ++ last.rest := by
  induction hListed with
  | done c => rfl
  | next _ hText hGap _ ih => rw [hText, hGap, ih, List.flatMap_cons, List.append_assoc,
      List.append_assoc]

/-- Behind the last gap no blanks stand. -/
theorem Listed.skipBlanks (hListed : Listed book c entries last) (hStart : c.skipBlanks = c) :
    last.skipBlanks = last := by
  induction hListed with
  | done c => exact hStart
  | next _ _ _ _ ih => exact ih (Cursor.skipBlanks_passComma _)

/-- Each entry starts with a word. -/
theorem Listed.startsWord_text (hListed : Listed book c entries last) (hStart : c.skipBlanks = c) :
    ∀ e ∈ entries, startsWord e.text = true := by
  induction hListed with
  | done c =>
    intro e hMem
    cases hMem
  | next hRead hText _ _ ih =>
    intro e hMem
    rcases List.mem_cons.mp hMem with rfl | hLater
    · obtain ⟨text, hText', hWord⟩ := exists_text_of_constraintOrField? hStart hRead
      rwa [List.append_cancel_right (hText.symm.trans hText')]
    · exact ih (Cursor.skipBlanks_passComma _) e hLater

/-- In a gap stands one comma at most. -/
theorem Listed.marks_gap (hListed : Listed book c entries last) :
    ∀ e ∈ entries, marks e.gap = [] ∨ marks e.gap = [','] := by
  induction hListed with
  | done c =>
    intro e hMem
    cases hMem
  | @next c stop last e entries _ _ hGap _ ih =>
    intro e' hMem
    rcases List.mem_cons.mp hMem with rfl | hLater
    · -- the gap of an entry is the one that passing the comma leaves behind
      obtain ⟨gap, hGap', hMarks⟩ := stop.exists_gap
      rwa [List.append_cancel_right (hGap.symm.trans hGap')]
    · exact ih e' hLater

/-- One more item may be read behind others. -/
theorem Listed.concat {item : Item} (hListed : Listed book c entries last)
    (hRead : constraintOrField? book last = .ok (some item) d) :
    ∃ e, e.item = item ∧ Listed book c (entries ++ [e]) d.passComma := by
  induction hListed with
  | done c =>
    -- the new entry is what the item takes, with the gap behind it
    obtain ⟨text, hText, -⟩ := composed_constraintOrField?.reaches_of_ok hRead
    obtain ⟨gap, hGap, -⟩ := d.exists_gap
    exact ⟨⟨item, text, gap⟩, rfl, .next hRead hText hGap (.done _)⟩
  | next hFirst hText hGap _ ih =>
    obtain ⟨e, hItem, hAll⟩ := ih hRead
    exact ⟨e, hItem, .next hFirst hText hGap hAll⟩

/-! ### What the repetition does -/

/-- The repetition goes on behind an item and its gap. -/
theorem many_item?_of_some {item : Item} (hRead : constraintOrField? book c = .ok (some item) d) :
    many (item? book) c =
      (many (item? book) >>= fun later => pure (item :: later)) d.passComma := by
  obtain ⟨next, hItem, hNext⟩ := item?_of_some hRead
  have hAgain : many (item? book) c =
      (many (item? book) >>= fun later => pure (item :: later)) next :=
    (congrFun (repeats_item? book).again c).trans (bind_of_ok hItem)
  rw [hAgain, bind_skipBlanks (many_item?_skipBlanks book), hNext]

/-- Behind entries the repetition goes on where they end. -/
theorem Listed.many_eq (hListed : Listed book c entries last) :
    many (item? book) c =
      (many (item? book) >>= fun later => pure (entries.map Entry.item ++ later)) last := by
  induction hListed with
  | done c =>
    show many (item? book) c = (many (item? book) >>= pure) c
    rw [bind_pure]
  | @next c stop last e entries hRead _ _ _ ih =>
    rw [many_item?_of_some hRead]
    simp only [bind, EStateM.bind, ih]
    cases many (item? book) last <;> rfl

/-- What the repetition gives are the items of entries, up to a place where no word starts. -/
theorem exists_listed {items : List Item} (hRead : many (item? book) c = .ok items d) :
    ∃ entries, Listed book c.skipBlanks entries d ∧ entries.map Entry.item = items ∧
      startsWord d.rest = false := by
  induction c using many_induction (item? book) generalizing items with
  -- along the repetition, which moves forward with each item
  | again c ih =>
    cases hFound : constraintOrField? book c with
    | error e stop =>
      have hFail : item? book c = .error e stop := bind_of_error hFound
      rw [many_of_error hFail] at hRead
      cases hRead
    | ok found stop =>
      cases found with
      | none =>
        obtain ⟨hStarts, rfl⟩ := constraintOrField?_eq_none_iff.mp hFound
        have hNone : item? book c = .ok none c.skipBlanks := bind_of_ok hFound
        rw [many_of_none hNone] at hRead
        cases hRead
        exact ⟨[], .done _, rfl, hStarts⟩
      | some item =>
        obtain ⟨next, hItem, hNext⟩ := item?_of_some hFound
        have hMoved := (composed_item?.reaches_of_ok hItem).pos_lt_iff.mp
          (item?_advances book c item next hItem)
        rw [many_item?_of_some hFound, ← hNext, ← bind_skipBlanks (many_item?_skipBlanks book),
          map_eq_ok_iff] at hRead
        obtain ⟨later, hLater, rfl⟩ := hRead
        obtain ⟨entries, hListed, hItems, hEnd⟩ := ih item next hItem hMoved hLater
        rw [hNext] at hListed
        -- the first entry is put before the later ones
        rw [constraintOrField?_skipBlanks] at hFound
        obtain ⟨text, hText, -⟩ := composed_constraintOrField?.reaches_of_ok hFound
        obtain ⟨gap, hGap, -⟩ := stop.exists_gap
        exact ⟨⟨item, text, gap⟩ :: entries, .next hFound hText hGap hListed,
          congrArg (item :: ·) hItems, hEnd⟩

/-! ## Tables -/

/-- What follows the items of a table. -/
def tableEnd (book : Rulebook) (name : QualifiedName) (items : List Item) : Reader Statement := do
  let _ ← Reader.expect ")"
  let _ ← Reader.expect "IN"
  let home ← Reader.qualifiedName
  let parameters ← Reader.parameters (book .table)
  return .table name home (items.filterMap Item.field?) (items.filterMap Item.constraint?)
    parameters

/-- Whether the body of a table opens behind the name of the table, once `CREATE` is passed. -/
def OpensBody (c : Cursor) (name : QualifiedName) (opening : Cursor) : Prop :=
  ∃ m d t, keyword "TABLE" c = .ok true m ∧ qualifiedName m = .ok name d ∧
    expect "(" d = .ok t opening

/-- Of two keywords neither of which starts like the other one, only one can stand next. -/
theorem keyword_false_of_true {word word' : Text}
    (hApart : ∀ key ∈ spellings word, ∀ key' ∈ spellings word', ¬ key <+: key' ∧ ¬ key' <+: key)
    (hRead : keyword word c = .ok true d) : keyword word' c = .ok false c.skipBlanks := by
  obtain ⟨key, hKey, hPrefix⟩ := spelling_of_keyword hRead
  obtain ⟨b, m, hProbe⟩ := keyword_eq_ok word' c
  cases b with
  | false => rwa [← eq_skipBlanks_of_keyword hProbe]
  | true =>
    obtain ⟨key', hKey', hPrefix'⟩ := spelling_of_keyword hProbe
    obtain ⟨hLeft, hRight⟩ := hApart key hKey key' hKey'
    -- both would be prefixes of the same text
    rcases List.prefix_or_prefix_of_prefix hPrefix hPrefix' with hShort | hShort
    · exact absurd hShort hLeft
    · exact absurd hShort hRight

/-- Where the keyword for tables stands, a table is created. -/
theorem creation_of_table (hRead : keyword "TABLE" c = .ok true d) :
    creation book c = table book d := by
  have hDatabase : keyword "DATABASE" c = .ok false c.skipBlanks :=
    keyword_false_of_true (by decide) hRead
  have hTablespace : keyword "TABLESPACE" c.skipBlanks = .ok false c.skipBlanks := by
    rw [keyword_skipBlanks]
    exact keyword_false_of_true (by decide) hRead
  rw [← keyword_skipBlanks] at hRead
  exact (bind_of_ok hDatabase).trans ((bind_of_ok hTablespace).trans (bind_of_ok hRead))

/-- Behind an opened body the items are read, and then the end of the table. -/
theorem creation_eq (hOpens : OpensBody c name opening) :
    creation book c = (many (item? book) >>= tableEnd book name) opening := by
  obtain ⟨m, d, t, hTable, hName, hOpen⟩ := hOpens
  rw [creation_of_table hTable]
  exact (bind_of_ok hName).trans (bind_of_ok hOpen)

/-- Only where the keyword for tables stands, a table is created. -/
theorem table_of_creation {home : QualifiedName} {fields : List Field}
    {constraints : List Constraint} {parameters : Parameters}
    (hRead : creation book c = .ok (.table name home fields constraints parameters) d) :
    ∃ m, keyword "TABLE" c = .ok true m ∧
      table book m = .ok (.table name home fields constraints parameters) d := by
  obtain ⟨b, m, hProbe⟩ := keyword_eq_ok "TABLE" c
  cases b with
  | true => exact ⟨m, hProbe, by rwa [← creation_of_table hProbe]⟩
  | false =>
    exfalso
    -- behind any other keyword another statement is read
    let p : Statement → Prop := fun x => x ≠ .table name home fields constraints parameters
    have hDatabase : Gives p (database book) := .bind fun _ => .map fun _ => nofun
    have hTablespace : Gives p (tablespace book) :=
      .bind fun _ => .bind fun _ => .bind fun _ => .map fun _ => nofun
    have hIndex : ∀ unique, Gives p (index book unique) :=
      fun _ => .bind fun _ => .bind fun _ => .bind fun _ => .bind fun _ => .map fun _ => nofun
    have hView : Gives p view := .bind fun _ => .bind fun _ => .map fun _ => nofun
    have hOther : Gives p (do
        if ← keyword "UNIQUE" then
          if ← keyword "INDEX" then index book true else Reader.fail (.literal "INDEX")
        else if ← keyword "INDEX" then index book false
        else if ← keyword "VIEW" then view
        else Reader.fail (.clause .creation)) :=
      .choice (.choice (hIndex true) (.fail _)) (.choice (hIndex false)
        (.choice hView (.fail _)))
    rcases keyword_choice "DATABASE" _ _ c with ⟨m₁, -, hThen⟩ | ⟨-, hElse⟩
    · exact hDatabase m₁ _ d (hThen.symm.trans hRead) rfl
    rcases keyword_choice "TABLESPACE" _ _ c.skipBlanks with ⟨m₂, -, hThen⟩ | ⟨-, hElse'⟩
    · exact hTablespace m₂ _ d ((hElse.trans hThen).symm.trans hRead) rfl
    rw [← keyword_skipBlanks, ← Cursor.skipBlanks_skipBlanks] at hProbe
    exact hOther m _ d ((hElse.trans (hElse'.trans (bind_of_ok hProbe))).symm.trans hRead) rfl

end Grammar

/-! ## Steps -/

/-- Whether a step opens the body of a table. -/
def Step.OpensBody (s : Step) (name : QualifiedName) (opening : Cursor) : Prop :=
  ∃ key ∈ spellings "CREATE", key <+: s.start.rest ∧
    Grammar.OpensBody (s.start.advance key.length) name opening

/-- The body of a table opens behind the start of the step. -/
theorem Step.OpensBody.reaches {s : Step} {name : QualifiedName} {opening : Cursor}
    (hOpens : s.OpensBody name opening) : s.start.Reaches opening := by
  obtain ⟨key, -, -, m, d, t, hTable, hName, hOpen⟩ := hOpens
  have book : Rulebook := Rulebook.standard
  have hKeyword := (.keyword rfl : Composed book (keyword "TABLE")).reaches_of_ok hTable
  have hBehind := (.qualifiedName : Composed book qualifiedName).reaches_of_ok hName
  have hParenthesis := (.expect rfl : Composed book (expect "(")).reaches_of_ok hOpen
  exact (Cursor.reaches_advance _ _).trans (hKeyword.trans (hBehind.trans hParenthesis))

/-- Whether the body of a table is read entry by entry in a step, with at most one comma in each
gap, and what goes on behind an entry is settled by its first character. -/
structure Step.Lists (book : Rulebook) (s : Step) : Prop where
  /-- a table that is read consists of the entries up to the closing parenthesis -/
  accepted : ∀ name home fields constraints parameters,
    s.outcome = .statement (.table name home fields constraints parameters) →
    ∃ opening entries closing, s.OpensBody name opening ∧
      Listed book opening.skipBlanks entries closing ∧ closing.rest.head? = some ')' ∧
      fields = entries.filterMap (fun e => e.item.field?) ∧
      constraints = entries.filterMap (fun e => e.item.constraint?)
  /-- entries start with a word and make up the text, with one comma at most in each gap -/
  between : ∀ name opening entries place, s.OpensBody name opening →
    Listed book opening.skipBlanks entries place →
    opening.skipBlanks.rest = entries.flatMap (fun e => e.text ++ e.gap) ++ place.rest ∧
      ∀ e ∈ entries, startsWord e.text = true ∧ (marks e.gap = [] ∨ marks e.gap = [','])
  /-- what starts with no word and is not the closing parenthesis is no part of a table -/
  stray : ∀ name opening entries place, s.OpensBody name opening →
    Listed book opening.skipBlanks entries place → startsWord place.rest = false →
    place.rest.head? ≠ some ')' →
    ∃ d, s.outcome = .skipped d ∧ d.position = place.pos ∧
      d.cause = some (.atCursor (.literal ")") place)
  /-- what starts with a word is read as one more entry, or the mismatch that stops its item is the
  cause for which the step is skipped, from the place where the item stopped -/
  further : ∀ name opening entries place, s.OpensBody name opening →
    Listed book opening.skipBlanks entries place → startsWord place.rest = true →
    (∃ e stop, constraintOrField? book place = .ok (some e.item) stop ∧
        Listed book opening.skipBlanks (entries ++ [e]) stop.passComma) ∨
      ∃ m stop d, constraintOrField? book place = .error (.mismatch m) stop ∧
        s.outcome = .skipped d ∧ d.cause = some m ∧ d.position = stop.pos ∧
        place.pos ≤ d.position

namespace Script

variable {book : Rulebook} {s : Step} {name : QualifiedName} {opening place : Cursor}
  {entries : List Entry}

/-- A step that opens the body of a table reads the items behind it. -/
theorem statement?_of_opensBody (hTaken : s.Taken book) (hOpens : s.OpensBody name opening) :
    statement? book s.start =
      ((many (item? book) >>= tableEnd book name) >>= fun x => pure (some x)) opening := by
  obtain ⟨key, hKey, hPrefix, hBody⟩ := hOpens
  have hCreation : Opening.creation.Opens s.start.rest := ⟨key, hKey, hPrefix⟩
  have hLength : ∀ key ∈ spellings "CREATE", key.length = 7 := by decide
  rcases statement?_by_opening book hTaken.atCharacter with ⟨o, key', hKey', hPrefix', hThen⟩ |
    ⟨hNone, -⟩
  · -- only one opening can stand there
    obtain rfl := hCreation.unique ⟨key', hKey', hPrefix'⟩
    rw [hThen, hLength key' hKey', ← hLength key hKey]
    simp only [Opening.body, bind, EStateM.bind, creation_eq hBody]
  · exact absurd hCreation (hNone _)

/-- Behind entries a step goes on where they end. -/
theorem statement?_of_listed (hTaken : s.Taken book) (hOpens : s.OpensBody name opening)
    (hListed : Listed book opening.skipBlanks entries place) :
    statement? book s.start =
      (many (item? book) >>= fun later =>
        tableEnd book name (entries.map Entry.item ++ later) >>= fun x => pure (some x)) place := by
  rw [statement?_of_opensBody hTaken hOpens]
  simp only [bind, EStateM.bind, many_item?_skipBlanks book opening, hListed.many_eq]
  cases many (item? book) place <;> rfl

/-- A mismatch makes the step a diagnostic with that cause, at the place where the reading stopped.
-/
theorem skipped_of_mismatch {m : Mismatch} {d : Cursor} (hTaken : s.Taken book)
    (hFail : statement? book s.start = .error (.mismatch m) d) :
    ∃ x, s.outcome = .skipped x ∧ x.position = d.pos ∧ x.cause = some m := by
  have hStep := hTaken.step_eq
  rw [step_of_mismatch hFail, skipStatement_eq] at hStep
  obtain ⟨hOutcome, -⟩ := Prod.mk.inj (Except.ok.inj hStep)
  exact ⟨_, hOutcome.symm, rfl, rfl⟩

/-- The entries of a table that was read are found where its body opens. -/
theorem lists_accepted (hTaken : s.Taken book) {home : QualifiedName} {fields : List Field}
    {constraints : List Constraint} {parameters : Parameters}
    (hOutcome : s.outcome = .statement (.table name home fields constraints parameters)) :
    ∃ opening entries closing, s.OpensBody name opening ∧
      Listed book opening.skipBlanks entries closing ∧ closing.rest.head? = some ')' ∧
      fields = entries.filterMap (fun e => e.item.field?) ∧
      constraints = entries.filterMap (fun e => e.item.constraint?) := by
  obtain ⟨key, hKey, hPrefix, hBody⟩ := body_eq_ok hTaken hOutcome
  obtain ⟨m, hTable, hRead⟩ := table_of_creation hBody
  -- the table is read part by part
  obtain ⟨_, d, hName, hRead⟩ := bind_eq_ok_iff.mp hRead
  obtain ⟨t, opening, hOpen, hRead⟩ := bind_eq_ok_iff.mp hRead
  obtain ⟨items, closing, hItems, hRead⟩ := bind_eq_ok_iff.mp hRead
  obtain ⟨entries, hListed, rfl, -⟩ := exists_listed hItems
  obtain ⟨_, _, hClose, hRead⟩ := bind_eq_ok_iff.mp hRead
  obtain ⟨_, _, -, hRead⟩ := bind_eq_ok_iff.mp hRead
  obtain ⟨_, _, -, hRead⟩ := bind_eq_ok_iff.mp hRead
  obtain ⟨_, -, hSame⟩ := map_eq_ok_iff.mp hRead
  cases hSame
  refine ⟨opening, entries, closing, ⟨key, hKey, hPrefix, m, d, t, hTable, hName, hOpen⟩, hListed,
    ?_, List.filterMap_map .., List.filterMap_map ..⟩
  -- no blanks are left before the parenthesis
  rw [expect_apply, hListed.skipBlanks (Cursor.skipBlanks_skipBlanks opening)] at hClose
  split at hClose
  · next hNext => exact isPrefixOf_singleton_iff.mp hNext
  · cases hClose

/-- Where neither a word starts nor the table closes, the parenthesis is missing. -/
theorem lists_stray (hTaken : s.Taken book) (hOpens : s.OpensBody name opening)
    (hListed : Listed book opening.skipBlanks entries place)
    (hWord : startsWord place.rest = false) (hClose : place.rest.head? ≠ some ')') :
    ∃ d, s.outcome = .skipped d ∧ d.position = place.pos ∧
      d.cause = some (.atCursor (.literal ")") place) := by
  have hPlace := hListed.skipBlanks (Cursor.skipBlanks_skipBlanks opening)
  -- the items end at the place, and the parenthesis is missing there
  have hItem : item? book place = .ok none place := by
    refine bind_of_ok (constraintOrField?_eq_none_iff.mpr ?_)
    rw [hPlace]
    exact ⟨hWord, rfl⟩
  have hMissing : expect ")" place =
      .error (.mismatch (.atCursor (.literal ")") place)) place := by
    have hNone : (")" : Text).isPrefixOf place.rest = false :=
      isPrefixOf_singleton_eq_false hClose
    rw [expect_apply, hPlace, hNone]
    rfl
  have hFail := statement?_of_listed hTaken hOpens hListed
  rw [bind_of_ok (many_of_none hItem)] at hFail
  exact skipped_of_mismatch hTaken (hFail.trans (bind_of_error (bind_of_error hMissing)))

/-- Where a word starts, the next item is read or its mismatch is the cause. -/
theorem lists_further (hSeparators : ∀ construct, (book construct).separator ≠ [])
    (hTaken : s.Taken book) (hOpens : s.OpensBody name opening)
    (hListed : Listed book opening.skipBlanks entries place)
    (hWord : startsWord place.rest = true) :
    (∃ e stop, constraintOrField? book place = .ok (some e.item) stop ∧
        Listed book opening.skipBlanks (entries ++ [e]) stop.passComma) ∨
      ∃ m stop d, constraintOrField? book place = .error (.mismatch m) stop ∧
        s.outcome = .skipped d ∧ d.cause = some m ∧ d.position = stop.pos ∧
        place.pos ≤ d.position := by
  cases hItem : constraintOrField? book place with
  | ok found stop =>
    cases found with
    | some item =>
      obtain ⟨e, rfl, hMore⟩ := hListed.concat hItem
      exact Or.inl ⟨e, stop, rfl, hMore⟩
    | none =>
      -- where a word starts, something is found
      obtain ⟨hOther, -⟩ := constraintOrField?_eq_none_iff.mp hItem
      rw [hListed.skipBlanks (Cursor.skipBlanks_skipBlanks opening), hWord] at hOther
      cases hOther
  | error e stop =>
    obtain ⟨expected, rfl⟩ := composed_constraintOrField?.mismatch_of_error hSeparators hItem
    -- the item stops at its place or behind it
    have hReach := (composed_constraintOrField? : Composed book _).reaches place
    rw [stop_of_error hItem] at hReach
    have hFail := statement?_of_listed hTaken hOpens hListed
    have hItem' : item? book place = .error _ stop := bind_of_error hItem
    rw [bind_of_error (many_of_error hItem')] at hFail
    obtain ⟨d, hOutcome, hPosition, hCause⟩ := skipped_of_mismatch hTaken hFail
    exact Or.inr ⟨_, stop, d, rfl, hOutcome, hCause, hPosition, hPosition ▸ hReach.pos_le⟩

/-- Every step that is taken lists the entries of its table. -/
theorem lists_of_taken (hSeparators : ∀ construct, (book construct).separator ≠ [])
    (hTaken : s.Taken book) : s.Lists book where
  accepted := fun _ _ _ _ _ hOutcome => lists_accepted hTaken hOutcome
  between := by
    intro name opening entries place _ hListed
    have hStart := Cursor.skipBlanks_skipBlanks opening
    exact ⟨hListed.rest_eq,
      fun e hMem => ⟨hListed.startsWord_text hStart e hMem, hListed.marks_gap e hMem⟩⟩
  stray := fun _ _ _ _ hOpens hListed hWord hClose =>
    lists_stray hTaken hOpens hListed hWord hClose
  further := fun _ _ _ _ hOpens hListed hWord =>
    lists_further hSeparators hTaken hOpens hListed hWord

/-- **Items are parted by at most one comma.** In every run with separators that separate, each
table consists of items that are read one behind the other, with blanks and at most one comma behind
each. Text left over behind an item is one more item, or the statement is skipped with the mismatch
that stopped that item, and it is skipped in any case if the text starts with no word and does not
close the table. -/
theorem run_lists (hSeparators : ∀ construct, (book construct).separator ≠ []) (script : Text) :
    ∃ r, run book script = .ok r ∧ ∀ s ∈ r.steps, s.Lists book := by
  obtain ⟨r, hRun, hTrace⟩ := exists_runFrom hSeparators (.ofText script)
  exact ⟨r, hRun, fun s hMem => lists_of_taken hSeparators (hTrace.taken s hMem)⟩

/-! ### Items without a comma between them -/

/-- A table in which one comma too few and one comma too many are written, and one in which the text
left over behind an item lacks its type. -/
theorem run_lists_loose :
    (∀ construct, (Rulebook.standard construct).separator ≠ []) ∧
      (∃ r, run Rulebook.standard "CREATE TABLE T (A INT B INT,) IN D;" = .ok r ∧
        r.diagnostics = [] ∧ ∀ s ∈ r.steps, s.Lists Rulebook.standard) ∧
      ∃ r, run Rulebook.standard "CREATE TABLE T (A INT B) IN D;" = .ok r ∧
        r.diagnostics = [⟨") IN D", 23, some ⟨.identifier, 23, ") IN D;[...]"⟩⟩] ∧
        ∀ s ∈ r.steps, s.Lists Rulebook.standard := by
  have hSeparators := Rulebook.standard_separator_ne_nil
  have hValue : (run Rulebook.standard "CREATE TABLE T (A INT B INT,) IN D;").toOption.map
      Run.diagnostics = some [] := by
    decide +kernel
  have hValue' : (run Rulebook.standard "CREATE TABLE T (A INT B) IN D;").toOption.map
      Run.diagnostics = some [⟨") IN D", 23, some ⟨.identifier, 23, ") IN D;[...]"⟩⟩] := by
    decide +kernel
  obtain ⟨r, hRun, hLists⟩ := run_lists hSeparators "CREATE TABLE T (A INT B INT,) IN D;"
  obtain ⟨r', hRun', hLists'⟩ := run_lists hSeparators "CREATE TABLE T (A INT B) IN D;"
  rw [hRun] at hValue
  rw [hRun'] at hValue'
  exact ⟨hSeparators, ⟨r, hRun, Option.some.inj hValue, hLists⟩, r', hRun',
    Option.some.inj hValue', hLists'⟩

/-- Whether exactly one comma stands between each two entries, and none behind the last one. -/
def Separated (entries : List Entry) : Prop :=
  (∀ e ∈ entries.dropLast, marks e.gap = [',']) ∧ ∀ e ∈ entries.getLast?, marks e.gap = []

/-- A table with two fields and no comma. -/
def juxtaposed : Text := "CREATE TABLE T (A INT B INT) IN D;"

/-- Not every table that is read has commas between its items. -/
theorem not_forall_separated :
    ¬ ∀ (script : Text) (r : Run) (s : Step) (name home : QualifiedName) (fields : List Field)
      (constraints : List Constraint) (parameters : Parameters) (opening closing : Cursor)
      (entries : List Entry), run Rulebook.standard script = .ok r → s ∈ r.steps →
      s.outcome = .statement (.table name home fields constraints parameters) →
      s.OpensBody name opening → Listed Rulebook.standard opening.skipBlanks entries closing →
      closing.rest.head? = some ')' → Separated entries := by
  intro hAll
  have hValue : (run Rulebook.standard juxtaposed).toOption.map Run.statements =
      some [.table ⟨"T", none⟩ ⟨"D", none⟩ [⟨⟨"A", none⟩, "INT", .empty, []⟩,
        ⟨⟨"B", none⟩, "INT", .empty, []⟩] [] .empty] := by
    decide +kernel
  cases hRun : run Rulebook.standard juxtaposed with
  | error e =>
    rw [hRun] at hValue
    cases hValue
  | ok r =>
    rw [hRun] at hValue
    have hStatements := Option.some.inj hValue
    rw [statements_of_runFrom hRun] at hStatements
    obtain ⟨s, hMem, hStatement⟩ :=
      List.mem_filterMap.mp (hStatements ▸ List.mem_singleton_self _)
    have hTrace := trace_of_runFrom Rulebook.standard_separator_ne_nil hRun
    have hOutcome := Outcome.statement?_eq_some_iff.mp hStatement
    obtain ⟨opening, entries, closing, hOpens, hListed, hClose, hFields, -⟩ :=
      lists_accepted (hTrace.taken s hMem) hOutcome
    obtain ⟨hCommas, -⟩ := hAll juxtaposed r s _ _ _ _ _ opening closing entries hRun hMem hOutcome
      hOpens hListed hClose
    -- there are two entries, so a comma stands in the gap behind the first one
    have hTwo : 2 ≤ entries.length := by
      have hLength := List.length_filterMap_le (fun e : Entry => e.item.field?) entries
      rw [← hFields] at hLength
      exact hLength
    obtain ⟨e, e', later, rfl⟩ : ∃ e e' later, entries = e :: e' :: later := by
      match entries, hTwo with
      | e :: e' :: later, _ => exact ⟨e, e', later, rfl⟩
    have hComma : ',' ∈ marks e.gap := by
      rw [hCommas e (List.mem_cons_self ..)]
      exact List.mem_singleton_self _
    have hThere : ',' ∈ opening.skipBlanks.rest := by
      rw [hListed.rest_eq, List.flatMap_cons]
      simp [(List.mem_filter.mp hComma).1]
    have hReach := (hTrace.reaches_start s hMem).trans
      (hOpens.reaches.trans (Cursor.reaches_skipBlanks opening))
    have hNone : ',' ∉ (Cursor.ofText juxtaposed).rest := by decide +kernel
    exact hNone (hReach.mem_of_mem hThere)

end Script

end SchemaScript
