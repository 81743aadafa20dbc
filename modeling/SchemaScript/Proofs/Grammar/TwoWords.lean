import SchemaScript.Proofs.Grammar.Broken
import SchemaScript.Proofs.Grammar.Written
import SchemaScript.Proofs.Script.Termination

/-!
# Keywords of two words

`PRIMARY KEY`, `FOREIGN KEY`, `NOT NULL` and `WITH DEFAULT` are asked for as one literal each, with
a space between the two words. So none of them is found where a line feed stands between the words.

* Where the kind of a constraint is asked for, nothing else can stand, and reading stops before the
  first word (`constraintKind_of_broken`). A failure there is a failure of all that is read around
  it (`Calls.error`).
* Where an attribute is asked for, a field may end, and the two words can be read as a further one:
  the first word as its name and the second one as its type (`attribute?_of_broken`,
  `qualifiedName?_of_broken`, `fieldType_of_broken`).
-/

namespace SchemaScript

open Text Reader Cursor

namespace Grammar

/-! ## Parts of a reading -/

/-- Whether reading comes to one part of it at a place. What is read before is read as a whole. -/
inductive Calls (book : Rulebook) {β : Type} (part : Reader β) (k : Cursor) :
    {α : Type} → Reader α → Cursor → Prop
  | here : Calls book part k part k
  | first {α γ : Type} {r : Reader α} {f : α → Reader γ} {c : Cursor}
      (hCalls : Calls book part k r c) : Calls book part k (r >>= f) c
  | later {α γ : Type} {r : Reader α} {f : α → Reader γ} {c d : Cursor} {x : α}
      (hComposed : Composed book r) (hRead : r c = .ok x d)
      (hCalls : Calls book part k (f x) d) : Calls book part k (r >>= f) c
  | item {α : Type} {item : Reader (Option α)} {c : Cursor}
      (hCalls : Calls book part k item c) : Calls book part k (many item) c
  | again {α : Type} {item : Reader (Option α)} {c d : Cursor} {x : α}
      (hComposed : Composed book item) (hRead : item c = .ok (some x) d)
      (hMoved : d.rest.length < c.rest.length) (hCalls : Calls book part k (many item) d) :
      Calls book part k (many item) c

section

variable {α β : Type} {book : Rulebook} {part : Reader β} {r : Reader α} {c d k : Cursor}

/-- Where a part fails, the whole fails. -/
theorem Calls.error {e : Halt} (hCalls : Calls book part k r c) (hFail : part k = .error e d) :
    r c = .error e d := by
  induction hCalls with
  | here => exact hFail
  | first _ ih => exact bind_of_error ih
  | later _ hRead _ ih => rw [bind_of_ok hRead, ih]
  | item _ ih => exact many_of_error ih
  | again _ hRead hMoved _ ih => rw [many_of_some hRead hMoved, bind_of_error ih]

/-- Reading gets to the part by moving forward. -/
theorem Calls.reaches (hCalls : Calls book part k r c) : c.Reaches k := by
  induction hCalls with
  | here => exact .refl k
  | first _ ih => exact ih
  | later hComposed hRead _ ih => exact (hComposed.reaches_of_ok hRead).trans ih
  | item _ ih => exact ih
  | again hComposed hRead _ _ ih => exact (hComposed.reaches_of_ok hRead).trans ih

end

/-- Whether items are read one after the other from a place to another one. -/
inductive InTurn {α : Type} (item : Reader (Option α)) : Cursor → List α → Cursor → Prop
  | done (c : Cursor) : InTurn item c [] c
  | next {c d last : Cursor} {x : α} {later : List α} (hRead : item c = .ok (some x) d)
      (hLater : InTurn item d later last) : InTurn item c (x :: later) last

section

variable {α : Type} {book : Rulebook} {item : Reader (Option α)} {c last : Cursor} {xs : List α}

/-- Reading gets behind the items by moving forward. -/
theorem InTurn.reaches (hInTurn : InTurn item c xs last) (hComposed : Composed book item) :
    c.Reaches last := by
  induction hInTurn with
  | done c => exact .refl c
  | next hRead _ ih => exact (hComposed.reaches_of_ok hRead).trans ih

/-- One more item may be read behind others. -/
theorem InTurn.concat {d : Cursor} {x : α} (hInTurn : InTurn item c xs last)
    (hRead : item last = .ok (some x) d) : InTurn item c (xs ++ [x]) d := by
  induction hInTurn with
  | done c => exact .next hRead (.done d)
  | next hFirst _ ih => exact .next hFirst (ih hRead)

/-- Behind items the repetition goes on where they end. -/
theorem InTurn.many_eq (hInTurn : InTurn item c xs last) (hRepeats : Repeats item) :
    many item c = (many item >>= fun later => pure (xs ++ later)) last := by
  induction hInTurn with
  | done c =>
    show many item c = (many item >>= pure) c
    rw [bind_pure]
  | @next c d last x later hRead _ ih =>
    have hAgain : many item c = (many item >>= fun xs => pure (x :: xs)) d :=
      (congrFun hRepeats.again c).trans (bind_of_ok hRead)
    rw [hAgain]
    simp only [bind, EStateM.bind, ih]
    cases many item last <;> rfl

end

/-! ### Parts before the break -/

section

variable {n : Nat} {s t : Text} (hBroken : BrokenAt n s t)
include hBroken

/-- A part that is asked for before the break is asked for in both texts. -/
theorem Calls.before {α β : Type} {part : Reader β} {r : Reader α} {c k : Cursor}
    (hCalls : Calls Rulebook.standard part k r c) (hText : c.text = s) (hBefore : k.pos ≤ n) :
    Calls Rulebook.standard part (k.inText t) r (c.inText t) := by
  induction hCalls with
  | here => exact .here
  | first _ ih => exact .first (ih hText)
  | later hComposed hRead hCalls ih =>
    have hNext := (hComposed.reaches_of_ok hRead).text_eq.trans hText
    have hEnd := hCalls.reaches.pos_le.trans hBefore
    exact .later hComposed (hComposed.before hBroken _ _ _ hText hRead hEnd) (ih hNext)
  | item _ ih => exact .item (ih hText)
  | again hComposed hRead hMoved hCalls ih =>
    -- what comes before the part ends before it, and so before the break
    have hNext := (hComposed.reaches_of_ok hRead).text_eq.trans hText
    have hEnd := hCalls.reaches.pos_le.trans hBefore
    refine .again hComposed (hComposed.before hBroken _ _ _ hText hRead hEnd) ?_ (ih hNext)
    rwa [length_rest_inText hBroken.same hNext, length_rest_inText hBroken.same hText]

/-- Items before the break are read one after the other in both texts. -/
theorem InTurn.before {α : Type} {item : Reader (Option α)} {c last : Cursor} {xs : List α}
    (hInTurn : InTurn item c xs last) (hComposed : Composed Rulebook.standard item)
    (hText : c.text = s) (hBefore : last.pos ≤ n) :
    InTurn item (c.inText t) xs (last.inText t) := by
  induction hInTurn with
  | done c => exact .done _
  | next hRead hLater ih =>
    have hNext := (hComposed.reaches_of_ok hRead).text_eq.trans hText
    have hEnd := (hLater.reaches hComposed).pos_le.trans hBefore
    exact .next (hComposed.before hBroken _ _ _ hText hRead hEnd) (ih hNext hBefore)

end

/-! ## Where no attribute stands -/

section

variable {book : Rulebook} {literal : Text} {c d : Cursor}

/-- A literal is asked for behind the blanks that stand next. -/
theorem accept_skipBlanks (literal : Text) (c : Cursor) :
    accept literal c.skipBlanks = accept literal c := by
  rw [accept_apply, accept_apply, skipBlanks_skipBlanks]

/-- A literal that is not there costs nothing but the blanks. -/
theorem accept_of_missed (hNone : literal.isPrefixOf c.skipBlanks.rest = false) :
    accept literal c = .ok false c.skipBlanks := by
  rw [accept_apply, hNone]
  rfl

/-- A literal that is accepted stands behind the blanks, and the cursor moves past it. -/
theorem exists_of_accept (hAccept : accept literal c = .ok true d) :
    ∃ left, c.skipBlanks.rest = literal ++ left ∧ d = c.skipBlanks.advance literal.length := by
  rw [accept_apply] at hAccept
  split at hAccept
  · next hHere =>
    obtain ⟨left, hRest⟩ := List.isPrefixOf_iff_prefix.mp hHere
    cases hAccept
    exact ⟨left, hRest.symm, rfl⟩
  · cases hAccept

/-- A keyword that is not there costs nothing but the blanks. -/
theorem keyword_of_missed (hNone : keywordAhead literal c.skipBlanks.rest = false) :
    keyword literal c = .ok false c.skipBlanks := by
  unfold keywordAhead at hNone
  rw [keyword_apply, hNone]
  rfl

/-- Without the keyword there is no constraint. -/
theorem constraint?_of_missed (hNone : keywordAhead "CONSTRAINT" c.skipBlanks.rest = false) :
    constraint? book c = .ok none c.skipBlanks :=
  bind_of_ok (keyword_of_missed hNone)

/-- No attribute is found where none of the keywords stands. -/
theorem attribute?_of_missed (hKeyword : keywordAhead "CONSTRAINT" c.skipBlanks.rest = false)
    (hNone : ∀ literal ∈ (["NOT NULL", "FOR", "WITH DEFAULT"] : List Text),
      literal.isPrefixOf c.skipBlanks.rest = false) :
    attribute? book c = .ok none c.skipBlanks := by
  -- each of the literals is asked for at the place where the one before was missed
  have hMissed : ∀ literal ∈ (["NOT NULL", "FOR", "WITH DEFAULT"] : List Text),
      accept literal c.skipBlanks = .ok false c.skipBlanks := by
    intro literal hLiteral
    rw [accept_skipBlanks, accept_of_missed (hNone literal hLiteral)]
  have hNull := hMissed "NOT NULL" (by simp)
  have hFor := hMissed "FOR" (by simp)
  have hDefault := hMissed "WITH DEFAULT" (by simp)
  exact (bind_of_ok (constraint?_of_missed hKeyword)).trans
    ((bind_of_ok hNull).trans ((bind_of_ok hFor).trans (bind_of_ok hDefault)))

/-- A parenthesis or a quote ends the attributes of a field. -/
theorem many_attribute?_of_mark (book : Rulebook) {x : Char} {rest : Text}
    (hMark : x ∈ ("('" : Text))
    (hRest : c.skipBlanks.rest = x :: rest) :
    many (attribute? book) c = .ok [] c.skipBlanks := by
  refine many_of_none (attribute?_of_missed ?_ fun literal hLiteral => ?_)
  · rw [hRest]
    rcases List.mem_pair.mp hMark with rfl | rfl <;> rfl
  · rw [hRest]
    simp only [List.mem_cons, List.not_mem_nil, or_false] at hLiteral
    rcases List.mem_pair.mp hMark with rfl | rfl <;> rcases hLiteral with rfl | rfl | rfl <;> rfl

/-- An attribute is read alike before and behind the blanks that stand next. -/
theorem attribute?_skipBlanks (book : Rulebook) (c : Cursor) :
    attribute? book c = attribute? book c.skipBlanks :=
  bind_skipBlanks (bind_skipBlanks (fun c => (keyword_skipBlanks "CONSTRAINT" c).symm) _) _ c

/-- So are all attributes that follow. -/
theorem many_attribute?_skipBlanks (book : Rulebook) (c : Cursor) :
    many (attribute? book) c = many (attribute? book) c.skipBlanks := by
  rw [(repeats_attribute? book).again]
  exact bind_skipBlanks (attribute?_skipBlanks book) _ c

end

/-! ## Two words with a line feed between them -/

/-- The two words of each kind of constraint that has two words. -/
def kindPairs : List (Text × Text) := [("PRIMARY", "KEY"), ("FOREIGN", "KEY")]

/-- The two words of each attribute that has two words. -/
def attributePairs : List (Text × Text) := [("NOT", "NULL"), ("WITH", "DEFAULT")]

/-- The keyword that two words make. -/
def twoWords (words : Text × Text) : Text := words.1 ++ ' ' :: words.2

/-- The attribute that two words make without a literal behind them. -/
def attributeOf (words : Text × Text) : Attribute :=
  if words.1 = "NOT" then .parameter "NULL" "False" else .parameter "DEFAULT" "True"

/-- Where two words are accepted, they are an attribute of their own unless a quote follows. -/
theorem attribute?_of_accept (book : Rulebook) {words : Text × Text} {c d : Cursor}
    (hMem : words ∈ attributePairs) (hAccept : accept (twoWords words) c = .ok true d)
    (hQuote : d.skipBlanks.rest.head? ≠ some '\'') :
    ∃ d', attribute? book c = .ok (some (attributeOf words)) d' ∧ d'.skipBlanks = d.skipBlanks := by
  obtain ⟨left, hRest, -⟩ := exists_of_accept hAccept
  have hConstraint : constraint? book c = .ok none c.skipBlanks := by
    refine constraint?_of_missed ?_
    rw [hRest]
    rcases List.mem_pair.mp hMem with rfl | rfl <;> rfl
  have hThere : accept (twoWords words) c.skipBlanks = .ok true d :=
    (accept_skipBlanks _ c).trans hAccept
  rcases List.mem_pair.mp hMem with rfl | rfl
  · -- the first word settles which of the two it is
    exact ⟨d, (bind_of_ok hConstraint).trans (bind_of_ok hThere), rfl⟩
  · -- the other literals are tried first, and the one behind the keyword last
    have hMissed : ∀ literal : Text, literal.isPrefixOf c.skipBlanks.rest = false →
        accept literal c.skipBlanks = .ok false c.skipBlanks := by
      intro literal hNone
      rw [accept_skipBlanks, accept_of_missed hNone]
    have hNull := hMissed "NOT NULL" (by rw [hRest]; rfl)
    have hFor := hMissed "FOR" (by rw [hRest]; rfl)
    have hOther : ("'" : Text).isPrefixOf d.skipBlanks.rest = false :=
      isPrefixOf_singleton_eq_false hQuote
    have hLiteral : quotedLiteral? d = .ok none d.skipBlanks :=
      bind_of_ok (accept_of_missed hOther)
    exact ⟨d.skipBlanks, (bind_of_ok hConstraint).trans ((bind_of_ok hNull).trans
      ((bind_of_ok hFor).trans ((bind_of_ok hThere).trans (bind_of_ok hLiteral)))),
      skipBlanks_skipBlanks d⟩

/-- Ahead of a place before the break stands the same, but for the line feed. -/
theorem rest_inText_of_broken {n : Nat} {s t first left : Text} {c : Cursor}
    (hBroken : BrokenAt n s t) (hText : c.text = s) (hRest : c.rest = first ++ ' ' :: left)
    (hPlace : c.pos + first.length = n) : (c.inText t).rest = first ++ '\n' :: left := by
  -- counted from the place on, the line feed is at the end of the first word
  have hDrop : (c.inText t).rest = c.rest.set first.length '\n' := by
    rw [rest_inText, hBroken.eq_set, List.drop_set, if_neg (by omega), ← hText, drop_pos_text]
    congr 1
    omega
  rw [hDrop, hRest, List.set_append_right _ _ (Nat.le_refl _), Nat.sub_self]
  rfl

/-- Where two words that were accepted are broken, the line feed stands behind the first one, and
everything behind the second one is the same. -/
theorem accepted_inText_of_broken {n : Nat} {s t : Text} {k m : Cursor} {words : Text × Text}
    (hBroken : BrokenAt n s t) (hText : k.text = s)
    (hAccept : accept (twoWords words) k = .ok true m)
    (hBreak : k.skipBlanks.pos + words.1.length = n) :
    (k.skipBlanks.inText t).skipBlanks = k.skipBlanks.inText t ∧
      (k.skipBlanks.inText t).rest = words.1 ++ '\n' :: (words.2 ++ m.rest) ∧
      (k.skipBlanks.inText t).advance (words.1.length + 1 + words.2.length) = m.inText t ∧
      m.text = s ∧ n < m.pos := by
  have hNext : k.skipBlanks.text = s := k.text_skipBlanks.trans hText
  obtain ⟨left, hRest, rfl⟩ := exists_of_accept hAccept
  have hLength : (twoWords words).length = words.1.length + 1 + words.2.length := by
    simp only [twoWords, List.length_append, List.length_cons]
    omega
  have hWithin : (twoWords words).length ≤ k.skipBlanks.rest.length := by
    rw [hRest, List.length_append]
    omega
  -- the literal is the two words with the space between them
  have hSplit : k.skipBlanks.rest = words.1 ++ ' ' :: (words.2 ++ left) := by
    rw [hRest, twoWords, List.append_assoc]
    rfl
  have hLeft : (k.skipBlanks.advance (twoWords words).length).rest = left := by
    rw [rest_advance, hRest, List.drop_left]
  refine ⟨?_, ?_, ?_, ?_, ?_⟩
  · rw [skipBlanks_inText hBroken.same hNext, skipBlanks_skipBlanks]
  · rw [hLeft, rest_inText_of_broken hBroken hNext hSplit hBreak]
  · rw [← hLength, advance_inText t hWithin]
  · rw [text_advance, hNext]
  · -- the second word lies behind the break
    rw [pos_advance, Nat.min_eq_left hWithin, hLength]
    omega

section

variable {n : Nat} {s t left : Text} {c : Cursor} {words : Text × Text}

/-- Where the two words of a kind are broken, no kind of constraint stands. -/
theorem constraintKind_of_broken (book : Rulebook) (name : QualifiedName)
    (hMem : words ∈ kindPairs) (hBlank : c.skipBlanks = c)
    (hRest : c.rest = words.1 ++ '\n' :: (words.2 ++ left)) :
    constraintKind book name c =
      .error (.mismatch (.atCursor (.clause .constraintKind) c)) c := by
  -- none of the keywords starts the first word with a line feed behind it
  have hNone : ∀ word ∈ (["PRIMARY KEY", "FOREIGN KEY", "CHECK"] : List Text),
      keywordAhead word (words.1 ++ '\n' :: (words.2 ++ left)) = false := by
    intro word hWord
    simp only [kindPairs, List.mem_cons, List.not_mem_nil, or_false] at hMem hWord
    rcases hMem with rfl | rfl <;> rcases hWord with rfl | rfl | rfl <;> rfl
  have hMissed : ∀ word ∈ (["PRIMARY KEY", "FOREIGN KEY", "CHECK"] : List Text),
      keyword word c = .ok false c := by
    intro word hWord
    have hMissed := keyword_of_missed (hBlank.symm ▸ hRest ▸ hNone word hWord)
    rwa [hBlank] at hMissed
  have hPrimary := hMissed "PRIMARY KEY" (by simp)
  have hForeign := hMissed "FOREIGN KEY" (by simp)
  have hCheck := hMissed "CHECK" (by simp)
  exact (bind_of_ok hPrimary).trans ((bind_of_ok hForeign).trans (bind_of_ok hCheck))

end

/-! ### Attributes -/

section

variable {left : Text} {c d : Cursor} {words : Text × Text} (hMem : words ∈ attributePairs)
  (hBlank : c.skipBlanks = c) (hRest : c.rest = words.1 ++ '\n' :: (words.2 ++ left))
include hMem

/-- Each of the two words could be a name. -/
theorem isName_of_mem : IsName words.1 ∧ IsName words.2 := by
  rcases List.mem_pair.mp hMem with rfl | rfl <;> decide

include hRest

/-- The second word starts the type. -/
theorem identifier_of_broken :
    identifier (c.advance words.1.length) =
      .ok (words.2 ++ word left)
        (c.advance (words.1.length + 1 + (words.2.length + (word left).length))) := by
  obtain ⟨-, hSecond⟩ := isName_of_mem hMem
  have hBehind : (c.advance words.1.length).rest = '\n' :: (words.2 ++ left) := by
    rw [rest_advance, hRest, List.drop_left]
  -- the line feed is all that is passed, since the second word starts behind it
  have hSkip : (c.advance words.1.length).skipBlanks = c.advance (words.1.length + 1) := by
    have hBlanks : ('\n' :: (words.2 ++ left)).takeWhile isBlank = ['\n'] := by
      rw [List.takeWhile_cons_of_pos (by decide)]
      obtain ⟨x, rest, hName⟩ := List.exists_cons_of_ne_nil hSecond.1
      have hNonblank := hSecond.isBlank_eq_false x (hName ▸ List.mem_cons_self ..)
      rw [hName, List.cons_append, List.takeWhile_cons_of_neg (by simp [hNonblank])]
    rw [Cursor.skipBlanks, hBehind, hBlanks, advance_advance]
    rfl
  have hAhead : (c.advance (words.1.length + 1)).rest = words.2 ++ left := by
    rw [← advance_advance, rest_advance, hBehind]
    rfl
  have hWord : word (words.2 ++ left) = words.2 ++ word left :=
    List.takeWhile_append_of_pos hSecond.2
  rw [identifier_apply, hSkip, hAhead, hWord, if_neg (by simp [hSecond.1]), List.length_append,
    advance_advance]

include hBlank

/-- The two words are not the keyword of a constraint. -/
theorem constraint?_of_broken (book : Rulebook) : constraint? book c = .ok none c := by
  have hAhead : keywordAhead "CONSTRAINT" c.skipBlanks.rest = false := by
    rw [hBlank, hRest]
    rcases List.mem_pair.mp hMem with rfl | rfl <;> rfl
  rw [constraint?_of_missed hAhead, hBlank]

/-- Where the two words of an attribute are broken, no attribute stands. -/
theorem attribute?_of_broken (book : Rulebook) : attribute? book c = .ok none c := by
  have hMissed : attribute? book c = .ok none c.skipBlanks := by
    refine attribute?_of_missed ?_ fun literal hLiteral => ?_
    · rw [hBlank, hRest]
      rcases List.mem_pair.mp hMem with rfl | rfl <;> rfl
    · rw [hBlank, hRest]
      simp only [List.mem_cons, List.not_mem_nil, or_false] at hLiteral
      rcases List.mem_pair.mp hMem with rfl | rfl <;> rcases hLiteral with rfl | rfl | rfl <;> rfl
  rw [hMissed, hBlank]

/-- The first word is a name. -/
theorem qualifiedName?_of_broken :
    qualifiedName? c = .ok (some ⟨words.1, none⟩) (c.advance words.1.length) := by
  obtain ⟨hFirst, hSecond⟩ := isName_of_mem hMem
  have hBreak : startsWord ('\n' :: (words.2 ++ left)) = false := by
    show isWord '\n' = false
    decide
  have hWord : word c.rest = words.1 := by rw [hRest, hFirst.word_append hBreak]
  have hStarts : startsWord c.rest = true := by
    rw [← Bool.not_eq_false, ← word_eq_nil_iff, hWord]
    exact hFirst.1
  have hIdentifier : identifier c = .ok words.1 (c.advance words.1.length) := by
    rw [identifier_apply, hBlank, hWord, if_neg hFirst.1]
  -- a word stands next, so there is no point
  have hNone : wordAfterPoint? (c.advance words.1.length) = none := by
    have hNoPoint : ((c.advance words.1.length).skipBlanks.rest).head? ≠ some '.' := by
      rw [rest_skipBlanks, rest_advance, hRest, List.drop_left,
        List.dropWhile_cons_of_pos (by decide)]
      exact hSecond.head?_dropWhile_ne (by decide) left
    rw [wordAfterPoint?_apply, isPrefixOf_singleton_eq_false hNoPoint]
    rfl
  have hName : qualifiedName c = .ok ⟨words.1, none⟩ (c.advance words.1.length) := by
    rw [qualifiedName_of_ok hIdentifier, hNone]
  rw [qualifiedName?_apply, hBlank, if_pos hStarts, bind_of_ok hName]
  rfl

/-- A further field is read, named by the first word and with a type that starts with the second. -/
theorem exists_field_of_broken {book : Rulebook} {found : Option Item}
    (hRead : constraintOrField? book c = .ok found d) :
    ∃ type attributes, found = some (.field (fieldOf ⟨words.1, none⟩ type attributes)) ∧
      words.2 <+: type := by
  have hField : constraintOrField? book c =
      (field? book >>= fun found => pure (found.map Item.field)) c :=
    bind_of_ok (constraint?_of_broken hMem hBlank hRest book)
  rw [hField, map_eq_ok_iff] at hRead
  obtain ⟨found, hRead, rfl⟩ := hRead
  -- the name is the first word, and the type starts behind it
  obtain ⟨name, _, hName, hRead⟩ := bind_eq_ok_iff.mp hRead
  rw [qualifiedName?_of_broken hMem hBlank hRest] at hName
  cases hName
  obtain ⟨type, _, hType, hRead⟩ := bind_eq_ok_iff.mp hRead
  obtain ⟨attributes, -, rfl⟩ := map_eq_ok_iff.mp hRead
  refine ⟨type, attributes, rfl, ?_⟩
  obtain ⟨first, _, hFirst, hSize⟩ := bind_eq_ok_iff.mp hType
  rw [identifier_of_broken hMem hRest] at hFirst
  cases hFirst
  obtain ⟨opens, _, -, hEnd⟩ := bind_eq_ok_iff.mp hSize
  -- with a size or without one, the type starts with its word
  cases opens with
  | true =>
    obtain ⟨digits, _, -, hEnd⟩ := bind_eq_ok_iff.mp hEnd
    obtain ⟨_, -, rfl⟩ := map_eq_ok_iff.mp hEnd
    simp only [List.append_assoc]
    exact List.prefix_append _ _
  | false =>
    cases hEnd
    exact List.prefix_append _ _

/-- If the second word is a whole word, it is the type, and the attributes behind it are read as
those of the further field. -/
theorem constraintOrField?_of_broken {book : Rulebook} {attributes : List Attribute}
    (hEnd : startsWord left = false) (hOpen : (left.dropWhile isBlank).head? ≠ some '(')
    (hAttributes : many (attribute? book)
      (c.advance (words.1.length + 1 + words.2.length)).skipBlanks = .ok attributes d) :
    constraintOrField? book c =
      .ok (some (.field (fieldOf ⟨words.1, none⟩ words.2 attributes))) d := by
  have hIdentifier := identifier_of_broken hMem hRest
  rw [word_eq_nil_iff.mpr hEnd, List.append_nil, List.length_nil, Nat.add_zero] at hIdentifier
  -- behind both words stands what is left
  have hBehind : (c.advance (words.1.length + 1 + words.2.length)).skipBlanks.rest =
      left.dropWhile isBlank := by
    have hSplit : c.rest = (words.1 ++ '\n' :: words.2) ++ left := by
      rw [hRest, List.append_assoc]
      rfl
    have hLength : words.1.length + 1 + words.2.length =
        (words.1 ++ '\n' :: words.2).length := by
      simp only [List.length_append, List.length_cons]
      omega
    rw [rest_skipBlanks, rest_advance, hSplit, hLength, List.drop_left]
  have hNone : accept "(" (c.advance (words.1.length + 1 + words.2.length)) =
      .ok false (c.advance (words.1.length + 1 + words.2.length)).skipBlanks := by
    refine accept_of_missed ?_
    rw [hBehind]
    exact isPrefixOf_singleton_eq_false hOpen
  have hType : fieldType (c.advance words.1.length) =
      .ok words.2 (c.advance (words.1.length + 1 + words.2.length)).skipBlanks :=
    (bind_of_ok hIdentifier).trans (bind_of_ok hNone)
  have hField : field? book c = .ok (some (fieldOf ⟨words.1, none⟩ words.2 attributes)) d :=
    (bind_of_ok (qualifiedName?_of_broken hMem hBlank hRest)).trans
      ((bind_of_ok hType).trans (bind_of_ok hAttributes))
  exact (bind_of_ok (constraint?_of_broken hMem hBlank hRest book)).trans (bind_of_ok hField)

end

end Grammar

end SchemaScript
