import SchemaScript.Proofs.Cursor.Movement

/-!
# Reading in another text

A map of cursors carries a cursor to a place of another text. If what stands next is the same there
(`Cursor.Agrees`), a reader takes the same there, and it stops at the place where the map carries
the cursor at which it stopped before: the result is carried along (`Reader.carry`).

Each reader gets one lemma, for any map. A sequence is carried if its parts are (`bind_carry`), and
a repetition if one item and what follows it are (`many_carry`).
-/

namespace SchemaScript

/-! ## Tokens -/

namespace Grammar

/-- The two words of each token that has two words. -/
def wordPairs : List (Text × Text) :=
  [("PRIMARY", "KEY"), ("FOREIGN", "KEY"), ("NOT", "NULL"), ("WITH", "DEFAULT")]

/-- Whether a literal is one that the grammar asks for: some characters without a blank, or two
words with a space between them. -/
def isToken (literal : Text) : Bool :=
  (!literal.isEmpty && literal.all fun x => !Text.isBlank x) ||
    wordPairs.any fun words => literal == words.1 ++ ' ' :: words.2

/-- A literal of the grammar has no blank, or one space between its two words. -/
theorem isToken_iff {literal : Text} :
    isToken literal = true ↔
      (literal ≠ [] ∧ ∀ x ∈ literal, Text.isBlank x = false) ∨
        ∃ words ∈ wordPairs, literal = words.1 ++ ' ' :: words.2 := by
  simp [isToken]

/-- No line ends in a token. -/
theorem not_mem_of_isToken {literal : Text} (hToken : isToken literal = true) :
    '\n' ∉ literal := by
  rcases isToken_iff.mp hToken with ⟨-, hBlank⟩ | ⟨words, hMem, rfl⟩
  · exact fun hMem => absurd (hBlank _ hMem) (by decide)
  · -- there are four tokens with a blank, and it is a space
    have hAll : ∀ words ∈ wordPairs, '\n' ∉ words.1 ++ ' ' :: words.2 := by decide
    exact hAll words hMem

theorem not_mem_dropLast_of_isToken {literal : Text} (hToken : isToken literal = true) :
    '\n' ∉ literal.dropLast :=
  fun hMem => not_mem_of_isToken hToken (List.dropLast_subset literal hMem)

/-- Whether a word stands at the start of a text with a space or a line feed behind it. -/
def keywordAhead (word t : Text) : Bool :=
  (word ++ " ").isPrefixOf t || (word ++ "\n").isPrefixOf t

/-- More text behind a line changes nothing, since a keyword holds no line feed before its end. -/
theorem keywordAhead_append_of_endsLine {word t : Text} (hToken : isToken word = true)
    (hLine : Text.EndsLine t) (u : Text) : keywordAhead word (t ++ u) = keywordAhead word t := by
  have hSpace : '\n' ∉ (word ++ (" " : Text)).dropLast := by
    simpa using not_mem_of_isToken hToken
  have hBreak : '\n' ∉ (word ++ ("\n" : Text)).dropLast := by
    simpa using not_mem_of_isToken hToken
  unfold keywordAhead
  rw [Text.isPrefixOf_append_of_endsLine hSpace hLine,
    Text.isPrefixOf_append_of_endsLine hBreak hLine]

end Grammar

/-! ## Agreement -/

/-- Whether what the grammar asks for behind the blanks of a cursor is found too where a map carries
the cursor. -/
structure Cursor.Agrees (f : Cursor → Cursor) (c : Cursor) : Prop where
  skip : (f c).skipBlanks = f c.skipBlanks
  literal : ∀ literal : Text, Grammar.isToken literal = true →
    literal.isPrefixOf (f c.skipBlanks).rest = literal.isPrefixOf c.skipBlanks.rest
  keyword : ∀ word : Text, Grammar.isToken word = true →
    Grammar.keywordAhead word (f c.skipBlanks).rest =
      Grammar.keywordAhead word c.skipBlanks.rest
  word : Text.word (f c.skipBlanks).rest = Text.word c.skipBlanks.rest
  number : Text.number (f c.skipBlanks).rest = Text.number c.skipBlanks.rest
  startsWord : Text.startsWord (f c.skipBlanks).rest = Text.startsWord c.skipBlanks.rest
  advance : ∀ n ≤ c.skipBlanks.rest.length,
    (f c.skipBlanks).advance n = f (c.skipBlanks.advance n)

/-- Whether names and numbers, which hold no blanks, are found too where a map carries a cursor. -/
structure Cursor.AgreesOnNames (f : Cursor → Cursor) (c : Cursor) : Prop where
  skip : (f c).skipBlanks = f c.skipBlanks
  point : (['.'] : Text).isPrefixOf (f c.skipBlanks).rest =
    (['.'] : Text).isPrefixOf c.skipBlanks.rest
  word : Text.word (f c.skipBlanks).rest = Text.word c.skipBlanks.rest
  number : Text.number (f c.skipBlanks).rest = Text.number c.skipBlanks.rest
  startsWord : Text.startsWord (f c.skipBlanks).rest = Text.startsWord c.skipBlanks.rest
  advance : ∀ n ≤ c.skipBlanks.rest.length,
    (f c.skipBlanks).advance n = f (c.skipBlanks.advance n)

/-- Where all literals agree, the point of a name does so too. -/
theorem Cursor.Agrees.onNames {f : Cursor → Cursor} {c : Cursor} (hAgrees : Cursor.Agrees f c) :
    Cursor.AgreesOnNames f c where
  skip := hAgrees.skip
  point := hAgrees.literal ['.'] rfl
  word := hAgrees.word
  number := hAgrees.number
  startsWord := hAgrees.startsWord
  advance := hAgrees.advance

namespace Reader

open Cursor

variable {α β : Type} {f : Cursor → Cursor} {c d : Cursor}

/-- The result of a reader with its cursor carried to another text. A mismatch is told for the new
place. -/
def carry (f : Cursor → Cursor) : EStateM.Result Halt Cursor α → EStateM.Result Halt Cursor α
  | .ok x d => .ok x (f d)
  | .error (.mismatch m) d => .error (.mismatch (.atCursor m.expected (f d))) (f d)
  | .error (.rules e) d => .error (.rules e) (f d)

/-- A failure is carried in the same way whatever was to be read. -/
theorem carry_error (f : Cursor → Cursor) (e : Halt) (d : Cursor) :
    ∃ e', ∀ {γ : Type}, carry f (.error e d : EStateM.Result Halt Cursor γ) = .error e' (f d) := by
  cases e with
  | mismatch m => exact ⟨_, rfl⟩
  | rules e => exact ⟨_, rfl⟩

/-- A carried result is a success if the result is one. -/
theorem carry_eq_ok_iff {result : EStateM.Result Halt Cursor α} {x : α} :
    carry f result = .ok x d ↔ ∃ m, result = .ok x m ∧ d = f m := by
  cases result with
  | ok y m =>
    constructor
    · rintro ⟨⟩
      exact ⟨m, rfl, rfl⟩
    · rintro ⟨m, ⟨⟩, rfl⟩
      rfl
  | error e m =>
    obtain ⟨e', hError⟩ := carry_error f e m
    constructor
    · intro hRead
      rw [hError] at hRead
      cases hRead
    · rintro ⟨m, ⟨⟩, -⟩

/-- A carried mismatch comes from one, with the same expectation. -/
theorem carry_eq_mismatch {result : EStateM.Result Halt Cursor α} {m : Mismatch}
    (hFail : carry f result = .error (.mismatch m) d) :
    ∃ m' d', result = .error (.mismatch m') d' ∧ d = f d' ∧ m = .atCursor m'.expected (f d') := by
  cases result with
  | ok x d' => cases hFail
  | error e d' =>
    cases e with
    | mismatch m' =>
      cases hFail
      exact ⟨m', d', rfl, rfl, rfl⟩
    | rules e => cases hFail

/-! ## Literals -/

/-- A literal is taken in both texts or in neither. -/
theorem accept_carry (hAgrees : Agrees f c) {literal : Text}
    (hToken : Grammar.isToken literal = true) :
    accept literal (f c) = carry f (accept literal c) := by
  rw [accept_apply, accept_apply, hAgrees.skip, hAgrees.literal literal hToken]
  split
  · next hNext =>
    -- the literal lies within the text, so the map carries its end
    have hWithin := (List.isPrefixOf_iff_prefix.mp hNext).length_le
    rw [hAgrees.advance _ hWithin]
    rfl
  · rfl

/-- A literal that is missing in one text is missing in the other. -/
theorem expect_carry (hAgrees : Agrees f c) {literal : Text}
    (hToken : Grammar.isToken literal = true) :
    expect literal (f c) = carry f (expect literal c) := by
  rw [expect_apply, expect_apply, hAgrees.skip, hAgrees.literal literal hToken]
  split
  · next hNext =>
    have hWithin := (List.isPrefixOf_iff_prefix.mp hNext).length_le
    rw [hAgrees.advance _ hWithin]
    rfl
  · rfl

/-! ## Names and numbers -/

theorem length_word_le (t : Text) : (Text.word t).length ≤ t.length :=
  (List.takeWhile_prefix _).length_le

/-- A number is part of the text it stands in: digits, and maybe a point and more digits. -/
theorem length_number_le (t : Text) : (Text.number t).length ≤ t.length := by
  have hSplit := congrArg List.length
    (List.takeWhile_append_dropWhile (p := Text.isDecimal) (l := t))
  rw [List.length_append] at hSplit
  unfold Text.number
  dsimp only
  split
  · -- the point stands between the digits and the places
    next places hPoint =>
    have hPlaces := (List.takeWhile_prefix (l := places) Text.isDecimal).length_le
    rw [hPoint, List.length_cons] at hSplit
    split
    · omega
    · rw [List.length_append, List.length_cons]
      omega
  · omega

/-- The word that stands next is the same in both texts. -/
theorem identifier_carry (hAgrees : AgreesOnNames f c) :
    identifier (f c) = carry f (identifier c) := by
  rw [identifier_apply, identifier_apply, hAgrees.skip, hAgrees.word]
  split
  · rfl
  · rw [hAgrees.advance _ (length_word_le _)]
    rfl

/-- The number that stands next is the same in both texts. -/
theorem number_carry (hAgrees : AgreesOnNames f c) : number (f c) = carry f (number c) := by
  rw [number_apply, number_apply, hAgrees.skip, hAgrees.number]
  split
  · rfl
  · rw [hAgrees.advance _ (length_number_le _)]
    rfl

/-- The word behind a point is carried if what stands behind the point is the same. -/
theorem wordAfterPoint?_carry (hAgrees : AgreesOnNames f c)
    (hBehind : (['.'] : Text).isPrefixOf c.skipBlanks.rest = true →
      AgreesOnNames f (c.skipBlanks.advance 1)) :
    wordAfterPoint? (f c) = (wordAfterPoint? c).map (Prod.map id f) := by
  rw [wordAfterPoint?_apply, wordAfterPoint?_apply, hAgrees.skip, hAgrees.point]
  split
  · next hPoint =>
    -- behind the point blanks may stand, so agreement is needed once more there
    have hWithin := (List.isPrefixOf_iff_prefix.mp hPoint).length_le
    rw [hAgrees.advance 1 hWithin, (hBehind hPoint).skip, (hBehind hPoint).word]
    split
    · rfl
    · rw [(hBehind hPoint).advance _ (length_word_le _)]
      rfl
  · rfl

/-- A name is carried if its first word is, and what is found behind it. -/
theorem qualifiedName_carry (hFirst : identifier (f c) = carry f (identifier c))
    (hSecond : ∀ first d, identifier c = .ok first d →
      wordAfterPoint? (f d) = (wordAfterPoint? d).map (Prod.map id f)) :
    qualifiedName (f c) = carry f (qualifiedName c) := by
  cases hRead : identifier c with
  | error e d =>
    rw [hRead] at hFirst
    obtain ⟨e', hError⟩ := carry_error f e d
    rw [qualifiedName_of_error (hFirst.trans hError), qualifiedName_of_error hRead, hError]
  | ok first d =>
    rw [hRead] at hFirst
    -- the word behind the point is looked for at the place where the first one ended
    rw [qualifiedName_of_ok hFirst, qualifiedName_of_ok hRead, hSecond first d hRead]
    cases wordAfterPoint? d <;> rfl

/-! ## Free text -/

/-- Free text is carried if it is found alike, since the search is the only thing it does. -/
theorem takeUntil_carry {delimiter : Text} {inclusive : Bool}
    (hTake : (f c).takeUntil? delimiter inclusive =
      (c.takeUntil? delimiter inclusive).map (Prod.map id f)) :
    takeUntil delimiter inclusive (f c) = carry f (takeUntil delimiter inclusive c) := by
  rw [takeUntil_apply, takeUntil_apply, hTake]
  cases c.takeUntil? delimiter inclusive <;> rfl

/-- Parameters are carried if their text is found alike: decoding does not look at the place. -/
theorem parameters_carry {rules : Parameters.Rules}
    (hTake : (f c).takeUntil? rules.terminator true =
      (c.takeUntil? rules.terminator true).map (Prod.map id f)) :
    parameters rules (f c) = carry f (parameters rules c) := by
  rw [parameters_apply, parameters_apply, hTake]
  cases c.takeUntil? rules.terminator true with
  | none => rfl
  | some found =>
    obtain ⟨written, next⟩ := found
    dsimp only [Option.map_some, Prod.map, id]
    cases Parameters.decode rules written <;> rfl

/-! ## Sequences and repetitions -/

/-- A sequence is carried part by part. If its first part fails, so does the sequence, and the
mismatch is carried. -/
theorem bind_carry {r : Reader α} {g : α → Reader β} (hFirst : r (f c) = carry f (r c))
    (hThen : ∀ x d, r c = .ok x d → g x (f d) = carry f (g x d)) :
    (r >>= g) (f c) = carry f ((r >>= g) c) := by
  cases hRead : r c with
  | ok x d =>
    rw [hRead] at hFirst
    rw [bind_of_ok hFirst, bind_of_ok hRead]
    exact hThen x d hRead
  | error e d =>
    rw [hRead] at hFirst
    obtain ⟨e', hError⟩ := carry_error f e d
    rw [bind_of_error (hFirst.trans hError), bind_of_error hRead, hError]

/-- The name that a probe for a word asks for is read behind the blanks. -/
theorem qualifiedName?_carry (hAgrees : AgreesOnNames f c)
    (hName : Text.startsWord c.skipBlanks.rest = true →
      qualifiedName (f c.skipBlanks) = carry f (qualifiedName c.skipBlanks)) :
    qualifiedName? (f c) = carry f (qualifiedName? c) := by
  rw [qualifiedName?_apply, qualifiedName?_apply, hAgrees.skip, hAgrees.startsWord]
  split
  · next hStarts => exact bind_carry (hName hStarts) fun _ _ _ => rfl
  · rfl

/-- A repetition is carried if one item is, and the repetition behind it. An item that does not move
the cursor ends the repetition, so moving has to agree as well. -/
theorem many_carry {item : Reader (Option α)} (hItem : item (f c) = carry f (item c))
    (hLength : ∀ x d, item c = .ok (some x) d →
      ((f d).rest.length < (f c).rest.length ↔ d.rest.length < c.rest.length))
    (hMore : ∀ x d, item c = .ok (some x) d → d.rest.length < c.rest.length →
      many item (f d) = carry f (many item d)) :
    many item (f c) = carry f (many item c) := by
  cases hRead : item c with
  | error e d =>
    rw [hRead] at hItem
    obtain ⟨e', hError⟩ := carry_error f e d
    rw [many_of_error (hItem.trans hError), many_of_error hRead, hError]
  | ok found d =>
    rw [hRead] at hItem
    cases found with
    | none =>
      rw [many_of_none hItem, many_of_none hRead]
      rfl
    | some x =>
      -- the item moves the cursor here exactly if it does so there
      by_cases hMoved : d.rest.length < c.rest.length
      · rw [many_of_some hItem ((hLength x d hRead).mpr hMoved), many_of_some hRead hMoved]
        exact bind_carry (hMore x d hRead hMoved) fun _ _ _ => rfl
      · rw [many_of_stuck hItem (fun h => hMoved ((hLength x d hRead).mp h)),
          many_of_stuck hRead hMoved]
        rfl

end Reader

namespace Grammar

open Reader

/-- A keyword is taken in both texts or in neither. What stands behind the word is passed with it,
one character in either text. -/
theorem keyword_carry {f : Cursor → Cursor} {c : Cursor} (hAgrees : Cursor.Agrees f c)
    {word : Text} (hToken : isToken word = true) :
    keyword word (f c) = carry f (keyword word c) := by
  have hAhead := hAgrees.keyword word hToken
  unfold keywordAhead at hAhead
  rw [keyword_apply, keyword_apply, hAgrees.skip, hAhead]
  split
  · next hNext =>
    -- the word and one character behind it
    have hWithin : word.length + 1 ≤ c.skipBlanks.rest.length := by
      rcases Bool.or_eq_true_iff.mp hNext with hSpace | hBreak
      · simpa using (List.isPrefixOf_iff_prefix.mp hSpace).length_le
      · simpa using (List.isPrefixOf_iff_prefix.mp hBreak).length_le
    rw [hAgrees.advance _ hWithin]
    rfl
  · rfl

end Grammar

end SchemaScript
