import SchemaScript.Proofs.Parameters.Rulebook
import SchemaScript.Proofs.Script.Step
import SchemaScript.Proofs.Text.Break

/-!
# Texts with other line breaks

A text is `Rebroken` if line feeds take the place of some spaces of another one, or the other way
round. What the grammar asks for at a place of the one text is found at the same place of the other
(`agrees_inText`), with two conditions: blanks stand alone, so that trimming evens them out, and the
tokens of two words are written alike, since their space is no line feed.

So a reader takes the same at the same place of both texts (`Composed.rebroken`). Comments alone are
read differently, because a line feed ends them, and there are none if no two hyphens stand
together.
-/

namespace SchemaScript

open Text

/-- Whether two texts differ only in that some of their blanks, which stand alone, are spaces in the
one and line feeds in the other, though not those between the two words of a token. Neither of them
has a comment. -/
structure Text.Rebroken (s t : Text) : Prop where
  same : s.map unbreak = t.map unbreak
  lone : Lone s
  lone' : Lone t
  noComment : ¬ ("--" : Text) <:+: s
  pairs : ∀ words ∈ Grammar.wordPairs, ∀ i < s.length, words.1 <+: s.drop i →
    words.2 <+: s.drop (i + words.1.length + 1) →
      s[i + words.1.length]? = t[i + words.1.length]?

/-- A text with a character and more text behind it stands at the start of another one. -/
theorem Text.append_cons_prefix_iff {u v t : Text} {x : Char} :
    u ++ x :: v <+: t ↔ u <+: t ∧ v <+: t.drop (u.length + 1) ∧ t[u.length]? = some x := by
  constructor
  · rintro ⟨behind, rfl⟩
    refine ⟨?_, ?_, ?_⟩
    · rw [List.append_assoc]
      exact List.prefix_append u _
    · simp [List.append_assoc]
    · simp [List.append_assoc]
  · rintro ⟨⟨behind, rfl⟩, hSecond, hBetween⟩
    cases behind with
    | nil => simp at hBetween
    | cons y behind =>
      -- the character at the place is the one that was asked for
      obtain rfl : y = x := by simpa using hBetween
      rw [List.drop_append, List.drop_of_length_le (by omega)] at hSecond
      have hBehind : v <+: behind := by simpa using hSecond
      exact (List.prefix_append_right_inj u).mpr (List.cons_prefix_cons.mpr ⟨rfl, hBehind⟩)

/-- Which characters end a keyword does not depend on line breaks. -/
theorem Grammar.keywordAhead_iff {word t : Text} :
    keywordAhead word t = true ↔ word <+: t ∧ t[word.length]?.map unbreak = some ' ' := by
  have hOne : ∀ x, (word ++ [x]).isPrefixOf t = true ↔ word <+: t ∧ t[word.length]? = some x := by
    intro x
    rw [List.isPrefixOf_iff_prefix, append_cons_prefix_iff]
    simp
  have hSpace := hOne ' '
  have hBreak := hOne '\n'
  unfold keywordAhead
  rw [Bool.or_eq_true]
  -- both blanks are a space once line breaks are taken away
  refine (or_congr hSpace hBreak).trans ?_
  cases t[word.length]? with
  | none => simp
  | some y => simp [unbreak_eq_space_iff, and_or_left]

namespace Text.Rebroken

variable {s t : Text} (hRebroken : Rebroken s t)
include hRebroken

/-- Both texts have the same length, so that they have the same places. -/
theorem length_eq : t.length = s.length := by
  have := congrArg List.length hRebroken.same
  simpa using this.symm

/-- From any place on both texts differ in line breaks only. -/
theorem same_drop (n : Nat) : (t.drop n).map unbreak = (s.drop n).map unbreak := by
  rw [List.map_drop, List.map_drop, hRebroken.same]

/-- At any place stands the same character, or one blank or the other. -/
theorem same_get? (n : Nat) : t[n]?.map unbreak = s[n]?.map unbreak := by
  rw [← List.getElem?_map, ← List.getElem?_map, hRebroken.same]

/-- A literal without blanks stands at the same places. -/
theorem prefix_iff_of_nonblank {literal : Text} (hBlank : ∀ x ∈ literal, isBlank x = false)
    (n : Nat) : literal <+: t.drop n ↔ literal <+: s.drop n := by
  have hUnbroken := isPrefixOf_map_unbreak hBlank
  rw [← List.isPrefixOf_iff_prefix, ← List.isPrefixOf_iff_prefix, ← hUnbroken (t.drop n),
    hRebroken.same_drop, hUnbroken]

/-- The tokens of two words stand at the same places, since they are written alike. -/
theorem prefix_iff_of_pair {words : Text × Text} (hMem : words ∈ Grammar.wordPairs) (n : Nat) :
    words.1 ++ ' ' :: words.2 <+: t.drop n ↔ words.1 ++ ' ' :: words.2 <+: s.drop n := by
  have hWords : ∀ words ∈ Grammar.wordPairs, words.1 ≠ [] ∧
      (words.1.all fun x => !isBlank x) = true ∧ (words.2.all fun x => !isBlank x) = true := by
    decide
  obtain ⟨hSome, hFirst, hSecond⟩ := hWords words hMem
  have hStart := hRebroken.prefix_iff_of_nonblank (nonblank_of_all hFirst) n
  have hBehind := hRebroken.prefix_iff_of_nonblank (nonblank_of_all hSecond)
    (n + (words.1.length + 1))
  rw [append_cons_prefix_iff, append_cons_prefix_iff, hStart, List.drop_drop, List.drop_drop,
    hBehind, List.getElem?_drop, List.getElem?_drop]
  -- only the space between the two words is left, and there the texts agree
  refine and_congr_right fun hHere => and_congr_right fun hNext => ?_
  have hWithin : n < s.length := by
    have hLength := hHere.length_le
    have := List.length_pos_iff.mpr hSome
    rw [List.length_drop] at hLength
    omega
  rw [hRebroken.pairs words hMem n hWithin hHere hNext]

/-- The tokens of the grammar stand at the same places. -/
theorem prefix_iff {literal : Text} (hToken : Grammar.isToken literal = true) (n : Nat) :
    literal <+: t.drop n ↔ literal <+: s.drop n := by
  rcases Grammar.isToken_iff.mp hToken with ⟨-, hBlank⟩ | ⟨words, hMem, rfl⟩
  · exact hRebroken.prefix_iff_of_nonblank hBlank n
  · exact hRebroken.prefix_iff_of_pair hMem n

/-- Keywords stand at the same places; a space or a line feed may end them. -/
theorem keywordAhead_eq {word : Text} (hToken : Grammar.isToken word = true) (n : Nat) :
    Grammar.keywordAhead word (t.drop n) = Grammar.keywordAhead word (s.drop n) := by
  rw [Bool.eq_iff_iff, Grammar.keywordAhead_iff, Grammar.keywordAhead_iff,
    hRebroken.prefix_iff hToken, List.getElem?_drop, List.getElem?_drop, hRebroken.same_get?]

/-- A piece of the one text is trimmed to the same text as the piece of the other. -/
theorem trim_eq {found found' : Text} (hInfix : found <:+: s) (hInfix' : found' <:+: t)
    (hSame : found'.map unbreak = found.map unbreak) : trim found' = trim found := by
  have hLone := hRebroken.lone.of_infix hInfix
  have hLone' := hRebroken.lone'.of_infix hInfix'
  rw [trim_of_lone hLone', trim_of_lone hLone, hSame]

end Text.Rebroken

/-! ## The same place of another text -/

namespace Cursor

/-- The cursor at the same place of another text. -/
def inText (t : Text) (c : Cursor) : Cursor := ⟨(t.take c.pos).reverse, t.drop c.pos⟩

@[simp] theorem rest_inText (t : Text) (c : Cursor) : (c.inText t).rest = t.drop c.pos := rfl

/-- The same place of a text of the same length is the same position. -/
theorem pos_inText {t : Text} {c : Cursor} (hLength : t.length = c.text.length) :
    (c.inText t).pos = c.pos := by
  have := c.pos_le_length
  simp only [inText, pos, List.length_reverse, List.length_take] at this ⊢
  omega

/-- What is ahead is a piece of the text. -/
theorem isInfix_rest (c : Cursor) : c.rest <:+: c.text := (List.suffix_append _ c.rest).isInfix

theorem isInfix_rest_inText (t : Text) (c : Cursor) : (c.inText t).rest <:+: t :=
  (List.drop_suffix _ t).isInfix

/-- Places move alike. -/
theorem advance_inText (t : Text) {c : Cursor} {n : Nat} (hWithin : n ≤ c.rest.length) :
    (c.inText t).advance n = (c.advance n).inText t := by
  have hPos : (c.advance n).pos = c.pos + n := by
    rw [pos_advance, Nat.min_eq_left hWithin]
  have hMoved : (c.inText t).advance n =
      ⟨((t.drop c.pos).take n).reverse ++ (t.take c.pos).reverse, (t.drop c.pos).drop n⟩ := rfl
  rw [hMoved, inText, hPos, List.take_add, List.reverse_append, List.drop_drop]

/-! ### Where only line breaks differ -/

section

variable {s t : Text} {c : Cursor} (hSame : s.map unbreak = t.map unbreak) (hText : c.text = s)
include hSame hText

/-- What lies ahead differs in line breaks only. -/
theorem same_rest : (c.inText t).rest.map unbreak = c.rest.map unbreak := by
  rw [rest_inText, List.map_drop, ← hSame, ← List.map_drop, ← hText, drop_pos_text]

theorem length_rest_inText : (c.inText t).rest.length = c.rest.length := by
  simpa using congrArg List.length (same_rest hSame hText)

theorem rest_inText_eq_nil_iff : (c.inText t).rest = [] ↔ c.rest = [] := by
  rw [← List.length_eq_zero_iff, length_rest_inText hSame hText, List.length_eq_zero_iff]

/-- The run of blanks that stands next has the same length in both texts. -/
theorem skipBlanks_inText : (c.inText t).skipBlanks = c.skipBlanks.inText t := by
  have hRun : ((t.drop c.pos).takeWhile isBlank).map unbreak =
      (c.rest.takeWhile isBlank).map unbreak := by
    rw [← takeWhile_map_unbreak isBlank_unbreak, ← takeWhile_map_unbreak isBlank_unbreak,
      ← same_rest hSame hText, rest_inText]
  have hLength := congrArg List.length hRun
  rw [List.length_map, List.length_map] at hLength
  unfold skipBlanks
  rw [rest_inText, hLength, advance_inText t (List.takeWhile_prefix _).length_le]

/-- A literal without blanks stands at the same places. -/
theorem isPrefixOf_inText {literal : Text} (hBlank : ∀ x ∈ literal, isBlank x = false) :
    literal.isPrefixOf (c.inText t).rest = literal.isPrefixOf c.rest := by
  rw [← isPrefixOf_map_unbreak hBlank, same_rest hSame hText, isPrefixOf_map_unbreak hBlank]

/-- Names and numbers hold no blanks, so they are the same at the same place of both texts. -/
theorem agreesOnNames_inText : AgreesOnNames (inText t) c := by
  have hNextText : c.skipBlanks.text = s := by rw [text_skipBlanks, hText]
  have hRest := same_rest hSame hNextText
  exact
    { skip := skipBlanks_inText hSame hText
      point := isPrefixOf_inText hSame hNextText (by simp [show isBlank '.' = false by decide])
      word := by rw [← word_map_unbreak, hRest, word_map_unbreak]
      number := by rw [← number_map_unbreak, hRest, number_map_unbreak]
      startsWord := by rw [← startsWord_map_unbreak, hRest, startsWord_map_unbreak]
      advance := fun n hWithin => advance_inText t hWithin }

end

/-! ### Where the tokens are the same -/

section

variable {s t : Text} {c : Cursor} (hRebroken : Rebroken s t) (hText : c.text = s)
include hRebroken hText

/-- What the grammar asks for behind blanks is the same at the same place of both texts. -/
theorem agrees_inText : Agrees (inText t) c := by
  have hNextText : c.skipBlanks.text = s := by rw [text_skipBlanks, hText]
  have hRest : s.drop c.skipBlanks.pos = c.skipBlanks.rest := by
    rw [← hNextText, drop_pos_text]
  have hNames := agreesOnNames_inText hRebroken.same hText
  refine
    { skip := hNames.skip
      literal := fun literal hToken => ?_
      keyword := fun word hToken => ?_
      word := hNames.word
      number := hNames.number
      startsWord := hNames.startsWord
      advance := hNames.advance }
  · rw [Bool.eq_iff_iff, List.isPrefixOf_iff_prefix, List.isPrefixOf_iff_prefix, rest_inText,
      hRebroken.prefix_iff hToken, hRest]
  · rw [rest_inText, hRebroken.keywordAhead_eq hToken, hRest]

/-- Free text up to a character that is no blank ends at the same place of both texts. -/
theorem takeUntil?_inText {x : Char} (hBlank : isBlank x = false) (inclusive : Bool) :
    (c.inText t).takeUntil? [x] inclusive =
      (c.takeUntil? [x] inclusive).map (Prod.map id (inText t)) := by
  have hBreak : x ≠ '\n' := by
    rintro rfl
    cases hBlank
  -- with line breaks taken away both searches are one
  have hSearch := before?_map_unbreak hBlank (c.inText t).rest
  rw [same_rest hRebroken.same hText, before?_map_unbreak hBlank] at hSearch
  cases hFound : before? [x] c.rest with
  | none =>
    rw [hFound] at hSearch
    have hNone : before? [x] (c.inText t).rest = none := by simpa using hSearch.symm
    rw [takeUntil?, takeUntil?, hFound, hNone]
    rfl
  | some found =>
    rw [hFound] at hSearch
    obtain ⟨found', hFound', hSame⟩ : ∃ found', before? [x] (c.inText t).rest = some found' ∧
        found'.map unbreak = found.map unbreak := by simpa using hSearch.symm
    have hLength : found'.length = found.length := by simpa using congrArg List.length hSame
    obtain ⟨hFirst, behind, hRest⟩ := before?_singleton_eq_some_iff.mp hFound
    obtain ⟨hFirst', behind', hRest'⟩ := before?_singleton_eq_some_iff.mp hFound'
    -- what was found may differ in line breaks, which trimming evens out
    have hTrim : trim found' = trim found := by
      refine hRebroken.trim_eq (.trans ?_ (hText ▸ c.isInfix_rest))
        (.trans ?_ (isInfix_rest_inText t c)) hSame
      · exact ⟨[], x :: behind, by rw [hRest, List.nil_append]⟩
      · exact ⟨[], x :: behind', by rw [hRest', List.nil_append]⟩
    have hWithin : found.length + (if inclusive then 1 else 0) ≤ c.rest.length := by
      rw [hRest, List.length_append, List.length_cons]
      split <;> omega
    rw [takeUntil?_of_eq hBreak hFirst hRest, takeUntil?_of_eq hBreak hFirst' hRest', hTrim,
      hLength, advance_inText t hWithin]
    rfl

/-- The same holds if the rest is taken where there is no delimiter. -/
theorem takeUntilOrRest_inText {x : Char} (hBlank : isBlank x = false) (inclusive : Bool) :
    (c.inText t).takeUntilOrRest [x] inclusive =
      Prod.map id (inText t) (c.takeUntilOrRest [x] inclusive) := by
  have hRest := same_rest hRebroken.same hText
  have hTrim := hRebroken.trim_eq (hText ▸ c.isInfix_rest) (isInfix_rest_inText t c) hRest
  unfold takeUntilOrRest takeRest
  rw [takeUntil?_inText hRebroken hText hBlank, hTrim, length_rest_inText hRebroken.same hText,
    advance_inText t (Nat.le_refl _)]
  cases c.takeUntil? [x] inclusive <;> rfl

end

end Cursor

namespace Grammar

open Reader Cursor

variable {α : Type} {s t : Text} {c : Cursor}

/-- A name is read at the same place of both texts. -/
theorem qualifiedName_inText (hSame : s.map unbreak = t.map unbreak) (hText : c.text = s) :
    qualifiedName (c.inText t) = carry (inText t) (qualifiedName c) := by
  refine qualifiedName_carry (identifier_carry (agreesOnNames_inText hSame hText))
    fun first d hFirst => ?_
  have hNext : d.text = s := by
    have hReach := (.identifier : Composed Rulebook.standard _).reaches_of_ok hFirst
    rw [hReach.text_eq, hText]
  refine wordAfterPoint?_carry (agreesOnNames_inText hSame hNext) fun _ => ?_
  exact agreesOnNames_inText hSame (by rw [text_advance, text_skipBlanks, hNext])

/-- A name that is probed for is found at the same place, or not at all. -/
theorem qualifiedName?_inText (hSame : s.map unbreak = t.map unbreak) (hText : c.text = s) :
    qualifiedName? (c.inText t) = carry (inText t) (qualifiedName? c) := by
  refine qualifiedName?_carry (agreesOnNames_inText hSame hText) fun _ => ?_
  exact qualifiedName_inText hSame (by rw [text_skipBlanks, hText])

/-- **The grammar reads the same** at the same place of a text with other line breaks. -/
theorem Composed.rebroken {r : Reader α} (hComposed : Composed Rulebook.standard r)
    (hRebroken : Rebroken s t) (hText : c.text = s) :
    r (c.inText t) = carry (inText t) (r c) := by
  -- one case for each way to build a reader, with a lemma from above
  induction hComposed generalizing c with
  | pure x => rfl
  | bind hFirst _ ihFirst ihThen =>
    refine bind_carry (ihFirst hText) fun x d hRead => ihThen x ?_
    rw [(hFirst.reaches_of_ok hRead).text_eq, hText]
  | fail _ => rfl
  | accept hToken => exact accept_carry (agrees_inText hRebroken hText) hToken
  | expect hToken => exact expect_carry (agrees_inText hRebroken hText) hToken
  | keyword hToken => exact keyword_carry (agrees_inText hRebroken hText) hToken
  | takeUntil inclusive hDelimiter =>
    have hAll : (delimiters.all fun x => !isBlank x) = true := by decide
    have hBlank := nonblank_of_all hAll _ (List.contains_iff_mem.mp hDelimiter)
    exact takeUntil_carry (takeUntil?_inText hRebroken hText hBlank inclusive)
  | parameters construct =>
    refine parameters_carry ?_
    rw [Rulebook.standard_terminator]
    exact takeUntil?_inText hRebroken hText (by decide) true
  | identifier => exact identifier_carry (agreesOnNames_inText hRebroken.same hText)
  | number => exact number_carry (agreesOnNames_inText hRebroken.same hText)
  | qualifiedName => exact qualifiedName_inText hRebroken.same hText
  | qualifiedName? => exact qualifiedName?_inText hRebroken.same hText
  | @many _ item hItem ih =>
    induction c using many_induction item with
    | again c ihMany =>
      have hReach : ∀ x d, item c = .ok (some x) d → d.text = s := fun x d hRead => by
        rw [(hItem.reaches_of_ok hRead).text_eq, hText]
      refine many_carry (ih hText) (fun x d hRead => ?_) fun x d hRead hMoved =>
        ihMany x d hRead hMoved (hReach x d hRead)
      rw [length_rest_inText hRebroken.same (hReach x d hRead),
        length_rest_inText hRebroken.same hText]

/-- Without two hyphens there is no comment, and what is read is a directive. -/
theorem statement?_rebroken (hRebroken : Rebroken s t) (hText : c.text = s) :
    statement? Rulebook.standard (c.inText t) =
      carry (inText t) (statement? Rulebook.standard c) := by
  -- no comment starts here, so the probe for one passes the blanks
  have hProbe : accept "--" c = .ok false c.skipBlanks := by
    rw [accept_apply, if_neg]
    intro hHyphens
    have hPrefix := List.isPrefixOf_iff_prefix.mp hHyphens
    have hNext : c.skipBlanks.text = s := by rw [text_skipBlanks, hText]
    exact hRebroken.noComment (hPrefix.isInfix.trans (hNext ▸ c.skipBlanks.isInfix_rest))
  have hProbe' : accept "--" (c.inText t) = carry (inText t) (accept "--" c) :=
    accept_carry (agrees_inText hRebroken hText) rfl
  rw [hProbe] at hProbe'
  rw [statement?_of_no_hyphens hProbe, statement?_of_no_hyphens hProbe']
  exact composed_directive?.rebroken hRebroken (by rw [text_skipBlanks, hText])

end Grammar

end SchemaScript
