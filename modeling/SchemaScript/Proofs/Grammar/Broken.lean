import SchemaScript.Proofs.Cursor.FreeText
import SchemaScript.Proofs.Grammar.Rebroken
import SchemaScript.Proofs.Script.Shift

/-!
# A line feed in the place of one space

A text is `BrokenAt` a place if it is another text with a line feed in the place of the space there.
What is read before the place is read in both texts (`Composed.before`), and so is what is read
behind it (`Composed.behind`).

In between stands the token that the space belongs to, and a token has no line feed. So a keyword of
two words is not found any more where it is broken (`constraintKind_of_broken`,
`attribute?_of_broken`).
-/

namespace SchemaScript

open Text

/-! ## Texts -/

/-- Whether a text is another one with a line feed in the place of one of its spaces. -/
structure Text.BrokenAt (n : Nat) (s t : Text) : Prop where
  space : s[n]? = some ' '
  eq_set : t = s.set n '\n'

/-- A space between two characters that are kept by normalizing and stand in no gap is broken in the
normalized text as well. -/
theorem Text.brokenAt_normalize {x y : Char} (hKept : x ≠ '\r' ∧ y ≠ '\r')
    (hGap : isGap x = false ∧ isGap y = false) (a b : Text) :
    BrokenAt ((normalize a).length + 1) (normalize (a ++ x :: ' ' :: y :: b))
      (normalize (a ++ x :: '\n' :: y :: b)) := by
  -- the character before the space is kept, so the text is normalized up to it by itself
  have hSplit : ∀ t, normalize (a ++ x :: t) = (normalize a ++ [x]) ++ normalize t := fun t => by
    rw [normalize_append_cons hKept.1 hGap.1, List.append_assoc, List.singleton_append]
  have hSpace : normalize (' ' :: y :: b) = ' ' :: normalize (y :: b) := by
    have hFirst := normalize_append_cons hKept.2 hGap.2 [' '] b
    have hSecond := normalize_append_cons hKept.2 hGap.2 [] b
    rw [List.nil_append, normalize_nil, List.nil_append] at hSecond
    rw [hSecond]
    exact hFirst
  have hBreak : normalize ('\n' :: y :: b) = '\n' :: normalize (y :: b) :=
    normalize_append_cons (by decide) (by decide) [] (y :: b)
  have hLength : (normalize a).length + 1 = (normalize a ++ [x]).length := by simp
  rw [hSplit, hSplit, hSpace, hBreak, hLength]
  constructor
  · rw [List.getElem?_append_right (Nat.le_refl _), Nat.sub_self]
    rfl
  · rw [List.set_append_right _ _ (Nat.le_refl _), Nat.sub_self]
    rfl

namespace Text.BrokenAt

variable {n m : Nat} {s t literal : Text} (hBroken : BrokenAt n s t)
include hBroken

/-- The two texts differ in line breaks only. -/
theorem same : s.map unbreak = t.map unbreak := by
  have hSpace : (s.map unbreak)[n]? = some ' ' := by
    rw [List.getElem?_map, hBroken.space]
    rfl
  -- in the one text the space is there, and taking breaks away puts one into the other
  have hHere : (s.map unbreak).set n ' ' = s.map unbreak := by
    obtain ⟨hWithin, hChar⟩ := List.getElem?_eq_some_iff.mp hSpace
    rw [← hChar, List.set_getElem_self]
  have hBreak : unbreak '\n' = ' ' := rfl
  rw [hBroken.eq_set, List.map_set, hBreak, hHere]

/-- They have the same length. -/
theorem length_eq : t.length = s.length := by
  rw [hBroken.eq_set, List.length_set]

/-- At the place stands the line feed. -/
theorem getElem? : t[n]? = some '\n' := by
  obtain ⟨hWithin, -⟩ := List.getElem?_eq_some_iff.mp hBroken.space
  rw [hBroken.eq_set, List.getElem?_set_self hWithin]

/-- Behind the break the texts are the same. -/
theorem drop_eq (hBehind : n < m) : t.drop m = s.drop m := by
  rw [hBroken.eq_set, List.drop_set_of_lt hBehind]

/-- Before the break the texts are the same. -/
theorem prefix_iff_before (hBefore : m + literal.length ≤ n) :
    literal <+: t.drop m ↔ literal <+: s.drop m := by
  rw [List.prefix_iff_eq_take, List.prefix_iff_eq_take, List.take_drop, List.take_drop,
    hBroken.eq_set, List.take_set_of_le hBefore]

/-- A literal without a line feed stands where it stood, unless the break is in it. -/
theorem prefix_iff (hBreak : '\n' ∉ literal) :
    literal <+: t.drop m ↔
      literal <+: s.drop m ∧ (m + literal.length ≤ n ∨ n < m) := by
  by_cases hBefore : m + literal.length ≤ n
  · rw [hBroken.prefix_iff_before hBefore]
    simp [hBefore]
  by_cases hBehind : n < m
  · rw [hBroken.drop_eq hBehind]
    simp [hBehind]
  -- the line feed would be in the literal
  have hNone : ¬ literal <+: t.drop m := by
    rintro ⟨behind, hText⟩
    have hPlace : t[n]? = (literal ++ behind)[n - m]? := by
      rw [hText, List.getElem?_drop]
      congr 1
      omega
    rw [hBroken.getElem?, List.getElem?_append_left (by omega)] at hPlace
    exact hBreak (List.mem_of_getElem? hPlace.symm)
  simp [hNone, hBefore, hBehind]

end Text.BrokenAt

/-! ## Cursors -/

namespace Cursor

variable {n : Nat} {s t found : Text} {c d : Cursor}

/-- A cursor is known by its text and its position. -/
theorem inText_text (c : Cursor) : c.inText c.text = c := by
  have hSeen : c.text.take c.pos = c.seen.reverse := by
    unfold text pos
    rw [← List.length_reverse, List.take_left]
  unfold inText
  rw [hSeen, drop_pos_text, List.reverse_reverse]

section

variable (hBroken : BrokenAt n s t) (hText : c.text = s)
include hBroken hText

/-- A literal that ends before the break stands ahead in both texts or in neither. -/
theorem prefix_rest_iff_before (hBefore : c.pos + found.length ≤ n) :
    found <+: (c.inText t).rest ↔ found <+: c.rest := by
  rw [rest_inText, hBroken.prefix_iff_before hBefore, ← hText, drop_pos_text]

/-- A literal without a line feed stands ahead where it stood, unless the break is in it. -/
theorem prefix_rest_iff (hBreak : '\n' ∉ found) :
    found <+: (c.inText t).rest ↔
      found <+: c.rest ∧ (c.pos + found.length ≤ n ∨ n < c.pos) := by
  rw [rest_inText, hBroken.prefix_iff hBreak, ← hText, drop_pos_text]

/-- Behind the break the same lies ahead. -/
theorem rest_inText_of_lt (hBehind : n < c.pos) : (c.inText t).rest = c.rest := by
  rw [rest_inText, hBroken.drop_eq hBehind, ← hText, drop_pos_text]

/-- What stands before a character that is no space, and before the break, is the same in both
texts, and so is the character. -/
theorem exists_rest_inText {x : Char} {behind : Text} (hRest : c.rest = found ++ x :: behind)
    (hSpace : x ≠ ' ') (hBefore : c.pos + found.length ≤ n) :
    ∃ behind', (c.inText t).rest = found ++ x :: behind' := by
  -- the character does not stand at the break
  have hPlace : c.pos + found.length ≠ n := by
    intro hHere
    have hChar : s[n]? = some x := by
      rw [← hText, ← hHere, ← List.getElem?_drop, drop_pos_text, hRest]
      simp
    rw [hBroken.space] at hChar
    exact hSpace (Option.some.inj hChar).symm
  have hPrefix : found ++ [x] <+: c.rest := ⟨behind, by rw [hRest, List.append_assoc]; rfl⟩
  obtain ⟨behind', hRest'⟩ := (prefix_rest_iff_before hBroken hText (by simp; omega)).mpr hPrefix
  exact ⟨behind', by rw [← hRest', List.append_assoc]; rfl⟩

/-- Free text that ends before the break is the same in both texts. -/
theorem takeUntil?_before {x : Char} {inclusive : Bool} (hBreak : x ≠ '\n') (hSpace : x ≠ ' ')
    (hFound : c.takeUntil? [x] inclusive = some (found, d)) (hBefore : d.pos ≤ n) :
    (c.inText t).takeUntil? [x] inclusive = some (found, d.inText t) := by
  have hMem : x ∈ c.rest := by
    by_contra hNone
    rw [takeUntil?_eq_none_iff.mpr hNone] at hFound
    cases hFound
  obtain ⟨before, behind, hFirst, hRest, hTake⟩ := exists_takeUntil?_of_mem hBreak hMem inclusive
  rw [hFound] at hTake
  cases hTake
  -- the delimiter lies within the text, and with it what was passed
  have hWithin : before.length + (if inclusive then 1 else 0) ≤ c.rest.length := by
    rw [hRest, List.length_append, List.length_cons]
    split <;> omega
  rw [pos_advance, Nat.min_eq_left hWithin] at hBefore
  have hEnd : c.pos + before.length ≤ n := by omega
  obtain ⟨behind', hRest'⟩ := exists_rest_inText hBroken hText hRest hSpace hEnd
  rw [takeUntil?_of_eq hBreak hFirst hRest', advance_inText t hWithin]

end

end Cursor

/-! ## Before the break -/

namespace Grammar

open Reader Cursor

variable {α β : Type} {n : Nat} {s t : Text} {c d : Cursor} {r : Reader α}

/-- Whether a reader takes the same in both texts if it ends before the break. -/
def ReadsBefore (n : Nat) (s t : Text) (r : Reader α) : Prop :=
  ∀ c x d, c.text = s → r c = .ok x d → d.pos ≤ n → r (c.inText t) = .ok x (d.inText t)

/-- A reader that takes the same everywhere does so before the break. -/
theorem ReadsBefore.of_carry
    (hCarry : ∀ c : Cursor, c.text = s → r (c.inText t) = carry (inText t) (r c)) :
    ReadsBefore n s t r := by
  intro c x d hText hRead _
  rw [hCarry c hText, hRead]
  rfl

/-- A sequence that ends before the break has its first part before it. -/
theorem ReadsBefore.bind {f : α → Reader β} (hReach : ∀ c : Cursor, c.Reaches (stop r c))
    (hReach' : ∀ x (c : Cursor), c.Reaches (stop (f x) c)) (hFirst : ReadsBefore n s t r)
    (hThen : ∀ x, ReadsBefore n s t (f x)) : ReadsBefore n s t (r >>= f) := by
  intro c y d hText hRead hBefore
  obtain ⟨x, m, hRead, hLater⟩ := bind_eq_ok_iff.mp hRead
  have hHere := hReach c
  have hEnd := hReach' x m
  rw [stop_of_ok hRead] at hHere
  rw [stop_of_ok hLater] at hEnd
  -- the first part ends where the second one starts, which is before its end
  rw [bind_of_ok (hFirst c x m hText hRead (hEnd.pos_le.trans hBefore))]
  exact hThen x m y d (hHere.text_eq.trans hText) hLater hBefore

section

variable (hBroken : BrokenAt n s t)
include hBroken

/-- A literal is found before the break, or it is missed; and what is missed is not put there by a
line feed. -/
theorem readsBefore_accept {literal : Text} (hToken : isToken literal = true) :
    ReadsBefore n s t (accept literal) := by
  intro c found d hText hRead hBefore
  have hNext : c.skipBlanks.text = s := c.text_skipBlanks.trans hText
  rw [accept_apply] at hRead ⊢
  rw [skipBlanks_inText hBroken.same hText]
  -- a literal that is found ends before the break; the line feed puts no other one there
  split at hRead
  · next hHere =>
    rw [List.isPrefixOf_iff_prefix] at hHere
    have hWithin := hHere.length_le
    cases hRead
    rw [pos_advance, Nat.min_eq_left hWithin] at hBefore
    rw [← prefix_rest_iff_before hBroken hNext hBefore, ← List.isPrefixOf_iff_prefix] at hHere
    rw [if_pos hHere, advance_inText t hWithin]
  · next hMissed =>
    cases hRead
    rw [List.isPrefixOf_iff_prefix] at hMissed
    rw [if_neg]
    rw [List.isPrefixOf_iff_prefix, prefix_rest_iff hBroken hNext (not_mem_of_isToken hToken)]
    exact fun hHere => hMissed hHere.1

/-- A literal that is asked for is one that is probed for, and a mismatch if it is missed. -/
theorem readsBefore_expect {literal : Text} (hToken : isToken literal = true) :
    ReadsBefore n s t (expect literal) := by
  have hThen : ∀ found : Bool, Composed Rulebook.standard
      (if found then pure (strip literal) else Reader.fail (.literal literal)) :=
    fun _ => .ite (.pure _) (.fail rfl)
  have hFirst : Composed Rulebook.standard (Reader.accept literal) := .accept hToken
  refine .bind hFirst.reaches (fun found => (hThen found).reaches)
    (readsBefore_accept hBroken hToken) fun found => .of_carry fun _ _ => ?_
  cases found <;> rfl

/-- A keyword before the break is found, also if the break is what ends it. -/
theorem readsBefore_keyword {word : Text} (hToken : isToken word = true) :
    ReadsBefore n s t (keyword word) := by
  intro c found d hText hRead hBefore
  have hNext : c.skipBlanks.text = s := c.text_skipBlanks.trans hText
  -- what stands behind the word may be the break, which ends a keyword like the space
  have hSame : (c.skipBlanks.inText t).rest[word.length]?.map unbreak =
      c.skipBlanks.rest[word.length]?.map unbreak := by
    rw [← List.getElem?_map, ← List.getElem?_map, same_rest hBroken.same hNext]
  have hAhead : keywordAhead word (c.skipBlanks.inText t).rest = true ↔
      keywordAhead word c.skipBlanks.rest = true ∧
        (c.skipBlanks.pos + word.length ≤ n ∨ n < c.skipBlanks.pos) := by
    rw [keywordAhead_iff, keywordAhead_iff, hSame,
      prefix_rest_iff hBroken hNext (not_mem_of_isToken hToken), and_right_comm]
  unfold keywordAhead at hAhead
  rw [keyword_apply] at hRead ⊢
  rw [skipBlanks_inText hBroken.same hText]
  split at hRead
  · next hHere =>
    have hWithin : word.length + 1 ≤ c.skipBlanks.rest.length := by
      rcases Bool.or_eq_true_iff.mp hHere with hSpace | hBreak
      · simpa using (List.isPrefixOf_iff_prefix.mp hSpace).length_le
      · simpa using (List.isPrefixOf_iff_prefix.mp hBreak).length_le
    cases hRead
    rw [pos_advance, Nat.min_eq_left hWithin] at hBefore
    rw [if_pos (hAhead.mpr ⟨hHere, Or.inl (by omega)⟩), advance_inText t hWithin]
  · next hMissed =>
    cases hRead
    rw [if_neg fun hHere => hMissed (hAhead.mp hHere).1]

/-- Free text whose delimiter stands before the break ends there. -/
theorem readsBefore_takeUntil {x : Char} (inclusive : Bool) (hBlank : isBlank x = false) :
    ReadsBefore n s t (takeUntil [x] inclusive) := by
  intro c found d hText hRead hBefore
  rw [takeUntil_apply] at hRead ⊢
  have hOther : x ≠ '\n' ∧ x ≠ ' ' := by
    constructor
    · rintro rfl
      cases hBlank
    · rintro rfl
      cases hBlank
  cases hFound : c.takeUntil? [x] inclusive with
  | none =>
    rw [hFound] at hRead
    cases hRead
  | some piece =>
    obtain ⟨written, next⟩ := piece
    rw [hFound] at hRead
    cases hRead
    rw [takeUntil?_before hBroken hText hOther.1 hOther.2 hFound hBefore]

/-- Parameters whose terminator stands before the break are read alike. -/
theorem readsBefore_parameters (construct : Construct) :
    ReadsBefore n s t (Reader.parameters (Rulebook.standard construct)) := by
  have hTake : ReadsBefore n s t (takeUntil (Rulebook.standard construct).terminator true) := by
    rw [Rulebook.standard_terminator]
    exact readsBefore_takeUntil hBroken true (by decide)
  unfold Reader.parameters
  -- decoding does not touch the cursor
  refine .bind (reaches_stop_takeUntil _ _) (fun written c => ?_) hTake fun written =>
    .of_carry fun c _ => ?_
  · cases hDecode : Parameters.decode (Rulebook.standard construct) written <;> exact .refl c
  · cases Parameters.decode (Rulebook.standard construct) written <;> rfl

/-- A repetition that ends before the break has all its items before it. -/
theorem readsBefore_many {item : Reader (Option α)} (hItem : Composed Rulebook.standard item)
    (hBefore : ReadsBefore n s t item) : ReadsBefore n s t (many item) := by
  intro c
  induction c using many_induction item with
  | again c ih =>
    intro xs d hText hRead hEnd
    cases hFirst : item c with
    | error e m =>
      rw [many_of_error hFirst] at hRead
      cases hRead
    | ok found m =>
      have hNext : m.text = s := by rw [(hItem.reaches_of_ok hFirst).text_eq, hText]
      have hLength := length_rest_inText hBroken.same hText
      have hLength' := length_rest_inText hBroken.same hNext
      cases found with
      | none =>
        rw [many_of_none hFirst] at hRead
        cases hRead
        exact many_of_none (hBefore c none d hText hFirst hEnd)
      | some x =>
        -- an item moves the cursor in the one text exactly if it does in the other one
        by_cases hMoved : m.rest.length < c.rest.length
        · rw [many_of_some hFirst hMoved, map_eq_ok_iff] at hRead
          obtain ⟨later, hLater, rfl⟩ := hRead
          have hReach := (Composed.many hItem).reaches_of_ok hLater
          have hFirst' := hBefore c (some x) m hText hFirst (hReach.pos_le.trans hEnd)
          rw [many_of_some hFirst' (by omega),
            bind_of_ok (ih x m hFirst hMoved later d hNext hLater hEnd)]
          rfl
        · rw [many_of_stuck hFirst hMoved] at hRead
          cases hRead
          exact many_of_stuck (hBefore c (some x) d hText hFirst hEnd) (by omega)

/-- **What is read before the break is read in both texts.** -/
theorem Composed.before (hComposed : Composed Rulebook.standard r) : ReadsBefore n s t r := by
  -- names and numbers hold no blanks, so they need no condition on the place
  induction hComposed with
  | pure x => exact .of_carry fun _ _ => rfl
  | bind hFirst hThen ihFirst ihThen =>
    exact .bind hFirst.reaches (fun x => (hThen x).reaches) ihFirst ihThen
  | fail _ => exact .of_carry fun _ _ => rfl
  | accept hToken => exact readsBefore_accept hBroken hToken
  | expect hToken => exact readsBefore_expect hBroken hToken
  | keyword hToken => exact readsBefore_keyword hBroken hToken
  | takeUntil inclusive hDelimiter =>
    have hAll : (delimiters.all fun x => !isBlank x) = true := by decide
    have hBlank := nonblank_of_all hAll _ (List.contains_iff_mem.mp hDelimiter)
    exact readsBefore_takeUntil hBroken inclusive hBlank
  | parameters construct => exact readsBefore_parameters hBroken construct
  | identifier =>
    exact .of_carry fun c hText => identifier_carry (agreesOnNames_inText hBroken.same hText)
  | number => exact .of_carry fun c hText => number_carry (agreesOnNames_inText hBroken.same hText)
  | qualifiedName => exact .of_carry fun c hText => qualifiedName_inText hBroken.same hText
  | qualifiedName? => exact .of_carry fun c hText => qualifiedName?_inText hBroken.same hText
  | many hItem ih => exact readsBefore_many hBroken hItem ih

end

/-! ## Behind the break -/

/-- Behind the break a place of the one text is the same place of the other, once the text before is
exchanged. -/
theorem shift_inText (hBroken : BrokenAt n s t) (hText : c.text = s) (hBehind : n < c.pos)
    (hPlace : d.text = c.rest) :
    d.shift (t.take c.pos) = (d.shift c.seen.reverse).inText t := by
  have hPos : (d.shift c.seen.reverse).pos = d.pos + (t.take c.pos).length := by
    have hWithin := c.pos_le_length
    rw [hText, ← hBroken.length_eq] at hWithin
    rw [pos_shift, List.length_reverse, List.length_take_of_le hWithin]
    rfl
  -- what is before the place is from the broken text, and what is ahead is the same in both
  have hWhole : (d.shift (t.take c.pos)).text = t := by
    have hSplit : (d.shift (t.take c.pos)).text = t.take c.pos ++ d.text := by
      simp [Cursor.shift, Cursor.text]
    rw [hSplit, hPlace, ← rest_inText_of_lt hBroken hText hBehind, rest_inText,
      List.take_append_drop]
  rw [← inText_text (d.shift (t.take c.pos)), hWhole, inText, inText, hPos, pos_shift]

/-- A reader that does not look back reads the same behind the break. -/
theorem behind_of_shift (hBroken : BrokenAt n s t)
    (hShift : ∀ before (c : Cursor), r (c.shift before) = carry (shift before) (r c))
    (hReach : ∀ c : Cursor, c.Reaches (stop r c)) (hText : c.text = s) (hBehind : n < c.pos) :
    r (c.inText t) = carry (inText t) (r c) := by
  -- the cursor at the start of what is ahead in both texts
  obtain ⟨start, hStart⟩ : ∃ start : Cursor, start = ⟨[], c.rest⟩ := ⟨_, rfl⟩
  have hHere : c = start.shift c.seen.reverse := by
    rw [hStart]
    simp [Cursor.shift]
  have hThere : c.inText t = start.shift (t.take c.pos) := by
    have hRest := rest_inText_of_lt hBroken hText hBehind
    rw [rest_inText] at hRest
    rw [hStart, inText, hRest]
    rfl
  have hPlace : (stop r start).text = c.rest := by
    rw [(hReach start).text_eq, hStart]
    rfl
  have hSame := shift_inText hBroken hText hBehind hPlace
  have hRead := hShift c.seen.reverse start
  rw [← hHere] at hRead
  rw [hThere, hShift, hRead]
  -- the result is that of the cursor at the start, moved to either text
  cases hResult : r start with
  | ok x d =>
    rw [stop_of_ok hResult] at hSame
    exact congrArg (EStateM.Result.ok x) hSame
  | error e d =>
    rw [stop_of_error hResult] at hSame
    cases e with
    | mismatch m =>
      dsimp only [carry, Mismatch.atCursor]
      rw [hSame]
    | rules e => exact congrArg (EStateM.Result.error _) hSame

/-- **What is read behind the break is read in both texts.** -/
theorem Composed.behind {book : Rulebook} (hBroken : BrokenAt n s t) (hComposed : Composed book r)
    (hText : c.text = s) (hBehind : n < c.pos) : r (c.inText t) = carry (inText t) (r c) :=
  behind_of_shift hBroken hComposed.shift hComposed.reaches hText hBehind

end Grammar

end SchemaScript
