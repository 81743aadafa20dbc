import SchemaScript.Proofs.Cursor.FreeText
import SchemaScript.Proofs.Text.Clean

/-!
# What is read of a text

`Reads r ahead x left` says that a reader takes `x` from a text that lies ahead and leaves another
text, whatever was read before. Readers are put together along the text that they leave
(`Reads.bind`), so that what a sequence reads of a written statement is found piece by piece.

The texts ahead are given in full, with everything behind the piece that is read, since a name and a
delimiter are found by what stands behind them.
-/

namespace SchemaScript

open Text

/-- Whether a reader takes something from a text ahead and leaves another text. -/
def Reads {α : Type} (r : Reader α) (ahead : Text) (x : α) (left : Text) : Prop :=
  ∀ seen, ∃ seen', r ⟨seen, ahead⟩ = .ok x ⟨seen', left⟩

namespace Reads

open Reader

variable {α β : Type} {r : Reader α} {f : α → Reader β} {ahead between left : Text} {x : α}

/-- What reads nothing leaves the text. -/
theorem pure (x : α) (t : Text) : Reads (Pure.pure x : Reader α) t x t := by
  intro seen
  exact ⟨seen, rfl⟩

/-- What the first part leaves is what the next part reads. -/
theorem bind {y : β} (hFirst : Reads r ahead x between) (hThen : Reads (f x) between y left) :
    Reads (r >>= f) ahead y left := by
  intro seen
  obtain ⟨seen', hRead⟩ := hFirst seen
  obtain ⟨seen'', hRead'⟩ := hThen seen'
  exact ⟨seen'', by rw [bind_of_ok hRead, hRead']⟩

/-- What is made of the answer does not change what is read. -/
theorem map (hRead : Reads r ahead x left) (g : α → β) :
    Reads (r >>= fun x => Pure.pure (g x)) ahead (g x) left :=
  hRead.bind (.pure (g x) left)

/-- A reader that does not look at blanks reads the same behind them. -/
theorem of_skipBlanks (hSkips : ∀ c : Cursor, r c = r c.skipBlanks)
    (hRead : Reads r (ahead.dropWhile isBlank) x left) : Reads r ahead x left := by
  intro seen
  rw [hSkips]
  have hRest := Cursor.rest_skipBlanks ⟨seen, ahead⟩
  obtain ⟨seen', hRead'⟩ := hRead (Cursor.skipBlanks ⟨seen, ahead⟩).seen
  rw [← hRest] at hRead'
  exact ⟨seen', hRead'⟩

/-- Such a reader reads the same behind a space, if the text has no blank before it. -/
theorem behind_space (hSkips : ∀ c : Cursor, r c = r c.skipBlanks)
    (hFirst : ∀ c ∈ ahead.head?, isBlank c = false) (hRead : Reads r ahead x left) :
    Reads r (' ' :: ahead) x left := by
  refine of_skipBlanks hSkips ?_
  rwa [List.dropWhile_cons_of_pos (by decide), dropWhile_of_head? hFirst]

end Reads

theorem Reader.bind_skipBlanks {α β : Type} {r : Reader α}
    (hSkips : ∀ c : Cursor, r c = r c.skipBlanks) (f : α → Reader β) (c : Cursor) :
    (r >>= f) c = (r >>= f) c.skipBlanks := by
  simp only [bind, EStateM.bind, hSkips c]

/-! ## Names that can be written -/

/-- Whether a text is one word. -/
def Text.IsName (t : Text) : Prop := t ≠ [] ∧ ∀ c ∈ t, isWord c = true

/-- Whether the parts of a name are words, so that it can be written and read again. -/
structure QualifiedName.Proper (q : QualifiedName) : Prop where
  name : IsName q.name
  scope : ∀ t ∈ q.scope, IsName t

/-- Whether a text goes on with the name that ends before it: with a point and a word, and maybe
blanks before each of them. -/
def Text.GoesOn (t : Text) : Prop :=
  ∃ before between behind : Text, t = before ++ '.' :: (between ++ behind) ∧
    (∀ c ∈ before, isBlank c = true) ∧ (∀ c ∈ between, isBlank c = true) ∧
    startsWord behind = true

instance (t : Text) : Decidable (IsName t) :=
  decidable_of_iff (t ≠ [] ∧ t.all isWord = true) (by rw [IsName, List.all_eq_true])

instance (q : QualifiedName) : Decidable q.Proper :=
  decidable_of_iff (IsName q.name ∧ ∀ t ∈ q.scope, IsName t)
    ⟨fun h => ⟨h.1, h.2⟩, fun h => ⟨h.name, h.scope⟩⟩

/-- A word at the start of a text, and what stands behind it. -/
theorem Text.word_append_dropWhile (t : Text) : word t ++ t.dropWhile isWord = t :=
  List.takeWhile_append_dropWhile

/-- Behind a whole word no word goes on. -/
theorem Text.startsWord_dropWhile_isWord (t : Text) : startsWord (t.dropWhile isWord) = false := by
  cases hRest : t.dropWhile isWord with
  | nil => rfl
  | cons x rest =>
    have hHead := List.head_dropWhile_not isWord (l := t) (by simp [hRest])
    show isWord x = false
    simpa [hRest] using hHead

theorem Text.isName_word {t : Text} (hSome : word t ≠ []) : IsName (word t) :=
  ⟨hSome, fun _ hMem => isWord_of_mem_word hMem⟩

/-- A scope that has characters is written before the name, with a point. -/
theorem QualifiedName.render_of_scope {name scope : Text} (hScope : scope ≠ []) :
    QualifiedName.render ⟨name, some scope⟩ = scope ++ '.' :: name := by
  obtain ⟨c, t, rfl⟩ := List.exists_cons_of_ne_nil hScope
  simp [QualifiedName.render]

/-- No word character is a blank. -/
theorem Text.isBlank_eq_false_of_isWord {c : Char} (hWord : isWord c = true) :
    isBlank c = false := by
  rw [← Bool.not_eq_true]
  intro hBlank
  rw [isWord_eq_false_of_isBlank hBlank] at hWord
  cases hWord

theorem Text.IsName.isBlank_eq_false {t : Text} (hName : IsName t) :
    ∀ c ∈ t, isBlank c = false :=
  fun c hMem => isBlank_eq_false_of_isWord (hName.2 c hMem)

/-- A name does not hold a mark. -/
theorem Text.IsName.not_mem {t : Text} {x : Char} (hName : IsName t) (hMark : isWord x = false) :
    x ∉ t := by
  intro hMem
  rw [hName.2 x hMem] at hMark
  cases hMark

/-- A word is a proper name without a scope. -/
theorem Text.IsName.proper {t : Text} (hName : IsName t) : QualifiedName.Proper ⟨t, none⟩ :=
  ⟨hName, by simp⟩

/-- A name is the whole word that stands next if no word character follows it. -/
theorem Text.IsName.word_append {t left : Text} (hName : IsName t)
    (hEnd : startsWord left = false) : word (t ++ left) = t := by
  have hNone : left.takeWhile isWord = [] := word_eq_nil_iff.mpr hEnd
  unfold word
  rw [List.takeWhile_append_of_pos hName.2, hNone, List.append_nil]

/-- A text that starts with a name starts with no blank. -/
theorem Text.IsName.first {t : Text} (hName : IsName t) (left : Text) :
    ∀ c ∈ (t ++ left).head?, isBlank c = false := by
  intro c hHead
  rw [List.head?_append_of_ne_nil _ hName.1] at hHead
  exact hName.isBlank_eq_false c (List.mem_of_mem_head? hHead)

/-- No mark stands next where a name does. -/
theorem Text.IsName.head?_dropWhile_ne {t : Text} {x : Char} (hName : IsName t)
    (hMark : isWord x = false) (left : Text) :
    ((t ++ left).dropWhile isBlank).head? ≠ some x := by
  rw [dropWhile_of_head? (hName.first left), List.head?_append_of_ne_nil _ hName.1]
  exact fun hHead => hName.not_mem hMark (List.mem_of_mem_head? hHead)

/-- No blanks stand before a name. -/
theorem Text.IsName.skipBlanks {t : Text} (hName : IsName t) (seen left : Text) :
    (Cursor.mk seen (t ++ left)).skipBlanks = ⟨seen, t ++ left⟩ := by
  obtain ⟨c, t, rfl⟩ := List.exists_cons_of_ne_nil hName.1
  exact Cursor.skipBlanks_of_nonblank rfl (hName.isBlank_eq_false c (List.mem_cons_self ..))

/-- A proper name is written without blanks. -/
theorem QualifiedName.Proper.nonblank_render {q : QualifiedName} (hProper : q.Proper) :
    ∀ c ∈ q.render, isBlank c = false := by
  intro c hMem
  obtain ⟨name, scope⟩ := q
  cases scope with
  | none => exact hProper.name.isBlank_eq_false c hMem
  | some first =>
    have hFirst : IsName first := hProper.scope first rfl
    rw [QualifiedName.render_of_scope hFirst.1, List.mem_append, List.mem_cons] at hMem
    rcases hMem with hScope | rfl | hName
    · exact hFirst.isBlank_eq_false c hScope
    · decide
    · exact hProper.name.isBlank_eq_false c hName

/-- A proper name is written with some characters. -/
theorem QualifiedName.Proper.render_ne_nil {q : QualifiedName} (hProper : q.Proper) :
    q.render ≠ [] := by
  obtain ⟨name, scope⟩ := q
  cases scope with
  | none => exact hProper.name.1
  | some first =>
    rw [QualifiedName.render_of_scope (hProper.scope first rfl).1]
    simp

/-- A proper name starts with a word character, be it of its scope. -/
theorem QualifiedName.Proper.render_starts {q : QualifiedName} (hProper : q.Proper) :
    ∃ c t, q.render = c :: t ∧ isWord c = true := by
  obtain ⟨name, scope⟩ := q
  cases scope with
  | none =>
    obtain ⟨c, t, rfl⟩ := List.exists_cons_of_ne_nil hProper.name.1
    exact ⟨c, t, rfl, hProper.name.2 c (List.mem_cons_self ..)⟩
  | some first =>
    have hFirst : IsName first := hProper.scope first rfl
    obtain ⟨c, t, rfl⟩ := List.exists_cons_of_ne_nil hFirst.1
    exact ⟨c, _, QualifiedName.render_of_scope hFirst.1, hFirst.2 c (List.mem_cons_self ..)⟩

namespace Reader

variable {literal ahead left : Text}

/-! ## Literals -/

/-- A literal that stands behind the blanks is taken. -/
theorem reads_accept (hNext : ahead.dropWhile isBlank = literal ++ left) :
    Reads (accept literal) ahead true left := by
  intro seen
  have hRest := Cursor.rest_skipBlanks ⟨seen, ahead⟩
  rw [hNext] at hRest
  refine ⟨literal.reverse ++ (Cursor.skipBlanks ⟨seen, ahead⟩).seen, ?_⟩
  rw [accept_apply, hRest, if_pos (List.isPrefixOf_iff_prefix.mpr (List.prefix_append ..)),
    Cursor.advance_of_append hRest]

/-- A literal that does not stand there is missed; the blanks before it are passed. -/
theorem reads_accept_false (hNext : literal.isPrefixOf (ahead.dropWhile isBlank) = false) :
    Reads (accept literal) ahead false (ahead.dropWhile isBlank) := by
  intro seen
  have hRest := Cursor.rest_skipBlanks ⟨seen, ahead⟩
  refine ⟨(Cursor.skipBlanks ⟨seen, ahead⟩).seen, ?_⟩
  -- the cursor stays behind the blanks
  rw [accept_apply, hRest, hNext, ← hRest]
  rfl

/-- A literal that is asked for and stands behind the blanks is taken. The answer is the literal
without the blanks around it. -/
theorem reads_expect (hNext : ahead.dropWhile isBlank = literal ++ left) :
    Reads (expect literal) ahead (strip literal) left := by
  intro seen
  have hRest := Cursor.rest_skipBlanks ⟨seen, ahead⟩
  rw [hNext] at hRest
  refine ⟨literal.reverse ++ (Cursor.skipBlanks ⟨seen, ahead⟩).seen, ?_⟩
  rw [expect_apply, hRest, if_pos (List.isPrefixOf_iff_prefix.mpr (List.prefix_append ..)),
    Cursor.advance_of_append hRest]

/-! ## Free text -/

/-- Free text is read up to the first delimiter, which is passed. -/
theorem reads_takeUntil {delimiter : Char} {found : Text} (hBreak : delimiter ≠ '\n')
    (hFirst : delimiter ∉ found) :
    Reads (takeUntil [delimiter] true) (found ++ delimiter :: left) (trim found) left := by
  intro seen
  have hRest : (Cursor.mk seen (found ++ delimiter :: left)).rest = found ++ delimiter :: left :=
    rfl
  refine ⟨delimiter :: found.reverse ++ seen, ?_⟩
  rw [takeUntil_apply, Cursor.takeUntil?_of_eq hBreak hFirst hRest true]
  dsimp only
  rw [if_pos rfl, Cursor.advance_of_eq hRest]

/-- A delimiter that is not passed stands next. -/
theorem reads_takeUntil_before {delimiter : Char} {found : Text} (hBreak : delimiter ≠ '\n')
    (hFirst : delimiter ∉ found) :
    Reads (takeUntil [delimiter] false) (found ++ delimiter :: left) (trim found)
      (delimiter :: left) := by
  intro seen
  have hRest : (Cursor.mk seen (found ++ delimiter :: left)).rest = found ++ delimiter :: left :=
    rfl
  refine ⟨found.reverse ++ seen, ?_⟩
  rw [takeUntil_apply, Cursor.takeUntil?_of_eq hBreak hFirst hRest false]
  -- the delimiter is still ahead
  exact congrArg (EStateM.Result.ok _) (Cursor.advance_of_append hRest)

/-- The rest of a line ends before the line feed, or with the text. -/
theorem reads_line {found : Text} (hFirst : '\n' ∉ found)
    (hEnd : left = [] ∨ left.head? = some '\n') :
    Reads (take (Cursor.takeUntilOrRest "\n" false)) (found ++ left) (trim found) left := by
  intro seen
  have hRest : (Cursor.mk seen (found ++ left)).rest = found ++ left := rfl
  refine ⟨found.reverse ++ seen, ?_⟩
  rw [take, Cursor.takeUntilOrRest_line hFirst hEnd hRest]

/-- Parameters are read up to the semicolon if what stands there can be decoded. -/
theorem reads_parameters {rules : Parameters.Rules} {found : Text} {p : Parameters}
    (hTerminator : rules.terminator = ";") (hFirst : ';' ∉ found)
    (hDecode : Parameters.decode rules (trim found) = .ok p) :
    Reads (parameters rules) (found ++ ';' :: left) p left := by
  unfold parameters
  rw [hTerminator]
  refine (reads_takeUntil (by decide) hFirst).bind ?_
  rw [hDecode]
  exact .pure p left

/-! ## Names -/

/-- A name is read if no word character follows it. -/
theorem reads_identifier {found : Text} (hName : IsName found) (hEnd : startsWord left = false) :
    Reads identifier (found ++ left) found left := by
  intro seen
  have hSkip := hName.skipBlanks seen left
  have hRest : (Cursor.mk seen (found ++ left)).rest = found ++ left := rfl
  refine ⟨found.reverse ++ seen, ?_⟩
  rw [identifier_apply, hSkip]
  dsimp only
  rw [hName.word_append hEnd, if_neg hName.1, Cursor.advance_of_append hRest]

theorem identifier_skipBlanks (c : Cursor) : identifier c = identifier c.skipBlanks := by
  rw [identifier_apply, identifier_apply, Cursor.skipBlanks_skipBlanks]

theorem qualifiedName_skipBlanks (c : Cursor) : qualifiedName c = qualifiedName c.skipBlanks :=
  bind_skipBlanks identifier_skipBlanks _ c

/-- A number is read if nothing that follows it goes on with it. -/
theorem reads_number {found : Text} (hSome : found ≠ [])
    (hFirst : ∀ c ∈ found.head?, isBlank c = false)
    (hFound : Text.number (found ++ left) = found) :
    Reads Reader.number (found ++ left) found left := by
  intro seen
  obtain ⟨c, t, rfl⟩ := List.exists_cons_of_ne_nil hSome
  -- the number starts with no blank, so none is skipped
  have hSkip : (Cursor.mk seen (c :: t ++ left)).skipBlanks = ⟨seen, c :: t ++ left⟩ :=
    Cursor.skipBlanks_of_nonblank rfl (hFirst c rfl)
  have hRest : (Cursor.mk seen (c :: t ++ left)).rest = c :: t ++ left := rfl
  refine ⟨(c :: t).reverse ++ seen, ?_⟩
  rw [number_apply, hSkip]
  dsimp only
  rw [hFound, if_neg hSome, Cursor.advance_of_append hRest]

/-! ### Names with a scope -/

section

variable {before between first second : Text}

/-- Behind a point a word is found, with blanks passed before both. -/
theorem wordAfterPoint?_of_goesOn (hBefore : ∀ c ∈ before, isBlank c = true)
    (hBetween : ∀ c ∈ between, isBlank c = true) (hSecond : IsName second)
    (hEnd : startsWord left = false) (seen : Text) :
    ∃ seen', wordAfterPoint? ⟨seen, before ++ '.' :: (between ++ (second ++ left))⟩ =
      some (second, ⟨seen', left⟩) := by
  -- the blanks before the point, then those behind it
  have hPoint : (Cursor.mk seen (before ++ '.' :: (between ++ (second ++ left)))).skipBlanks.rest =
      '.' :: (between ++ (second ++ left)) := by
    rw [Cursor.rest_skipBlanks, dropWhile_append_of_forall hBefore,
      List.dropWhile_cons_of_neg (by decide)]
  rw [wordAfterPoint?_apply, hPoint, if_pos (by simp)]
  generalize Cursor.skipBlanks _ = c at hPoint
  have hWord : (c.advance 1).skipBlanks.rest = second ++ left := by
    rw [Cursor.rest_skipBlanks, Cursor.rest_advance, hPoint, List.drop_one, List.tail_cons,
      dropWhile_append_of_forall hBetween, dropWhile_of_head? (hSecond.first left)]
  rw [hWord, hSecond.word_append hEnd, if_neg hSecond.1, Cursor.advance_of_append hWord]
  exact ⟨_, rfl⟩

/-- Without a point and a word nothing is found behind a first word. -/
theorem wordAfterPoint?_eq_none {t : Text} (hEnds : ¬ GoesOn t) (seen : Text) :
    wordAfterPoint? ⟨seen, t⟩ = none := by
  rw [wordAfterPoint?_apply]
  split
  · next hPoint =>
    obtain ⟨behind, hRest⟩ := List.isPrefixOf_iff_prefix.mp hPoint
    rw [List.singleton_append, Cursor.rest_skipBlanks] at hRest
    have hNext : (((Cursor.mk seen t).skipBlanks.advance 1).skipBlanks.rest) =
        behind.dropWhile isBlank := by
      rw [Cursor.rest_skipBlanks, Cursor.rest_advance, Cursor.rest_skipBlanks, ← hRest]
      rfl
    rw [hNext, if_pos]
    -- a word here would go on with the name
    rw [word_eq_nil_iff, ← Bool.not_eq_true]
    intro hStarts
    refine hEnds ⟨t.takeWhile isBlank, behind.takeWhile isBlank, behind.dropWhile isBlank, ?_,
      fun c hMem => List.all_eq_true.mp List.all_takeWhile c hMem,
      fun c hMem => List.all_eq_true.mp List.all_takeWhile c hMem, hStarts⟩
    rw [List.takeWhile_append_dropWhile, hRest, List.takeWhile_append_dropWhile]
  · rfl

/-- A name with a scope is read whatever the blanks around its point. -/
theorem reads_qualifiedName_scoped (hFirst : IsName first)
    (hBefore : ∀ c ∈ before, isBlank c = true) (hBetween : ∀ c ∈ between, isBlank c = true)
    (hSecond : IsName second) (hEnd : startsWord left = false) :
    Reads qualifiedName (first ++ (before ++ '.' :: (between ++ (second ++ left))))
      ⟨second, some first⟩ left := by
  intro seen
  -- what follows the first word is a blank or the point, so the word ends there
  have hBehind : startsWord (before ++ '.' :: (between ++ (second ++ left))) = false := by
    cases before with
    | nil =>
      show isWord '.' = false
      decide
    | cons x before =>
      show isWord x = false
      exact isWord_eq_false_of_isBlank (hBefore x (List.mem_cons_self ..))
  obtain ⟨seen', hRead⟩ := reads_identifier hFirst hBehind seen
  obtain ⟨seen'', hMore⟩ := wordAfterPoint?_of_goesOn hBefore hBetween hSecond hEnd seen'
  exact ⟨seen'', by rw [qualifiedName_of_ok hRead, hMore]⟩

/-- A word alone is read if what stands behind it does not go on with it. -/
theorem reads_qualifiedName_bare (hFirst : IsName first) (hEnd : startsWord left = false)
    (hEnds : ¬ GoesOn left) : Reads qualifiedName (first ++ left) ⟨first, none⟩ left := by
  intro seen
  obtain ⟨seen', hRead⟩ := reads_identifier hFirst hEnd seen
  exact ⟨seen', by rw [qualifiedName_of_ok hRead, wordAfterPoint?_eq_none hEnds]⟩

end

/-- A written name is read if no word character follows it, and a name without a scope if nothing
goes on with it. -/
theorem reads_qualifiedName_render {q : QualifiedName} (hProper : q.Proper)
    (hEnd : startsWord left = false) (hEnds : q.scope = none → ¬ GoesOn left) :
    Reads qualifiedName (q.render ++ left) q left := by
  obtain ⟨name, scope⟩ := q
  cases scope with
  | none => exact reads_qualifiedName_bare hProper.name hEnd (hEnds rfl)
  | some first =>
    have hFirst : IsName first := hProper.scope first rfl
    -- a written name has no blanks around its point
    have hNone : ∀ c ∈ ([] : Text), isBlank c = true := by simp
    have hRead := reads_qualifiedName_scoped hFirst hNone hNone hProper.name hEnd
    rw [QualifiedName.render_of_scope hFirst.1, List.append_assoc, List.cons_append]
    simpa only [List.nil_append] using hRead

/-- A written name is read if no word character follows it and no point, with or without blanks
before the point. -/
theorem reads_qualifiedName {q : QualifiedName} (hProper : q.Proper)
    (hEnd : startsWord left = false) (hPoint : (left.dropWhile isBlank).head? ≠ some '.') :
    Reads qualifiedName (q.render ++ left) q left := by
  refine reads_qualifiedName_render hProper hEnd fun _ => ?_
  -- behind the blanks of a text that goes on stands a point
  rintro ⟨before, between, behind, rfl, hBefore, -⟩
  rw [dropWhile_append_of_forall hBefore, List.dropWhile_cons_of_neg (by decide)] at hPoint
  exact hPoint rfl

end Reader

end SchemaScript
