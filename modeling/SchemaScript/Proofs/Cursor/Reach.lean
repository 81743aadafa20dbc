import SchemaScript.Cursor.Basic
import SchemaScript.Proofs.Text.Line

/-!
# Where a cursor gets to

`Reaches` is the order in which a cursor moves: the text stays, and some characters pass from what
is ahead to what was seen. Positions and lengths follow from it by arithmetic
(`Reaches.pos_add_length`). What is passed is a slice of the text (`Reaches.extract`).

A cursor can be carried to another text in two ways. `extend` puts more text behind what is ahead,
and `shift` puts more text before what was seen. Moving forward commutes with `shift` always, and
with `extend` as long as the movement ends in the text that was there before.
-/

namespace SchemaScript.Cursor

/-! ## Moving forward -/

/-- What is ahead of a cursor is the text from its position on. -/
theorem drop_pos_text (c : Cursor) : c.text.drop c.pos = c.rest := by
  unfold text pos
  rw [← List.length_reverse, List.drop_left]

/-- A place of a text is known by what is ahead of it. -/
theorem eq_of_text_eq {c d : Cursor} (hText : c.text = d.text) (hRest : c.rest = d.rest) :
    c = d := by
  obtain ⟨seen, rest⟩ := c
  obtain ⟨seen', rest'⟩ := d
  obtain rfl : rest = rest' := hRest
  -- what is ahead is cut off at the end of the text, so that what was seen is left
  have hSeen : seen.reverse = seen'.reverse := List.append_cancel_right hText
  rw [List.reverse_inj.mp hSeen]

/-- Whether a cursor gets to another one by moving forward over some characters. -/
def Reaches (c d : Cursor) : Prop :=
  ∃ taken, c.rest = taken ++ d.rest ∧ d.seen = taken.reverse ++ c.seen

section

variable {b c d : Cursor}

theorem Reaches.refl (c : Cursor) : c.Reaches c := ⟨[], rfl, rfl⟩

/-- Two movements in a row are one. -/
theorem Reaches.trans (hFirst : b.Reaches c) (hSecond : c.Reaches d) : b.Reaches d := by
  obtain ⟨first, hRest, hSeen⟩ := hFirst
  obtain ⟨second, hRest', hSeen'⟩ := hSecond
  -- the characters passed are those of both, and they are seen in the reverse order
  refine ⟨first ++ second, ?_, ?_⟩
  · rw [hRest, hRest', List.append_assoc]
  · rw [hSeen', hSeen, List.reverse_append, List.append_assoc]

/-- A cursor that is told to pass more than is left stops at the end, which it reaches all the same.
-/
theorem reaches_advance (n : Nat) (c : Cursor) : c.Reaches (c.advance n) :=
  ⟨c.rest.take n, (List.take_append_drop n c.rest).symm, rfl⟩

theorem reaches_skipBlanks (c : Cursor) : c.Reaches c.skipBlanks := reaches_advance _ c

/-- A movement leaves the text as it is. -/
theorem Reaches.text_eq (hReach : c.Reaches d) : d.text = c.text := by
  obtain ⟨taken, hRest, hSeen⟩ := hReach
  simp [text, hRest, hSeen]

/-- Behind a movement no more text is ahead than before. -/
theorem Reaches.length_le (hReach : c.Reaches d) : d.rest.length ≤ c.rest.length := by
  obtain ⟨taken, hRest, -⟩ := hReach
  rw [hRest, List.length_append]
  omega

/-- What was seen and what is ahead have the same length together wherever a cursor stands. -/
theorem Reaches.pos_add_length (hReach : c.Reaches d) :
    d.pos + d.rest.length = c.pos + c.rest.length := by
  obtain ⟨taken, hRest, hSeen⟩ := hReach
  simp only [pos, hRest, hSeen, List.length_append, List.length_reverse]
  omega

/-- A movement does not go back. -/
theorem Reaches.pos_le (hReach : c.Reaches d) : c.pos ≤ d.pos := by
  have := hReach.length_le
  have := hReach.pos_add_length
  omega

/-- A position is further on exactly if less text is ahead, so that either one tells whether a
cursor has moved. -/
theorem Reaches.pos_lt_iff (hReach : c.Reaches d) :
    c.pos < d.pos ↔ d.rest.length < c.rest.length := by
  have := hReach.pos_add_length
  omega

/-- What is ahead of a later place was ahead of an earlier one too. -/
theorem Reaches.mem_of_mem {x : Char} (hReach : c.Reaches d) (hMem : x ∈ d.rest) : x ∈ c.rest := by
  obtain ⟨taken, hRest, -⟩ := hReach
  rw [hRest]
  exact List.mem_append_right taken hMem

/-- Where text is left, text was left before. -/
theorem Reaches.rest_ne_nil (hReach : c.Reaches d) (hMore : d.rest ≠ []) : c.rest ≠ [] := by
  have hShort := hReach.length_le
  have hSome := List.length_pos_iff.mpr hMore
  exact List.length_pos_iff.mp (by omega)

/-- What is left of a text that ends with a line does so too. -/
theorem Reaches.endsLine (hReach : c.Reaches d) (hLine : Text.EndsLine c.rest)
    (hLeft : d.rest ≠ []) : Text.EndsLine d.rest := by
  obtain ⟨taken, hRest, -⟩ := hReach
  rw [hRest] at hLine
  exact hLine.of_append hLeft

end

/-! ## Slices of a text -/

section

variable {c d e : Cursor}

/-- What a cursor passes on its way to another one is a slice of the text. -/
theorem Reaches.extract (hReach : c.Reaches d) :
    c.rest = c.text.extract c.pos d.pos ++ d.rest ∧
      d.seen = (c.text.extract c.pos d.pos).reverse ++ c.seen := by
  obtain ⟨taken, hRest, hSeen⟩ := hReach
  -- the slice starts where the first cursor stands, so it is the start of what was ahead of it
  have hLength : d.pos - c.pos = taken.length := by
    simp only [pos, hSeen, List.length_append, List.length_reverse]
    omega
  have hSlice : c.text.extract c.pos d.pos = taken := by
    rw [List.extract, drop_pos_text, hLength, hRest, List.take_left]
  rw [hSlice]
  exact ⟨hRest, hSeen⟩

/-- A text that was passed and what is left determine what was passed. -/
theorem Reaches.extract_eq (hReach : c.Reaches d) {taken : Text}
    (hRest : c.rest = taken ++ d.rest) : c.text.extract c.pos d.pos = taken :=
  List.append_cancel_right (hReach.extract.1.symm.trans hRest)

/-- The slice between two places is put together at any place between them. -/
theorem Reaches.extract_trans (hFirst : c.Reaches d) (hSecond : d.Reaches e) :
    c.text.extract c.pos e.pos = c.text.extract c.pos d.pos ++ d.text.extract d.pos e.pos := by
  refine (hFirst.trans hSecond).extract_eq ?_
  rw [List.append_assoc, ← hSecond.extract.1, ← hFirst.extract.1]

end

/-! ## Blanks -/

/-- A cursor at a character that is no blank stays where it is. -/
theorem skipBlanks_of_nonblank {c : Cursor} {x : Char} {rest : Text} (hRest : c.rest = x :: rest)
    (hBlank : Text.isBlank x = false) : c.skipBlanks = c := by
  rw [skipBlanks, hRest, List.takeWhile_cons_of_neg (by simp [hBlank])]
  rfl

/-- Where a cursor stands behind blanks, it stands at the end or at a character that is none. -/
theorem rest_skipBlanks_cons {c : Cursor} {x : Char} {rest : Text}
    (hRest : c.skipBlanks.rest = x :: rest) : Text.isBlank x = false := by
  rw [rest_skipBlanks] at hRest
  have hHead := List.head_dropWhile_not Text.isBlank (l := c.rest) (by simp [hRest])
  simpa [hRest] using hHead

/-- Blanks are passed at once, so there are none left to pass. -/
@[simp] theorem skipBlanks_skipBlanks (c : Cursor) : c.skipBlanks.skipBlanks = c.skipBlanks := by
  -- at the end there is nothing to pass, and elsewhere a character that is no blank stands next
  cases hRest : c.skipBlanks.rest with
  | nil => rw [skipBlanks, hRest]; rfl
  | cons x rest => exact skipBlanks_of_nonblank hRest (rest_skipBlanks_cons hRest)

/-! ## More text ahead -/

/-- The cursor at the same place of a text that goes on with more text. -/
def extend (more : Text) (c : Cursor) : Cursor := ⟨c.seen, c.rest ++ more⟩

section

variable {more : Text} {c d : Cursor}

@[simp] theorem rest_extend : (c.extend more).rest = c.rest ++ more := rfl

@[simp] theorem pos_extend : (c.extend more).pos = c.pos := rfl

/-- More text tells no two places apart that were the same. -/
theorem extend_inj (hSame : c.extend more = d.extend more) : c = d := by
  cases c
  cases d
  simpa [extend] using hSame

/-- What is reached before the added text begins was reached without it too. -/
theorem exists_eq_extend (hReach : (c.extend more).Reaches d)
    (hBefore : more.length ≤ d.rest.length) : ∃ m, c.Reaches m ∧ d = m.extend more := by
  obtain ⟨taken, hRest, hSeen⟩ := hReach
  rw [rest_extend] at hRest
  have hTaken : taken.length ≤ c.rest.length := by
    have := congrArg List.length hRest
    simp only [List.length_append] at this
    omega
  -- what was passed is a start of what was ahead in the first text, since it is not longer
  obtain ⟨left, hLeft⟩ := List.prefix_of_prefix_length_le (hRest ▸ List.prefix_append taken d.rest)
    (List.prefix_append c.rest more) hTaken
  refine ⟨⟨d.seen, left⟩, ⟨taken, hLeft.symm, hSeen⟩, ?_⟩
  rw [← hLeft, List.append_assoc] at hRest
  have hBehind : d.rest = left ++ more := (List.append_cancel_left hRest).symm
  cases d
  simp_all [Cursor.extend]

/-- A movement between two places of the first text does not depend on the text behind it. -/
theorem reaches_of_extend (hReach : (c.extend more).Reaches (d.extend more)) : c.Reaches d := by
  obtain ⟨m, hReach', hSame⟩ := exists_eq_extend hReach (by simp)
  rwa [extend_inj hSame]

/-- A movement that ends in the first text is the same with more text behind it. -/
theorem advance_extend {n : Nat} (hWithin : n ≤ c.rest.length) :
    (c.extend more).advance n = (c.advance n).extend more := by
  simp [advance, Cursor.extend, List.take_append_of_le_length hWithin,
    List.drop_append_of_le_length hWithin]

/-- Blanks that end in the first text are the same with more text behind them. -/
theorem skipBlanks_extend (hMore : c.skipBlanks.rest ≠ []) :
    (c.extend more).skipBlanks = c.skipBlanks.extend more := by
  rw [rest_skipBlanks] at hMore
  rw [skipBlanks, skipBlanks, rest_extend, Text.takeWhile_append_of_dropWhile hMore]
  exact advance_extend (List.takeWhile_prefix _).length_le

/-- Behind a text of blanks alone, the blanks of the added text are skipped too. -/
theorem skipBlanks_extend_of_eq_nil (hEnd : c.skipBlanks.rest = []) :
    (c.extend more).skipBlanks = (⟨c.text.reverse, more⟩ : Cursor).skipBlanks := by
  have hBlank : ∀ x ∈ c.rest, Text.isBlank x = true := by
    rw [rest_skipBlanks] at hEnd
    exact List.dropWhile_eq_nil_iff.mp hEnd
  -- all of the first text is passed, and then the blanks at the start of the second one
  simp only [skipBlanks, rest_extend, List.takeWhile_append_of_pos hBlank, List.length_append]
  rw [← advance_advance]
  congr 1
  simp [advance, Cursor.extend, text]

end

/-! ## More text behind -/

/-- The cursor at the same place of a text that has more text before it. -/
def shift (before : Text) (c : Cursor) : Cursor := ⟨c.seen ++ before.reverse, c.rest⟩

section

variable {before : Text} {c : Cursor}

@[simp] theorem rest_shift : (c.shift before).rest = c.rest := rfl

/-- A text before the cursor moves every position by its length. -/
@[simp] theorem pos_shift : (c.shift before).pos = c.pos + before.length := by
  simp [shift, pos]

/-- What stands before a cursor does not matter to where it goes. -/
@[simp] theorem advance_shift {n : Nat} :
    (c.shift before).advance n = (c.advance n).shift before := by
  simp [advance, shift]

@[simp] theorem skipBlanks_shift : (c.shift before).skipBlanks = c.skipBlanks.shift before :=
  advance_shift

/-- What a mismatch shows of a text is what is ahead, which the text before it does not change. -/
@[simp] theorem context_shift : (c.shift before).context = c.context := rfl

end

end SchemaScript.Cursor
