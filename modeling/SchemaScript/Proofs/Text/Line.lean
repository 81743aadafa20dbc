import Mathlib.Data.List.Infix
import Mathlib.Data.List.TakeWhile
import SchemaScript.Text.Layout
import SchemaScript.Text.Search
import SchemaScript.Text.Word

/-!
# Texts that end with a line

A text that ends with a line feed can be continued without a change to what is found in it: a word
or a run of blanks ends before the line feed, a literal that holds no line feed inside cannot reach
over it, and normalizing starts afresh behind it (`normalize_append`).

The search for a single character is settled here too (`before?_singleton_eq_some_iff`): what lies
behind its first occurrence does not matter.
-/

namespace SchemaScript.Text

/-- Whether a text ends with a line feed. -/
def EndsLine (t : Text) : Prop := t.getLast? = some '\n'

/-- A text that ends with a line is that line with its line feed. -/
theorem endsLine_iff {t : Text} : EndsLine t ↔ ∃ line, t = line ++ ['\n'] :=
  List.getLast?_eq_some_iff

theorem EndsLine.mem {t : Text} (hLine : EndsLine t) : '\n' ∈ t :=
  List.mem_of_getLast? hLine

/-- What is left of a text that ends with a line ends with that line. -/
theorem EndsLine.of_append {s t : Text} (hLine : EndsLine (s ++ t)) (hLeft : t ≠ []) :
    EndsLine t := by
  unfold EndsLine at hLine ⊢
  rw [List.getLast?_append, List.getLast?_eq_some_getLast hLeft, Option.some_or] at hLine
  rw [List.getLast?_eq_some_getLast hLeft, hLine]

/-- Text before a line does not change how it ends. -/
theorem EndsLine.append {t : Text} (hLine : EndsLine t) (s : Text) : EndsLine (s ++ t) := by
  unfold EndsLine at hLine ⊢
  rw [List.getLast?_append, hLine, Option.some_or]

/-! ## Runs of characters -/

section

variable {p : Char → Bool} {t : Text}

/-- A run of characters among which no line feed counts ends before the last line does. -/
theorem dropWhile_ne_nil_of_endsLine (hBreak : p '\n' = false) (hLine : EndsLine t) :
    t.dropWhile p ≠ [] := by
  -- otherwise the line feed at the end would be part of the run
  intro hAll
  have := List.dropWhile_eq_nil_iff.mp hAll '\n' hLine.mem
  simp [hBreak] at this

/-- A run that ends in a text is not changed by more text behind it. -/
theorem takeWhile_append_of_dropWhile (hRest : t.dropWhile p ≠ []) (u : Text) :
    (t ++ u).takeWhile p = t.takeWhile p := by
  rw [List.takeWhile_append, if_neg]
  intro hLength
  have hSplit := congrArg List.length (List.takeWhile_append_dropWhile (p := p) (l := t))
  rw [List.length_append] at hSplit
  exact hRest (List.length_eq_zero_iff.mp (by omega))

/-- Behind a run that ends in a text, more text is only put at the end. -/
theorem dropWhile_append_of_dropWhile (hRest : t.dropWhile p ≠ []) (u : Text) :
    (t ++ u).dropWhile p = t.dropWhile p ++ u := by
  rw [List.dropWhile_append, if_neg]
  simpa using hRest

/-- What is left behind a run ends with the same line. -/
theorem endsLine_dropWhile (hBreak : p '\n' = false) (hLine : EndsLine t) :
    EndsLine (t.dropWhile p) := by
  have hRest := dropWhile_ne_nil_of_endsLine hBreak hLine
  rw [← List.takeWhile_append_dropWhile (p := p) (l := t)] at hLine
  exact hLine.of_append hRest

end

/-- A literal of one character stands next exactly if the character does. -/
theorem isPrefixOf_singleton_iff {x : Char} {t : Text} :
    ([x] : Text).isPrefixOf t = true ↔ t.head? = some x := by
  rw [List.isPrefixOf_iff_prefix]
  constructor
  · rintro ⟨behind, rfl⟩
    rfl
  · intro hHead
    obtain ⟨behind, rfl⟩ := List.head?_eq_some_iff.mp hHead
    exact ⟨behind, rfl⟩

theorem isPrefixOf_singleton_eq_false {x : Char} {t : Text} (hNext : t.head? ≠ some x) :
    ([x] : Text).isPrefixOf t = false := by
  rwa [← Bool.not_eq_true, isPrefixOf_singleton_iff]

/-- A literal that holds no line feed before its last character does not reach over a line. -/
theorem isPrefixOf_append_of_endsLine {literal t : Text} (hInside : '\n' ∉ literal.dropLast)
    (hLine : EndsLine t) (u : Text) :
    literal.isPrefixOf (t ++ u) = literal.isPrefixOf t := by
  rw [Bool.eq_iff_iff, List.isPrefixOf_iff_prefix, List.isPrefixOf_iff_prefix]
  -- only a literal that is longer than the text could reach over its end
  refine ⟨fun hPrefix => ?_, List.prefix_append_of_prefix⟩
  rcases Nat.lt_or_ge t.length literal.length with hLong | hShort
  · -- the line would end inside the literal
    have hWithin : t <+: literal :=
      List.prefix_of_prefix_length_le (List.prefix_append t u) hPrefix (Nat.le_of_lt hLong)
    obtain ⟨more, rfl⟩ := hWithin
    have hMore : more ≠ [] := by
      rintro rfl
      simp at hLong
    rw [List.dropLast_append_of_ne_nil hMore] at hInside
    exact absurd (List.mem_append_left _ hLine.mem) hInside
  · exact List.prefix_of_prefix_length_le hPrefix (List.prefix_append t u) hShort

/-- A word ends before the line does. -/
theorem word_append_of_endsLine {t : Text} (hLine : EndsLine t) (u : Text) :
    word (t ++ u) = word t :=
  takeWhile_append_of_dropWhile (dropWhile_ne_nil_of_endsLine (by decide) hLine) u

/-- Whether a word starts is settled by the first character. -/
theorem startsWord_append {t : Text} (hMore : t ≠ []) (u : Text) :
    startsWord (t ++ u) = startsWord t := by
  cases t with
  | nil => exact absurd rfl hMore
  | cons c t => rfl

/-- A number ends before the line does, with or without places behind a point. -/
theorem number_append_of_endsLine {t : Text} (hLine : EndsLine t) (u : Text) :
    number (t ++ u) = number t := by
  have hRest := dropWhile_ne_nil_of_endsLine (p := isDecimal) (by decide) hLine
  have hLeft := endsLine_dropWhile (p := isDecimal) (by decide) hLine
  unfold number
  rw [takeWhile_append_of_dropWhile hRest, dropWhile_append_of_dropWhile hRest]
  cases hBehind : t.dropWhile isDecimal with
  | nil => exact absurd hBehind hRest
  | cons c places =>
    by_cases hPoint : c = '.'
    · subst hPoint
      -- the line feed stands behind the point, so the places end before it
      have hPlaces : EndsLine places := by
        rw [hBehind] at hLeft
        refine EndsLine.of_append (s := ['.']) hLeft ?_
        rintro rfl
        cases hLeft
      have := takeWhile_append_of_dropWhile
        (dropWhile_ne_nil_of_endsLine (p := isDecimal) (by decide) hPlaces) u
      simp only [List.cons_append, this]
    · simp [hPoint]

/-! ## Searching for one character -/

/-- What stands before the first occurrence of a character is what does not hold it and has it
behind. -/
theorem before?_singleton_eq_some_iff {x : Char} {t found : Text} :
    before? [x] t = some found ↔ x ∉ found ∧ ∃ rest, t = found ++ x :: rest := by
  induction t generalizing found with
  | nil => simp [before?]
  | cons c t ih =>
    rw [before?]
    by_cases hHere : x = c
    · -- the search is over, so nothing stands before
      subst hHere
      cases found with
      | nil => simp
      | cons d found =>
        simp only [List.isPrefixOf, beq_self_eq_true, Bool.and_true, if_true, List.cons_append,
          List.cons.injEq, List.mem_cons]
        constructor
        · intro hNil
          cases hNil
        · rintro ⟨hFirst, rest, hSame, -⟩
          exact absurd (Or.inl hSame) hFirst
    · have hNotHere : (x == c) = false := beq_false_of_ne hHere
      simp only [List.isPrefixOf, hNotHere, Bool.false_and, Bool.false_eq_true, if_false,
        Option.map_eq_some_iff]
      -- the search goes on, so what was found starts with a character that is another one
      constructor
      · rintro ⟨shorter, hShorter, rfl⟩
        obtain ⟨hFirst, rest, rfl⟩ := ih.mp hShorter
        exact ⟨by simp [hHere, hFirst], rest, rfl⟩
      · rintro ⟨hFirst, rest, hRest⟩
        cases found with
        | nil =>
          rw [List.nil_append, List.cons.injEq] at hRest
          exact absurd hRest.1.symm hHere
        | cons d found =>
          rw [List.cons_append, List.cons.injEq] at hRest
          obtain ⟨rfl, hRest⟩ := hRest
          refine ⟨found, ih.mpr ⟨?_, rest, hRest⟩, rfl⟩
          exact fun hMem => hFirst (List.mem_cons_of_mem _ hMem)

theorem before?_singleton_eq_none_iff {x : Char} {t : Text} : before? [x] t = none ↔ x ∉ t := by
  rw [before?_eq_none_iff, List.singleton_infix_iff]

/-- What stands before the first occurrence of a character does not depend on the text behind. -/
theorem before?_singleton_append {x : Char} {t : Text} (hMem : x ∈ t) (u : Text) :
    before? [x] (t ++ u) = before? [x] t := by
  cases hFound : before? [x] t with
  | none => exact absurd hMem (before?_singleton_eq_none_iff.mp hFound)
  | some found =>
    obtain ⟨hFirst, rest, rfl⟩ := before?_singleton_eq_some_iff.mp hFound
    exact before?_singleton_eq_some_iff.mpr ⟨hFirst, rest ++ u, by simp⟩

/-! ## Normalizing line by line -/

/-- A character that is no gap ends the gap before it, so that behind it there is none to go on
with. -/
theorem collapseGaps_append_of_not_gap {x : Char} (hGap : isGap x = false) (inGap : Bool)
    (s t : Text) :
    collapseGaps inGap (s ++ x :: t) = collapseGaps inGap s ++ x :: collapseGaps false t := by
  induction s generalizing inGap with
  | nil => simp [collapseGaps, hGap]
  | cons c s ih =>
    simp only [List.cons_append, collapseGaps, ih]
    split
    · split <;> rfl
    · rfl

/-- Behind a character that is kept and stands in no gap, normalizing starts afresh. -/
theorem normalize_append_cons {x : Char} (hKept : x ≠ '\r') (hGap : isGap x = false) (s t : Text) :
    normalize (s ++ x :: t) = normalize s ++ x :: normalize t := by
  unfold normalize
  rw [List.filter_append, List.filter_cons_of_pos (by simpa using hKept),
    collapseGaps_append_of_not_gap hGap]

theorem normalize_nil : normalize [] = [] := rfl

/-- A text that ends with a line is normalized on its own. -/
theorem normalize_append {a : Text} (hLine : EndsLine a) (b : Text) :
    normalize (a ++ b) = normalize a ++ normalize b := by
  obtain ⟨line, rfl⟩ := endsLine_iff.mp hLine
  rw [List.append_assoc, List.singleton_append,
    normalize_append_cons (by decide) (by decide), normalize_append_cons (by decide) (by decide),
    normalize_nil]
  simp

/-- Normalizing keeps the line feed at the end. -/
theorem endsLine_normalize {a : Text} (hLine : EndsLine a) : EndsLine (normalize a) := by
  obtain ⟨line, rfl⟩ := endsLine_iff.mp hLine
  rw [normalize_append_cons (by decide) (by decide), normalize_nil]
  exact endsLine_iff.mpr ⟨_, rfl⟩

/-- Where gaps are merged nothing is written but spaces and what was there. -/
theorem mem_collapseGaps {x : Char} {inGap : Bool} {t : Text} (hMem : x ∈ collapseGaps inGap t) :
    x = ' ' ∨ x ∈ t := by
  induction t generalizing inGap with
  | nil => cases hMem
  | cons c t ih =>
    rw [collapseGaps] at hMem
    -- a character of a gap is not written, or a space is written for it
    split at hMem
    · split at hMem
      · exact (ih hMem).imp_right (List.mem_cons_of_mem c)
      · rcases List.mem_cons.mp hMem with hSpace | hLater
        · exact Or.inl hSpace
        · exact (ih hLater).imp_right (List.mem_cons_of_mem c)
    · rcases List.mem_cons.mp hMem with rfl | hLater
      · exact Or.inr (List.mem_cons_self ..)
      · exact (ih hLater).imp_right (List.mem_cons_of_mem c)

/-- Normalizing brings in no character but the space. -/
theorem mem_normalize {x : Char} {t : Text} (hMem : x ∈ normalize t) : x = ' ' ∨ x ∈ t :=
  (mem_collapseGaps hMem).imp_right (fun h => (List.mem_filter.mp h).1)

/-- Normalizing drops no character but carriage returns and the ones of gaps. -/
theorem mem_normalize_of_mem {x : Char} {t : Text} (hKept : x ≠ '\r') (hGap : isGap x = false)
    (hMem : x ∈ t) : x ∈ normalize t := by
  obtain ⟨before, behind, rfl⟩ := List.append_of_mem hMem
  rw [normalize_append_cons hKept hGap]
  exact List.mem_append_right _ (List.mem_cons_self ..)

/-- Spaces and tabs are blanks. -/
theorem isBlank_of_isGap {c : Char} (hGap : isGap c = true) : isBlank c = true := by
  simp only [isGap, Bool.or_eq_true, beq_iff_eq] at hGap
  rcases hGap with rfl | rfl <;> decide

/-- Passing blanks and merging gaps may change places: a gap is passed as a whole, and what follows
the blanks stands in no gap. -/
theorem dropWhile_isBlank_collapseGaps (inGap : Bool) (t : Text) :
    (collapseGaps inGap t).dropWhile isBlank = collapseGaps false (t.dropWhile isBlank) := by
  induction t generalizing inGap with
  | nil => rfl
  | cons c t ih =>
    rw [collapseGaps]
    by_cases hBlank : isBlank c = true
    · -- a gap is blank, whether it is written or not
      rw [List.dropWhile_cons_of_pos hBlank]
      split
      · split
        · exact ih true
        · rw [List.dropWhile_cons_of_pos (by decide)]
          exact ih true
      · rw [List.dropWhile_cons_of_pos hBlank]
        exact ih false
    · have hGap : isGap c = false := by
        rw [← Bool.not_eq_true]
        exact fun hGap => hBlank (isBlank_of_isGap hGap)
      rw [List.dropWhile_cons_of_neg hBlank, hGap]
      simp only [Bool.false_eq_true, if_false]
      rw [List.dropWhile_cons_of_neg hBlank, collapseGaps, hGap]
      rfl

/-- Passing blanks and dropping carriage returns may change places, since a carriage return is a
blank. -/
theorem dropWhile_isBlank_filter (t : Text) :
    (t.filter (· != '\r')).dropWhile isBlank = (t.dropWhile isBlank).filter (· != '\r') := by
  induction t with
  | nil => rfl
  | cons c t ih =>
    by_cases hBlank : isBlank c = true
    · rw [List.dropWhile_cons_of_pos hBlank, List.filter_cons]
      split
      · rw [List.dropWhile_cons_of_pos hBlank]
        exact ih
      · exact ih
    · have hKept : c ≠ '\r' := by
        rintro rfl
        exact hBlank (by decide)
      have hFilter : (c :: t).filter (· != '\r') = c :: t.filter (· != '\r') :=
        List.filter_cons_of_pos (by simpa using hKept)
      rw [List.dropWhile_cons_of_neg hBlank, hFilter, List.dropWhile_cons_of_neg hBlank]

/-- The blanks before a text vanish in the same way before and after normalizing. -/
theorem dropWhile_isBlank_normalize (t : Text) :
    (normalize t).dropWhile isBlank = normalize (t.dropWhile isBlank) := by
  unfold normalize
  rw [dropWhile_isBlank_collapseGaps, dropWhile_isBlank_filter]

/-- Normalizing keeps the first character that is no blank. -/
theorem head?_dropWhile_normalize (t : Text) :
    ((normalize t).dropWhile isBlank).head? = (t.dropWhile isBlank).head? := by
  rw [dropWhile_isBlank_normalize]
  cases hRest : t.dropWhile isBlank with
  | nil => rfl
  | cons c rest =>
    have hBlank : ¬ isBlank c = true := by
      have := List.head_dropWhile_not isBlank (l := t) (by simp [hRest])
      simpa [hRest] using this
    -- the first character behind the blanks is kept, since it is neither of the two sorts that
    -- change
    have hGap : isGap c = false := by
      rw [← Bool.not_eq_true]
      exact fun hGap => hBlank (isBlank_of_isGap hGap)
    have hKept : c ≠ '\r' := by
      rintro rfl
      exact hBlank (by decide)
    have := normalize_append_cons hKept hGap [] rest
    rw [List.nil_append, normalize_nil, List.nil_append] at this
    rw [this]
    rfl

end SchemaScript.Text
