import Mathlib.Data.List.DropRight
import SchemaScript.Proofs.Text.Clean

/-!
# Normal forms

`normalize` leaves no gap wider than one space (`spaced_normalize`), and that is kept in every piece
that is cut out of the script (`Spaced.of_infix`). `trim` makes such a piece clean (`clean_trim`): a
run of blanks that stays has no line feed in it, and one with a line feed has become one space that
stands between two characters that are no blanks.
-/

namespace SchemaScript.Text

variable {s t : Text}

/-! ## Normalized scripts -/

/-- Behind a gap that was already written no other space is written first. -/
theorem isChain_collapseGaps (inGap : Bool) (t : Text) :
    (collapseGaps inGap t).IsChain (fun x y => x ≠ ' ' ∨ y ≠ ' ') ∧
      (inGap = true → (collapseGaps inGap t).head? ≠ some ' ') := by
  induction t generalizing inGap with
  | nil => exact ⟨List.isChain_nil, fun _ => by simp [collapseGaps]⟩
  | cons c t ih =>
    rw [collapseGaps]
    by_cases hGap : isGap c = true
    · obtain ⟨hChain, hHead⟩ := ih true
      rw [if_pos hGap]
      -- inside a gap nothing is written, and at its start one space, with no other one behind it
      cases inGap with
      | true => exact ⟨hChain, fun _ => hHead rfl⟩
      | false =>
        refine ⟨List.isChain_cons.mpr ⟨fun y hNext => Or.inr ?_, hChain⟩, by simp⟩
        rintro rfl
        exact hHead rfl hNext
    · have hSpace : c ≠ ' ' := by
        rintro rfl
        exact hGap (by decide)
      rw [if_neg hGap]
      exact ⟨List.isChain_cons.mpr ⟨fun y _ => Or.inl hSpace, (ih false).1⟩,
        fun _ => by simpa using hSpace⟩

/-- A tab is always part of a gap, and gaps are written as one space. -/
theorem not_mem_tab_collapseGaps (inGap : Bool) (t : Text) : '\t' ∉ collapseGaps inGap t := by
  -- along the text, whether or not a gap is open
  induction t generalizing inGap with
  | nil => exact List.not_mem_nil
  | cons c t ih =>
    rw [collapseGaps]
    by_cases hGap : isGap c = true
    · cases inGap <;> simp [hGap, ih]
    · have hTab : '\t' ≠ c := by
        rintro rfl
        exact hGap (by decide)
      simp [hGap, hTab, ih]

/-- In a normalized script no gap is wider than one space. -/
theorem spaced_normalize (t : Text) : Spaced (normalize t) where
  noReturn hMem := by
    rcases mem_collapseGaps hMem with hSpace | hKept
    · cases hSpace
    · simpa using (List.mem_filter.mp hKept).2
  noTab := not_mem_tab_collapseGaps false _
  single := (isChain_collapseGaps false _).1

/-- What is cut out of a text has no wider gaps than the text. -/
theorem Spaced.of_infix (hSpaced : Spaced t) (hInfix : s <:+: t) : Spaced s where
  noReturn hMem := hSpaced.noReturn (hInfix.mem hMem)
  noTab hMem := hSpaced.noTab (hInfix.mem hMem)
  single := hSpaced.single.infix hInfix

/-! ## Trimmed pieces -/

/-- Stripping the end leaves a prefix of what stripping the start has left. -/
theorem isPrefix_strip (t : Text) : strip t <+: stripStart t :=
  List.rdropWhile_prefix isBlank (stripStart t)

/-- A stripped text is a piece of the text. -/
theorem isInfix_strip (t : Text) : strip t <:+: t :=
  (isPrefix_strip t).isInfix.trans (List.dropWhile_suffix isBlank).isInfix

/-- A stripped text does not start with a blank. -/
theorem isBlank_of_head?_strip {x : Char} (hHead : (strip t).head? = some x) :
    isBlank x = false := by
  obtain ⟨behind, hStrip⟩ := isPrefix_strip t
  obtain ⟨left, hLeft⟩ := List.head?_eq_some_iff.mp hHead
  rw [hLeft, List.cons_append] at hStrip
  -- the head of the stripped text is the head of what `dropWhile` has left
  have hFirst := List.head?_dropWhile_not isBlank t
  rw [← stripStart, ← hStrip] at hFirst
  exact hFirst

/-- A stripped text does not end with a blank. -/
theorem isBlank_of_getLast?_strip {x : Char} (hLast : (strip t).getLast? = some x) :
    isBlank x = false := by
  have hSome : strip t ≠ [] := by
    intro hNone
    rw [hNone] at hLast
    cases hLast
  have hNot := List.rdropWhile_last_not isBlank (stripStart t) hSome
  rw [List.getLast?_eq_some_getLast hSome] at hLast
  cases hLast
  rw [← Bool.not_eq_true]
  exact hNot

theorem strip_strip (t : Text) : strip (strip t) = strip t :=
  strip_eq_self (fun _ => isBlank_of_head?_strip) fun _ => isBlank_of_getLast?_strip

theorem not_mem_break_closeRun (run : Text) : '\n' ∉ closeRun run := by
  unfold closeRun
  split
  · decide
  · next hNone => rwa [List.mem_reverse]

/-- A line feed is a blank, and the run it stands in becomes one space: no line feed is left. -/
theorem not_mem_break_foldLines (run t : Text) : '\n' ∉ foldLines run t := by
  induction t generalizing run with
  | nil => exact not_mem_break_closeRun run
  | cons c t ih =>
    rw [foldLines]
    split
    · exact ih (c :: run)
    · next hBlank =>
      have hBreak : '\n' ≠ c := by
        rintro rfl
        exact hBlank (by decide)
      simp [not_mem_break_closeRun, hBreak, ih]

/-- A run of blanks is closed with no two spaces next to each other. -/
theorem isChain_closeRun {run : Text}
    (hChain : run.reverse.IsChain fun x y => x ≠ ' ' ∨ y ≠ ' ') :
    (closeRun run).IsChain fun x y => x ≠ ' ' ∨ y ≠ ' ' := by
  unfold closeRun
  split
  · exact List.isChain_singleton ' '
  · exact hChain

/-- Folding lines makes no wide gap where there was none. The open run counts as text that is still
before the rest. -/
theorem isChain_foldLines {run t : Text}
    (hChain : (run.reverse ++ t).IsChain fun x y => x ≠ ' ' ∨ y ≠ ' ') :
    (foldLines run t).IsChain fun x y => x ≠ ' ' ∨ y ≠ ' ' := by
  -- along the text, over all runs that may be open
  induction t generalizing run with
  | nil =>
    rw [List.append_nil] at hChain
    exact isChain_closeRun hChain
  | cons c t ih =>
    rw [foldLines]
    split
    · -- the blank has joined the run, and the text is the same
      refine ih ?_
      rwa [List.reverse_cons, List.append_assoc]
    · next hBlank =>
      have hSpace : c ≠ ' ' := by
        rintro rfl
        exact hBlank (by decide)
      obtain ⟨hRun, hRest, -⟩ := List.isChain_append.mp hChain
      -- a character that is no space parts the run from what follows
      refine List.isChain_append.mpr ⟨isChain_closeRun hRun, ?_, ?_⟩
      · exact List.isChain_cons.mpr ⟨fun y _ => Or.inl hSpace, ih hRest.tail⟩
      · intro x _ y hNext
        cases hNext
        exact Or.inr hSpace

/-- A character that is no blank stays the last one. -/
theorem getLast?_foldLines {run t : Text} {x : Char} (hLast : t.getLast? = some x)
    (hBlank : isBlank x = false) : (foldLines run t).getLast? = some x := by
  induction t generalizing run with
  | nil => cases hLast
  | cons c t ih =>
    rw [foldLines]
    cases t with
    | nil =>
      obtain rfl : c = x := Option.some.inj hLast
      simp [hBlank, foldLines, closeRun]
    | cons d t =>
      -- the last character is further on, so the induction hypothesis has it
      rw [List.getLast?_cons_cons] at hLast
      split
      · exact ih hLast
      · rw [List.getLast?_append, List.getLast?_cons, ih hLast]
        rfl

/-- A trimmed text does not start with a blank: stripping has left none there, and no run is open
before the first character. -/
theorem isBlank_of_head?_trim {x : Char} (hHead : (trim t).head? = some x) :
    isBlank x = false := by
  unfold trim at hHead
  cases hStrip : strip t with
  | nil =>
    rw [hStrip] at hHead
    cases hHead
  | cons c left =>
    have hFirst : isBlank c = false := isBlank_of_head?_strip (by rw [hStrip]; rfl)
    -- nothing is written before the first character
    rw [hStrip, foldLines, hFirst] at hHead
    cases hHead
    exact hFirst

/-- A trimmed text does not end with a blank. -/
theorem isBlank_of_getLast?_trim {x : Char} (hLast : (trim t).getLast? = some x) :
    isBlank x = false := by
  unfold trim at hLast
  cases hEnd : (strip t).getLast? with
  | none =>
    rw [List.getLast?_eq_none_iff.mp hEnd] at hLast
    cases hLast
  | some y =>
    -- the last character of the stripped text is no blank, and folding keeps it last
    have hBlank := isBlank_of_getLast?_strip hEnd
    rw [getLast?_foldLines hEnd hBlank] at hLast
    cases hLast
    exact hBlank

/-- A piece of a normalized script is clean once it is trimmed. -/
theorem clean_trim (hSpaced : Spaced t) : Clean (trim t) where
  noReturn hMem := by
    rcases mem_trim hMem with hSpace | hThere
    · cases hSpace
    · exact hSpaced.noReturn hThere
  noTab hMem := by
    rcases mem_trim hMem with hSpace | hThere
    · cases hSpace
    · exact hSpaced.noTab hThere
  single := isChain_foldLines (hSpaced.of_infix (isInfix_strip t)).single
  noBreak := not_mem_break_foldLines [] (strip t)
  first _ := isBlank_of_head?_trim
  last _ := isBlank_of_getLast?_trim

end SchemaScript.Text
