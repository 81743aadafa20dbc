import SchemaScript.Proofs.Cursor.Movement

/-!
# Free text up to one character

The delimiters of the grammar are single characters, and for those the search is simple: it finds
the first occurrence ahead (`takeUntil?_of_eq`), and finds nothing only if there is none
(`takeUntil?_eq_none_iff`). Where a statement is skipped, this settles where the skipping ends.
-/

namespace SchemaScript

namespace Cursor

variable {c d : Cursor} {x : Char}

theorem takeUntil?_eq_none_iff {inclusive : Bool} :
    c.takeUntil? [x] inclusive = none ↔ x ∉ c.rest := by
  unfold takeUntil?
  rw [Option.map_eq_none_iff, Text.before?_singleton_eq_none_iff]

theorem takeUntil?_of_eq {found behind : Text} (hBreak : x ≠ '\n') (hFirst : x ∉ found)
    (hRest : c.rest = found ++ x :: behind) (inclusive : Bool) :
    c.takeUntil? [x] inclusive =
      some (Text.trim found, c.advance (found.length + if inclusive then 1 else 0)) := by
  have hFound := Text.before?_singleton_eq_some_iff.mpr ⟨hFirst, behind, hRest⟩
  unfold takeUntil?
  rw [hFound]
  cases inclusive <;> simp [hBreak]

/-- A character that lies ahead is found, and what stands before it is taken. -/
theorem exists_takeUntil?_of_mem (hBreak : x ≠ '\n') (hMem : x ∈ c.rest) (inclusive : Bool) :
    ∃ found behind, x ∉ found ∧ c.rest = found ++ x :: behind ∧
      c.takeUntil? [x] inclusive =
        some (Text.trim found, c.advance (found.length + if inclusive then 1 else 0)) := by
  cases hFound : Text.before? [x] c.rest with
  | none => exact absurd hMem (Text.before?_singleton_eq_none_iff.mp hFound)
  | some found =>
    obtain ⟨hFirst, behind, hRest⟩ := Text.before?_singleton_eq_some_iff.mp hFound
    exact ⟨found, behind, hFirst, hRest, takeUntil?_of_eq hBreak hFirst hRest inclusive⟩

/-- Where a character does not lie ahead, all that is left is taken. -/
theorem takeUntilOrRest_of_not_mem (hMem : x ∉ c.rest) (inclusive : Bool) :
    c.takeUntilOrRest [x] inclusive = c.takeRest := by
  unfold takeUntilOrRest
  rw [takeUntil?_eq_none_iff.mpr hMem, Option.getD_none]

/-- The cursor behind a text that was passed. -/
theorem advance_of_append {passed left : Text} (hRest : c.rest = passed ++ left) :
    c.advance passed.length = ⟨passed.reverse ++ c.seen, left⟩ := by
  rw [advance, hRest, List.take_left, List.drop_left]

/-- The rest of a line is taken up to the line feed, or up to the end of the text. -/
theorem takeUntilOrRest_line {found left : Text} (hFirst : '\n' ∉ found)
    (hEnd : left = [] ∨ left.head? = some '\n') (hRest : c.rest = found ++ left) :
    c.takeUntilOrRest "\n" false = (Text.trim found, ⟨found.reverse ++ c.seen, left⟩) := by
  have hPlace := advance_of_append hRest
  rcases hEnd with rfl | hBreak
  · -- no line feed is left
    rw [List.append_nil] at hRest
    have hNone : c.takeUntilOrRest "\n" false = c.takeRest :=
      takeUntilOrRest_of_not_mem (hRest ▸ hFirst) false
    rw [hNone, takeRest, hRest, hPlace]
  · obtain ⟨behind, rfl⟩ := List.head?_eq_some_iff.mp hBreak
    have hFound := Text.before?_singleton_eq_some_iff.mpr ⟨hFirst, behind, hRest⟩
    have hTake : c.takeUntil? "\n" false = some (Text.trim found, c.advance found.length) := by
      rw [takeUntil?, show Text.before? "\n" c.rest = some found from hFound]
      rfl
    rw [takeUntilOrRest, hTake, Option.getD_some, hPlace]

/-- The cursor behind a character that was found and passed. -/
theorem advance_of_eq {found behind : Text} (hRest : c.rest = found ++ x :: behind) :
    c.advance (found.length + 1) = ⟨x :: found.reverse ++ c.seen, behind⟩ := by
  have hSplit : c.rest = (found ++ [x]) ++ behind := by
    rw [hRest, List.append_assoc]
    rfl
  have hPassed := advance_of_append hSplit
  rwa [List.length_append, List.length_singleton, List.reverse_append] at hPassed

theorem head?_seen_advance_one (hNext : c.rest.head? = some x) :
    (c.advance 1).seen.head? = some x := by
  obtain ⟨behind, hRest⟩ := List.head?_eq_some_iff.mp hNext
  rw [advance, hRest]
  rfl

/-- Skipping up to a semicolon takes a character, if there is one. -/
theorem length_takeUntilOrRest_lt (hMore : c.rest ≠ []) :
    (c.takeUntilOrRest ";" true).2.rest.length < c.rest.length := by
  have hPositive := List.length_pos_iff.mpr hMore
  by_cases hMem : ';' ∈ c.rest
  · -- the semicolon is passed at least
    obtain ⟨found, behind, -, hRest, hTake⟩ := exists_takeUntil?_of_mem (by decide) hMem true
    have hSkip : c.takeUntilOrRest ";" true = (Text.trim found, c.advance (found.length + 1)) := by
      unfold takeUntilOrRest
      exact congrArg (Option.getD · c.takeRest) hTake
    rw [hSkip]
    dsimp only
    rw [advance_of_eq hRest, hRest, List.length_append, List.length_cons]
    dsimp only
    omega
  · -- all of the text is passed
    have hSkip := takeUntilOrRest_of_not_mem hMem true
    rw [show c.takeUntilOrRest ";" true = c.takeRest from hSkip]
    simp only [takeRest, rest_advance, List.drop_length, List.length_nil]
    exact hPositive

end Cursor

end SchemaScript
