import SchemaScript.Text.Word

/-!
# Search

Finding a text in another, splitting at it, and replacing it. `before?` gives what stands before the
first occurrence; that the occurrence follows it, and that none lies earlier, is
`before?_eq_some_iff`. It gives nothing exactly if there is none (`before?_eq_none_iff`).

`splitOn` asks for a proof that its separator is not empty, since an empty one stands between any
two characters infinitely often. `Pattern.replace` goes on behind each place instead, so that it
acts once at each place even if it takes nothing.
-/

namespace SchemaScript.Text

/-- The text before the first occurrence of `part`, if it occurs. An empty `part` occurs at once. -/
def before? (part : Text) : Text → Option Text
  | [] => if part.isEmpty then some [] else none
  | c :: t => if part.isPrefixOf (c :: t) then some [] else (before? part t).map (c :: ·)

/-- A text is cut at the first occurrence: what was found, then the part, and no occurrence starts
in what was found. -/
theorem before?_eq_some_iff {part t found : Text} :
    before? part t = some found ↔
      (∃ rest, t = found ++ part ++ rest) ∧
        ∀ n < found.length, ¬ part <+: t.drop n := by
  induction t generalizing found with
  | nil =>
    cases part <;> simp [before?, eq_comm]
    rintro rfl
    simp
  | cons c t ih =>
    rw [before?]
    by_cases hHere : part.isPrefixOf (c :: t) = true
    · -- the part stands here, so nothing is found before it
      rw [if_pos hHere]
      rw [List.isPrefixOf_iff_prefix] at hHere
      constructor
      · rintro ⟨⟩
        obtain ⟨rest, hRest⟩ := hHere
        exact ⟨⟨rest, by simpa using hRest.symm⟩, by simp⟩
      · rintro ⟨-, hFirst⟩
        cases found with
        | nil => rfl
        | cons d found => exact absurd hHere (hFirst 0 (by simp))
    · rw [if_neg hHere]
      rw [List.isPrefixOf_iff_prefix] at hHere
      simp only [Option.map_eq_some_iff]
      constructor
      · rintro ⟨shorter, hShorter, rfl⟩
        obtain ⟨⟨rest, hRest⟩, hFirst⟩ := ih.mp hShorter
        refine ⟨⟨rest, by simp [hRest]⟩, fun n hn => ?_⟩
        cases n with
        | zero => simpa using hHere
        | succ n => simpa using hFirst n (by simpa using hn)
      · rintro ⟨⟨rest, hRest⟩, hFirst⟩
        cases found with
        | nil => exact absurd ⟨rest, by simpa using hRest.symm⟩ hHere
        | cons d found =>
          simp only [List.cons_append, List.cons.injEq] at hRest
          obtain ⟨rfl, hRest⟩ := hRest
          -- the occurrence is one place further on than in the shorter text
          refine ⟨found, ih.mpr ⟨⟨rest, by simpa using hRest⟩, fun n hn => ?_⟩, rfl⟩
          simpa using hFirst (n + 1) (by simpa using hn)

/-- A search fails exactly if the part does not occur. -/
theorem before?_eq_none_iff {part t : Text} : before? part t = none ↔ ¬ part <:+: t := by
  induction t with
  | nil => cases part <;> simp [before?]
  | cons c t ih =>
    rw [before?, List.infix_cons_iff, not_or, ← List.isPrefixOf_iff_prefix]
    split
    · next hHere => simp [hHere]
    · next hHere => rw [Option.map_eq_none_iff, ih, and_iff_right hHere]

/-- In an empty text only the empty part is found. -/
theorem before?_nil {part : Text} (hSome : part ≠ []) : before? part [] = none :=
  before?_eq_none_iff.mpr fun hInfix => hSome (List.infix_nil.mp hInfix)

/-- What was found and the part together fit into the text. -/
theorem length_add_le_of_before? {part t found : Text} (hFound : before? part t = some found) :
    found.length + part.length ≤ t.length := by
  obtain ⟨⟨rest, rfl⟩, -⟩ := before?_eq_some_iff.mp hFound
  simp

/-- The pieces of a text between the occurrences of a separator, found from left to right. -/
def splitOn (separator : Text) (hSeparator : separator ≠ []) (t : Text) : List Text :=
  match hFound : before? separator t with
  | none => [t]
  | some piece =>
    have := length_add_le_of_before? hFound
    have := List.length_pos_iff.mpr hSeparator
    piece :: splitOn separator hSeparator (t.drop (piece.length + separator.length))
termination_by t.length
decreasing_by
  simp
  omega

/-- A text without the separator is one piece. -/
theorem splitOn_of_before?_eq_none {separator t : Text} {hSeparator : separator ≠ []}
    (hNone : before? separator t = none) : splitOn separator hSeparator t = [t] := by
  rw [splitOn]
  split
  · rfl
  · next hSome => simp [hNone] at hSome

/-- The first piece ends at the first separator, and the others are those of the text behind it. -/
theorem splitOn_of_before?_eq_some {separator t piece : Text} {hSeparator : separator ≠ []}
    (hSome : before? separator t = some piece) :
    splitOn separator hSeparator t =
      piece :: splitOn separator hSeparator (t.drop (piece.length + separator.length)) := by
  rw [splitOn]
  split
  · next hNone => simp [hSome] at hNone
  · next found hFound =>
    rw [hSome] at hFound
    obtain rfl := Option.some.inj hFound
    rfl

/-! ## Substitution

Replacing what a pattern finds, from left to right and without overlap. A pattern looks at one
place of a text, given by whether a word character stands before it and by the text behind it, and
says how many characters it takes there and what shall stand for them.

A pattern that takes nothing adds its output at that place and goes on behind the next character,
so that it acts at most once at each place; the end of the text is a place too.
-/

/-- What a pattern found at a place. -/
structure Hit where
  /-- how many characters it takes -/
  taken : Nat
  /-- what stands for them afterwards -/
  output : Text
  deriving DecidableEq, Repr

/-- Looks at a place of a text: whether a word character stands before it, and the text behind it.
-/
abbrev Pattern := (afterWord : Bool) → Text → Option Hit

namespace Pattern

/-- Replaces what the pattern finds in the text behind a place, once `skip` more characters that it
took before are passed. -/
def replaceFrom (pattern : Pattern) : (afterWord : Bool) → (skip : Nat) → Text → Text
  | afterWord, _, [] => ((pattern afterWord []).map Hit.output).getD []
  | _, skip + 1, c :: t => replaceFrom pattern (isWord c) skip t
  | afterWord, 0, c :: t =>
    match pattern afterWord (c :: t) with
    | none => c :: replaceFrom pattern (isWord c) 0 t
    | some ⟨0, output⟩ => output ++ c :: replaceFrom pattern (isWord c) 0 t
    | some ⟨taken + 1, output⟩ => output ++ replaceFrom pattern (isWord c) taken t

/-- Replaces what the pattern finds in a text. -/
def replace (pattern : Pattern) (t : Text) : Text := replaceFrom pattern false 0 t

end Pattern

/-- Finds `part` wherever it stands. -/
def literally (part output : Text) : Pattern := fun _ t =>
  if part.isPrefixOf t then some ⟨part.length, output⟩ else none

/-- The text with `output` in the place of each occurrence of `part`, found from left to right. An
empty `part` occurs before each character and at the end. -/
def replaceAll (part output t : Text) : Text := (literally part output).replace t

example : replaceAll "aa" "b" "aaa" = "ba" := by decide +kernel
example : replaceAll "" "-" "ab" = "-a-b-" := by decide +kernel

end SchemaScript.Text
