/-!
# Texts

Every text of this library is the list of its characters, so that positions and lengths count code
points and functions on texts are plain recursions. String literals stand for their lists of
characters wherever a text is expected.

Character classes are given by ranges of code points; `inRanges` is the one test that reads such a
table. The blanks are the first class of this kind.
-/

namespace SchemaScript

/-- A text, as the list of its characters. -/
abbrev Text := List Char

instance : Coe String Text := ⟨String.toList⟩

namespace Text

/-- Whether a character's code point lies in one of the ranges, both ends included. -/
def inRanges (ranges : List (Nat × Nat)) (c : Char) : Bool :=
  ranges.any fun range => range.1 ≤ c.toNat && c.toNat ≤ range.2

/-- A character is in a class if some range of the class holds its code point. -/
theorem inRanges_eq_true_iff {ranges : List (Nat × Nat)} {c : Char} :
    inRanges ranges c = true ↔ ∃ range ∈ ranges, range.1 ≤ c.toNat ∧ c.toNat ≤ range.2 := by
  simp [inRanges]

/-- The decimal digits of a number. -/
def ofNat (n : Nat) : Text := Nat.toDigits 10 n

/-- The texts in order, with `separator` between each two neighbours. -/
def join (separator : Text) : List Text → Text
  | [] => []
  | [t] => t
  | t :: u :: ts => t ++ separator ++ join separator (u :: ts)

/-! ## Blanks

Blanks separate words and surround them without a meaning of their own: the space, the line and
page controls from U+0009 to U+000D, the four information separators from U+001C on, the next-line
control and the space characters of Unicode. A zero-width space is no blank, nor is a byte order
mark.
-/

/-- The code points of the blanks, in order. -/
def blanks : List (Nat × Nat) :=
  [(0x09, 0x0d), (0x1c, 0x20), (0x85, 0x85), (0xa0, 0xa0), (0x1680, 0x1680), (0x2000, 0x200a),
   (0x2028, 0x2029), (0x202f, 0x202f), (0x205f, 0x205f), (0x3000, 0x3000)]

/-- Whether a character is a blank. -/
def isBlank (c : Char) : Bool := inRanges blanks c

example : isBlank '\u000b' ∧ isBlank '\u001f' ∧ isBlank '\u2028' := by decide
example : ¬ isBlank '\u200b' ∧ ¬ isBlank '\ufeff' ∧ ¬ isBlank '\u180e' := by decide

end Text

end SchemaScript
