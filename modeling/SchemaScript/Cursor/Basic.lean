import SchemaScript.Text.Layout
import SchemaScript.Text.Quoted
import SchemaScript.Text.Search

/-!
# Cursors

A cursor stands at a place of a text, between what was read and what is still ahead. Its text is
fixed (`text_advance`) and its position lies within the text (`pos_le_length`) whatever is done:
every movement is made of `advance`, which only goes forward.

Moving over blanks is the one movement that leaves no trace in what is read. The other ones take
texts, which are trimmed.
-/

namespace SchemaScript

/-- A place in a text. -/
structure Cursor where
  /-- what was read, back to front -/
  seen : Text
  /-- what is still ahead -/
  rest : Text
  deriving DecidableEq, Repr

namespace Cursor

/-- A cursor at the start of a text, once the text is normalized. -/
def ofText (t : Text) : Cursor := ⟨[], Text.normalize t⟩

/-- The whole text. -/
def text (c : Cursor) : Text := c.seen.reverse ++ c.rest

/-- The number of characters that were read. -/
def pos (c : Cursor) : Nat := c.seen.length

/-- The number of characters ahead. -/
def remaining (c : Cursor) : Nat := c.rest.length

/-! ## Looking ahead -/

/-- Up to `n` characters from the cursor on; none if `n` is negative. -/
def peek (n : Int) (c : Cursor) : Text := c.rest.take n.toNat

/-- What messages show of the place where they arise. -/
def context (c : Cursor) : Text := c.peek 20 ++ "[...]"

/-- A description of the cursor for readers of messages. -/
def describe (c : Cursor) : Text :=
  "<Cursor pos=" ++ Text.ofNat c.pos ++ " " ++ Text.quoted c.context ++ ">"

/-! ## Moving on -/

/-- Moves on by `n` characters, or to the end if there are fewer. -/
def advance (n : Nat) (c : Cursor) : Cursor := ⟨(c.rest.take n).reverse ++ c.seen, c.rest.drop n⟩

/-- Moves on to the next character that is no blank. -/
def skipBlanks (c : Cursor) : Cursor := c.advance (c.rest.takeWhile Text.isBlank).length

/-- Takes the text up to a delimiter, if the delimiter lies ahead. If `inclusive`, the delimiter is
passed too, unless it is a line feed. -/
def takeUntil? (delimiter : Text) (inclusive : Bool) (c : Cursor) : Option (Text × Cursor) :=
  (Text.before? delimiter c.rest).map fun found =>
    let passed := if inclusive && delimiter != ['\n'] then delimiter.length else 0
    (Text.trim found, c.advance (found.length + passed))

/-- Takes all the text that is left. -/
def takeRest (c : Cursor) : Text × Cursor := (Text.trim c.rest, c.advance c.rest.length)

/-- Takes the text up to a delimiter, or all that is left if the delimiter does not lie ahead. -/
def takeUntilOrRest (delimiter : Text) (inclusive : Bool) (c : Cursor) : Text × Cursor :=
  (c.takeUntil? delimiter inclusive).getD c.takeRest

/-! ## What a movement keeps -/

@[simp] theorem rest_advance (n : Nat) (c : Cursor) : (c.advance n).rest = c.rest.drop n := rfl

/-- The text stays the same. -/
@[simp] theorem text_advance (n : Nat) (c : Cursor) : (c.advance n).text = c.text := by
  simp [advance, text, List.append_assoc]

/-- The position grows with what is passed, and stops at the end. -/
theorem pos_advance (n : Nat) (c : Cursor) :
    (c.advance n).pos = c.pos + min n c.rest.length := by
  simp [advance, pos, Nat.add_comm]

/-- What was read and what is ahead make up the text. -/
theorem pos_add_remaining (c : Cursor) : c.pos + c.remaining = c.text.length := by
  simp [pos, remaining, text]

/-- The position lies within the text. -/
theorem pos_le_length (c : Cursor) : c.pos ≤ c.text.length := by
  have := pos_add_remaining c
  omega

/-- Two movements are one. -/
theorem advance_advance (m n : Nat) (c : Cursor) :
    (c.advance m).advance n = c.advance (m + n) := by
  simp [advance, List.take_add, List.drop_drop]

@[simp] theorem text_skipBlanks (c : Cursor) : c.skipBlanks.text = c.text := text_advance ..

/-- Ahead of the next character that is no blank stands the rest without its first blanks. -/
@[simp] theorem rest_skipBlanks (c : Cursor) :
    c.skipBlanks.rest = c.rest.dropWhile Text.isBlank := by
  have hSplit := congrArg (List.drop (c.rest.takeWhile Text.isBlank).length)
    (List.takeWhile_append_dropWhile (p := Text.isBlank) (l := c.rest))
  rw [skipBlanks, rest_advance, ← hSplit, List.drop_left]

end Cursor

end SchemaScript
