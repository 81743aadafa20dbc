import SchemaScript.Text.Basic

/-!
# Layout

Two functions settle how a text is laid out. `normalize` prepares a whole script: carriage returns
vanish, and then a run of spaces and tabs counts as one space. `trim` prepares a piece that was
cut out of it: the blanks around it vanish, and each line break inside, together with the blanks
around it, becomes one space.

Line feeds survive `normalize`, since a line comment ends at one.
-/

namespace SchemaScript.Text

/-! ## Normalized scripts -/

/-- Whether a character is a space or a tab. -/
def isGap (c : Char) : Bool := c == ' ' || c == '\t'

/-- Writes one space for each run of spaces and tabs. `inGap` tells whether such a run was already
written just before the text. -/
def collapseGaps : (inGap : Bool) → Text → Text
  | _, [] => []
  | inGap, c :: t =>
    if isGap c then
      if inGap then collapseGaps true t else ' ' :: collapseGaps true t
    else c :: collapseGaps false t

/-- Drops the carriage returns and merges each run of spaces and tabs into one space. -/
def normalize (t : Text) : Text := collapseGaps false (t.filter (· != '\r'))

/-! ## Trimmed pieces -/

/-- Drops the blanks before a text. -/
def stripStart (t : Text) : Text := t.dropWhile isBlank

/-- Drops the blanks behind a text. -/
def stripEnd (t : Text) : Text := (t.reverse.dropWhile isBlank).reverse

/-- Drops the blanks around a text. -/
def strip (t : Text) : Text := stripEnd (stripStart t)

/-- What is written for a run of blanks, given back to front: one space if a line ends in it. -/
def closeRun (run : Text) : Text := if '\n' ∈ run then [' '] else run.reverse

/-- Writes one space for each longest run of blanks in which a line ends. `run` holds the blanks
just before the text, back to front. -/
def foldLines : (run : Text) → Text → Text
  | run, [] => closeRun run
  | run, c :: t =>
    if isBlank c then foldLines (c :: run) t else closeRun run ++ c :: foldLines [] t

/-- Drops the blanks around a text and makes each line break inside it one space. -/
def trim (t : Text) : Text := foldLines [] (strip t)

example : normalize "a\x0d\n\t\t b" = "a\n b" := by decide +kernel
example : normalize "a \x0d b" = "a b" := by decide +kernel
example : trim "\u00a0a \u000b\n\u00a0 b  c\n" = "a b  c" := by decide +kernel

end SchemaScript.Text
