import SchemaScript.Cursor.Basic

/-!
# Mismatches

A mismatch says that a text is not what the grammar asks for: what was asked for, and the place
where it was not found. The message of a mismatch ends with the text from that place on.
-/

namespace SchemaScript

/-- What the grammar asks for where it has a choice of keywords. -/
inductive Clause where
  /-- what can be created -/
  | creation
  /-- what can be altered -/
  | alteredTable
  /-- what can be done to a table -/
  | addition
  /-- what can be added to a table -/
  | addedConstraint
  /-- what a constraint can be -/
  | constraintKind
  deriving DecidableEq, Repr

/-- The keywords that start a clause. -/
def Clause.keywords : Clause → Text
  | creation => "DATABASE, TABLESPACE, TABLE, INDEX or VIEW"
  | alteredTable => "TABLE"
  | addition => "ADD"
  | addedConstraint => "CONSTRAINT"
  | constraintKind => "PRIMARY KEY, FOREIGN KEY or CHECK"

/-- What was asked for and not found. -/
inductive Expectation where
  /-- a literal at the place itself -/
  | literal (t : Text)
  /-- a delimiter somewhere ahead -/
  | delimiter (t : Text)
  | identifier
  | number
  | clause (c : Clause)
  deriving DecidableEq, Repr

/-- The wording of what was not found. -/
def Expectation.describe : Expectation → Text
  | literal t => "could not consume " ++ Text.quoted t
  | delimiter t => "could not consume up to " ++ Text.quoted t
  | identifier => "could not consume identifier"
  | number => "could not consume number"
  | clause c => "Expected " ++ c.keywords

/-- A place at which a text is not what was asked for. -/
structure Mismatch where
  expected : Expectation
  /-- the place, as a number of characters from the start -/
  position : Nat
  /-- the text from the place on, shortened -/
  context : Text
  deriving DecidableEq, Repr

namespace Mismatch

/-- The mismatch at the place where a cursor stands. -/
def atCursor (expected : Expectation) (c : Cursor) : Mismatch := ⟨expected, c.pos, c.context⟩

/-- The wording of a mismatch. -/
def message (m : Mismatch) : Text := m.expected.describe ++ " at " ++ m.context

end Mismatch

end SchemaScript
