import SchemaScript.Parameters.Decode
import SchemaScript.Proofs.Cursor.Reads

/-!
# Entries of written parameters

What can be written among parameters, entry by entry: a key with its value, and the shorthands. An
entry is written in pieces with single spaces between them (`Entry.pieces`), and stands for a key
and a value (`Entry.meaning`). The words that the notation uses itself are `reserved`; an entry is
`Proper` if its own words are others.

A key of several words is found by its text alone. So it must not come about where nobody wrote it,
inside of longer words or across entries: `OnlyWritten` says that each of its occurrences is a
piece.
-/

namespace SchemaScript.Parameters

open Text

/-- An entry of written parameters. -/
inductive Entry where
  /-- a key and its value, each a word or a key of several words -/
  | pair (key value : Text)
  /-- `NOT` and a key -/
  | negated (key : Text)
  /-- `WITH` and a key -/
  | present (key : Text)
  /-- an option that stands alone -/
  | option (key : Text)
  /-- a name with arguments in parentheses, with or without spaces around the arguments -/
  | function (name : Text) (arguments : List Text) (spaced : Bool)
  /-- a key and a whole number with a size unit -/
  | sized (key digits : Text) (unit : Char)
  deriving DecidableEq

/-- The words that the notation uses itself under all rules. -/
def keywords : List Text := ["NOT", "WITH", "True", "False", "K", "M", "G"]

/-- The words that the notation uses itself. -/
def reserved (rules : Rules) : List Text := keywords ++ rules.optionKeys

/-- Whether a text is a word that the notation does not use. -/
def Plain (rules : Rules) (t : Text) : Prop := IsName t ∧ t ∉ reserved rules

instance (rules : Rules) (t : Text) : Decidable (Plain rules t) :=
  inferInstanceAs (Decidable (_ ∧ _))

/-- A text with underscores for its spaces, which is how a key of several words is one word. -/
def underscored (t : Text) : Text := t.map fun c => if c = ' ' then '_' else c

namespace Entry

/-- The pieces of an entry, which are written with single spaces between them. -/
def pieces : Entry → List Text
  | pair key value => [key, value]
  | negated key => ["NOT", key]
  | present key => ["WITH", key]
  | option key => [key]
  | function name arguments true => [name ++ "(", join "," arguments, ")"]
  | function name arguments false => [name ++ "(" ++ join "," arguments ++ ")"]
  | sized key digits unit => [key, digits, [unit]]

/-- The key and the value that an entry stands for. -/
def meaning : Entry → Text × Text
  | pair key value => (underscored key, readValue (underscored value))
  | negated key => (key, "False")
  | present key => (key, "True")
  | option key => (key, "True")
  | function name arguments _ => (name, readValue (join "," arguments))
  | sized key digits unit => (key, digits ++ [unit])

/-- Whether the words of an entry are not those that the notation uses itself. Truth values may be
written as values, and options where the notation switches them. -/
def Proper (rules : Rules) : Entry → Prop
  | pair key value =>
    (Plain rules key ∨ key ∈ rules.mergeKeys) ∧
      (Plain rules value ∨ value = "True" ∨ value = "False" ∨ value ∈ rules.mergeKeys)
  | negated key => Plain rules key ∨ key ∈ rules.optionKeys
  | present key => Plain rules key ∨ key ∈ rules.optionKeys
  | option key => key ∈ rules.optionKeys
  | function name arguments _ =>
    Plain rules name ∧ join "," arguments ≠ [] ∧
      ∀ t ∈ arguments, t.all isWord = true ∧ t ∉ reserved rules
  | sized key digits unit =>
    Plain rules key ∧ digits ≠ [] ∧ digits.all isDecimal = true ∧ Shorthand.isUnit unit = true

instance (rules : Rules) (e : Entry) : Decidable (e.Proper rules) := by
  cases e <;> unfold Proper <;> infer_instance

end Entry

/-- The text of entries, with single spaces between them. -/
def write (entries : List Entry) : Text := join " " (entries.flatMap Entry.pieces)

/-- The place at which the piece of a given number starts. -/
def startOf (pieces : List Text) (n : Nat) : Nat :=
  ((pieces.take n).flatMap fun piece => piece ++ [' ']).length

/-- Whether a key stands nowhere in a text of pieces but where it is a piece. -/
def OnlyWritten (key : Text) (pieces : List Text) : Prop :=
  ∀ i < (join " " pieces).length, key <+: (join " " pieces).drop i →
    ∃ n < pieces.length, pieces[n]? = some key ∧ startOf pieces n = i

instance (key : Text) (pieces : List Text) : Decidable (OnlyWritten key pieces) :=
  inferInstanceAs (Decidable (∀ i < _, _ → ∃ n < _, _))

end SchemaScript.Parameters
