import SchemaScript.Statement.Data

/-!
# Nodes

A node is any part of a statement that has a written form, data and an equality of its own: a
name, a constraint, a field, or a whole statement. Nodes of different kinds are never the same.
-/

namespace SchemaScript

open Text

/-! ## The written form of statements

One line for each statement: its kind, its names, and its parameters in braces. It serves to show
and to compare statements, and is no schema script itself.

A field or a table shows its constraints in angle brackets only if it has some. The braces of a
table vanish if it has no parameters, those of everything else stay.
-/

/-- Keys and values in their order. -/
def Parameters.render (p : Parameters) : Text :=
  join "," (p.entries.map fun entry => entry.1 ++ "=" ++ entry.2)

/-- A text between braces. -/
def braced (t : Text) : Text := "\x7b" ++ t ++ "\x7d"

/-- The written form of a constraint. -/
def Constraint.render : Constraint → Text
  | plain name parameters => name.render ++ braced parameters.render
  | foreignKey name table parameters =>
    name.render ++ " ON " ++ table.render ++ braced parameters.render
  | check name rules => "check:" ++ name.render ++ ":=" ++ rules

/-- Constraints between angle brackets, or nothing if there are none. -/
def renderConstraints (separator : Text) (constraints : List Constraint) : Text :=
  if constraints.isEmpty then []
  else "<" ++ join separator (constraints.map Constraint.render) ++ ">"

/-- The written form of a field. -/
def Field.render (x : Field) : Text :=
  x.name.render ++ ":" ++ x.type ++ braced x.parameters.render
    ++ renderConstraints ";" x.constraints

/-- The written form of a statement. -/
def Statement.render : Statement → Text
  | comment body => "comment(" ++ body ++ ")"
  | database name parameters => "database(" ++ name.render ++ ")" ++ braced parameters.render
  | tablespace name home parameters =>
    "tablespace(" ++ name.render ++ " in " ++ home.render ++ ")" ++ braced parameters.render
  | table name home fields constraints parameters =>
    "table(" ++ name.render ++ " in " ++ home.render ++ ")"
      ++ "[" ++ join "," (fields.map Field.render) ++ "]"
      ++ renderConstraints "," constraints
      ++ if parameters.isEmpty then [] else braced parameters.render
  | index name target fields parameters =>
    "index(" ++ name.render ++ " on " ++ target.render ++ "[" ++ fields ++ "])"
      ++ braced parameters.render
  | view name definition => "view(" ++ name.render ++ ")[" ++ definition ++ "]"
  | setting parameter value => "param(" ++ parameter ++ "=" ++ value ++ ")"
  | addConstraint target constraint =>
    "alter(" ++ target.render ++ ":" ++ constraint.render ++ ")"

/-! ## Nodes -/

/-- A part of a statement, or a statement. -/
inductive Node where
  | name (q : QualifiedName)
  | constraint (c : Constraint)
  | field (x : Field)
  | statement (s : Statement)
  deriving DecidableEq

namespace Node

/-- The written form of a node. -/
def render : Node → Text
  | name q => q.render
  | constraint c => c.render
  | field x => x.render
  | statement s => s.render

/-- A node as data. -/
def toData : Node → Data
  | name q => q.toData
  | constraint c => c.toData
  | field x => x.toData
  | statement s => s.toData

/-- Whether two nodes are equal, the order of parameters apart. -/
def same : Node → Node → Bool
  | name q, name r => q == r
  | constraint c, constraint d => c.same d
  | field x, field y => x.same y
  | statement s, statement u => s.same u
  | _, _ => false

end Node

end SchemaScript
