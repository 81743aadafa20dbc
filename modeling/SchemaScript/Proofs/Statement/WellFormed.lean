import SchemaScript.Proofs.Script.Body

/-!
# Well-formed statements

What can be said of every statement that a script gives, whatever the script is (`WellFormed`):

* names and scopes are words, and a scope that is there is not empty,
* the type of a field is a word, with one or two decimal numbers in parentheses or none,
* a field has no parameters but the three that the grammar knows,
* free texts are clean, and the delimiter that ends them does not stand in them.

Parameters that are decoded by rules may be anything, since the rules may be; but what the grammar
sets itself is there: the fields of a primary key, the two lists of a foreign key, and whether an
index is unique.
-/

namespace SchemaScript

open Text Grammar

/-- Whether parameters give a list of fields under a key, written without spaces. -/
def Parameters.HasFields (p : Parameters) (key : Text) : Prop :=
  ∃ fields, p.get? key = some fields ∧ CleanUpTo ')' fields ∧ ' ' ∉ fields

/-- Whether a constraint is well-formed. A primary key has no other parameter. -/
def Constraint.WellFormed : Constraint → Prop
  | plain name parameters =>
    name.Proper ∧
      ∃ fields, parameters.entries = [(("PRIMARY_KEY" : Text), fields)] ∧ CleanUpTo ')' fields
  | foreignKey name table parameters =>
    name.Proper ∧ table.Proper ∧ parameters.HasFields "KEYS" ∧ parameters.HasFields "REFERENCES"
  | check name rules => name.Proper ∧ CleanUpTo ')' rules

/-- The parameters that a field may have. -/
inductive IsFieldParameter : Text → Text → Prop
  | notNull : IsFieldParameter "NULL" "False"
  | forData {kind : Text} (hKind : IsName kind) : IsFieldParameter "FOR" (kind ++ "_DATA")
  | default {literal : Text} (hLiteral : CleanUpTo '\'' literal) :
    IsFieldParameter "DEFAULT" literal

/-- Whether a field is well-formed. -/
structure Field.WellFormed (x : Field) : Prop where
  name : x.name.Proper
  type : ∃ type : Written.FieldType, type.Proper ∧ x.type = type.write
  parameters : ∀ entry ∈ x.parameters.entries, IsFieldParameter entry.1 entry.2
  constraints : ∀ c ∈ x.constraints, c.WellFormed

/-- Whether a statement is well-formed. -/
def Statement.WellFormed : Statement → Prop
  | comment body => Clean body
  | database name _ => name.Proper
  | tablespace name home _ => name.Proper ∧ home.Proper
  | table name home fields constraints _ =>
    name.Proper ∧ home.Proper ∧ (∀ x ∈ fields, x.WellFormed) ∧ ∀ c ∈ constraints, c.WellFormed
  | index name target fields parameters =>
    name.Proper ∧ target.Proper ∧ CleanUpTo ')' fields ∧
      (parameters.get? "UNIQUE" = some "True" ∨ parameters.get? "UNIQUE" = some "False")
  | view name definition => name.Proper ∧ CleanUpTo ';' definition
  | setting parameter value => CleanUpTo '=' parameter ∧ CleanUpTo ';' value
  | addConstraint target constraint => target.Proper ∧ constraint.WellFormed

end SchemaScript
