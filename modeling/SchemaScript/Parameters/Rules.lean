import SchemaScript.Text.Quoted

/-!
# Rules of the parameter notation

Parameters are written after a statement's fixed part in a small notation that differs a little
from construct to construct. `Rules` holds the settings of the notation, and a `Rulebook` has one
for each `Construct` whose parameters a script may give. `Rulebook.standard` is the one that
scripts are read with unless other rules are named.

`RulesError` says what can be wrong with rules: an empty separator, which separates nothing, and
rules for a construct that does not exist.
-/

namespace SchemaScript

/-- The settings of the notation in which parameters are written. -/
structure Parameters.Rules where
  /-- ends the parameters -/
  terminator : Text := ";"
  /-- stands between keys and values -/
  separator : Text := " "
  /-- stands for the separators inside a key of several words -/
  merger : Text := "_"
  /-- the keys of several words -/
  mergeKeys : List Text := []
  /-- the keys that may stand alone, and then are switched on -/
  optionKeys : List Text := []
  deriving DecidableEq, Repr

/-- What is changed in given rules; what is missing stays as it is. -/
structure Parameters.RulesChange where
  terminator : Option Text := none
  separator : Option Text := none
  merger : Option Text := none
  mergeKeys : Option (List Text) := none
  optionKeys : Option (List Text) := none
  deriving DecidableEq, Repr

/-- The rules after a change. -/
def Parameters.Rules.change (rules : Parameters.Rules) (change : Parameters.RulesChange) :
    Parameters.Rules where
  terminator := change.terminator.getD rules.terminator
  separator := change.separator.getD rules.separator
  merger := change.merger.getD rules.merger
  mergeKeys := change.mergeKeys.getD rules.mergeKeys
  optionKeys := change.optionKeys.getD rules.optionKeys

/-- The constructs of a script that have parameters. -/
inductive Construct where
  | database
  | tablespace
  | table
  | index
  | foreignKey
  deriving DecidableEq, Repr

namespace Construct

/-- The name under which rules for a construct are given. -/
def name : Construct → Text
  | database => "database"
  | tablespace => "tablespace"
  | table => "table"
  | index => "index"
  | foreignKey => "foreign_key"

/-- All constructs. -/
def all : List Construct := [database, tablespace, table, index, foreignKey]

/-- The construct of a name. -/
def ofName? (text : Text) : Option Construct := all.find? fun construct => construct.name == text

theorem ofName?_name (construct : Construct) : ofName? construct.name = some construct := by
  cases construct <;> decide +kernel

end Construct

/-- What can be wrong with rules. -/
inductive RulesError where
  /-- the separator is empty -/
  | emptySeparator
  /-- there is no construct of that name -/
  | unknownConstruct (name : Text)
  deriving DecidableEq, Repr

/-- The wording of what is wrong with rules. -/
def RulesError.message : RulesError → Text
  | emptySeparator => "empty separator"
  | unknownConstruct name => "Unknown dictionary rule set: " ++ Text.quoted name

/-- The rules for each construct. -/
abbrev Rulebook := Construct → Parameters.Rules

namespace Rulebook

/-- The rules that scripts are read with unless others are named. -/
def standard : Rulebook
  | .database => {}
  | .tablespace => { mergeKeys := ["USING STOGROUP"], optionKeys := ["LOGGED"] }
  | .table => { mergeKeys := ["DATA CAPTURE"] }
  | .index => { mergeKeys := ["USING STOGROUP"], optionKeys := ["CLUSTER"] }
  | .foreignKey => { mergeKeys := ["ON DELETE", "SET NULL"], optionKeys := ["ENFORCED"] }

/-- The rulebook with other rules for one construct. -/
def set (book : Rulebook) (construct : Construct) (rules : Parameters.Rules) : Rulebook :=
  fun other => if other = construct then rules else book other

/-- The standard rules, with those of the named constructs replaced. Of two rules for one
construct the later count; of several unknown names the first is reported. -/
def ofList (named : List (Text × Parameters.Rules)) : Except RulesError Rulebook :=
  named.foldlM (fun book entry =>
    match Construct.ofName? entry.1 with
    | some construct => .ok (book.set construct entry.2)
    | none => .error (.unknownConstruct entry.1)) standard

end Rulebook

end SchemaScript
