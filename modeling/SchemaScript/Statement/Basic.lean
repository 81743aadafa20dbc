import SchemaScript.Parameters.Basic

/-!
# Statements

What a schema script says, statement by statement: comments, the creation of databases,
tablespaces, tables, indexes and views, the setting of a parameter, and the addition of a
constraint to a table. A table holds its fields and its own constraints; a field may have
constraints too. Texts that the script gives in another language, such as the definition of a view
or the rule of a check, are kept as they stand. What is created is known by its name, which may
stand in a scope.

`same` is equality up to the order of parameters.
-/

namespace SchemaScript

/-! ## Names -/

/-- A name, and the scope that it stands in if one is given. -/
structure QualifiedName where
  name : Text
  scope : Option Text := none
  deriving DecidableEq, Repr

namespace QualifiedName

/-- The written form of a name: the scope, a point and the name. A scope without characters is not
written. -/
def render (q : QualifiedName) : Text :=
  match q.scope with
  | none | some [] => q.name
  | some (c :: scope) => c :: scope ++ "." ++ q.name

example : render ⟨"T1", some "OWNER"⟩ = "OWNER.T1" ∧ render ⟨"T1", some ""⟩ = "T1" := by
  decide +kernel

end QualifiedName

/-! ## Constraints and fields -/

/-- A named constraint on a table or a field. -/
inductive Constraint where
  /-- a constraint that is described by parameters alone, such as a primary key -/
  | plain (name : QualifiedName) (parameters : Parameters)
  /-- a reference to the rows of another table -/
  | foreignKey (name table : QualifiedName) (parameters : Parameters)
  /-- a rule that holds of every row -/
  | check (name : QualifiedName) (rules : Text)
  deriving DecidableEq

/-- A field of a table. -/
structure Field where
  name : QualifiedName
  /-- the type with its size, if one is given -/
  type : Text
  parameters : Parameters := {}
  constraints : List Constraint := []
  deriving DecidableEq

/-! ## Statements -/

/-- A statement of a script. -/
inductive Statement where
  /-- a comment that takes up the rest of its line -/
  | comment (body : Text)
  | database (name : QualifiedName) (parameters : Parameters)
  /-- a tablespace in a database -/
  | tablespace (name home : QualifiedName) (parameters : Parameters)
  /-- a table in a tablespace or a database -/
  | table (name home : QualifiedName) (fields : List Field) (constraints : List Constraint)
    (parameters : Parameters)
  /-- an index on a table, whose fields are kept as they are written -/
  | index (name target : QualifiedName) (fields : Text) (parameters : Parameters)
  /-- a view, with its query -/
  | view (name : QualifiedName) (definition : Text)
  /-- the setting of a parameter of the session -/
  | setting (parameter value : Text)
  /-- the addition of a constraint to a table that exists -/
  | addConstraint (target : QualifiedName) (constraint : Constraint)
  deriving DecidableEq

/-! ## Parts -/

/-- The name of a constraint. -/
def Constraint.name : Constraint → QualifiedName
  | plain name _ | foreignKey name _ _ | check name _ => name

/-- The name without its scope of what a statement creates. -/
def Statement.simpleName? : Statement → Option Text
  | database name _ | tablespace name _ _ | table name _ _ _ _ | index name _ _ _ | view name _ =>
    some name.name
  | comment _ | setting _ _ | addConstraint _ _ => none

/-- For an index, whether its parameters say that it is unique. -/
def Statement.unique? : Statement → Option Bool
  | index _ _ _ parameters => some (parameters.get? "UNIQUE" == some "True")
  | _ => none

/-! ## Equality up to the order of parameters -/

/-- Whether two lists are equal item by item, under an equality of their items. -/
def sameItems {α : Type} (same : α → α → Bool) : List α → List α → Bool
  | [], [] => true
  | x :: xs, y :: ys => same x y && sameItems same xs ys
  | _, _ => false

/-- Whether two constraints are equal, the order of parameters apart. -/
def Constraint.same : Constraint → Constraint → Bool
  | plain name parameters, plain name₂ parameters₂ => name == name₂ && parameters.same parameters₂
  | foreignKey name table parameters, foreignKey name₂ table₂ parameters₂ =>
    name == name₂ && table == table₂ && parameters.same parameters₂
  | check name rules, check name₂ rules₂ => name == name₂ && rules == rules₂
  | _, _ => false

/-- Whether two fields are equal, the order of parameters apart. -/
def Field.same (x y : Field) : Bool :=
  x.name == y.name && x.type == y.type && x.parameters.same y.parameters
    && sameItems Constraint.same x.constraints y.constraints

/-- Whether two statements are equal, the order of parameters apart. -/
def Statement.same : Statement → Statement → Bool
  | comment body, comment body₂ => body == body₂
  | database name parameters, database name₂ parameters₂ =>
    name == name₂ && parameters.same parameters₂
  | tablespace name home parameters, tablespace name₂ home₂ parameters₂ =>
    name == name₂ && home == home₂ && parameters.same parameters₂
  | table name home fields constraints parameters,
    table name₂ home₂ fields₂ constraints₂ parameters₂ =>
    name == name₂ && home == home₂ && sameItems Field.same fields fields₂
      && sameItems Constraint.same constraints constraints₂ && parameters.same parameters₂
  | index name target fields parameters, index name₂ target₂ fields₂ parameters₂ =>
    name == name₂ && target == target₂ && fields == fields₂ && parameters.same parameters₂
  | view name definition, view name₂ definition₂ => name == name₂ && definition == definition₂
  | setting parameter value, setting parameter₂ value₂ => parameter == parameter₂ && value == value₂
  | addConstraint target constraint, addConstraint target₂ constraint₂ =>
    target == target₂ && constraint.same constraint₂
  | _, _ => false

end SchemaScript
