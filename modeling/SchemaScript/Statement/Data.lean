import SchemaScript.Statement.Basic

/-!
# Data

The general form in which statements are handed on: texts, lists, records with named fields, and
mappings. Records and mappings are compared without regard to order, and lists with it.
-/

namespace SchemaScript

/-- A piece of data. -/
inductive Data where
  /-- nothing -/
  | null
  | text (t : Text)
  /-- keys that the script chose, with texts -/
  | mapping (p : Parameters)
  | list (items : List Data)
  /-- fields that the kind of data fixes -/
  | record (fields : List (Text × Data))

namespace Data

mutual

/-- Whether two pieces of data are equal, the order in records and mappings apart. -/
def same : Data → Data → Bool
  | null, null => true
  | text t, text u => t == u
  | mapping p, mapping q => p.same q
  | list xs, list ys => sameItems xs ys
  | record fields, record others => fields.length == others.length && sameFields fields others
  | _, _ => false

/-- Whether two lists are equal item by item. -/
def sameItems : List Data → List Data → Bool
  | [], [] => true
  | x :: xs, y :: ys => x.same y && sameItems xs ys
  | _, _ => false

/-- Whether every field of a record is there in another with equal data. -/
def sameFields : List (Text × Data) → List (Text × Data) → Bool
  | [], _ => true
  | (name, x) :: fields, others =>
    (match others.lookup name with
      | some y => x.same y
      | none => false) && sameFields fields others

end

end Data

/-! ## Statements as data

Each statement and each constraint becomes a record with the field `type`, which tells its kind,
and one field for each of its parts. A scope stays apart from its name, and no scope differs from
an empty one.
-/

/-- A name as data. -/
def QualifiedName.toData (q : QualifiedName) : Data :=
  .record [("scope", (q.scope.map Data.text).getD .null), ("name", .text q.name)]

/-- A constraint as data. -/
def Constraint.toData : Constraint → Data
  | plain name parameters =>
    .record [("type", .text "constraint"), ("name", name.toData),
      ("parameters", .mapping parameters)]
  | foreignKey name table parameters =>
    .record [("type", .text "foreign_key"), ("name", name.toData), ("table", table.toData),
      ("parameters", .mapping parameters)]
  | check name rules =>
    .record [("type", .text "check"), ("field", name.toData), ("rules", .text rules)]

/-- A field as data; its field `type` is the type of the field's values. -/
def Field.toData (x : Field) : Data :=
  .record [("name", x.name.toData), ("type", .text x.type), ("parameters", .mapping x.parameters),
    ("constraints", .list (x.constraints.map Constraint.toData))]

/-- A statement as data. -/
def Statement.toData : Statement → Data
  | comment body => .record [("type", .text "comment"), ("body", .text body)]
  | database name parameters =>
    .record [("type", .text "create_database"), ("name", name.toData),
      ("parameters", .mapping parameters)]
  | tablespace name home parameters =>
    .record [("type", .text "create_tablespace"), ("name", name.toData),
      ("database", home.toData), ("parameters", .mapping parameters)]
  | table name home fields constraints parameters =>
    .record [("type", .text "create_table"), ("name", name.toData), ("database", home.toData),
      ("fields", .list (fields.map Field.toData)),
      ("constraints", .list (constraints.map Constraint.toData)),
      ("parameters", .mapping parameters)]
  | index name target fields parameters =>
    .record [("type", .text "create_index"), ("name", name.toData), ("table", target.toData),
      ("fields", .text fields), ("parameters", .mapping parameters)]
  | view name definition =>
    .record [("type", .text "create_view"), ("name", name.toData), ("definition", .text definition)]
  | setting parameter value =>
    .record [("type", .text "set_parameter"), ("variable", .text parameter), ("value", .text value)]
  | addConstraint target constraint =>
    .record [("type", .text "alter_table_add_constraint"), ("table", target.toData),
      ("constraint", constraint.toData)]

end SchemaScript
