import SchemaScript.Cursor.Reader

/-!
# The grammar of tables

The body of a table is a list of items, fields and constraints mixed, each of which a comma may
follow. A field is a name, a type with its size if it has one, and any number of attributes:

* `NOT NULL`, which is kept as `NULL` = `False`,
* `FOR kind DATA`, which is kept as `FOR` = `kind_DATA`,
* `WITH DEFAULT`, alone or with a quoted literal, which is kept as `DEFAULT` = `True` or the
  literal,
* a constraint.

The items end where neither a constraint nor a name stands next, and the attributes of a field
where none of these forms stands next. A key that is given again takes the later value.
-/

namespace SchemaScript.Grammar

/-! ## Phrases

The pieces that several parts of the grammar are built of: keywords that stand apart from what
follows, texts in parentheses, and quoted literals.
-/

/-- Passes a keyword if it stands next with a space or a line feed behind it. -/
def keyword (literal : Text) : Reader Bool := do
  if ← Reader.accept (literal ++ " ") then
    return true
  else
    Reader.accept (literal ++ "\n")

/-- Takes the text between two parentheses, up to the first closing one. -/
def inParentheses : Reader Text := do
  let _ ← Reader.expect "("
  let content ← Reader.takeUntil ")" false
  let _ ← Reader.expect ")"
  return content

/-- Takes the text between two single quotes if a quote stands next. -/
def quotedLiteral? : Reader (Option Text) := do
  if ← Reader.accept "'" then
    let content ← Reader.takeUntil "'" false
    let _ ← Reader.expect "'"
    return some content
  else
    return none

/-- A text without its spaces. -/
def withoutSpaces (t : Text) : Text := t.filter (· != ' ')

/-! ## Constraints

A constraint is written `CONSTRAINT name` and then one of

* `PRIMARY KEY (fields)`, which is kept under the key `PRIMARY_KEY`,
* `FOREIGN KEY (fields) REFERENCES table (fields)` and parameters with their terminator. The two
  lists of fields become the parameters `KEYS` and `REFERENCES`, without spaces,
* `CHECK (rule)`.

Once `CONSTRAINT` is passed, the rest has to follow.
-/

/-- What follows `FOREIGN KEY`. -/
def foreignKey (book : Rulebook) (name : QualifiedName) : Reader Constraint := do
  let keys ← inParentheses
  let _ ← Reader.expect "REFERENCES"
  let table ← Reader.qualifiedName
  let references ← inParentheses
  let parameters ← Reader.parameters (book .foreignKey)
  return .foreignKey name table
    ((parameters.insert "KEYS" (withoutSpaces keys)).insert "REFERENCES" (withoutSpaces references))

/-- What follows the name of a constraint. -/
def constraintKind (book : Rulebook) (name : QualifiedName) : Reader Constraint := do
  if ← keyword "PRIMARY KEY" then
    return .plain name (Parameters.empty.insert "PRIMARY_KEY" (← inParentheses))
  else if ← keyword "FOREIGN KEY" then
    foreignKey book name
  else if ← keyword "CHECK" then
    return .check name (← inParentheses)
  else
    Reader.fail (.clause .constraintKind)

/-- Takes a constraint if one stands next. -/
def constraint? (book : Rulebook) : Reader (Option Constraint) := do
  if ← keyword "CONSTRAINT" then
    return some (← constraintKind book (← Reader.qualifiedName))
  else
    return none

/-! ## Fields -/

/-- The size of a type: a number, or two with a comma between them. -/
def size : Reader Text := do
  let digits ← Reader.number
  if ← Reader.accept "," then
    return digits ++ "," ++ (← Reader.number)
  else
    return digits

/-- Takes the name of a type, with its size in parentheses if it has one. -/
def fieldType : Reader Text := do
  let name ← Reader.identifier
  if ← Reader.accept "(" then
    let digits ← size
    let _ ← Reader.expect ")"
    return name ++ "(" ++ digits ++ ")"
  else
    return name

/-- An attribute of a field. -/
inductive Attribute where
  | constraint (c : Constraint)
  | parameter (key value : Text)
  deriving DecidableEq

/-- Takes an attribute if one stands next. -/
def attribute? (book : Rulebook) : Reader (Option Attribute) := do
  if let some c ← constraint? book then
    return some (.constraint c)
  else if ← Reader.accept "NOT NULL" then
    return some (.parameter "NULL" "False")
  else if ← Reader.accept "FOR" then
    let kind ← Reader.identifier
    let _ ← Reader.expect "DATA"
    return some (.parameter "FOR" (kind ++ "_DATA"))
  else if ← Reader.accept "WITH DEFAULT" then
    return some (.parameter "DEFAULT" ((← quotedLiteral?).getD "True"))
  else
    return none

/-- The constraint that an attribute is, if it is one. -/
def Attribute.constraint? : Attribute → Option Constraint
  | constraint c => some c
  | parameter _ _ => none

/-- The parameter that an attribute sets, if it sets one. -/
def Attribute.parameter? : Attribute → Option (Text × Text)
  | constraint _ => none
  | parameter key value => some (key, value)

/-- The field of a name, a type and attributes. -/
def fieldOf (name : QualifiedName) (type : Text) (attributes : List Attribute) : Field where
  name := name
  type := type
  parameters := .ofList (attributes.filterMap Attribute.parameter?)
  constraints := attributes.filterMap Attribute.constraint?

/-- Takes a field if a name stands next. -/
def field? (book : Rulebook) : Reader (Option Field) := do
  match ← Reader.qualifiedName? with
  | some name =>
    let type ← fieldType
    return some (fieldOf name type (← Reader.many (attribute? book)))
  | none => return none

/-! ## Tables -/

/-- An item in the body of a table. -/
inductive Item where
  | constraint (c : Constraint)
  | field (x : Field)
  deriving DecidableEq

/-- The constraint that an item is, if it is one. -/
def Item.constraint? : Item → Option Constraint
  | constraint c => some c
  | field _ => none

/-- The field that an item is, if it is one. -/
def Item.field? : Item → Option Field
  | constraint _ => none
  | field x => some x

/-- Takes a constraint or a field if one stands next. -/
def constraintOrField? (book : Rulebook) : Reader (Option Item) := do
  match ← constraint? book with
  | some c => return some (.constraint c)
  | none => return (← field? book).map .field

/-- Takes an item if one stands next, and the comma behind it if there is one. -/
def item? (book : Rulebook) : Reader (Option Item) := do
  match ← constraintOrField? book with
  | some item =>
    let _ ← Reader.accept ","
    return some item
  | none => return none

/-- What follows `CREATE TABLE`. -/
def table (book : Rulebook) : Reader Statement := do
  let name ← Reader.qualifiedName
  let _ ← Reader.expect "("
  let items ← Reader.many (item? book)
  let _ ← Reader.expect ")"
  let _ ← Reader.expect "IN"
  let home ← Reader.qualifiedName
  let parameters ← Reader.parameters (book .table)
  return .table name home (items.filterMap Item.field?) (items.filterMap Item.constraint?)
    parameters

end SchemaScript.Grammar
