import SchemaScript.Grammar.Table

/-!
# The grammar of statements

A statement is known by how it starts: two hyphens start a comment, which ends with its line, and
one of the keywords `CREATE`, `ALTER` and `SET` starts a statement, which ends with a semicolon.
Once the start is passed, the rest has to follow; a text that starts otherwise is no statement.

Adding a constraint to a table needs no semicolon of its own, since a foreign key takes its
parameters up to one.
-/

namespace SchemaScript.Grammar

/-! ## Comments -/

/-- What follows the hyphens of a comment. -/
def comment : Reader Statement :=
  return .comment (← Reader.take (Cursor.takeUntilOrRest "\n" false))

/-! ## Creation -/

/-- What follows `CREATE DATABASE`. -/
def database (book : Rulebook) : Reader Statement := do
  let name ← Reader.qualifiedName
  return .database name (← Reader.parameters (book .database))

/-- What follows `CREATE TABLESPACE`. -/
def tablespace (book : Rulebook) : Reader Statement := do
  let name ← Reader.qualifiedName
  let _ ← Reader.expect "IN"
  let home ← Reader.qualifiedName
  return .tablespace name home (← Reader.parameters (book .tablespace))

/-- What follows `CREATE INDEX` or `CREATE UNIQUE INDEX`. -/
def index (book : Rulebook) (unique : Bool) : Reader Statement := do
  let name ← Reader.qualifiedName
  let _ ← Reader.expect "ON"
  let target ← Reader.qualifiedName
  let fields ← inParentheses
  let parameters ← Reader.parameters (book .index)
  return .index name target fields (parameters.insert "UNIQUE" (if unique then "True" else "False"))

/-- What follows `CREATE VIEW`. -/
def view : Reader Statement := do
  let name ← Reader.qualifiedName
  let _ ← Reader.expect "AS"
  return .view name (← Reader.takeUntil ";" true)

/-- What follows `CREATE`. -/
def creation (book : Rulebook) : Reader Statement := do
  if ← keyword "DATABASE" then
    database book
  else if ← keyword "TABLESPACE" then
    tablespace book
  else if ← keyword "TABLE" then
    table book
  else if ← keyword "UNIQUE" then
    if ← keyword "INDEX" then
      index book true
    else
      Reader.fail (.literal "INDEX")
  else if ← keyword "INDEX" then
    index book false
  else if ← keyword "VIEW" then
    view
  else
    Reader.fail (.clause .creation)

/-! ## Alteration and settings -/

/-- What follows `ALTER`. -/
def alteration (book : Rulebook) : Reader Statement := do
  if ← keyword "TABLE" then
    let target ← Reader.qualifiedName
    if ← keyword "ADD" then
      match ← constraint? book with
      | some c =>
        let _ ← Reader.accept ";"
        return .addConstraint target c
      | none => Reader.fail (.clause .addedConstraint)
    else
      Reader.fail (.clause .addition)
  else
    Reader.fail (.clause .alteredTable)

/-- What follows `SET`. -/
def setting : Reader Statement := do
  let parameter ← Reader.takeUntil "=" false
  let _ ← Reader.expect "="
  return .setting parameter (← Reader.takeUntil ";" true)

/-! ## Statements -/

/-- Takes a statement if one starts at the cursor. -/
def statement? (book : Rulebook) : Reader (Option Statement) := do
  if ← Reader.accept "--" then
    return some (← comment)
  else if ← keyword "CREATE" then
    return some (← creation book)
  else if ← keyword "ALTER" then
    return some (← alteration book)
  else if ← keyword "SET" then
    return some (← setting)
  else
    return none

end SchemaScript.Grammar
