import SchemaScript.Proofs.Grammar.Written
import SchemaScript.Script.Run

/-!
# Lines of a script

A script can be written line by line: a line is a comment or a statement other than the creation of
a table, with names and texts as they are written (`Line`). `Line.write` is the text of a line and
`Line.statement` the statement that it stands for. `Line.Proper` says which lines can be read again:
names are words, and free texts are clean and do not hold the delimiter behind them.

No gap of a proper line is wider than one space (`Line.spaced_write`), so that normalizing leaves it
as it is written, but for a setting without a name: there two spaces stand next to each other.
-/

namespace SchemaScript

open Text Grammar

/-! ## Lines -/

/-- A constraint that is added to a table, as it is written. -/
inductive Addition where
  | primaryKey (fields : Text)
  | check (rule : Text)
  | foreignKey (keys : Text) (table : QualifiedName) (references : Text) (parameters : Option Text)

/-- A line of a script. -/
inductive Line where
  | comment (body : Text)
  | database (name : QualifiedName) (parameters : Option Text)
  | tablespace (name home : QualifiedName) (parameters : Option Text)
  | index (unique : Bool) (name target : QualifiedName) (fields : Text) (parameters : Option Text)
  | view (name : QualifiedName) (query : Text)
  | setting (parameter value : Text)
  | addition (target name : QualifiedName) (kind : Addition)

/-! ### What is written -/

/-- What is written behind the name of a constraint and a space. -/
def Addition.write : Addition → Text
  | primaryKey fields => "PRIMARY KEY (" ++ (fields ++ ");")
  | check rule => "CHECK (" ++ (rule ++ ");")
  | foreignKey keys table references parameters =>
    "FOREIGN KEY (" ++ (keys ++ (") REFERENCES " ++ (table.render ++ (" (" ++ (references ++
      (")" ++ (tail parameters ++ ";")))))))

/-- The text of a line, without a line feed. -/
def Line.write : Line → Text
  | comment body => "--" ++ body
  | database name parameters => "CREATE DATABASE " ++ (name.render ++ (tail parameters ++ ";"))
  | tablespace name home parameters =>
    "CREATE TABLESPACE " ++ (name.render ++ (" IN " ++ (home.render ++ (tail parameters ++ ";"))))
  | index unique name target fields parameters =>
    (if unique then "CREATE UNIQUE INDEX " else "CREATE INDEX ") ++ (name.render ++ (" ON " ++
      (target.render ++ (" (" ++ (fields ++ (")" ++ (tail parameters ++ ";")))))))
  | view name query => "CREATE VIEW " ++ (name.render ++ (" AS " ++ (query ++ ";")))
  | setting parameter value => "SET " ++ (parameter ++ (" = " ++ (value ++ ";")))
  | addition target name kind =>
    "ALTER TABLE " ++ (target.render ++ (" ADD CONSTRAINT " ++
      (name.render ++ (" " ++ kind.write))))

/-! ### What it stands for -/

/-- The constraint of a given name that an addition stands for. -/
def Addition.constraint (name : QualifiedName) : Addition → Constraint
  | primaryKey fields => .plain name (Parameters.empty.insert "PRIMARY_KEY" fields)
  | check rule => .check name rule
  | foreignKey keys table references parameters =>
    .foreignKey name table
      (((Parameters.decoded .foreignKey (parameters.getD [])).insert "KEYS" keys).insert
        "REFERENCES" references)

/-- The statement that a line stands for. -/
def Line.statement : Line → Statement
  | comment body => .comment body
  | database name parameters =>
    .database name (Parameters.decoded .database (parameters.getD []))
  | tablespace name home parameters =>
    .tablespace name home (Parameters.decoded .tablespace (parameters.getD []))
  | index unique name target fields parameters =>
    .index name target fields ((Parameters.decoded .index (parameters.getD [])).insert "UNIQUE"
      (if unique then "True" else "False"))
  | view name query => .view name query
  | setting parameter value => .setting parameter value
  | addition target name kind => .addConstraint target (kind.constraint name)

/-! ### Which lines can be read again -/

/-- Whether a text is clean and can be read up to a delimiter. -/
def CleanUpTo (delimiter : Char) (t : Text) : Prop := Clean t ∧ delimiter ∉ t

instance (delimiter : Char) (t : Text) : Decidable (CleanUpTo delimiter t) :=
  inferInstanceAs (Decidable (Clean t ∧ delimiter ∉ t))

/-- Whether an addition can be read again. -/
def Addition.Proper : Addition → Prop
  | primaryKey fields => CleanUpTo ')' fields
  | check rule => CleanUpTo ')' rule
  | foreignKey keys table references parameters =>
    (CleanUpTo ')' keys ∧ ' ' ∉ keys) ∧ table.Proper ∧
      (CleanUpTo ')' references ∧ ' ' ∉ references) ∧ ProperTail parameters

/-- Whether a line can be read again. -/
def Line.Proper : Line → Prop
  | comment body => Clean body
  | database name parameters => name.Proper ∧ ProperTail parameters
  | tablespace name home parameters => name.Proper ∧ home.Proper ∧ ProperTail parameters
  | index _ name target fields parameters =>
    name.Proper ∧ target.Proper ∧ CleanUpTo ')' fields ∧ ProperTail parameters
  | view name query => name.Proper ∧ CleanUpTo ';' query
  | setting parameter value => CleanUpTo '=' parameter ∧ CleanUpTo ';' value
  | addition target name kind => target.Proper ∧ name.Proper ∧ kind.Proper

instance : (kind : Addition) → Decidable kind.Proper
  | .primaryKey fields => inferInstanceAs (Decidable (CleanUpTo ')' fields))
  | .check rule => inferInstanceAs (Decidable (CleanUpTo ')' rule))
  | .foreignKey keys table references parameters =>
    inferInstanceAs (Decidable ((CleanUpTo ')' keys ∧ ' ' ∉ keys) ∧ table.Proper ∧
      (CleanUpTo ')' references ∧ ' ' ∉ references) ∧ ProperTail parameters))

instance : (l : Line) → Decidable l.Proper
  | .comment body => inferInstanceAs (Decidable (Clean body))
  | .database name parameters => inferInstanceAs (Decidable (name.Proper ∧ ProperTail parameters))
  | .tablespace name home parameters =>
    inferInstanceAs (Decidable (name.Proper ∧ home.Proper ∧ ProperTail parameters))
  | .index _ name target fields parameters =>
    inferInstanceAs (Decidable (name.Proper ∧ target.Proper ∧ CleanUpTo ')' fields ∧
      ProperTail parameters))
  | .view name query => inferInstanceAs (Decidable (name.Proper ∧ CleanUpTo ';' query))
  | .setting parameter value =>
    inferInstanceAs (Decidable (CleanUpTo '=' parameter ∧ CleanUpTo ';' value))
  | .addition target name kind =>
    inferInstanceAs (Decidable (target.Proper ∧ name.Proper ∧ kind.Proper))

/-! ## Normalized lines -/

section

variable {t : Text} {parameters : Option Text} {q : QualifiedName}

/-- A semicolon is clean. -/
theorem clean_semicolon : Clean ";" := clean_singleton (c := ';') (by decide)

theorem spaced_semicolon : Spaced (' ' :: ";") := by decide

/-- Parameters and their terminator may be written behind a name. -/
theorem spaced_tail (hProper : ProperTail parameters) : Spaced (tail parameters ++ ";") := by
  cases parameters with
  | none => exact clean_semicolon.toSpaced
  | some d => exact (hProper d rfl).1.spaced_cons_append spaced_semicolon

/-- A name may stand behind a space, with anything behind it. -/
theorem QualifiedName.Proper.spaced_cons_append (hProper : q.Proper) (hRest : Spaced t) :
    Spaced (' ' :: (q.render ++ t)) :=
  (clean_of_nonblank hProper.nonblank_render).spaced_cons_append_of_ne_nil hProper.render_ne_nil
    hRest

/-- What stands behind an opening parenthesis can stand behind a space too. -/
theorem spaced_parentheses (hClean : Clean t) (hProper : ProperTail parameters) :
    Spaced (' ' :: (t ++ (")" ++ (tail parameters ++ ";")))) := by
  have hClose : Clean ")" := clean_singleton (c := ')') (by decide)
  exact hClean.spaced_cons_append
    (hClose.spaced_cons_append_of_ne_nil (by decide) (spaced_tail hProper))

/-- What is added may be written behind a space. -/
theorem Addition.spaced_write {kind : Addition} (hProper : kind.Proper) :
    Spaced (' ' :: kind.write) := by
  cases kind with
  | primaryKey fields =>
    have hRest : Spaced (' ' :: (fields ++ ");")) := hProper.1.spaced_cons_append (by decide)
    exact Spaced.append_of_spaced_cons (s := " PRIMARY KEY (") (by decide) hRest
  | check rule =>
    have hRest : Spaced (' ' :: (rule ++ ");")) := hProper.1.spaced_cons_append (by decide)
    exact Spaced.append_of_spaced_cons (s := " CHECK (") (by decide) hRest
  | foreignKey keys table references parameters =>
    obtain ⟨⟨⟨hKeys, -⟩, -⟩, hTable, ⟨⟨hReferences, -⟩, -⟩, hTail⟩ := hProper
    -- from the end of the text to its start
    have hBehind := Spaced.append_of_spaced_cons (s := " (") (by decide)
      (spaced_parentheses hReferences hTail)
    have hWord := Spaced.append_of_spaced_cons (s := " ) REFERENCES ") (by decide)
      (hTable.spaced_cons_append hBehind)
    exact Spaced.append_of_spaced_cons (s := " FOREIGN KEY (") (by decide)
      (hKeys.spaced_cons_append hWord)

end

/-- A line is normalized as it is written, if it does not set a parameter without a name. -/
theorem Line.spaced_write {l : Line} (hProper : l.Proper)
    (hNamed : ∀ value, l ≠ .setting [] value) : Spaced l.write := by
  -- the text is put together from its end, and each piece in front may be followed by the rest
  cases l with
  | comment body =>
    have hHyphen : isBlank '-' = false := by decide
    have hHyphens : Clean "--" := clean_of_nonblank (by simpa using hHyphen)
    exact (hHyphens.spaced_cons_append_of_ne_nil (by decide) hProper.toSpaced).of_append_right
      (s := [' '])
  | database name parameters =>
    obtain ⟨hName, hTail⟩ := hProper
    exact Spaced.append_of_spaced_cons (s := "CREATE DATABASE ") (by decide)
      (hName.spaced_cons_append (spaced_tail hTail))
  | tablespace name home parameters =>
    obtain ⟨hName, hHome, hTail⟩ := hProper
    have hIn := Spaced.append_of_spaced_cons (s := " IN ") (by decide)
      (hHome.spaced_cons_append (spaced_tail hTail))
    exact Spaced.append_of_spaced_cons (s := "CREATE TABLESPACE ") (by decide)
      (hName.spaced_cons_append hIn)
  | index unique name target fields parameters =>
    obtain ⟨hName, hTarget, ⟨hFields, -⟩, hTail⟩ := hProper
    have hOpen := Spaced.append_of_spaced_cons (s := " (") (by decide)
      (spaced_parentheses hFields hTail)
    have hOn := Spaced.append_of_spaced_cons (s := " ON ") (by decide)
      (hTarget.spaced_cons_append hOpen)
    refine Spaced.append_of_spaced_cons ?_ (hName.spaced_cons_append hOn)
    cases unique <;> decide
  | view name query =>
    obtain ⟨hName, hQuery, -⟩ := hProper
    have hAs := Spaced.append_of_spaced_cons (s := " AS ") (by decide)
      (hQuery.spaced_cons_append spaced_semicolon)
    exact Spaced.append_of_spaced_cons (s := "CREATE VIEW ") (by decide)
      (hName.spaced_cons_append hAs)
  | setting parameter value =>
    obtain ⟨⟨hParameter, -⟩, hValue, -⟩ := hProper
    -- the name parts the two spaces around it
    have hSome : parameter ≠ [] := fun hNone => hNamed value (by rw [hNone])
    have hSign := Spaced.append_of_spaced_cons (s := " = ") (by decide)
      (hValue.spaced_cons_append spaced_semicolon)
    exact Spaced.append_of_spaced_cons (s := "SET ") (by decide)
      (hParameter.spaced_cons_append_of_ne_nil hSome hSign)
  | addition target name kind =>
    obtain ⟨hTarget, hName, hKind⟩ := hProper
    have hAdd := Spaced.append_of_spaced_cons (s := " ADD CONSTRAINT ") (by decide)
      (hName.spaced_cons_append (Addition.spaced_write hKind))
    exact Spaced.append_of_spaced_cons (s := "ALTER TABLE ") (by decide)
      (hTarget.spaced_cons_append hAdd)

end SchemaScript
