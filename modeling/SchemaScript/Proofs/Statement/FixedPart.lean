import SchemaScript.Grammar.Table
import SchemaScript.Proofs.Parameters.Mapping
import SchemaScript.Script.Run

/-!
# The fixed part of statements

A statement has a fixed part, which the grammar alone determines, and parameters, which are decoded
by rules. `fixedPart` is a statement without the latter. What the grammar sets among the decoded
parameters stays: whether an index is unique, and the two lists of fields of a foreign key.

The parameters of a field and those of a primary key are set by the grammar too, and stay.
-/

namespace SchemaScript

/-- A constraint without what rules decode. -/
def Constraint.fixedPart : Constraint → Constraint
  | plain name parameters => plain name parameters
  | foreignKey name table parameters =>
    foreignKey name table (parameters.only ["KEYS", "REFERENCES"])
  | check name rules => check name rules

/-- A field without what rules decode. -/
def Field.fixedPart (x : Field) : Field :=
  { x with constraints := x.constraints.map Constraint.fixedPart }

/-- A statement without what rules decode. -/
def Statement.fixedPart : Statement → Statement
  | comment body => comment body
  | database name _ => database name .empty
  | tablespace name home _ => tablespace name home .empty
  | table name home fields constraints _ =>
    table name home (fields.map Field.fixedPart) (constraints.map Constraint.fixedPart) .empty
  | index name target fields parameters =>
    index name target fields (parameters.only ["UNIQUE"])
  | view name definition => view name definition
  | setting parameter value => setting parameter value
  | addConstraint target constraint => addConstraint target constraint.fixedPart

/-- An outcome without what rules decode. -/
def Outcome.fixedPart : Outcome → Outcome
  | statement s => statement s.fixedPart
  | skipped d => skipped d

/-- The statement of an outcome loses what rules decode. -/
@[simp] theorem Outcome.statement?_fixedPart (o : Outcome) :
    o.fixedPart.statement? = o.statement?.map Statement.fixedPart := by
  cases o <;> rfl

/-- A diagnostic has nothing that rules decode. -/
@[simp] theorem Outcome.diagnostic?_fixedPart (o : Outcome) :
    o.fixedPart.diagnostic? = o.diagnostic? := by
  cases o <;> rfl

/-! ## What the grammar sets -/

/-- The lists of fields that are set last do not depend on what was decoded before. -/
theorem Constraint.fixedPart_foreignKey (name table : QualifiedName) (keys references : Text)
    (p q : Parameters) :
    (foreignKey name table ((p.insert "KEYS" keys).insert "REFERENCES" references)).fixedPart =
      (foreignKey name table
        ((q.insert "KEYS" keys).insert "REFERENCES" references)).fixedPart := by
  have hOnly : ((p.insert "KEYS" keys).insert "REFERENCES" references).only
      ["KEYS", "REFERENCES"] =
        ((q.insert "KEYS" keys).insert "REFERENCES" references).only ["KEYS", "REFERENCES"] := by
    refine Parameters.only_congr fun key hMem => ?_
    simp only [Parameters.get?_insert]
    -- one of the two keys is asked for, and both were set
    rcases List.mem_cons.mp hMem with rfl | hMem
    · rw [if_neg (by decide), if_pos rfl, if_neg (by decide), if_pos rfl]
    · obtain rfl := List.mem_singleton.mp hMem
      rw [if_pos rfl, if_pos rfl]
  simp only [fixedPart, hOnly]

/-- Whether an index is unique is set last, so it does not depend on what was decoded before. -/
theorem Statement.fixedPart_index (name target : QualifiedName) (fields unique : Text)
    (p q : Parameters) :
    (index name target fields (p.insert "UNIQUE" unique)).fixedPart =
      (index name target fields (q.insert "UNIQUE" unique)).fixedPart := by
  have hOnly : (p.insert "UNIQUE" unique).only ["UNIQUE"] =
      (q.insert "UNIQUE" unique).only ["UNIQUE"] := by
    refine Parameters.only_congr fun key hMem => ?_
    obtain rfl := List.mem_singleton.mp hMem
    rw [Parameters.get?_insert, if_pos rfl, Parameters.get?_insert, if_pos rfl]
  simp only [fixedPart, hOnly]

namespace Grammar

/-- An attribute without what rules decode. -/
def Attribute.fixedPart : Attribute → Attribute
  | constraint c => constraint c.fixedPart
  | parameter key value => parameter key value

/-- An item without what rules decode. -/
def Item.fixedPart : Item → Item
  | constraint c => constraint c.fixedPart
  | field x => field x.fixedPart

@[simp] theorem Attribute.constraint?_fixedPart (a : Attribute) :
    a.fixedPart.constraint? = a.constraint?.map Constraint.fixedPart := by
  cases a <;> rfl

@[simp] theorem Attribute.parameter?_fixedPart (a : Attribute) :
    a.fixedPart.parameter? = a.parameter? := by
  cases a <;> rfl

@[simp] theorem Item.constraint?_fixedPart (i : Item) :
    i.fixedPart.constraint? = i.constraint?.map Constraint.fixedPart := by
  cases i <;> rfl

@[simp] theorem Item.field?_fixedPart (i : Item) :
    i.fixedPart.field? = i.field?.map Field.fixedPart := by
  cases i <;> rfl

/-- The fixed part of a field is made of the fixed parts of its attributes. -/
theorem fixedPart_fieldOf (name : QualifiedName) (type : Text) (attributes : List Attribute) :
    (fieldOf name type attributes).fixedPart =
      fieldOf name type (attributes.map Attribute.fixedPart) := by
  simp [fieldOf, Field.fixedPart, List.map_filterMap, List.filterMap_map]

/-- The fields among some items, without what rules decode. -/
theorem filterMap_field?_fixedPart (items : List Item) :
    (items.filterMap Item.field?).map Field.fixedPart =
      (items.map Item.fixedPart).filterMap Item.field? := by
  simp [List.map_filterMap, List.filterMap_map]

/-- The constraints among some items, without what rules decode. -/
theorem filterMap_constraint?_fixedPart (items : List Item) :
    (items.filterMap Item.constraint?).map Constraint.fixedPart =
      (items.map Item.fixedPart).filterMap Item.constraint? := by
  simp [List.map_filterMap, List.filterMap_map]

end Grammar

end SchemaScript
