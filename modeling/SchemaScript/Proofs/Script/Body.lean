import SchemaScript.Proofs.Grammar.Progress
import SchemaScript.Proofs.Script.Line

/-!
# Bodies of tables, as they are written

The creation of a table as it is written, down to the digits of a size (`Written.Table`). As with
the lines of a script, `write` is the text and `Proper` says what can be read again: names and types
are words, free texts are clean and do not hold the delimiter behind them, and no field has the bare
name `CONSTRAINT`, which would start a constraint.

The pieces are read from the inside out. Where an optional piece is missing, the blanks at its place
are passed all the same; so a type without a size and a default without a literal leave the text
behind them, blanks apart.
-/

namespace SchemaScript

open Text Grammar

namespace Written

/-! ## What is written -/

/-- A decimal number. -/
structure Decimal where
  whole : Text
  places : Option Text

/-- The size of a type. -/
inductive Size where
  | single (n : Decimal)
  | double (n m : Decimal)

/-- The type of a field. -/
structure FieldType where
  name : Text
  size : Option Size

/-- A constraint in the body of a table. -/
inductive Constraint where
  | primaryKey (name : QualifiedName) (fields : Text)
  | check (name : QualifiedName) (rule : Text)

/-- An attribute of a field. -/
inductive Attribute where
  | notNull
  | forData (kind : Text)
  | default (literal : Option Text)
  | constraint (c : Constraint)

/-- A field of a table. -/
structure Field where
  name : QualifiedName
  type : FieldType
  attributes : List Attribute

/-- An item in the body of a table. -/
inductive Item where
  | field (x : Field)
  | constraint (c : Constraint)

/-- The creation of a table. -/
structure Table where
  name : QualifiedName
  home : QualifiedName
  items : List Item
  parameters : Option Text

/-! ### The text -/

/-- Digits, and a point with more digits if there are places. -/
def Decimal.write : Decimal → Text
  | ⟨whole, none⟩ => whole
  | ⟨whole, some places⟩ => whole ++ '.' :: places

/-- One number, or two with a comma between them. -/
def Size.write : Size → Text
  | single n => n.write
  | double n m => n.write ++ "," ++ m.write

/-- The name of a type, with its size in parentheses. -/
def FieldType.write : FieldType → Text
  | ⟨name, none⟩ => name
  | ⟨name, some size⟩ => name ++ "(" ++ size.write ++ ")"

/-- The text of a constraint. -/
def Constraint.write : Constraint → Text
  | primaryKey name fields =>
    "CONSTRAINT " ++ (name.render ++ (" PRIMARY KEY (" ++ (fields ++ ")")))
  | check name rule => "CONSTRAINT " ++ (name.render ++ (" CHECK (" ++ (rule ++ ")")))

/-- The text of an attribute. -/
def Attribute.write : Attribute → Text
  | notNull => "NOT NULL"
  | forData kind => "FOR " ++ (kind ++ " DATA")
  | default none => "WITH DEFAULT"
  | default (some literal) => "WITH DEFAULT '" ++ (literal ++ "'")
  | constraint c => c.write

/-- The text of some attributes, each behind a space. -/
def Attribute.writeAll (attributes : List Attribute) : Text :=
  attributes.flatMap fun a => ' ' :: a.write

/-- The name of a field and its type, with a space between them, and its attributes. -/
def Field.write (x : Field) : Text :=
  x.name.render ++ ' ' :: (x.type.write ++ Attribute.writeAll x.attributes)

/-- The text of an item. -/
def Item.write : Item → Text
  | field x => x.write
  | constraint c => c.write

/-- The text of some items, with a comma and a space between each two. -/
def Item.writeAll (items : List Item) : Text := Text.join ", " (items.map Item.write)

/-- The creation of a table on one line. -/
def Table.write (t : Table) : Text :=
  "CREATE TABLE " ++ (t.name.render ++ (" (" ++ (Item.writeAll t.items ++ (") IN " ++
    (t.home.render ++ (tail t.parameters ++ ";"))))))

example :
    Table.write ⟨⟨"T1", some "O"⟩, ⟨"D1", none⟩,
      [.field ⟨⟨"A", none⟩, ⟨"DEC", some (.double ⟨"8", none⟩ ⟨"2", none⟩)⟩, [.notNull]⟩,
        .constraint (.check ⟨"C1", none⟩ "A > 0")], some "CCSID ASCII"⟩ =
      "CREATE TABLE O.T1 (A DEC(8,2) NOT NULL, CONSTRAINT C1 CHECK (A > 0)) IN D1 CCSID ASCII;" := by
  decide +kernel

/-! ### What it stands for -/

/-- The constraint that is written. -/
def Constraint.constraint : Constraint → SchemaScript.Constraint
  | primaryKey name fields => .plain name (Parameters.empty.insert "PRIMARY_KEY" fields)
  | check name rule => .check name rule

/-- The parameter that an attribute sets, if it sets one. -/
def Attribute.parameter? : Attribute → Option (Text × Text)
  | notNull => some ("NULL", "False")
  | forData kind => some ("FOR", kind ++ "_DATA")
  | default literal => some ("DEFAULT", literal.getD "True")
  | constraint _ => none

/-- The constraint that an attribute is, if it is one. -/
def Attribute.constraint? : Attribute → Option SchemaScript.Constraint
  | constraint c => some c.constraint
  | notNull | forData _ | default _ => none

/-- The field with the type as it is written. Of two values for a parameter the later one counts. -/
def Field.field (x : Field) : SchemaScript.Field where
  name := x.name
  type := x.type.write
  parameters := .ofList (x.attributes.filterMap Attribute.parameter?)
  constraints := x.attributes.filterMap Attribute.constraint?

/-- The field that an item is, if it is one. -/
def Item.field? : Item → Option SchemaScript.Field
  | field x => some x.field
  | constraint _ => none

/-- The constraint that an item is, if it is one. -/
def Item.constraint? : Item → Option SchemaScript.Constraint
  | field _ => none
  | constraint c => some c.constraint

/-- The statement that the creation of a table stands for: its fields and its own constraints, each
in the order in which they are written. -/
def Table.statement (t : Table) : Statement :=
  .table t.name t.home (t.items.filterMap Item.field?) (t.items.filterMap Item.constraint?)
    (Parameters.decoded .table (t.parameters.getD []))

/-! ### What can be read again -/

/-- Whether a text is made of digits. -/
def IsDigits (t : Text) : Prop := t ≠ [] ∧ ∀ c ∈ t, isDecimal c = true

/-- Whether a decimal number has digits on both sides of its point, if it has one. -/
structure Decimal.Proper (n : Decimal) : Prop where
  whole : IsDigits n.whole
  places : ∀ t ∈ n.places, IsDigits t

/-- Whether the numbers of a size are proper. -/
def Size.Proper : Size → Prop
  | single n => n.Proper
  | double n m => n.Proper ∧ m.Proper

/-- Whether a type has a word for its name and proper numbers for its size. -/
structure FieldType.Proper (x : FieldType) : Prop where
  name : IsName x.name
  size : ∀ s ∈ x.size, s.Proper

/-- Whether a constraint has a proper name and a text that ends at the closing parenthesis. -/
def Constraint.Proper : Constraint → Prop
  | primaryKey name fields => name.Proper ∧ CleanUpTo ')' fields
  | check name rule => name.Proper ∧ CleanUpTo ')' rule

/-- Whether an attribute can be read again: the kind of data is a word, and a literal ends at its
quote. -/
def Attribute.Proper : Attribute → Prop
  | notNull => True
  | forData kind => IsName kind
  | default literal => ∀ t ∈ literal, CleanUpTo '\'' t
  | constraint c => c.Proper

/-- Whether a field can be read again. A field with the bare name `CONSTRAINT` cannot. -/
structure Field.Proper (x : Field) : Prop where
  name : x.name.Proper
  other : x.name ≠ ⟨"CONSTRAINT", none⟩
  type : x.type.Proper
  attributes : ∀ a ∈ x.attributes, a.Proper

/-- Whether an item can be read again. -/
def Item.Proper : Item → Prop
  | field x => x.Proper
  | constraint c => c.Proper

/-- Whether the creation of a table can be read again. -/
structure Table.Proper (t : Table) : Prop where
  name : t.name.Proper
  home : t.home.Proper
  items : ∀ i ∈ t.items, i.Proper
  parameters : ProperTail t.parameters

instance (t : Text) : Decidable (IsDigits t) :=
  decidable_of_iff (t ≠ [] ∧ t.all isDecimal = true) (by rw [IsDigits, List.all_eq_true])

instance (n : Decimal) : Decidable n.Proper :=
  decidable_of_iff (IsDigits n.whole ∧ ∀ t ∈ n.places, IsDigits t)
    ⟨fun h => ⟨h.1, h.2⟩, fun h => ⟨h.whole, h.places⟩⟩

instance : (s : Size) → Decidable s.Proper
  | .single n => inferInstanceAs (Decidable n.Proper)
  | .double n m => inferInstanceAs (Decidable (n.Proper ∧ m.Proper))

instance (x : FieldType) : Decidable x.Proper :=
  decidable_of_iff (IsName x.name ∧ ∀ s ∈ x.size, s.Proper)
    ⟨fun h => ⟨h.1, h.2⟩, fun h => ⟨h.name, h.size⟩⟩

instance : (c : Constraint) → Decidable c.Proper
  | .primaryKey name fields => inferInstanceAs (Decidable (name.Proper ∧ CleanUpTo ')' fields))
  | .check name rule => inferInstanceAs (Decidable (name.Proper ∧ CleanUpTo ')' rule))

instance : (a : Attribute) → Decidable a.Proper
  | .notNull => inferInstanceAs (Decidable True)
  | .forData kind => inferInstanceAs (Decidable (IsName kind))
  | .default literal => inferInstanceAs (Decidable (∀ t ∈ literal, CleanUpTo '\'' t))
  | .constraint c => inferInstanceAs (Decidable c.Proper)

instance (x : Field) : Decidable x.Proper :=
  decidable_of_iff (x.name.Proper ∧ x.name ≠ ⟨"CONSTRAINT", none⟩ ∧ x.type.Proper ∧
      ∀ a ∈ x.attributes, a.Proper)
    ⟨fun h => ⟨h.1, h.2.1, h.2.2.1, h.2.2.2⟩, fun h => ⟨h.name, h.other, h.type, h.attributes⟩⟩

instance : (i : Item) → Decidable i.Proper
  | .field x => inferInstanceAs (Decidable x.Proper)
  | .constraint c => inferInstanceAs (Decidable c.Proper)

instance (t : Table) : Decidable t.Proper :=
  decidable_of_iff (t.name.Proper ∧ t.home.Proper ∧ (∀ i ∈ t.items, i.Proper) ∧
      ProperTail t.parameters)
    ⟨fun h => ⟨h.1, h.2.1, h.2.2.1, h.2.2.2⟩, fun h => ⟨h.name, h.home, h.items, h.parameters⟩⟩

/-! ## First characters -/

/-- The first letters of attributes. -/
def Attribute.initials : Text := "NFWC"

/-- An attribute is known by its first letter. -/
theorem Attribute.write_starts (a : Attribute) : ∃ c ∈ initials, ∃ t, a.write = c :: t := by
  cases a with
  | notNull => exact ⟨'N', by decide, _, rfl⟩
  | forData kind => exact ⟨'F', by decide, _, rfl⟩
  | default literal => cases literal <;> exact ⟨'W', by decide, _, rfl⟩
  | constraint c => cases c <;> exact ⟨'C', by decide, _, rfl⟩

/-- A type starts with a word character. -/
theorem FieldType.write_starts {x : FieldType} (hProper : x.Proper) :
    ∃ c t, x.write = c :: t ∧ isWord c = true := by
  obtain ⟨name, size⟩ := x
  obtain ⟨c, t, rfl⟩ := List.exists_cons_of_ne_nil hProper.name.1
  have hWord : isWord c = true := hProper.name.2 c (List.mem_cons_self ..)
  cases size with
  | none => exact ⟨c, t, rfl, hWord⟩
  | some size => exact ⟨c, _, rfl, hWord⟩

/-- An item starts with a character that is no blank. -/
theorem Item.write_starts {i : Item} (hProper : i.Proper) :
    ∃ c t, i.write = c :: t ∧ isBlank c = false := by
  cases i with
  | field x =>
    have hName : x.name.Proper := Field.Proper.name hProper
    obtain ⟨c, t, hRender⟩ := List.exists_cons_of_ne_nil hName.render_ne_nil
    have hBlank := hName.nonblank_render c (hRender ▸ List.mem_cons_self ..)
    exact ⟨c, _, by rw [Item.write, Field.write, hRender, List.cons_append], hBlank⟩
  | constraint c => cases c <;> exact ⟨'C', _, rfl, by decide⟩

/-! ## Normalized bodies

The text of an item is clean as a whole, and so is that of all items. -/

/-- Digits are word characters. -/
theorem IsDigits.isName {t : Text} (hDigits : IsDigits t) : IsName t :=
  ⟨hDigits.1, fun c hMem => isWord_of_isDecimal (hDigits.2 c hMem)⟩

/-- A name is clean, since it has no blanks. -/
theorem clean_of_isName {t : Text} (hName : IsName t) : Clean t :=
  clean_of_nonblank hName.isBlank_eq_false

/-- So is a name with its scope. -/
theorem clean_render {q : QualifiedName} (hProper : q.Proper) : Clean q.render :=
  clean_of_nonblank hProper.nonblank_render

/-- A clean text is clean in parentheses. -/
theorem clean_parentheses {t : Text} (hClean : Clean t) : Clean ("(" ++ (t ++ ")")) :=
  (clean_singleton (c := '(') (by decide)).append
    (hClean.append (clean_singleton (c := ')') (by decide)))

/-- A number is clean. -/
theorem Decimal.clean_write {n : Decimal} (hProper : n.Proper) : Clean n.write := by
  obtain ⟨whole, places⟩ := n
  have hWhole := clean_of_isName hProper.whole.isName
  cases places with
  | none => exact hWhole
  | some places =>
    have hPoint : Clean "." := clean_singleton (c := '.') (by decide)
    exact hWhole.append (hPoint.append (clean_of_isName (hProper.places places rfl).isName))

/-- A size is clean, as it has no blanks either. -/
theorem Size.clean_write {s : Size} (hProper : s.Proper) : Clean s.write := by
  cases s with
  | single n => exact n.clean_write hProper
  | double n m =>
    have hComma : Clean "," := clean_singleton (c := ',') (by decide)
    exact ((n.clean_write hProper.1).append hComma).append (m.clean_write hProper.2)

/-- A type is clean. -/
theorem FieldType.clean_write {x : FieldType} (hProper : x.Proper) : Clean x.write := by
  obtain ⟨name, size⟩ := x
  have hName : Clean name := clean_of_isName hProper.name
  cases size with
  | none => exact hName
  | some size =>
    have hSize := hName.append (clean_parentheses (size.clean_write (hProper.size size rfl)))
    rwa [← List.append_assoc, ← List.append_assoc] at hSize

/-- A constraint is clean: one space stands between its words, and its text is clean in its
parentheses. -/
theorem clean_constraint {name : QualifiedName} {content : Text} (word : Text) (hName : name.Proper)
    (hWord : Clean word) (hSome : word ≠ []) (hContent : Clean content) :
    Clean ("CONSTRAINT" ++ ' ' :: (name.render ++ ' ' :: (word ++ ' ' :: ("(" ++
      (content ++ ")"))))) := by
  -- one space between the words, from the last one to the first one
  have hKind := hWord.append_space (clean_parentheses hContent) hSome (by simp)
  have hNamed := (clean_render hName).append_space hKind hName.render_ne_nil (by simp [hSome])
  exact Clean.append_space (by decide) hNamed (by decide) (by simp)

/-- The text of a proper constraint is clean. -/
theorem Constraint.clean_write {c : Constraint} (hProper : c.Proper) : Clean c.write := by
  cases c with
  | primaryKey name fields =>
    exact clean_constraint "PRIMARY KEY" hProper.1 (by decide) (by decide) hProper.2.1
  | check name rule =>
    exact clean_constraint "CHECK" hProper.1 (by decide) (by decide) hProper.2.1

/-- An attribute is clean, with its literal in quotes. -/
theorem Attribute.clean_write {a : Attribute} (hProper : a.Proper) : Clean a.write := by
  cases a with
  | notNull => exact (by decide : Clean "NOT NULL")
  -- the kind of data stands between two words
  | forData kind =>
    have hKind : IsName kind := hProper
    exact Clean.append_space (s := "FOR") (by decide)
      ((clean_of_isName hKind).append_space (by decide : Clean "DATA") hKind.1 (by decide))
      (by decide) (by simp)
  | default literal =>
    cases literal with
    | none => exact (by decide : Clean "WITH DEFAULT")
    | some literal =>
      have hLiteral : Clean literal := (hProper literal rfl).1
      have hQuote : Clean "'" := clean_singleton (c := '\'') (by decide)
      exact Clean.append (s := "WITH DEFAULT '") (by decide) (hLiteral.append hQuote)
  | constraint c => exact c.clean_write hProper

/-- A clean text stays clean with attributes behind it. -/
theorem Attribute.clean_append_writeAll {attributes : List Attribute} {t : Text} (hClean : Clean t)
    (hSome : t ≠ []) (hProper : ∀ a ∈ attributes, a.Proper) : Clean (t ++ writeAll attributes) := by
  -- the text grows by one attribute at a time
  induction attributes generalizing t with
  | nil => rwa [writeAll, List.flatMap_nil, List.append_nil]
  | cons a attributes ih =>
    obtain ⟨hFirst, hLater⟩ := List.forall_mem_cons.mp hProper
    obtain ⟨c, -, u, hStart⟩ := a.write_starts
    have hMore := hClean.append_space (a.clean_write hFirst) hSome (by simp [hStart])
    have hAll := ih hMore (by simp) hLater
    rwa [List.append_assoc] at hAll

/-- An item is clean from its name to its last attribute. -/
theorem Item.clean_write {i : Item} (hProper : i.Proper) : Clean i.write := by
  cases i with
  | field x =>
    have hName : x.name.Proper := Field.Proper.name hProper
    have hType : x.type.Proper := Field.Proper.type hProper
    obtain ⟨c, t, hStart, -⟩ := x.type.write_starts hType
    have hBehind := Attribute.clean_append_writeAll (x.type.clean_write hType) (by simp [hStart])
      (Field.Proper.attributes hProper)
    exact (clean_render hName).append_space hBehind hName.render_ne_nil (by simp [hStart])
  | constraint c => exact c.clean_write hProper

/-- Behind the comma there is one more item to write. -/
theorem Item.writeAll_cons_cons (i j : Item) (items : List Item) :
    writeAll (i :: j :: items) = i.write ++ ", " ++ writeAll (j :: items) := rfl

/-- Some items start as the first of them does. -/
theorem Item.writeAll_starts {i : Item} (hProper : i.Proper) (items : List Item) :
    ∃ c t, writeAll (i :: items) = c :: t ∧ isBlank c = false := by
  obtain ⟨c, t, hStart, hBlank⟩ := i.write_starts hProper
  cases items with
  | nil => exact ⟨c, t, hStart, hBlank⟩
  | cons j items =>
    exact ⟨c, _, by rw [writeAll_cons_cons, hStart, List.append_assoc, List.cons_append], hBlank⟩

/-- All items together are clean. -/
theorem Item.clean_writeAll {items : List Item} (hProper : ∀ i ∈ items, i.Proper) :
    Clean (writeAll items) := by
  -- from the last item to the first one
  induction items with
  | nil => exact clean_of_nonblank (by simp [writeAll, Text.join])
  | cons i items ih =>
    obtain ⟨hFirst, hLater⟩ := List.forall_mem_cons.mp hProper
    have hItem := i.clean_write hFirst
    cases items with
    | nil => exact hItem
    | cons j items =>
      -- the comma ends the first item, and the space behind it is the only one there
      obtain ⟨c, t, hStart, -⟩ := writeAll_starts (hLater j (List.mem_cons_self ..)) items
      have hComma := hItem.append (clean_singleton (c := ',') (by decide))
      have hAll := hComma.append_space (ih hLater) (by simp) (by simp [hStart])
      rw [List.append_assoc] at hAll
      rwa [writeAll_cons_cons, List.append_assoc]

/-- The creation of a table is normalized as it is written. -/
theorem Table.spaced_write {t : Table} (hProper : t.Proper) : Spaced t.write := by
  -- the text is put together from its end
  have hHome := Spaced.append_of_spaced_cons (s := " ) IN ") (by decide)
    (hProper.home.spaced_cons_append (spaced_tail hProper.parameters))
  have hBody := Spaced.append_of_spaced_cons (s := " (") (by decide)
    ((Item.clean_writeAll hProper.items).spaced_cons_append hHome)
  exact Spaced.append_of_spaced_cons (s := "CREATE TABLE ") (by decide)
    (hProper.name.spaced_cons_append hBody)

end Written

end SchemaScript
