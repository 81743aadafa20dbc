import SchemaScript.Grammar.Statement
import SchemaScript.Proofs.Cursor.Carry

/-!
# How the grammar is composed

Every reader of the grammar but the one for comments is put together from few parts: literals,
keywords, free text up to one of four delimiters, names, numbers, parameters, and repetition.
`Composed` says so, and a property of the parts that is kept by sequences and repetitions is a
property of the whole grammar (`composed_directive?`), by induction on the composition.

Comments are apart, since they alone end with a line and not with a delimiter.
-/

namespace SchemaScript.Grammar

/-- Whether a search for a delimiter is what did not succeed. -/
def isSearch : Expectation → Bool
  | .delimiter _ => true
  | _ => false

/-- The characters up to which the grammar takes free text. -/
def delimiters : Text := "=)';"

/-- Whether a reader is put together from the parts of the grammar. -/
inductive Composed (book : Rulebook) : {α : Type} → Reader α → Prop
  | pure {α : Type} (x : α) : Composed book (pure x : Reader α)
  | bind {α β : Type} {r : Reader α} {f : α → Reader β} (hFirst : Composed book r)
      (hThen : ∀ x, Composed book (f x)) : Composed book (r >>= f)
  | fail {α : Type} {expected : Expectation} (hPlace : isSearch expected = false) :
      Composed book (Reader.fail expected : Reader α)
  | accept {literal : Text} (hToken : isToken literal = true) :
      Composed book (Reader.accept literal)
  | expect {literal : Text} (hToken : isToken literal = true) :
      Composed book (Reader.expect literal)
  | keyword {word : Text} (hToken : isToken word = true) :
      Composed book (keyword word)
  | takeUntil {delimiter : Char} (inclusive : Bool)
      (hDelimiter : delimiters.contains delimiter = true) :
      Composed book (Reader.takeUntil [delimiter] inclusive)
  | parameters (construct : Construct) : Composed book (Reader.parameters (book construct))
  | identifier : Composed book Reader.identifier
  | number : Composed book Reader.number
  | qualifiedName : Composed book Reader.qualifiedName
  | qualifiedName? : Composed book Reader.qualifiedName?
  | many {α : Type} {item : Reader (Option α)} (hItem : Composed book item) :
      Composed book (Reader.many item)

section

variable {book : Rulebook}

theorem Composed.ite {α : Type} {condition : Prop} [Decidable condition] {r s : Reader α}
    (hThen : Composed book r) (hElse : Composed book s) :
    Composed book (if condition then r else s) := by
  split
  · exact hThen
  · exact hElse

/-- A choice by a probe. -/
theorem Composed.choice {α : Type} {probe : Reader Bool} {r s : Reader α}
    (hProbe : Composed book probe) (hThen : Composed book r) (hElse : Composed book s) :
    Composed book (do if ← probe then r else s) :=
  .bind hProbe fun _ => .ite hThen hElse

/-- What is made of the result of a reader. -/
theorem Composed.map {α β : Type} {r : Reader α} (hRead : Composed book r) (f : α → β) :
    Composed book (do return f (← r)) :=
  .bind hRead fun _ => .pure _

/-! ## The parts of the grammar -/

/-- A text in parentheses is free text between two literals. -/
theorem composed_inParentheses : Composed book inParentheses :=
  .bind (.expect rfl) fun _ =>
    .bind (.takeUntil false rfl) fun _ =>
      .bind (.expect rfl) fun _ => .pure _

theorem composed_quotedLiteral? (book : Rulebook) : Composed book quotedLiteral? :=
  .choice (.accept rfl)
    (.bind (.takeUntil false rfl) fun _ =>
      .bind (.expect rfl) fun _ => .pure _)
    (.pure _)

/-- A foreign key is two texts in parentheses, with a literal and a name between them, and
parameters. -/
theorem composed_foreignKey (name : QualifiedName) : Composed book (foreignKey book name) :=
  .bind composed_inParentheses fun _ =>
    .bind (.expect rfl) fun _ =>
      .bind .qualifiedName fun _ =>
        .bind composed_inParentheses fun _ => .map (.parameters _) _

/-- The kinds of constraints are told apart by their keywords, tried one after the other. -/
theorem composed_constraintKind (name : QualifiedName) :
    Composed book (constraintKind book name) :=
  .choice (.keyword rfl) (.map composed_inParentheses _)
    (.choice (.keyword rfl) (composed_foreignKey name)
      (.choice (.keyword rfl) (.map composed_inParentheses _)
        (.fail rfl)))

/-- A constraint has its first keyword for a probe, and then it has to follow. -/
theorem composed_constraint? : Composed book (constraint? book) :=
  .choice (.keyword rfl)
    (.bind .qualifiedName fun name => .map (composed_constraintKind name) _)
    (.pure _)

/-- A size goes on with a second number if a comma stands behind the first one. -/
theorem composed_size : Composed book size :=
  .bind .number fun _ =>
    .choice (.accept rfl) (.map .number _) (.pure _)

/-- A type goes on with a size if a parenthesis stands behind its name. -/
theorem composed_fieldType : Composed book fieldType :=
  .bind .identifier fun _ =>
    .choice (.accept rfl)
      (.bind composed_size fun _ => .bind (.expect rfl) fun _ => .pure _)
      (.pure _)

/-- An attribute is a constraint, or one of three literals tells which it is. -/
theorem composed_attribute? : Composed book (attribute? book) := by
  refine .bind composed_constraint? fun found => ?_
  cases found with
  | some c => exact .pure _
  | none =>
    exact .choice (.accept rfl) (.pure _)
      (.choice (.accept rfl)
        (.bind .identifier fun _ => .bind (.expect rfl) fun _ => .pure _)
        (.choice (.accept rfl) (.map (composed_quotedLiteral? book) _) (.pure _)))

/-- A field is a name, a type and repeated attributes. That there is a field at all is settled by
the name. -/
theorem composed_field? : Composed book (field? book) := by
  refine .bind .qualifiedName? fun found => ?_
  cases found with
  | none => exact .pure _
  | some name =>
    exact .bind composed_fieldType fun _ => .map (.many composed_attribute?) _

/-- An item is looked for as a constraint first, and as a field where no constraint stands. -/
theorem composed_constraintOrField? : Composed book (constraintOrField? book) := by
  refine .bind composed_constraint? fun found => ?_
  cases found with
  | some c => exact .pure _
  | none => exact .map composed_field? _

/-- Behind an item a comma may be passed, so the repetition of items needs none. -/
theorem composed_item? : Composed book (item? book) := by
  refine .bind composed_constraintOrField? fun found => ?_
  cases found with
  | none => exact .pure _
  | some item => exact .bind (.accept rfl) fun _ => .pure _

/-! ## Statements -/

theorem composed_database : Composed book (database book) :=
  .bind .qualifiedName fun _ => .map (.parameters _) _

theorem composed_tablespace : Composed book (tablespace book) :=
  .bind .qualifiedName fun _ =>
    .bind (.expect rfl) fun _ =>
      .bind .qualifiedName fun _ => .map (.parameters _) _

/-- A table repeats items between the name and the closing parenthesis, and goes on as a tablespace
does. -/
theorem composed_table : Composed book (table book) :=
  .bind .qualifiedName fun _ =>
    .bind (.expect rfl) fun _ =>
      .bind (.many composed_item?) fun _ =>
        .bind (.expect rfl) fun _ =>
          .bind (.expect rfl) fun _ =>
            .bind .qualifiedName fun _ => .map (.parameters _) _

/-- An index is two names and a text in parentheses, with parameters. -/
theorem composed_index (unique : Bool) : Composed book (index book unique) :=
  .bind .qualifiedName fun _ =>
    .bind (.expect rfl) fun _ =>
      .bind .qualifiedName fun _ =>
        .bind composed_inParentheses fun _ => .map (.parameters _) _

theorem composed_view : Composed book view :=
  .bind .qualifiedName fun _ =>
    .bind (.expect rfl) fun _ => .map (.takeUntil true rfl) _

/-- What is created is told by a keyword, or by two of them for a unique index. -/
theorem composed_creation : Composed book (creation book) :=
  .choice (.keyword rfl) composed_database
    (.choice (.keyword rfl) composed_tablespace
      (.choice (.keyword rfl) composed_table
        (.choice (.keyword rfl)
          (.choice (.keyword rfl) (composed_index true) (.fail rfl))
          (.choice (.keyword rfl) (composed_index false)
            (.choice (.keyword rfl) composed_view (.fail rfl))))))

/-- What follows `ALTER`, up to the semicolon that may stand behind it. -/
def addition (book : Rulebook) : Reader (QualifiedName × Constraint) := do
  if ← keyword "TABLE" then
    let target ← Reader.qualifiedName
    if ← keyword "ADD" then
      match ← constraint? book with
      | some c => return (target, c)
      | none => Reader.fail (.clause .addedConstraint)
    else
      Reader.fail (.clause .addition)
  else
    Reader.fail (.clause .alteredTable)

/-- Up to the semicolon an alteration has two keywords, a name and a constraint that has to be
there. -/
theorem composed_addition : Composed book (addition book) := by
  refine .choice (.keyword rfl) (.bind .qualifiedName fun target => ?_) (.fail rfl)
  refine .choice (.keyword rfl) (.bind composed_constraint? fun found => ?_)
    (.fail rfl)
  -- where no constraint stands the alteration fails
  cases found with
  | some c => exact .pure _
  | none => exact .fail rfl

/-- What follows a choice follows each of its branches. -/
theorem choice_bind {α β : Type} (b : Bool) (r s : Reader α) (f : α → Reader β) :
    (if b = true then r else s) >>= f = if b = true then r >>= f else s >>= f := by
  cases b <;> rfl

/-- An alteration is the addition of a constraint with an optional semicolon behind it. -/
theorem alteration_eq (book : Rulebook) :
    alteration book = (do
      let added ← addition book
      let _ ← Reader.accept ";"
      return .addConstraint added.1 added.2) := by
  unfold alteration addition
  -- what follows the added constraint is drawn out of the choices, and a failure drops it
  simp only [bind_assoc, choice_bind]
  congr 1
  funext isTable
  congr 2
  funext target
  congr 1
  funext isAdd
  congr 2
  funext found
  cases found <;> rfl

theorem composed_alteration : Composed book (alteration book) := by
  rw [alteration_eq]
  exact .bind composed_addition fun _ => .bind (.accept rfl) fun _ => .pure _

theorem composed_setting (book : Rulebook) : Composed book setting :=
  .bind (.takeUntil false rfl) fun _ =>
    .bind (.expect rfl) fun _ => .map (.takeUntil true rfl) _

/-- Takes a statement other than a comment if one starts at the cursor. -/
def directive? (book : Rulebook) : Reader (Option Statement) := do
  if ← keyword "CREATE" then
    return some (← creation book)
  else if ← keyword "ALTER" then
    return some (← alteration book)
  else if ← keyword "SET" then
    return some (← setting)
  else
    return none

/-- A statement is a comment or a directive. -/
theorem statement?_eq (book : Rulebook) :
    statement? book = (do
      if ← Reader.accept "--" then
        return some (← comment)
      else
        directive? book) := rfl

/-- Every reader of the grammar is composed but the one for comments. -/
theorem composed_directive? : Composed book (directive? book) :=
  .choice (.keyword rfl) (.map composed_creation _)
    (.choice (.keyword rfl) (.map composed_alteration _)
      (.choice (.keyword rfl) (.map (composed_setting book) _) (.pure _)))

end

end SchemaScript.Grammar
