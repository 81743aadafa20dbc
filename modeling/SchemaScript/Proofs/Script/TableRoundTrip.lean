import SchemaScript.Proofs.Script.Body
import SchemaScript.Proofs.Script.Termination

/-!
# Writing a table and reading it again

The creation of a table that is written in proper pieces is read as the table that the pieces stand
for, and nothing is skipped (`Script.run_table`).

Which piece comes next is decided by literals that are tried in a fixed order, without a way back. A
field is told from a constraint by its name (`not_isPrefixOf_render`), an attribute from the end of
its field by its first letter (`Attribute.head?_writeAll`), and a constraint belongs to the field
before it unless a comma stands between them. So the items, and the attributes of each field, are
read by induction on their lists, up to the comma or the parenthesis that follows.
-/

namespace SchemaScript

open Text Grammar Reader

/-! ## Repetition -/

section

variable {α : Type} {item : Reader (Option α)} {ahead between left : Text} {x : α} {xs : List α}

/-- A repetition ends where no item is read. -/
theorem Grammar.Repeats.reads_nil (hRepeats : Repeats item) (hItem : Reads item ahead none left) :
    Reads (many item) ahead [] left := by
  rw [hRepeats.again]
  exact hItem.bind (.pure [] left)

/-- A repetition goes on behind an item that is read. -/
theorem Grammar.Repeats.reads_cons (hRepeats : Repeats item)
    (hItem : Reads item ahead (some x) between) (hLater : Reads (many item) between xs left) :
    Reads (many item) ahead (x :: xs) left := by
  rw [hRepeats.again]
  exact hItem.bind (hLater.map (x :: ·))

end

namespace Written

variable {ahead left : Text} {x : Char}

/-! ## Types -/

/-- Digits are taken up to the first character that is none. -/
theorem takeWhile_digits {t : Text} (hDigits : IsDigits t) (hStop : isDecimal x = false)
    (left : Text) : (t ++ x :: left).takeWhile isDecimal = t := by
  rw [List.takeWhile_append_of_pos hDigits.2, List.takeWhile_cons_of_neg (by simp [hStop]),
    List.append_nil]

/-- A number ends where neither a digit nor a point follows. -/
theorem Decimal.number_append {n : Decimal} (hProper : n.Proper) (hDigit : isDecimal x = false)
    (hPoint : x ≠ '.') (left : Text) : Text.number (n.write ++ x :: left) = n.write := by
  obtain ⟨whole, places⟩ := n
  have hWhole : IsDigits whole := hProper.whole
  -- the digits before the point end at it, and those behind it at the character that follows
  unfold Text.number
  cases places with
  | none =>
    have hLeft : (whole ++ x :: left).dropWhile isDecimal = x :: left := by
      rw [dropWhile_append_of_forall hWhole.2, List.dropWhile_cons_of_neg (by simp [hDigit])]
    rw [Decimal.write, takeWhile_digits hWhole hDigit, hLeft]
    split
    · next hSame => exact absurd (List.cons.inj hSame).1 hPoint
    · rfl
  | some places =>
    have hPlaces : IsDigits places := hProper.places places rfl
    have hStop : isDecimal '.' = false := by decide
    have hLeft : (whole ++ '.' :: (places ++ x :: left)).dropWhile isDecimal =
        '.' :: (places ++ x :: left) := by
      rw [dropWhile_append_of_forall hWhole.2, List.dropWhile_cons_of_neg (by simp [hStop])]
    rw [Decimal.write, List.append_assoc, List.cons_append, takeWhile_digits hWhole hStop, hLeft]
    show (if whole = [] ∨ (places ++ x :: left).takeWhile isDecimal = [] then whole
      else whole ++ '.' :: (places ++ x :: left).takeWhile isDecimal) = whole ++ '.' :: places
    rw [takeWhile_digits hPlaces hDigit, if_neg (by simp [hWhole.1, hPlaces.1])]

/-- A number is read as it is written. -/
theorem Decimal.reads {n : Decimal} (hProper : n.Proper) (hDigit : isDecimal x = false)
    (hPoint : x ≠ '.') : Reads Reader.number (n.write ++ x :: left) n.write (x :: left) := by
  have hSome : n.write ≠ [] := by
    obtain ⟨whole, places⟩ := n
    have hWhole := hProper.whole.1
    cases places <;> simp_all [Decimal.write]
  exact reads_number hSome (n.clean_write hProper).first
    (Decimal.number_append hProper hDigit hPoint left)

/-- So is the size of a type, up to the parenthesis. -/
theorem Size.reads {s : Size} (hProper : s.Proper) :
    Reads size (s.write ++ ')' :: left) s.write (')' :: left) := by
  cases s with
  | single n =>
    -- without a comma there is no second number
    have hNone : Reads (accept ",") (')' :: left) false (')' :: left) := reads_accept_false rfl
    exact (n.reads hProper (by decide) (by decide)).bind (hNone.bind (.pure _ _))
  | double n m =>
    -- the second number starts right behind the comma
    have hComma : Reads (accept ",") (',' :: (m.write ++ ')' :: left)) true
        (m.write ++ ')' :: left) := reads_accept rfl
    have hAhead : (double n m).write ++ ')' :: left =
        n.write ++ ',' :: (m.write ++ ')' :: left) := by
      simp [Size.write]
    rw [hAhead]
    refine (n.reads hProper.1 (by decide) (by decide)).bind (hComma.bind ?_)
    exact (m.reads hProper.2 (by decide) (by decide)).map _

/-- A type is read if neither a word character nor a parenthesis follows it. -/
theorem FieldType.reads {y : FieldType} (hProper : y.Proper) (hEnd : startsWord left = false)
    (hOpen : (left.dropWhile isBlank).head? ≠ some '(') :
    ∃ left', Reads fieldType (y.write ++ left) y.write left' ∧
      left'.dropWhile isBlank = left.dropWhile isBlank := by
  obtain ⟨name, size⟩ := y
  have hName : IsName name := hProper.name
  cases size with
  | none =>
    -- the blanks are passed in search of a parenthesis
    have hNone : ("(" : Text).isPrefixOf (left.dropWhile isBlank) = false :=
      isPrefixOf_singleton_eq_false hOpen
    refine ⟨left.dropWhile isBlank, ?_, List.dropWhile_idempotent _ _⟩
    exact (reads_identifier hName hEnd).bind ((reads_accept_false hNone).bind (.pure _ _))
  | some size =>
    have hAhead : FieldType.write ⟨name, some size⟩ ++ left =
        name ++ '(' :: (size.write ++ ')' :: left) := by
      simp [FieldType.write]
    have hOpens : Reads (accept "(") ('(' :: (size.write ++ ')' :: left)) true
        (size.write ++ ')' :: left) := reads_accept rfl
    have hClose : Reads (expect ")") (')' :: left) ")" left := reads_expect rfl
    have hSize : size.Proper := hProper.size size rfl
    refine ⟨left, ?_, rfl⟩
    rw [hAhead]
    have hEnds : startsWord ('(' :: (size.write ++ ')' :: left)) = false := by
      show isWord '(' = false
      decide
    refine (reads_identifier hName hEnds).bind (hOpens.bind ?_)
    exact (size.reads hSize).bind (hClose.bind (.pure _ _))

/-! ## Constraints and attributes -/

/-- A constraint is read as it is written. -/
theorem Constraint.reads {c : Constraint} (hProper : c.Proper)
    (hNext : ahead.dropWhile isBlank = c.write ++ left) :
    Reads (constraint? Rulebook.standard) ahead (some c.constraint) left := by
  -- the kind is settled behind the name, by its own keyword
  cases c with
  | primaryKey name fields =>
    obtain ⟨hName, hFields, hFields'⟩ := hProper
    have hText : ahead.dropWhile isBlank = "CONSTRAINT" ++ ' ' ::
        (name.render ++ (" PRIMARY KEY (" ++ (fields ++ ')' :: left))) := by
      rw [hNext]
      unfold Constraint.write
      simp only [List.append_assoc]
      rfl
    have hKind : Reads (constraintKind Rulebook.standard name)
        (" PRIMARY KEY (" ++ (fields ++ ')' :: left)) (primaryKey name fields).constraint left :=
      reads_primaryKey hFields hFields'
    refine reads_choice hText ?_
    exact (reads_name_before_space hName (by decide) (by decide)).bind (hKind.map some)
  | check name rule =>
    obtain ⟨hName, hRule, hRule'⟩ := hProper
    have hText : ahead.dropWhile isBlank = "CONSTRAINT" ++ ' ' ::
        (name.render ++ (" CHECK (" ++ (rule ++ ')' :: left))) := by
      rw [hNext]
      unfold Constraint.write
      simp only [List.append_assoc]
      rfl
    have hKind : Reads (constraintKind Rulebook.standard name)
        (" CHECK (" ++ (rule ++ ')' :: left)) (check name rule).constraint left :=
      reads_check hRule hRule'
    refine reads_choice hText ?_
    exact (reads_name_before_space hName (by decide) (by decide)).bind (hKind.map some)

/-- Without the keyword there is no constraint. -/
theorem reads_constraint?_none {between : Text}
    (hMissed : Reads (keyword "CONSTRAINT") ahead false between) :
    Reads (constraint? Rulebook.standard) ahead none between :=
  hMissed.bind (.pure none between)

/-- A quoted literal is read up to the closing quote. -/
theorem reads_quotedLiteral {literal : Text} (hProper : CleanUpTo '\'' literal)
    (hNext : ahead.dropWhile isBlank = "'" ++ (literal ++ '\'' :: left)) :
    Reads quotedLiteral? ahead (some literal) left := by
  have hContent : Reads (takeUntil "'" false) (literal ++ '\'' :: left) (trim literal)
      ('\'' :: left) := reads_takeUntil_before (by decide) hProper.2
  have hClose : Reads (expect "'") ('\'' :: left) "'" left := reads_expect rfl
  rw [trim_of_clean hProper.1] at hContent
  exact reads_probe hNext (hContent.bind (hClose.bind (.pure _ left)))

/-- What is read of an attribute. -/
def Attribute.attribute : Attribute → Grammar.Attribute
  | notNull => .parameter "NULL" "False"
  | forData kind => .parameter "FOR" (kind ++ "_DATA")
  | default literal => .parameter "DEFAULT" (literal.getD "True")
  | constraint c => .constraint c.constraint

/-- What is read behind `FOR`, up to the next literal, is the kind of the data. -/
theorem reads_forData_of {kind between : Text} (hNext : ahead.dropWhile isBlank = "FOR" ++ between)
    (hKind : Reads identifier between kind (" DATA" ++ left)) :
    Reads (attribute? Rulebook.standard) ahead
      (some (.parameter "FOR" (kind ++ "_DATA"))) left := by
  have hMissed : Reads (keyword "CONSTRAINT") ahead false ("FOR" ++ between) :=
    reads_keyword_missed hNext rfl rfl
  have hData : Reads (expect "DATA") (" DATA" ++ left) "DATA" left := reads_expect rfl
  refine (reads_constraint?_none hMissed).bind (reads_probe_else rfl rfl (reads_probe rfl ?_))
  exact hKind.bind (hData.bind (.pure _ left))

/-- An attribute is read if no quote follows it. -/
theorem Attribute.reads {a : Attribute} (hProper : a.Proper)
    (hNext : ahead.dropWhile isBlank = a.write ++ left)
    (hQuote : (left.dropWhile isBlank).head? ≠ some '\'') :
    ∃ left', Reads (attribute? Rulebook.standard) ahead (some a.attribute) left' ∧
      left'.dropWhile isBlank = left.dropWhile isBlank := by
  -- the literals are tried in the order of the cases, behind the one for constraints
  cases a with
  | notNull =>
    have hMissed : Reads (keyword "CONSTRAINT") ahead false ("NOT NULL" ++ left) :=
      reads_keyword_missed hNext rfl rfl
    refine ⟨left, ?_, rfl⟩
    exact (reads_constraint?_none hMissed).bind (reads_probe rfl (.pure _ left))
  | forData kind =>
    have hKind : IsName kind := hProper
    have hText : ahead.dropWhile isBlank = "FOR" ++ (' ' :: (kind ++ (" DATA" ++ left))) := by
      rw [hNext]
      unfold Attribute.write
      simp only [List.append_assoc]
      rfl
    -- the space behind `FOR` is not part of the literal, so it is passed with the word
    have hEnd : startsWord (" DATA" ++ left) = false := by
      show isWord ' ' = false
      decide
    have hWord : Reads identifier (' ' :: (kind ++ (" DATA" ++ left))) kind (" DATA" ++ left) :=
      (reads_identifier hKind hEnd).behind_space identifier_skipBlanks (hKind.first _)
    exact ⟨left, reads_forData_of hText hWord, rfl⟩
  | default literal =>
    cases literal with
    | none =>
      have hMissed : Reads (keyword "CONSTRAINT") ahead false ("WITH DEFAULT" ++ left) :=
        reads_keyword_missed hNext rfl rfl
      -- the blanks are passed in search of a quote
      have hNone : ("'" : Text).isPrefixOf (left.dropWhile isBlank) = false :=
        isPrefixOf_singleton_eq_false hQuote
      have hLiteral : Reads quotedLiteral? left none (left.dropWhile isBlank) :=
        reads_probe_else rfl hNone (.pure _ _)
      refine ⟨left.dropWhile isBlank, ?_, List.dropWhile_idempotent _ _⟩
      refine (reads_constraint?_none hMissed).bind
        (reads_probe_else rfl rfl (reads_probe_else rfl rfl (reads_probe rfl ?_)))
      exact hLiteral.bind (.pure _ _)
    | some literal =>
      have hText : ahead.dropWhile isBlank =
          "WITH DEFAULT" ++ (" '" ++ (literal ++ '\'' :: left)) := by
        rw [hNext]
        unfold Attribute.write
        simp only [List.append_assoc]
        rfl
      have hMissed : Reads (keyword "CONSTRAINT") ahead false
          ("WITH DEFAULT" ++ (" '" ++ (literal ++ '\'' :: left))) :=
        reads_keyword_missed hText rfl rfl
      refine ⟨left, ?_, rfl⟩
      refine (reads_constraint?_none hMissed).bind
        (reads_probe_else rfl rfl (reads_probe_else rfl rfl (reads_probe rfl ?_)))
      exact (reads_quotedLiteral (hProper literal rfl) rfl).bind (.pure _ left)
  | constraint c => exact ⟨left, (c.reads hProper hNext).bind (.pure _ left), rfl⟩

/-! ## Fields

The attributes of a field end before a comma or a closing parenthesis. -/

section

variable {attributes : List Attribute}

/-- What ends the attributes is no blank. -/
theorem isBlank_of_end (hEnd : x ∈ (",)" : Text)) : isBlank x = false :=
  nonblank_of_all (by decide) x hEnd

/-- Behind a space stands the attribute. -/
theorem Attribute.dropWhile_write (a : Attribute) (left : Text) :
    (' ' :: (a.write ++ left)).dropWhile isBlank = a.write ++ left := by
  obtain ⟨c, hInitial, t, hStart⟩ := a.write_starts
  have hBlank : isBlank c = false := nonblank_of_all (by decide) c hInitial
  rw [List.dropWhile_cons_of_pos (by decide), hStart, List.cons_append,
    List.dropWhile_cons_of_neg (by simp [hBlank])]

/-- An attribute starts with one of its initials. -/
theorem Attribute.head?_write (a : Attribute) {y : Char} (hOther : y ∉ initials) (left : Text) :
    (a.write ++ left).head? ≠ some y := by
  obtain ⟨c, hInitial, t, hStart⟩ := a.write_starts
  rw [hStart]
  intro hHead
  obtain rfl : c = y := Option.some.inj hHead
  exact hOther hInitial

/-- Behind the blanks stands the first attribute. -/
theorem Attribute.dropWhile_writeAll (a : Attribute) (attributes : List Attribute) (left : Text) :
    (writeAll (a :: attributes) ++ left).dropWhile isBlank =
      a.write ++ (writeAll attributes ++ left) := by
  rw [writeAll, List.flatMap_cons, List.cons_append, List.cons_append, List.append_assoc]
  exact a.dropWhile_write _

/-- What stands next behind an attribute or a type, blanks apart. -/
theorem Attribute.head?_writeAll (hEnd : x ∈ (",)" : Text)) {y : Char}
    (hOther : y ∉ initials ++ ",)") :
    ((writeAll attributes ++ x :: left).dropWhile isBlank).head? ≠ some y := by
  intro hHead
  cases attributes with
  | nil =>
    rw [writeAll, List.flatMap_nil, List.nil_append,
      List.dropWhile_cons_of_neg (by simp [isBlank_of_end hEnd])] at hHead
    obtain rfl := Option.some.inj hHead
    exact hOther (List.mem_append_right _ hEnd)
  | cons a attributes =>
    rw [dropWhile_writeAll] at hHead
    exact a.head?_write (fun hInitial => hOther (List.mem_append_left _ hInitial)) _ hHead

/-- No word stands right behind a type, whether attributes follow or not. -/
theorem Attribute.startsWord_writeAll (hEnd : x ∈ (",)" : Text)) :
    startsWord (writeAll attributes ++ x :: left) = false := by
  cases attributes with
  | nil =>
    show isWord x = false
    rcases List.mem_pair.mp hEnd with rfl | rfl <;> decide
  | cons a attributes =>
    show isWord ' ' = false
    decide

/-- No attribute is read where a field ends. -/
theorem Attribute.reads_none (hEnd : x ∈ (",)" : Text))
    (hNext : ahead.dropWhile isBlank = x :: left) :
    Reads (attribute? Rulebook.standard) ahead none (x :: left) := by
  -- no literal starts with either of the two characters
  rcases List.mem_pair.mp hEnd with rfl | rfl
  · have hMissed : Reads (keyword "CONSTRAINT") ahead false (',' :: left) :=
      reads_keyword_missed hNext rfl rfl
    exact (reads_constraint?_none hMissed).bind (reads_probe_else rfl rfl
      (reads_probe_else rfl rfl (reads_probe_else rfl rfl (.pure none _))))
  · have hMissed : Reads (keyword "CONSTRAINT") ahead false (')' :: left) :=
      reads_keyword_missed hNext rfl rfl
    exact (reads_constraint?_none hMissed).bind (reads_probe_else rfl rfl
      (reads_probe_else rfl rfl (reads_probe_else rfl rfl (.pure none _))))

/-- The attributes of a field are read up to the character that ends them. -/
theorem Attribute.reads_writeAll (hProper : ∀ a ∈ attributes, a.Proper) (hEnd : x ∈ (",)" : Text))
    (hNext : ahead.dropWhile isBlank = (writeAll attributes ++ x :: left).dropWhile isBlank) :
    Reads (many (attribute? Rulebook.standard)) ahead (attributes.map Attribute.attribute)
      (x :: left) := by
  -- an attribute may leave blanks before the next one or not, so the text ahead is given up to them
  induction attributes generalizing ahead with
  | nil =>
    rw [writeAll, List.flatMap_nil, List.nil_append,
      List.dropWhile_cons_of_neg (by simp [isBlank_of_end hEnd])] at hNext
    exact (repeats_attribute? _).reads_nil (Attribute.reads_none hEnd hNext)
  | cons a attributes ih =>
    obtain ⟨hFirst, hLater⟩ := List.forall_mem_cons.mp hProper
    rw [dropWhile_writeAll] at hNext
    obtain ⟨left', hRead, hLeft⟩ := a.reads hFirst hNext (head?_writeAll hEnd (by decide))
    exact (repeats_attribute? _).reads_cons hRead (ih hLater hLeft)

/-- A name is read where one may stand. -/
theorem reads_qualifiedName? {q : QualifiedName} (hProper : q.Proper) (hBlank : isBlank x = false)
    (hPoint : x ≠ '.') :
    Reads qualifiedName? (q.render ++ ' ' :: x :: left) (some q) (' ' :: x :: left) := by
  -- the look at the character behind the blanks is a look at the first one of the name
  intro seen
  obtain ⟨c, t, hStart, hWord⟩ := hProper.render_starts
  have hSkip : (Cursor.mk seen (q.render ++ ' ' :: x :: left)).skipBlanks =
      ⟨seen, q.render ++ ' ' :: x :: left⟩ := by
    refine Cursor.skipBlanks_of_nonblank (by rw [hStart, List.cons_append]) ?_
    exact hProper.nonblank_render c (hStart ▸ List.mem_cons_self ..)
  have hStarts : startsWord (q.render ++ ' ' :: x :: left) = true := by
    rw [hStart]
    exact hWord
  obtain ⟨seen', hRead⟩ := (reads_name_before_space hProper hBlank hPoint).map some seen
  refine ⟨seen', ?_⟩
  rw [qualifiedName?_apply, hSkip, if_pos hStarts, hRead]

/-- What is read of a field makes the field that it stands for. -/
theorem Field.fieldOf_eq (y : Field) :
    fieldOf y.name y.type.write (y.attributes.map Attribute.attribute) = y.field := by
  have hParameter : Grammar.Attribute.parameter? ∘ Attribute.attribute =
      Attribute.parameter? := by
    funext a
    cases a <;> rfl
  have hConstraint : Grammar.Attribute.constraint? ∘ Attribute.attribute =
      Attribute.constraint? := by
    funext a
    cases a <;> rfl
  rw [fieldOf, List.filterMap_map, List.filterMap_map, hParameter, hConstraint]
  rfl

/-- A field is read by its name, its type and what is read for attributes behind the type, blanks
apart. -/
theorem reads_field_of {name : QualifiedName} {type : FieldType} {t : Text}
    {found : List Grammar.Attribute} (hName : name.Proper) (hType : type.Proper)
    (hEnd : startsWord t = false) (hOpen : (t.dropWhile isBlank).head? ≠ some '(')
    (hAttributes : ∀ t', t'.dropWhile isBlank = t.dropWhile isBlank →
      Reads (many (attribute? Rulebook.standard)) t' found left) :
    Reads (field? Rulebook.standard) (name.render ++ ' ' :: (type.write ++ t))
      (some (fieldOf name type.write found)) left := by
  obtain ⟨c, u, hStart, hWord⟩ := type.write_starts hType
  have hBlank : isBlank c = false := isBlank_eq_false_of_isWord hWord
  have hPoint : c ≠ '.' := by
    rintro rfl
    exact absurd hWord (by decide)
  -- the space ends the name, and the type is read behind it
  have hFirst : Reads qualifiedName? (name.render ++ ' ' :: (type.write ++ t)) (some name)
      (' ' :: (type.write ++ t)) := by
    rw [hStart, List.cons_append]
    exact reads_qualifiedName? hName hBlank hPoint
  obtain ⟨left', hRead, hLeft⟩ := type.reads hType hEnd hOpen
  have hSecond : Reads fieldType (' ' :: (type.write ++ t)) type.write left' := by
    refine hRead.behind_space (bind_skipBlanks identifier_skipBlanks _) fun c' hHead => ?_
    rw [hStart] at hHead
    obtain rfl := Option.some.inj hHead
    exact hBlank
  exact hFirst.bind (hSecond.bind ((hAttributes left' hLeft).map fun attributes =>
    some (fieldOf name type.write attributes)))

/-- A field is read up to the character that ends it. -/
theorem Field.reads {y : Field} (hProper : y.Proper) (hEnd : x ∈ (",)" : Text)) :
    Reads (field? Rulebook.standard) (y.write ++ x :: left) (some y.field) (x :: left) := by
  have hText : y.write ++ x :: left =
      y.name.render ++ ' ' :: (y.type.write ++ (Attribute.writeAll y.attributes ++ x :: left)) := by
    unfold Field.write
    rw [List.append_assoc, List.cons_append, List.append_assoc]
  rw [hText, ← y.fieldOf_eq]
  exact reads_field_of hProper.name hProper.type (Attribute.startsWord_writeAll hEnd)
    (Attribute.head?_writeAll hEnd (by decide))
    fun t' hNext => Attribute.reads_writeAll hProper.attributes hEnd hNext

end

/-! ## Items -/

/-- A text without blanks is taken up to the first blank. -/
theorem takeWhile_nonblank {t : Text} (hNone : ∀ c ∈ t, isBlank c = false)
    (hBlank : isBlank x = true) (left : Text) :
    (t ++ x :: left).takeWhile (fun c => !isBlank c) = t := by
  rw [List.takeWhile_append_of_pos (by simpa using hNone),
    List.takeWhile_cons_of_neg (by simp [hBlank]), List.append_nil]

/-- A name with a space behind it does not start with the keyword, unless it is the keyword. -/
theorem not_isPrefixOf_render {q : QualifiedName} (hProper : q.Proper)
    (hOther : q ≠ ⟨"CONSTRAINT", none⟩) (hBlank : isBlank x = true) (left : Text) :
    ("CONSTRAINT" ++ [x] : Text).isPrefixOf (q.render ++ ' ' :: left) = false := by
  rw [← Bool.not_eq_true, List.isPrefixOf_iff_prefix]
  rintro ⟨behind, hSame⟩
  -- both end at the first blank
  have hKeyword : ∀ c ∈ ("CONSTRAINT" : Text), isBlank c = false := nonblank_of_all (by decide)
  have hTake := congrArg (List.takeWhile fun c => !isBlank c) hSame
  rw [List.append_assoc, List.singleton_append, takeWhile_nonblank hKeyword hBlank,
    takeWhile_nonblank hProper.nonblank_render (by decide)] at hTake
  obtain ⟨name, scope⟩ := q
  cases scope with
  | none => exact hOther (by rw [show name = "CONSTRAINT" from hTake.symm])
  | some first =>
    have hPoint : '.' ∈ QualifiedName.render ⟨name, some first⟩ := by
      rw [QualifiedName.render_of_scope (hProper.scope first rfl).1]
      simp
    rw [← hTake] at hPoint
    exact absurd hPoint (by decide)

/-- What is read of an item. -/
def Item.item : Item → Grammar.Item
  | field x => .field x.field
  | constraint c => .constraint c.constraint

/-- An item is read up to the character that ends it. -/
theorem Item.reads {i : Item} (hProper : i.Proper) (hEnd : x ∈ (",)" : Text))
    (hNext : ahead.dropWhile isBlank = i.write ++ x :: left) :
    Reads (constraintOrField? Rulebook.standard) ahead (some i.item) (x :: left) := by
  cases i with
  | field y =>
    have hField : y.Proper := hProper
    have hText : y.write ++ x :: left =
        y.name.render ++ ' ' :: (y.type.write ++ Attribute.writeAll y.attributes ++ x :: left) := by
      unfold Field.write
      rw [List.append_assoc, List.cons_append]
    have hNone : ∀ z, isBlank z = true →
        ("CONSTRAINT" ++ [z] : Text).isPrefixOf (y.write ++ x :: left) = false := by
      intro z hBlank
      rw [hText]
      exact not_isPrefixOf_render hField.name hField.other hBlank _
    -- only then is a name looked for, where the keyword was missed
    have hMissed : Reads (keyword "CONSTRAINT") ahead false (y.write ++ x :: left) :=
      reads_keyword_missed hNext (hNone ' ' (by decide)) (hNone '\n' (by decide))
    exact (reads_constraint?_none hMissed).bind
      ((y.reads hField hEnd).map (Option.map Grammar.Item.field))
  | constraint c => exact (c.reads hProper hNext).bind (.pure _ _)

/-- No item is read where the table closes. -/
theorem Item.reads_none (hNext : ahead.dropWhile isBlank = ')' :: left) :
    Reads (item? Rulebook.standard) ahead none (')' :: left) := by
  -- neither the keyword of a constraint nor a name starts with a parenthesis
  have hMissed : Reads (keyword "CONSTRAINT") ahead false (')' :: left) :=
    reads_keyword_missed hNext rfl rfl
  have hName : Reads qualifiedName? (')' :: left) none (')' :: left) := by
    intro seen
    refine ⟨seen, ?_⟩
    have hSkip : (Cursor.mk seen (')' :: left)).skipBlanks = ⟨seen, ')' :: left⟩ :=
      Cursor.skipBlanks_of_nonblank rfl (by decide)
    have hStarts : startsWord (')' :: left) = false := by
      show isWord ')' = false
      decide
    rw [qualifiedName?_apply, hSkip, hStarts]
    rfl
  have hField : Reads (Grammar.field? Rulebook.standard) (')' :: left) none (')' :: left) :=
    hName.bind (.pure none _)
  have hItem : Reads (constraintOrField? Rulebook.standard) ahead none (')' :: left) :=
    (reads_constraint?_none hMissed).bind (hField.map (Option.map Grammar.Item.field))
  exact hItem.bind (.pure none _)

/-- No blanks stand before the first item. -/
theorem Item.dropWhile_writeAll {items : List Item} (hProper : ∀ i ∈ items, i.Proper)
    (left : Text) :
    (writeAll items ++ ')' :: left).dropWhile isBlank = writeAll items ++ ')' :: left := by
  refine dropWhile_of_head? fun c hHead => ?_
  have hClean := (clean_writeAll hProper).append (clean_singleton (c := ')') (by decide))
  have hText : writeAll items ++ ')' :: left = (writeAll items ++ [')']) ++ left := by
    rw [List.append_assoc]
    rfl
  rw [hText, List.head?_append_of_ne_nil _ (by simp)] at hHead
  exact hClean.first c hHead

/-- The items of a table are read up to the closing parenthesis. -/
theorem Item.reads_writeAll {items : List Item} (hProper : ∀ i ∈ items, i.Proper)
    (hNext : ahead.dropWhile isBlank = writeAll items ++ ')' :: left) :
    Reads (many (item? Rulebook.standard)) ahead (items.map Item.item) (')' :: left) := by
  induction items generalizing ahead with
  | nil => exact (repeats_item? _).reads_nil (Item.reads_none hNext)
  | cons i items ih =>
    obtain ⟨hFirst, hLater⟩ := List.forall_mem_cons.mp hProper
    cases items with
    | nil =>
      -- no comma stands behind the last item
      have hComma : Reads (accept ",") (')' :: left) false (')' :: left) := reads_accept_false rfl
      have hItem : Reads (item? Rulebook.standard) ahead (some i.item) (')' :: left) :=
        (i.reads hFirst (by decide) hNext).bind (hComma.bind (.pure _ _))
      exact (repeats_item? _).reads_cons hItem (ih hLater rfl)
    | cons j items =>
      -- the comma is passed, and the space before the next item with that item
      have hText : ahead.dropWhile isBlank =
          i.write ++ ',' :: ' ' :: (writeAll (j :: items) ++ ')' :: left) := by
        rw [hNext, writeAll_cons_cons, List.append_assoc, List.append_assoc]
        rfl
      have hComma : Reads (accept ",") (',' :: ' ' :: (writeAll (j :: items) ++ ')' :: left)) true
          (' ' :: (writeAll (j :: items) ++ ')' :: left)) := reads_accept rfl
      have hItem : Reads (item? Rulebook.standard) ahead (some i.item)
          (' ' :: (writeAll (j :: items) ++ ')' :: left)) :=
        (i.reads hFirst (by decide) hText).bind (hComma.bind (.pure _ _))
      have hNext' : (' ' :: (writeAll (j :: items) ++ ')' :: left)).dropWhile isBlank =
          writeAll (j :: items) ++ ')' :: left := by
        rw [List.dropWhile_cons_of_pos (by decide), dropWhile_writeAll hLater]
      exact (repeats_item? _).reads_cons hItem (ih hLater hNext')

/-! ## Tables -/

/-- What is read of the items makes the fields and the constraints that they stand for. -/
theorem Table.statement_eq (t : Table) :
    t.statement = .table t.name t.home ((t.items.map Item.item).filterMap Grammar.Item.field?)
      ((t.items.map Item.item).filterMap Grammar.Item.constraint?)
      (Parameters.decoded .table (t.parameters.getD [])) := by
  have hField : Grammar.Item.field? ∘ Item.item = Item.field? := by
    funext i
    cases i <;> rfl
  have hConstraint : Grammar.Item.constraint? ∘ Item.item = Item.constraint? := by
    funext i
    cases i <;> rfl
  rw [List.filterMap_map, List.filterMap_map, hField, hConstraint]
  rfl

/-- The creation of a table is read by its items and its home. -/
theorem Table.reads_of {t : Table} {between : Text} (hName : t.name.Proper)
    (hTail : ProperTail t.parameters)
    (hItems : Reads (many (item? Rulebook.standard)) ahead (t.items.map Item.item)
      (')' :: (" IN" ++ between)))
    (hHome : Reads Reader.qualifiedName between t.home (tail t.parameters ++ ";")) :
    Reads (statement? Rulebook.standard) ("CREATE TABLE " ++ (t.name.render ++ (" (" ++ ahead)))
      (some t.statement) [] := by
  have hParameters : Reads (Reader.parameters (Rulebook.standard .table)) (tail t.parameters ++ ";")
      (Parameters.decoded .table (t.parameters.getD [])) [] := reads_tail .table hTail
  rw [t.statement_eq]
  exact reads_created (reads_creation_table (reads_table_of hName hItems hHome hParameters))

/-- The creation of a table is read from its first word to its semicolon. -/
theorem Table.reads {t : Table} (hProper : t.Proper) :
    Reads (statement? Rulebook.standard) t.write (some t.statement) [] := by
  have hItems := Item.reads_writeAll hProper.items
    (Item.dropWhile_writeAll hProper.items
      (" IN " ++ (t.home.render ++ (tail t.parameters ++ ";"))))
  have hHome : Reads Reader.qualifiedName (' ' :: (t.home.render ++ (tail t.parameters ++ ";")))
      t.home (tail t.parameters ++ ";") :=
    reads_name_behind_space hProper.home (reads_name_before_tail hProper.home hProper.parameters)
  exact Table.reads_of hProper.name hProper.parameters hItems hHome

end Written

namespace Script

/-- A script that is read as one statement to its end is run through in one step. -/
theorem run_of_reads {script : Text} {s : Statement} (hNormal : normalize script = script)
    (hStart : ∃ c t, script = c :: t ∧ isBlank c = false)
    (hReads : Reads (statement? Rulebook.standard) script (some s) []) :
    ∃ r, run Rulebook.standard script = .ok r ∧ r.diagnostics = [] ∧ r.statements = [s] := by
  obtain ⟨c, t, rfl, hBlank⟩ := hStart
  have hSkip : (Cursor.ofText (c :: t)).skipBlanks = ⟨[], c :: t⟩ := by
    rw [Cursor.ofText, hNormal]
    exact Cursor.skipBlanks_of_nonblank rfl hBlank
  obtain ⟨seen, hRead⟩ := hReads []
  rw [← hSkip] at hRead
  have hMore : (Cursor.ofText (c :: t)).skipBlanks.rest ≠ [] := by
    rw [hSkip]
    exact List.cons_ne_nil c t
  have hStep := step_of_some hRead
  -- nothing is left behind the statement
  have hTrace : Trace Rulebook.standard (.ofText (c :: t)) _ _ :=
    .next hMore hStep (step_moves hMore hStep) (.done rfl)
  exact ⟨_, hTrace.runFrom_eq, rfl, rfl⟩

/-- **A table that is written is read again.** The creation of a table in proper pieces is read as
the table that the pieces stand for, with its fields and constraints in their order, and nothing is
skipped. -/
theorem run_table {t : Written.Table} (hProper : t.Proper) :
    ∃ r, run Rulebook.standard t.write = .ok r ∧ r.diagnostics = [] ∧
      r.statements = [t.statement] :=
  run_of_reads (normalize_of_spaced (t.spaced_write hProper)) ⟨'C', _, rfl, by decide⟩
    (t.reads hProper)

/-- A table with fields and constraints of every kind. -/
def mixedTable : Written.Table where
  name := ⟨"T1", some "O"⟩
  home := ⟨"D1", none⟩
  items :=
    [.field ⟨⟨"A", none⟩, ⟨"INT", none⟩, [.notNull, .default none, .forData "SBCS"]⟩,
      .constraint (.primaryKey ⟨"C1", some "O"⟩ "A, B"),
      .field ⟨⟨"CONSTRAINT", some "B"⟩, ⟨"DEC", some (.double ⟨"8", none⟩ ⟨"2", some "5"⟩)⟩,
        [.constraint (.check ⟨"C2", none⟩ "B > 0;"), .default (some "it, (is)")]⟩,
      .field ⟨⟨"NOT", none⟩, ⟨"CONSTRAINT", some (.single ⟨"4", none⟩)⟩, []⟩]
  parameters := some "CCSID ASCII"

/-- Fields and constraints of every kind are read again. -/
theorem run_table_mixed :
    mixedTable.Proper ∧
      ∃ r, run Rulebook.standard mixedTable.write = .ok r ∧ r.diagnostics = [] ∧
        r.statements = [mixedTable.statement] := by
  have hProper : mixedTable.Proper := by decide +kernel
  exact ⟨hProper, run_table hProper⟩

end Script

end SchemaScript
