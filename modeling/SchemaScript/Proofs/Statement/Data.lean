import Mathlib.Data.List.Basic
import SchemaScript.Statement.Data

/-!
# Statements and their data

The data of a statement tell as much as the statement itself: two statements are the same, the order
of parameters apart, exactly if their data are, and so are two constraints. Records of one kind have
the same fields in the same order, so that they are compared field by field (`same_record`), and
records of two kinds differ in the field that tells the kind (`View.same_of_kind_ne`).

Data may be handed on in a form in which a mapping is a record like any other (`Data.opened`), and
then, too, nothing is lost. `View` has what the two forms have in common and what the proof needs of
them. The result is `toData_faithful`.
-/

namespace SchemaScript

/-! ## Lists -/

section Lists

variable {α β : Type}

/-- Values can be looked up before or after they are mapped. -/
theorem lookup_map_snd [BEq α] {γ : Type} (g : β → γ) (key : α) (entries : List (α × β)) :
    (entries.map fun entry => (entry.1, g entry.2)).lookup key = (entries.lookup key).map g := by
  induction entries with
  | nil => rfl
  | cons entry entries ih =>
    rw [List.map_cons, List.lookup_cons, List.lookup_cons, ih]
    split <;> rfl

/-- Lists of images are compared by comparing the images. -/
theorem sameItems_map (same : β → β → Bool) (f : α → β) (xs ys : List α) :
    sameItems same (xs.map f) (ys.map f) = sameItems (fun x y => same (f x) (f y)) xs ys := by
  induction xs generalizing ys with
  | nil => cases ys <;> rfl
  | cons x xs ih =>
    cases ys with
    | nil => rfl
    | cons y ys => exact congrArg _ (ih ys)

end Lists

namespace Data

variable {fields others : List (Text × Data)} {name : Text}

/-! ## Comparing records -/

/-- The items of data are compared one by one, as all lists are. -/
theorem sameItems_eq (xs ys : List Data) : sameItems xs ys = SchemaScript.sameItems same xs ys := by
  induction xs generalizing ys with
  | nil => cases ys <;> rfl
  | cons x xs ih =>
    cases ys with
    | nil => rfl
    | cons y ys => exact congrArg _ (ih ys)

/-- A field of the other record is not looked at if none of the fields has its name. -/
theorem sameFields_cons_of_notMem (hNew : name ∉ fields.map Prod.fst) (y : Data) :
    sameFields fields ((name, y) :: others) = sameFields fields others := by
  induction fields with
  | nil => rfl
  | cons field fields ih =>
    obtain ⟨first, x⟩ := field
    rw [List.map_cons, List.mem_cons, not_or] at hNew
    -- the first field has another name, so its look-up passes the new one
    rw [sameFields, sameFields, ih hNew.2, List.lookup_cons, beq_false_of_ne (Ne.symm hNew.1)]

/-- Records with the same fields in the same order are compared field by field. -/
theorem same_record (hNames : fields.map Prod.fst = others.map Prod.fst)
    (hNodup : (fields.map Prod.fst).Nodup) :
    (record fields).same (record others) =
      SchemaScript.sameItems same (fields.map Prod.snd) (others.map Prod.snd) := by
  have hLength : fields.length = others.length := by simpa using congrArg List.length hNames
  rw [same, beq_iff_eq.mpr hLength, Bool.true_and]
  induction fields generalizing others with
  | nil =>
    cases others with
    | nil => rfl
    | cons other others => cases hNames
  | cons field fields ih =>
    cases others with
    | nil => cases hNames
    | cons other others =>
      obtain ⟨name, x⟩ := field
      obtain ⟨name', y⟩ := other
      obtain ⟨rfl, hLater⟩ := List.cons.inj hNames
      obtain ⟨hNew, hNodup⟩ := List.nodup_cons.mp hNodup
      -- the first field is found at once, and no later one is looked for there
      rw [sameFields, List.lookup_cons_self, sameFields_cons_of_notMem hNew,
        ih hLater hNodup (by simpa using hLength)]
      rfl

/-! ## Mappings as records -/

mutual

/-- The data with every mapping opened into a record, whose fields are the keys. -/
def opened : Data → Data
  | null => null
  | text t => text t
  | mapping p => record (p.entries.map fun entry => (entry.1, text entry.2))
  | list items => list (openedItems items)
  | record fields => record (openedFields fields)

/-- The items of a list with their mappings opened. -/
def openedItems : List Data → List Data
  | [] => []
  | x :: xs => x.opened :: openedItems xs

/-- The fields of a record with their mappings opened. -/
def openedFields : List (Text × Data) → List (Text × Data)
  | [] => []
  | (name, x) :: fields => (name, x.opened) :: openedFields fields

end

/-- To open the items of a list is to open each of them. -/
theorem openedItems_eq_map (items : List Data) : openedItems items = items.map opened := by
  induction items with
  | nil => rfl
  | cons x items ih => exact congrArg _ ih

/-- To open the fields of a record is to open each of them under its name. -/
theorem openedFields_eq_map (fields : List (Text × Data)) :
    openedFields fields = fields.map fun field => (field.1, field.2.opened) := by
  induction fields with
  | nil => rfl
  | cons field fields ih => exact congrArg _ ih

/-- A record of texts is compared by looking up each of its keys. -/
theorem sameFields_texts (entries others : List (Text × Text)) :
    sameFields (entries.map fun entry => (entry.1, text entry.2))
        (others.map fun entry => (entry.1, text entry.2)) =
      entries.all fun entry => others.lookup entry.1 == some entry.2 := by
  induction entries with
  | nil => rfl
  | cons entry entries ih =>
    rw [List.map_cons, sameFields, lookup_map_snd, ih, List.all_cons]
    congr 1
    cases others.lookup entry.1 with
    | none => rfl
    | some value => exact Bool.beq_comm

/-- Opened mappings are compared as mappings are. -/
theorem same_opened_mapping (p q : Parameters) :
    (mapping p).opened.same (mapping q).opened = p.same q := by
  -- both count their entries and look each of them up in the other
  rw [opened, opened, same, sameFields_texts, List.length_map, List.length_map]
  rfl

/-! ## Views of data -/

/-- A form in which data are handed on. It keeps texts, lists and records, and shows mappings so
that they can be compared. -/
structure View (v : Data → Data) : Prop where
  null : v null = null
  text : ∀ t, v (text t) = text t
  list : ∀ items, v (list items) = list (items.map v)
  record : ∀ fields, v (record fields) = record (fields.map fun field => (field.1, v field.2))
  mapping : ∀ p q, (v (mapping p)).same (v (mapping q)) = p.same q

/-- Data as they are. -/
theorem view_id : View id where
  null := rfl
  text _ := rfl
  list _ := by simp
  record _ := by simp
  mapping _ _ := rfl

/-- Data with their mappings opened. -/
theorem view_opened : View opened where
  null := rfl
  text _ := rfl
  list items := congrArg _ (openedItems_eq_map items)
  record fields := congrArg _ (openedFields_eq_map fields)
  mapping := same_opened_mapping

namespace View

variable {v : Data → Data}

/-- Texts are compared as texts. -/
theorem same_text (hView : View v) (t u : Text) :
    (v (.text t)).same (v (.text u)) = (t == u) := by
  rw [hView.text, hView.text]
  rfl

/-- Lists are compared by their items. -/
theorem same_list (hView : View v) {α : Type} {same : α → α → Bool} {f : α → Data}
    (hItems : ∀ x y, (v (f x)).same (v (f y)) = same x y) (xs ys : List α) :
    (v (.list (xs.map f))).same (v (.list (ys.map f))) = SchemaScript.sameItems same xs ys := by
  have hSame : (fun x y => (v (f x)).same (v (f y))) = same := by
    funext x y
    exact hItems x y
  rw [hView.list, hView.list, Data.same, sameItems_eq, List.map_map, List.map_map, sameItems_map,
    ← hSame]
  rfl

theorem same_record (hView : View v) (hNames : fields.map Prod.fst = others.map Prod.fst)
    (hNodup : (fields.map Prod.fst).Nodup) :
    (v (.record fields)).same (v (.record others)) =
      SchemaScript.sameItems Data.same (fields.map fun field => v field.2)
        (others.map fun field => v field.2) := by
  have hKept : ∀ fields : List (Text × Data),
      (fields.map fun field => (field.1, v field.2)).map Prod.fst = fields.map Prod.fst := by
    intro fields
    rw [List.map_map]
    rfl
  rw [hView.record, hView.record, Data.same_record (by rw [hKept, hKept, hNames])
    (by rwa [hKept]), List.map_map, List.map_map]
  rfl

/-- Records that differ in the text of their first field are not the same. -/
theorem same_of_kind_ne (hView : View v) {kind kind' : Text} (hKind : kind ≠ kind') :
    (v (.record ((name, .text kind) :: fields))).same
      (v (.record ((name, .text kind') :: others))) = false := by
  simp only [hView.record, Data.same, List.map_cons, sameFields, List.lookup_cons_self,
    hView.same_text, beq_false_of_ne hKind, Bool.false_and, Bool.and_false]

end View

end Data

/-! ## Names, constraints and fields -/

open Data

variable {v : Data → Data}

/-- No scope, an empty one and any other are three things. -/
theorem QualifiedName.same_toData (hView : View v) (q r : QualifiedName) :
    (v q.toData).same (v r.toData) = (q == r) := by
  obtain ⟨name, scope⟩ := q
  obtain ⟨name₂, scope₂⟩ := r
  have hScope : (v ((scope.map Data.text).getD .null)).same
      (v ((scope₂.map Data.text).getD .null)) = (scope == scope₂) := by
    cases scope with
    | none =>
      cases scope₂ with
      | none => simp [hView.null, same]
      | some t₂ => simp [hView.null, hView.text, same]
    | some t =>
      cases scope₂ with
      | none => simp [hView.null, hView.text, same]
      | some t₂ => simp [hView.same_text]
  refine Eq.trans (hView.same_record rfl (by simp)) ?_
  -- the data have the scope first, the name has it last
  rw [Bool.eq_iff_iff]
  simp [sameItems, hScope, hView.same_text, and_comm]

/-- Constraints are the same if their data are. -/
theorem Constraint.same_toData (hView : View v) (x y : Constraint) :
    (v x.toData).same (v y.toData) = x.same y := by
  -- one kind is compared field by field, and two kinds already differ in their first fields
  cases x with
  | plain name parameters =>
    cases y with
    | plain name₂ parameters₂ =>
      refine Eq.trans (hView.same_record rfl (by simp)) ?_
      simp [Constraint.same, sameItems, hView.same_text, QualifiedName.same_toData hView,
        hView.mapping]
    | _ => exact hView.same_of_kind_ne (by decide)
  | foreignKey name table parameters =>
    cases y with
    | foreignKey name₂ table₂ parameters₂ =>
      refine Eq.trans (hView.same_record rfl (by simp)) ?_
      simp [Constraint.same, sameItems, hView.same_text, QualifiedName.same_toData hView,
        hView.mapping, Bool.and_assoc]
    | _ => exact hView.same_of_kind_ne (by decide)
  | check name rules =>
    cases y with
    | check name₂ rules₂ =>
      refine Eq.trans (hView.same_record rfl (by simp)) ?_
      simp [Constraint.same, sameItems, hView.same_text, QualifiedName.same_toData hView]
    | _ => exact hView.same_of_kind_ne (by decide)

/-- Fields are the same if their data are. -/
theorem Field.same_toData (hView : View v) (x y : Field) :
    (v x.toData).same (v y.toData) = x.same y := by
  -- a field is one record, and its constraints are a list in it
  refine Eq.trans (hView.same_record rfl (by simp)) ?_
  simp [Field.same, sameItems, hView.same_text, QualifiedName.same_toData hView, hView.mapping,
    hView.same_list (Constraint.same_toData hView), Bool.and_assoc]

/-! ## Statements -/

/-- Statements are the same if their data are. -/
theorem Statement.same_toData (hView : View v) (x y : Statement) :
    (v x.toData).same (v y.toData) = x.same y := by
  -- as for constraints, with one case for each kind
  cases x with
  | comment body =>
    cases y with
    | comment body₂ =>
      refine Eq.trans (hView.same_record rfl (by simp)) ?_
      simp [Statement.same, sameItems, hView.same_text]
    | _ => exact hView.same_of_kind_ne (by decide)
  | database name parameters =>
    cases y with
    | database name₂ parameters₂ =>
      refine Eq.trans (hView.same_record rfl (by simp)) ?_
      simp [Statement.same, sameItems, hView.same_text, QualifiedName.same_toData hView,
        hView.mapping]
    | _ => exact hView.same_of_kind_ne (by decide)
  | tablespace name home parameters =>
    cases y with
    | tablespace name₂ home₂ parameters₂ =>
      refine Eq.trans (hView.same_record rfl (by simp)) ?_
      simp [Statement.same, sameItems, hView.same_text, QualifiedName.same_toData hView,
        hView.mapping, Bool.and_assoc]
    | _ => exact hView.same_of_kind_ne (by decide)
  | table name home fields constraints parameters =>
    cases y with
    | table name₂ home₂ fields₂ constraints₂ parameters₂ =>
      refine Eq.trans (hView.same_record rfl (by simp)) ?_
      simp [Statement.same, sameItems, hView.same_text, QualifiedName.same_toData hView,
        hView.mapping, hView.same_list (Field.same_toData hView),
        hView.same_list (Constraint.same_toData hView), Bool.and_assoc]
    | _ => exact hView.same_of_kind_ne (by decide)
  | index name target fields parameters =>
    cases y with
    | index name₂ target₂ fields₂ parameters₂ =>
      refine Eq.trans (hView.same_record rfl (by simp)) ?_
      simp [Statement.same, sameItems, hView.same_text, QualifiedName.same_toData hView,
        hView.mapping, Bool.and_assoc]
    | _ => exact hView.same_of_kind_ne (by decide)
  | view name definition =>
    cases y with
    | view name₂ definition₂ =>
      refine Eq.trans (hView.same_record rfl (by simp)) ?_
      simp [Statement.same, sameItems, hView.same_text, QualifiedName.same_toData hView]
    | _ => exact hView.same_of_kind_ne (by decide)
  | setting parameter value =>
    cases y with
    | setting parameter₂ value₂ =>
      refine Eq.trans (hView.same_record rfl (by simp)) ?_
      simp [Statement.same, sameItems, hView.same_text]
    | _ => exact hView.same_of_kind_ne (by decide)
  | addConstraint target constraint =>
    cases y with
    | addConstraint target₂ constraint₂ =>
      refine Eq.trans (hView.same_record rfl (by simp)) ?_
      simp [Statement.same, sameItems, hView.same_text, QualifiedName.same_toData hView,
        Constraint.same_toData hView]
    | _ => exact hView.same_of_kind_ne (by decide)

/-- **Nothing is lost in data.** Two statements are the same exactly if their data are, and two
constraints are, whether the data keep mappings apart from records or not. -/
theorem toData_faithful :
    (∀ x y : Statement, x.same y = x.toData.same y.toData ∧
      x.same y = x.toData.opened.same y.toData.opened) ∧
    ∀ x y : Constraint, x.same y = x.toData.same y.toData ∧
      x.same y = x.toData.opened.same y.toData.opened :=
  ⟨fun x y => ⟨(x.same_toData view_id y).symm, (x.same_toData view_opened y).symm⟩,
    fun x y => ⟨(x.same_toData view_id y).symm, (x.same_toData view_opened y).symm⟩⟩

end SchemaScript
