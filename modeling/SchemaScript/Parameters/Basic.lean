import SchemaScript.Text.Basic

/-!
# Parameters

The parameters of a statement are an ordered mapping from keys to values. A key that is set again
keeps its place and takes the new value, so that a mapping has each key once (`keys_nodup`) and
remembers the order in which keys first came (`keys_insert`). `get?_insert` is the law of a
mapping.

Two mappings are the `same` if they give each key the same value, whatever their order.
-/

namespace SchemaScript

/-- An ordered mapping from keys to values, each key once. -/
structure Parameters where
  /-- the keys with their values, in the order in which the keys were first set -/
  entries : List (Text × Text)
  keys_nodup : (entries.map Prod.fst).Nodup
  deriving DecidableEq

namespace Parameters

/-! ## On lists of entries -/

/-- Sets a key in a list of entries: in its place if it is there, at the end otherwise. -/
def setEntry (key value : Text) : List (Text × Text) → List (Text × Text)
  | [] => [(key, value)]
  | entry :: entries =>
    if entry.1 = key then (key, value) :: entries else entry :: setEntry key value entries

/-- A known key keeps its place, and a new one comes last. -/
theorem keys_setEntry (key value : Text) (entries : List (Text × Text)) :
    (setEntry key value entries).map Prod.fst =
      if key ∈ entries.map Prod.fst then entries.map Prod.fst
      else entries.map Prod.fst ++ [key] := by
  induction entries with
  | nil => simp [setEntry]
  | cons entry entries ih =>
    rw [setEntry]
    by_cases hKey : entry.1 = key
    · simp [hKey]
    · simp only [hKey, if_false, List.map_cons, ih, List.mem_cons, Ne.symm hKey, false_or]
      split <;> simp

/-- So no key comes twice. -/
theorem keys_setEntry_nodup {key value : Text} {entries : List (Text × Text)}
    (hNodup : (entries.map Prod.fst).Nodup) :
    ((setEntry key value entries).map Prod.fst).Nodup := by
  rw [keys_setEntry]
  split
  · exact hNodup
  · next hNew =>
    rw [List.nodup_append]
    refine ⟨hNodup, by simp, ?_⟩
    -- only a new key is put behind the others
    rintro k hk _ hLast rfl
    rw [List.mem_singleton] at hLast
    exact hNew (hLast ▸ hk)

/-- The first entry with a key decides. -/
theorem lookup_cons_eq_ite (other : Text) (entry : Text × Text) (entries : List (Text × Text)) :
    (entry :: entries).lookup other =
      if other = entry.1 then some entry.2 else entries.lookup other := by
  obtain ⟨key, value⟩ := entry
  by_cases hOther : other = key
  · simp [hOther]
  · simp [List.lookup_cons, beq_false_of_ne hOther, hOther]

/-- Only the value of the key that is set changes. -/
theorem lookup_setEntry (key other value : Text) (entries : List (Text × Text)) :
    (setEntry key value entries).lookup other =
      if other = key then some value else entries.lookup other := by
  induction entries with
  | nil => rw [setEntry, lookup_cons_eq_ite]
  | cons entry entries ih =>
    rw [setEntry]
    by_cases hKey : entry.1 = key
    · subst hKey
      simp only [if_true, lookup_cons_eq_ite]
      split <;> rfl
    · simp only [hKey, if_false, lookup_cons_eq_ite, ih]
      -- the entry in front decides for its own key, which is another one
      by_cases hOther : other = entry.1
      · simp [hOther, hKey]
      · simp [hOther]

/-! ## The mapping -/

/-- No parameters. -/
def empty : Parameters := ⟨[], List.nodup_nil⟩

instance : EmptyCollection Parameters := ⟨empty⟩

/-- Whether there are no parameters. -/
def isEmpty (p : Parameters) : Bool := p.entries.isEmpty

/-- The keys, in the order in which they were first set. -/
def keys (p : Parameters) : List Text := p.entries.map Prod.fst

/-- The value of a key. -/
def get? (p : Parameters) (key : Text) : Option Text := p.entries.lookup key

/-- Sets a key. -/
def insert (p : Parameters) (key value : Text) : Parameters :=
  ⟨setEntry key value p.entries, keys_setEntry_nodup p.keys_nodup⟩

/-- Sets the keys of a list of entries, one after the other. -/
def ofList (entries : List (Text × Text)) : Parameters :=
  entries.foldl (fun p entry => p.insert entry.1 entry.2) empty

/-- Whether two mappings give each key the same value. -/
def same (p q : Parameters) : Bool :=
  p.entries.length == q.entries.length && p.entries.all fun entry => q.get? entry.1 == some entry.2

/-! ## What setting a key does -/

/-- A key keeps its place, and a new one comes last. -/
theorem keys_insert (p : Parameters) (key value : Text) :
    (p.insert key value).keys = if key ∈ p.keys then p.keys else p.keys ++ [key] :=
  keys_setEntry key value p.entries

/-- A key has the value that it was last given. -/
theorem get?_insert (p : Parameters) (key other value : Text) :
    (p.insert key value).get? other = if other = key then some value else p.get? other :=
  lookup_setEntry key other value p.entries

/-- The last entry of a list is set last. -/
theorem ofList_concat (entries : List (Text × Text)) (key value : Text) :
    ofList (entries ++ [(key, value)]) = (ofList entries).insert key value := by
  simp [ofList]

example : ofList [("A", "1"), ("B", "2"), ("A", "3")] = ofList [("A", "3"), ("B", "2")] := by
  decide +kernel

end Parameters

end SchemaScript
