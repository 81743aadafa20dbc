import Mathlib.Data.List.Basic
import Mathlib.Data.List.Induction
import Mathlib.Data.List.Nodup
import Mathlib.Data.List.Perm.Subperm
import SchemaScript.Parameters.Basic

/-!
# Mappings of parameters

A mapping that is made of a list of entries has no other entries (`mem_of_mem_ofList`), it has all
keys of the list (`mem_keys_ofList`), and each key has the value that stands last for it
(`get?_ofList`). So two lists with the same keys in turn make one mapping exactly if they agree
where a key stands for the last time (`ofList_eq_ofList_iff`).

Two mappings are the same exactly if they have the same entries in some order (`same_iff_perm`). The
part of a mapping that has given keys (`only`) does not depend on what is set for other keys, nor on
the order in which the keys were set.
-/

namespace SchemaScript.Parameters

/-! ## Entries -/

/-- Setting a key brings in no other entry. -/
theorem mem_setEntry {entry : Text × Text} {key value : Text} {entries : List (Text × Text)}
    (hMem : entry ∈ setEntry key value entries) : entry = (key, value) ∨ entry ∈ entries := by
  induction entries with
  | nil => exact Or.inl (List.mem_singleton.mp hMem)
  | cons first entries ih =>
    rw [setEntry] at hMem
    split at hMem
    · rcases List.mem_cons.mp hMem with rfl | hLater
      · exact Or.inl rfl
      · exact Or.inr (List.mem_cons_of_mem first hLater)
    · rcases List.mem_cons.mp hMem with rfl | hLater
      · exact Or.inr (List.mem_cons_self ..)
      · exact (ih hLater).imp_right (List.mem_cons_of_mem first)

/-- The entries of a mapping are among those it was made of. -/
theorem mem_of_mem_ofList {entry : Text × Text} {entries : List (Text × Text)}
    (hMem : entry ∈ (ofList entries).entries) : entry ∈ entries := by
  -- the entry that was set last stands at the end of the list
  induction entries using List.reverseRecOn with
  | nil => exact hMem
  | append_singleton entries last ih =>
    rw [ofList_concat] at hMem
    rcases mem_setEntry hMem with rfl | hBefore
    · simp
    · exact List.mem_append_left _ (ih hBefore)

/-- The keys of a mapping are those it was made of. -/
theorem mem_keys_ofList {key : Text} {entries : List (Text × Text)} :
    key ∈ (ofList entries).keys ↔ key ∈ entries.map Prod.fst := by
  induction entries using List.reverseRecOn with
  | nil => rfl
  | append_singleton entries last ih =>
    rw [ofList_concat, keys_insert, List.map_append, List.mem_append, ← ih]
    split
    · next hKnown =>
      -- the last key stands in the mapping already
      refine ⟨Or.inl, ?_⟩
      rintro (hBefore | hLast)
      · exact hBefore
      · exact List.mem_singleton.mp hLast ▸ hKnown
    · exact List.mem_append

/-- A key has the value that stands last for it. -/
theorem get?_ofList (entries : List (Text × Text)) (key : Text) :
    (ofList entries).get? key = entries.reverse.lookup key := by
  induction entries using List.reverseRecOn with
  | nil => rfl
  | append_singleton entries last ih =>
    rw [ofList_concat, get?_insert, List.reverse_append, List.reverse_singleton,
      List.singleton_append, lookup_cons_eq_ite, ih]

/-- A value stands last for its key if no later entry has the key. -/
theorem get?_ofList_append_cons {before after : List (Text × Text)} {key value : Text}
    (hLast : ∀ entry ∈ after, entry.1 ≠ key) :
    (ofList (before ++ (key, value) :: after)).get? key = some value := by
  have hNone : after.reverse.lookup key = none := by
    rw [List.lookup_eq_none_iff]
    exact fun entry hMem => by simpa using (hLast entry (List.mem_reverse.mp hMem)).symm
  rw [get?_ofList, List.reverse_append, List.reverse_cons, List.append_assoc, List.lookup_append,
    hNone, List.singleton_append, lookup_cons_eq_ite, if_pos rfl]
  rfl

/-- The keys of a mapping depend on the keys of the list only. -/
theorem keys_ofList_congr {entries others : List (Text × Text)}
    (hKeys : entries.map Prod.fst = others.map Prod.fst) :
    (ofList entries).keys = (ofList others).keys := by
  -- both lists lose their last entry together
  induction entries using List.reverseRecOn generalizing others with
  | nil =>
    obtain rfl := List.map_eq_nil_iff.mp hKeys.symm
    rfl
  | append_singleton entries last ih =>
    rcases List.eq_nil_or_concat others with rfl | ⟨others, last', rfl⟩
    · simp at hKeys
    · rw [List.concat_eq_append, List.map_append, List.map_append] at hKeys
      obtain ⟨hBefore, hLast⟩ := List.append_inj' hKeys rfl
      rw [List.concat_eq_append, ofList_concat, ofList_concat, keys_insert, keys_insert, ih hBefore,
        List.singleton_inj.mp hLast]

/-- Whether a key stands in a list before another one comes, if that one comes at all. -/
def ComesBefore (keys : List Text) (key later : Text) : Prop :=
  ∃ i : Nat, keys[i]? = some key ∧ ∀ j ≤ i, keys[j]? ≠ some later

/-- What comes before another key still does so in a longer list. -/
theorem ComesBefore.append {keys : List Text} {key later : Text}
    (hBefore : ComesBefore keys key later) (more : List Text) :
    ComesBefore (keys ++ more) key later := by
  obtain ⟨i, hKey, hLater⟩ := hBefore
  have hWithin : i < keys.length := (List.getElem?_eq_some_iff.mp hKey).1
  refine ⟨i, by rwa [List.getElem?_append_left hWithin], fun j hj => ?_⟩
  rw [List.getElem?_append_left (Nat.lt_of_le_of_lt hj hWithin)]
  exact hLater j hj

/-- Every key comes before one that is not in the list. -/
theorem comesBefore_of_notMem {keys : List Text} {key later : Text} (hKey : key ∈ keys)
    (hNew : later ∉ keys) : ComesBefore keys key later := by
  obtain ⟨i, hHere⟩ := List.mem_iff_getElem?.mp hKey
  exact ⟨i, hHere, fun j _ hThere => hNew (List.mem_of_getElem? hThere)⟩

/-- The keys of a mapping stand in the order in which they were first set. -/
theorem pairwise_keys_ofList (entries : List (Text × Text)) :
    (ofList entries).keys.Pairwise (ComesBefore (entries.map Prod.fst)) := by
  induction entries using List.reverseRecOn with
  | nil => exact List.Pairwise.nil
  | append_singleton entries last ih =>
    have hKept : (ofList entries).keys.Pairwise
        (ComesBefore ((entries ++ [last]).map Prod.fst)) := by
      rw [List.map_append]
      exact ih.imp fun hBefore => hBefore.append _
    rw [ofList_concat, keys_insert]
    split
    · exact hKept
    · next hNew =>
      -- a new key comes behind all that are known
      refine List.pairwise_append.mpr ⟨hKept, List.pairwise_singleton .., ?_⟩
      intro key hKnown later hLast
      obtain rfl := List.mem_singleton.mp hLast
      rw [mem_keys_ofList] at hKnown hNew
      rw [List.map_append]
      exact (comesBefore_of_notMem hKnown hNew).append _

/-- A new key is set at the end. -/
theorem setEntry_of_notMem {key : Text} {entries : List (Text × Text)}
    (hNew : key ∉ entries.map Prod.fst) (value : Text) :
    setEntry key value entries = entries ++ [(key, value)] := by
  induction entries with
  | nil => rfl
  | cons entry entries ih =>
    rw [List.map_cons, List.mem_cons, not_or] at hNew
    rw [setEntry, if_neg (Ne.symm hNew.1), ih hNew.2]
    rfl

/-- Entries with different keys are the entries of the mapping that they make. -/
theorem entries_ofList {entries : List (Text × Text)} (hNodup : (entries.map Prod.fst).Nodup) :
    (ofList entries).entries = entries := by
  induction entries using List.reverseRecOn with
  | nil => rfl
  | append_singleton entries last ih =>
    rw [List.map_append, List.nodup_append] at hNodup
    obtain ⟨hBefore, -, hApart⟩ := hNodup
    have hNew : last.1 ∉ entries.map Prod.fst := fun hMem => hApart _ hMem _ (by simp) rfl
    rw [ofList_concat]
    show setEntry last.1 last.2 (ofList entries).entries = _
    rw [ih hBefore, setEntry_of_notMem hNew]

/-- A mapping is settled by its keys in order and their values. -/
theorem eq_of_get? {p q : Parameters} (hKeys : p.keys = q.keys)
    (hValues : ∀ key, p.get? key = q.get? key) : p = q := by
  obtain ⟨entries, hNodup⟩ := p
  obtain ⟨others, hNodup'⟩ := q
  obtain rfl : entries = others := by
    change entries.map Prod.fst = others.map Prod.fst at hKeys
    change ∀ key, entries.lookup key = others.lookup key at hValues
    induction entries generalizing others with
    | nil => exact (List.map_eq_nil_iff.mp hKeys.symm).symm
    | cons entry entries ih =>
      cases others with
      | nil => simp at hKeys
      | cons other others =>
        obtain ⟨hFirst, hLater⟩ := List.cons.inj hKeys
        rw [List.map_cons, List.nodup_cons] at hNodup hNodup'
        have hValue := hValues entry.1
        rw [lookup_cons_eq_ite, lookup_cons_eq_ite, if_pos rfl, if_pos hFirst] at hValue
        rw [Prod.ext hFirst (Option.some.inj hValue)] at hNodup ⊢
        refine congrArg _ (ih hNodup.2 others hNodup'.2 hLater fun key => ?_)
        -- the later entries do not have the first key
        by_cases hKey : key = other.1
        · have hNone : ∀ {more : List (Text × Text)}, other.1 ∉ more.map Prod.fst →
              more.lookup other.1 = none := fun hNew => by
            rw [List.lookup_eq_none_iff]
            intro entry hMem
            have hOther : other.1 ≠ entry.1 :=
              fun hSame => hNew (hSame ▸ List.mem_map_of_mem hMem)
            simpa using hOther
          rw [hKey, hNone hNodup.1, hNone hNodup'.1]
        · have hThere := hValues key
          rwa [lookup_cons_eq_ite, lookup_cons_eq_ite, if_neg hKey,
            if_neg (hFirst ▸ hKey)] at hThere
  rfl

/-- Two lists with the same keys in turn make one mapping exactly if they have the same value
wherever a key stands for the last time. -/
theorem ofList_eq_ofList_iff {α : Type} (key first second : α → Text) {items : List α} :
    ofList (items.map fun x => (key x, first x)) = ofList (items.map fun x => (key x, second x)) ↔
      ∀ before x after, items = before ++ x :: after → (∀ y ∈ after, key y ≠ key x) →
        first x = second x := by
  constructor
  · rintro hSame before x after rfl hLast
    have hValue : ∀ value : α → Text,
        (ofList ((before ++ x :: after).map fun y => (key y, value y))).get? (key x) =
          some (value x) := by
      intro value
      rw [List.map_append, List.map_cons]
      exact get?_ofList_append_cons (List.forall_mem_map.mpr hLast)
    rw [← Option.some_inj, ← hValue first, ← hValue second, hSame]
  · intro hValues
    refine eq_of_get? (keys_ofList_congr (by simp [Function.comp_def])) fun sought => ?_
    rw [get?_ofList, get?_ofList]
    have hSought : ∀ before x after, items = before ++ x :: after → key x = sought →
        (∀ y ∈ after, key y ≠ sought) → first x = second x := by
      rintro before x after hSplit rfl
      exact hValues before x after hSplit
    clear hValues
    -- from the end on, the first entry with the key decides
    induction items using List.reverseRecOn with
    | nil => rfl
    | append_singleton items last ih =>
      simp only [List.map_append, List.map_cons, List.map_nil, List.reverse_append,
        List.reverse_singleton, List.singleton_append, lookup_cons_eq_ite]
      by_cases hHere : sought = key last
      · rw [if_pos hHere, if_pos hHere, hSought items last [] rfl hHere.symm (by simp)]
      · rw [if_neg hHere, if_neg hHere]
        refine ih fun before x after hSplit hKey hLater => ?_
        refine hSought before x (after ++ [last]) (by rw [hSplit]; simp) hKey ?_
        exact List.forall_mem_append.mpr ⟨hLater, List.forall_mem_singleton.mpr (Ne.symm hHere)⟩

/-! ## Sameness -/

/-- A key has a value if they are an entry. -/
theorem get?_eq_some_iff {p : Parameters} {key value : Text} :
    p.get? key = some value ↔ (key, value) ∈ p.entries := by
  rw [get?, List.lookup_eq_some_iff]
  constructor
  · rintro ⟨before, after, hSplit, -⟩
    simp [hSplit]
  · intro hMem
    -- no earlier entry has the key, since keys are different
    obtain ⟨before, after, hSplit⟩ := List.append_of_mem hMem
    have hNodup := p.keys_nodup
    rw [hSplit, List.map_append, List.map_cons, List.nodup_append] at hNodup
    refine ⟨before, after, hSplit, fun entry hBefore => ?_⟩
    have hOther := hNodup.2.2 entry.1 (List.mem_map_of_mem hBefore) key (List.mem_cons_self ..)
    simpa using Ne.symm hOther

/-- Two mappings are the same exactly if they have the same entries in some order. -/
theorem same_iff_perm {p q : Parameters} : p.same q = true ↔ p.entries.Perm q.entries := by
  rw [same, Bool.and_eq_true, beq_iff_eq, List.all_eq_true]
  constructor
  · rintro ⟨hLength, hEntries⟩
    -- a mapping of the same size that has all the entries has no other ones
    have hSubset : p.entries ⊆ q.entries := fun entry hMem =>
      get?_eq_some_iff.mp (beq_iff_eq.mp (hEntries entry hMem))
    have hNodup : p.entries.Nodup := List.Nodup.of_map Prod.fst p.keys_nodup
    exact (List.subperm_of_subset hNodup hSubset).perm_of_length_le (Nat.le_of_eq hLength.symm)
  · intro hPerm
    refine ⟨hPerm.length_eq, fun entry hMem => ?_⟩
    rw [beq_iff_eq, get?_eq_some_iff]
    exact hPerm.mem_iff.mp hMem

/-! ## The part with given keys -/

/-- The part of a mapping that has the given keys, in the order in which they are given. -/
def only (keys : List Text) (p : Parameters) : Parameters :=
  ofList (keys.filterMap fun key => (p.get? key).map fun value => (key, value))

/-- Two mappings that agree on the given keys have the same part with these keys. -/
theorem only_congr {keys : List Text} {p q : Parameters}
    (hSame : ∀ key ∈ keys, p.get? key = q.get? key) : p.only keys = q.only keys := by
  unfold only
  congr 1
  refine List.filterMap_congr fun key hMem => ?_
  rw [hSame key hMem]

end SchemaScript.Parameters
