import Mathlib.Data.List.Forall2
import SchemaScript.Parameters.Decode
import SchemaScript.Proofs.Parameters.Mapping
import SchemaScript.Proofs.Text.Normal
import SchemaScript.Proofs.Text.Split

/-!
# Tokens in pairs

The tokens of a text are the parts between its separators, without the blanks around them. Each
token at an even place is a key, and the one behind it is written for the key (`PairAt`). A last
token at an even place has no partner, and nothing depends on it (`pairUp_partnered`).

`PairsOf` says what the mapping of such tokens is: it has their keys, each of them once and in the
order in which they first come, and each key has the value that was written for it last. Keys and
values that are joined in turn are found again if nothing in them can be taken for a separator or
for blanks around a token (`readPairs_join_inTurn`).

All of this together is `readPairs_pairs`.
-/

namespace SchemaScript.Parameters

open Text

variable {separator t key written value : Text} {parts : List Text}
  {pairs : List (Text × Text)} {i : Nat}

/-! ## Values -/

/-- What a written value stands for: `NO` and `YES` are truth values, and all else is itself. -/
inductive StandsFor : (written value : Text) → Prop where
  | no : StandsFor "NO" "False"
  | yes : StandsFor "YES" "True"
  | itself {written : Text} (hNo : written ≠ "NO") (hYes : written ≠ "YES") :
    StandsFor written written

/-- Reading a value gives what it stands for, and that is one thing only. -/
theorem standsFor_iff : StandsFor written value ↔ readValue written = value := by
  constructor
  · rintro (_ | _ | ⟨hNo, hYes⟩)
    · rfl
    · rfl
    · rw [readValue, if_neg hNo, if_neg hYes]
  · rintro rfl
    unfold readValue
    split
    · next hNo => exact hNo ▸ .no
    · next hNo =>
      split
      · next hYes => exact hYes ▸ .yes
      · next hYes => exact .itself hNo hYes

/-- Nothing stands for `NO` or `YES`. -/
theorem StandsFor.ne (hValue : StandsFor written value) : value ≠ "NO" ∧ value ≠ "YES" := by
  cases hValue with
  | no => decide
  | yes => decide
  | itself hNo hYes => exact ⟨hNo, hYes⟩

/-! ## Pairs of tokens -/

/-- Whether a key and what is written for it are the pair of the given number. -/
def PairAt (tokens : List Text) (i : Nat) (key written : Text) : Prop :=
  tokens[2 * i]? = some key ∧ tokens[2 * i + 1]? = some written

/-- The tokens that have a partner. -/
def partnered (tokens : List Text) : List Text := tokens.take (2 * (tokens.length / 2))

/-- Two tokens at the start are partners. -/
theorem partnered_cons_cons (key written : Text) (tokens : List Text) :
    partnered (key :: written :: tokens) = key :: written :: partnered tokens := by
  have hLength : 2 * ((tokens.length + 1 + 1) / 2) = 2 * (tokens.length / 2) + 1 + 1 := by omega
  rw [partnered, List.length_cons, List.length_cons, hLength]
  rfl

/-- A token without a partner is left out. -/
theorem pairUp_partnered (tokens : List Text) : pairUp (partnered tokens) = pairUp tokens := by
  -- two tokens at a time, as they are paired
  induction tokens using List.twoStepInduction with
  | nil => rfl
  | singleton token => simp [partnered, pairUp]
  | cons_cons key written later ih => rw [partnered_cons_cons, pairUp, pairUp, ih]

/-- Tokens are stripped when they are paired, so they may be stripped before. -/
theorem pairUp_map_strip (parts : List Text) : pairUp (parts.map strip) = pairUp parts := by
  induction parts using List.twoStepInduction with
  | nil => rfl
  | singleton part => rfl
  | cons_cons key written later ih =>
    rw [List.map_cons, List.map_cons, pairUp, pairUp, strip_strip, strip_strip, ih]

/-- The pairs are made of the tokens place by place. -/
theorem getElem?_pairUp : (pairUp parts)[i]? = some (key, value) ↔
    ∃ written, PairAt (parts.map strip) i key written ∧ StandsFor written value := by
  induction parts using List.twoStepInduction generalizing i with
  | nil => simp [pairUp, PairAt]
  | singleton part => simp [pairUp, PairAt]
  | cons_cons first second later ih =>
    cases i with
    | zero => simp [pairUp, PairAt, standsFor_iff]
    | succ i =>
      -- the first two tokens are passed, and the later ones are as far behind
      rw [pairUp, List.getElem?_cons_succ, ih]
      rfl

/-- The keys of the pairs are the tokens at even places that have a partner. -/
theorem getElem?_keys_pairUp : ((pairUp parts).map Prod.fst)[i]? = some key ↔
    ∃ written, PairAt (parts.map strip) i key written := by
  rw [List.getElem?_map, Option.map_eq_some_iff]
  constructor
  · rintro ⟨⟨key, value⟩, hPair, rfl⟩
    obtain ⟨written, hTokens, -⟩ := getElem?_pairUp.mp hPair
    exact ⟨written, hTokens⟩
  · rintro ⟨written, hTokens⟩
    exact ⟨_, getElem?_pairUp.mpr ⟨written, hTokens, standsFor_iff.mpr rfl⟩, rfl⟩

/-! ## The mapping of the pairs -/

/-- Whether a mapping is what tokens are paired to, the first with the second and so on. A key comes
before another one if some pair has it and no pair up to that one has the other, and its value is
settled by its last pair. -/
structure PairsOf (tokens : List Text) (p : Parameters) : Prop where
  once : p.keys.Nodup
  mem_keys : ∀ key, key ∈ p.keys ↔ ∃ i written, PairAt tokens i key written
  inOrder : p.keys.Pairwise fun key later =>
    ∃ i written, PairAt tokens i key written ∧ ∀ j ≤ i, ∀ other, ¬ PairAt tokens j later other
  values : ∀ i key written, PairAt tokens i key written →
    (∀ j > i, ∀ other, ¬ PairAt tokens j key other) →
      ∃ value, p.get? key = some value ∧ StandsFor written value

/-- The pair that is the last one with its key settles the value. -/
theorem get?_ofList_pairUp (hPair : PairAt (parts.map strip) i key written)
    (hLast : ∀ j > i, ∀ other, ¬ PairAt (parts.map strip) j key other) :
    (ofList (pairUp parts)).get? key = some (readValue written) := by
  have hHere : (pairUp parts)[i]? = some (key, readValue written) :=
    getElem?_pairUp.mpr ⟨written, hPair, standsFor_iff.mpr rfl⟩
  obtain ⟨hWithin, hEntry⟩ := List.getElem?_eq_some_iff.mp hHere
  rw [← List.take_append_drop i (pairUp parts), List.drop_eq_getElem_cons hWithin, hEntry]
  -- an entry behind it with the same key would be a later pair with that key
  refine get?_ofList_append_cons fun entry hMem hKey => ?_
  obtain ⟨n, hThere⟩ := List.mem_iff_getElem?.mp hMem
  rw [List.getElem?_drop] at hThere
  obtain ⟨other, hLater, -⟩ := getElem?_pairUp.mp hThere
  exact hLast (i + 1 + n) (by omega) other (hKey ▸ hLater)

/-- The mapping of the pairs is what the tokens are paired to. -/
theorem pairsOf_ofList_pairUp (parts : List Text) :
    PairsOf (parts.map strip) (ofList (pairUp parts)) where
  once := (ofList (pairUp parts)).keys_nodup
  mem_keys key := by
    rw [mem_keys_ofList, List.mem_iff_getElem?]
    exact exists_congr fun i => getElem?_keys_pairUp
  inOrder := by
    -- the keys stand in the order in which they first come
    refine (pairwise_keys_ofList (pairUp parts)).imp ?_
    rintro key later ⟨i, hKey, hLater⟩
    obtain ⟨written, hPair⟩ := getElem?_keys_pairUp.mp hKey
    exact ⟨i, written, hPair, fun j hj other hThere =>
      hLater j hj (getElem?_keys_pairUp.mpr ⟨other, hThere⟩)⟩
  values i key written hPair hLast :=
    ⟨readValue written, get?_ofList_pairUp hPair hLast, standsFor_iff.mpr rfl⟩

/-- No value is left that stands for another one. -/
theorem value_ne_of_mem_ofList_pairUp {entry : Text × Text}
    (hMem : entry ∈ (ofList (pairUp parts)).entries) : entry.2 ≠ "NO" ∧ entry.2 ≠ "YES" := by
  obtain ⟨i, hEntry⟩ := List.mem_iff_getElem?.mp (mem_of_mem_ofList hMem)
  obtain ⟨written, -, hValue⟩ := getElem?_pairUp.mp hEntry
  exact hValue.ne

/-! ## Pairs that are joined -/

/-- The tokens of some pairs, keys and values in turn. -/
def inTurn (pairs : List (Text × Text)) : List Text := pairs.flatMap fun pair => [pair.1, pair.2]

theorem inTurn_cons (pair : Text × Text) (pairs : List (Text × Text)) :
    inTurn (pair :: pairs) = pair.1 :: pair.2 :: inTurn pairs := rfl

theorem inTurn_append (pairs more : List (Text × Text)) :
    inTurn (pairs ++ more) = inTurn pairs ++ inTurn more := List.flatMap_append

/-- Whether a text is a token as it stands: there are no blanks around it, and no character of the
separator is in it. -/
structure Fits (separator t : Text) : Prop where
  first : ∀ x ∈ t.head?, isBlank x = false
  last : ∀ x ∈ t.getLast?, isBlank x = false
  apart : ∀ c ∈ separator, c ∉ t

/-- Whether a text is a token as it stands can be computed. -/
theorem fits_iff : Fits separator t ↔ t.head?.any isBlank = false ∧
    t.getLast?.any isBlank = false ∧ (separator.all fun c => !t.contains c) = true := by
  rw [← forall_mem_nonblank_iff, ← forall_mem_nonblank_iff, List.all_eq_true]
  simp only [Bool.not_eq_true', List.contains_eq_mem, decide_eq_false_iff_not]
  exact ⟨fun h => ⟨h.first, h.last, h.apart⟩, fun h => ⟨h.1, h.2.1, h.2.2⟩⟩

instance (separator t : Text) : Decidable (Fits separator t) := decidable_of_iff' _ fits_iff

/-- Nothing is stripped from such a token. -/
theorem Fits.strip_eq (hFits : Fits separator t) : strip t = t :=
  strip_eq_self hFits.first hFits.last

/-- Keys and values without blanks around them are paired as they stand. -/
theorem pairUp_append_of_strip_eq
    (hStrip : ∀ pair ∈ pairs, strip pair.1 = pair.1 ∧ strip pair.2 = pair.2) (more : List Text) :
    pairUp (inTurn pairs ++ more) =
      (pairs.map fun pair => (pair.1, readValue pair.2)) ++ pairUp more := by
  induction pairs with
  | nil => rfl
  | cons pair later ih =>
    obtain ⟨hKey, hValue⟩ := hStrip pair (List.mem_cons_self ..)
    have hLater := ih fun next hMem => hStrip next (List.mem_cons_of_mem pair hMem)
    rw [inTurn_cons, List.cons_append, List.cons_append, pairUp, hLater, hKey, hValue]
    rfl

/-- A text is read to the pairs of its parts, however the parts are found. -/
theorem readPairs_of_isSplit (hSeparator : separator ≠ []) (hSplit : IsSplit separator t parts) :
    readPairs separator t = .ok (ofList (pairUp parts)) := by
  rw [readPairs, dif_neg hSeparator, hSplit.splitOn_eq hSeparator]

/-- Tokens that are joined are paired, if they have no character of the separator. -/
theorem readPairs_join (hSeparator : separator ≠ [])
    (hApart : ∀ token ∈ parts, ∀ c ∈ separator, c ∉ token) :
    readPairs separator (join separator parts) = .ok (ofList (pairUp parts)) := by
  by_cases hNone : parts = []
  · -- no tokens are joined to an empty one, which has no partner
    subst hNone
    have hEmpty := IsSplit.of_before?_eq_none (before?_nil hSeparator)
    exact (readPairs_of_isSplit hSeparator hEmpty).trans rfl
  · exact readPairs_of_isSplit hSeparator (isSplit_join hSeparator hNone hApart)

/-- Pairs that are joined are read back. -/
theorem readPairs_join_inTurn (hSeparator : separator ≠ [])
    (hFits : ∀ pair ∈ pairs, Fits separator pair.1 ∧ Fits separator pair.2) :
    readPairs separator (join separator (inTurn pairs)) =
      .ok (ofList (pairs.map fun pair => (pair.1, readValue pair.2))) := by
  have hApart : ∀ token ∈ inTurn pairs, ∀ c ∈ separator, c ∉ token := by
    intro token hMem
    obtain ⟨pair, hPair, hToken⟩ := List.mem_flatMap.mp hMem
    rcases List.mem_pair.mp hToken with rfl | rfl
    · exact (hFits pair hPair).1.apart
    · exact (hFits pair hPair).2.apart
  -- no token is left without a partner
  have hPaired := pairUp_append_of_strip_eq
    (fun pair hMem => ⟨(hFits pair hMem).1.strip_eq, (hFits pair hMem).2.strip_eq⟩) []
  rw [List.append_nil, show pairUp [] = [] from rfl, List.append_nil] at hPaired
  rw [readPairs_join hSeparator hApart, hPaired]

/-- **Pairs keep their order, each key once and with its last value.** Every text is read to the
mapping that its tokens are paired to, in which no value is `NO` or `YES`. Tokens without a partner
do not matter. Pairs with different keys whose tokens stand as they are can be joined and are read
back in their order, each with what its value stands for. -/
theorem readPairs_pairs (hSeparator : separator ≠ []) :
    (∀ t, ∃ parts, IsSplit separator t parts ∧
      ∃ p, readPairs separator t = .ok p ∧ PairsOf (parts.map strip) p ∧
        ∀ entry ∈ p.entries, entry.2 ≠ "NO" ∧ entry.2 ≠ "YES") ∧
    (∀ t u parts parts', IsSplit separator t parts → IsSplit separator u parts' →
      partnered (parts.map strip) = partnered (parts'.map strip) →
        readPairs separator t = readPairs separator u) ∧
    ∀ pairs : List (Text × Text), (pairs.map Prod.fst).Nodup →
      (∀ pair ∈ pairs, Fits separator pair.1 ∧ Fits separator pair.2) →
        ∃ p, readPairs separator (join separator (inTurn pairs)) = .ok p ∧
          List.Forall₂ (fun pair entry => entry.1 = pair.1 ∧ StandsFor pair.2 entry.2)
            pairs p.entries := by
  refine ⟨fun t => ?_, fun t u parts parts' hFirst hSecond hSame => ?_,
    fun pairs hNodup hFits => ?_⟩
  · have hSplit := isSplit_splitOn hSeparator t
    exact ⟨_, hSplit, _, readPairs_of_isSplit hSeparator hSplit, pairsOf_ofList_pairUp _,
      fun entry hMem => value_ne_of_mem_ofList_pairUp hMem⟩
  · -- the pairs do not depend on a last token without a partner
    have hPaired : pairUp parts = pairUp parts' := by
      rw [← pairUp_map_strip, ← pairUp_partnered, hSame, pairUp_partnered, pairUp_map_strip]
    rw [readPairs_of_isSplit hSeparator hFirst, readPairs_of_isSplit hSeparator hSecond, hPaired]
  · refine ⟨_, readPairs_join_inTurn hSeparator hFits, ?_⟩
    have hKeys : ((pairs.map fun pair => (pair.1, readValue pair.2)).map Prod.fst).Nodup := by
      rwa [List.map_map]
    rw [entries_ofList hKeys, List.forall₂_map_right_iff, List.forall₂_same]
    exact fun pair _ => ⟨rfl, standsFor_iff.mpr rfl⟩

/-- A key that comes twice with another one between, a token without a partner, and pairs with a
space in a key and with an empty value. -/
theorem readPairs_pairs_repeated :
    ("::" : Text) ≠ [] ∧
    (∃ p, readPairs "::" "A::1:: B ::NO::A ::YES::C" = .ok p ∧
      PairsOf ["A", "1", "B", "NO", "A", "YES", "C"] p ∧
        p = ofList [("A", "True"), ("B", "False")]) ∧
    (IsSplit "::" "A::1::B" ["A", "1", "B"] ∧ IsSplit "::" "A :: 1" ["A ", " 1"] ∧
      partnered ["A", "1", "B"] = partnered ["A", "1"] ∧
        readPairs "::" "A::1::B" = readPairs "::" "A :: 1") ∧
    (([(("B b" : Text), ("NO" : Text)), ("A", "")].map Prod.fst).Nodup ∧
      (∀ pair ∈ [(("B b" : Text), ("NO" : Text)), ("A", "")],
        Fits "::" pair.1 ∧ Fits "::" pair.2) ∧
      ∃ p, readPairs "::" "B b::NO::A::" = .ok p ∧
        List.Forall₂ (fun pair entry => entry.1 = pair.1 ∧ StandsFor pair.2 entry.2)
          [(("B b" : Text), ("NO" : Text)), ("A", "")] p.entries) := by
  have hSome : ("::" : Text) ≠ [] := by decide
  have hRepeated : splitOn "::" (by decide) "A::1:: B ::NO::A ::YES::C" =
      ["A", "1", " B ", "NO", "A ", "YES", "C"] := by decide +kernel
  have hOdd : splitOn "::" (by decide) "A::1::B" = ["A", "1", "B"] := by decide +kernel
  have hEven : splitOn "::" (by decide) "A :: 1" = ["A ", " 1"] := by decide +kernel
  have hSame : partnered ["A", "1", "B"] = partnered ["A", "1"] := by decide +kernel
  have hNodup : ([(("B b" : Text), ("NO" : Text)), ("A", "")].map Prod.fst).Nodup := by
    decide +kernel
  have hFits : ∀ pair ∈ [(("B b" : Text), ("NO" : Text)), ("A", "")],
      Fits "::" pair.1 ∧ Fits "::" pair.2 := by decide +kernel
  obtain ⟨hReads, hUnpaired, hBack⟩ := readPairs_pairs hSome
  refine ⟨hSome, ?_, ⟨splitOn_eq_iff.mp hOdd, splitOn_eq_iff.mp hEven, hSame, ?_⟩, hNodup, hFits,
    ?_⟩
  · obtain ⟨parts, hSplit, p, hRead, hPairs, -⟩ := hReads "A::1:: B ::NO::A ::YES::C"
    obtain rfl := (splitOn_eq_iff.mpr hSplit).symm.trans hRepeated
    have hEntries : (readPairs "::" "A::1:: B ::NO::A ::YES::C").toOption =
        some (ofList [("A", "True"), ("B", "False")]) := by decide +kernel
    rw [hRead] at hEntries
    exact ⟨p, hRead, hPairs, Option.some.inj hEntries⟩
  · exact hUnpaired _ _ _ _ (splitOn_eq_iff.mp hOdd) (splitOn_eq_iff.mp hEven) (by decide +kernel)
  · have hJoined : join "::" (inTurn [(("B b" : Text), ("NO" : Text)), ("A", "")]) =
        "B b::NO::A::" := by decide +kernel
    rw [← hJoined]
    exact hBack _ hNodup hFits

end SchemaScript.Parameters
