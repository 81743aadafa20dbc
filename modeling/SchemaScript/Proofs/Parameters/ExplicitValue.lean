import SchemaScript.Proofs.Parameters.Mapping
import SchemaScript.Proofs.Parameters.Pieces
import SchemaScript.Proofs.Parameters.Rulebook

/-!
# Options with a written value

An option is switched on where it stands alone. The truth values `True` and `False` behind it are
seen while options are resolved, and so they are its value. `YES` and `NO` are truth values for
`readValue` only, when everything is paired: the option is switched on in front of them, and they
become the first key of what follows. Each later key is then the value of the word before it, and
the last value is left out (`decode_explicitValue`).
-/

namespace SchemaScript.Parameters

open Text Pattern

variable {rules : Rules} {option value : Text} {before after : List (Text × Text)}

/-! ## Pairs of words -/

/-- Whether a text is a word that the notation does not use, nor a truth value. -/
def Ordinary (rules : Rules) (t : Text) : Prop := Plain rules t ∧ t ≠ "YES" ∧ t ≠ "NO"

instance (rules : Rules) (t : Text) : Decidable (Ordinary rules t) :=
  inferInstanceAs (Decidable (_ ∧ _))

/-- Whether a key and a value are ordinary words. -/
def OrdinaryPair (rules : Rules) (pair : Text × Text) : Prop :=
  Ordinary rules pair.1 ∧ Ordinary rules pair.2

instance (rules : Rules) (pair : Text × Text) : Decidable (OrdinaryPair rules pair) :=
  inferInstanceAs (Decidable (_ ∧ _))

/-- Some pairs as they are written, with single spaces between all words. -/
def written (pairs : List (Text × Text)) : Text := join " " (inTurn pairs)

/-- The pairs that come about when a word stands in front of the words of some pairs. -/
def shifted (value : Text) (pairs : List (Text × Text)) : List (Text × Text) :=
  (value :: pairs.map Prod.snd).zip (pairs.map Prod.fst)

/-- An ordinary word keeps all its characters when it is paired. -/
theorem Ordinary.strip_eq {t : Text} (hOrdinary : Ordinary rules t) : strip t = t :=
  strip_of_clean (clean_of_nonblank hOrdinary.1.1.isBlank_eq_false)

/-- As a value an ordinary word stands for itself. -/
theorem Ordinary.readValue_eq {t : Text} (hOrdinary : Ordinary rules t) : readValue t = t := by
  rw [readValue, if_neg hOrdinary.2.2, if_neg hOrdinary.2.1]

/-- Pairs that are written one behind the other are paired as they are. -/
theorem pairUp_inTurn_append (hBefore : ∀ pair ∈ before, OrdinaryPair rules pair)
    (ts : List Text) : pairUp (inTurn before ++ ts) = before ++ pairUp ts := by
  have hRead : (before.map fun pair => (pair.1, readValue pair.2)) = before := by
    refine (List.map_congr_left fun pair hMem => ?_).trans (List.map_id before)
    rw [(hBefore pair hMem).2.readValue_eq]
    rfl
  rw [pairUp_append_of_strip_eq
    (fun pair hMem => ⟨(hBefore pair hMem).1.strip_eq, (hBefore pair hMem).2.strip_eq⟩), hRead]

/-- So they are if nothing else is written. -/
theorem pairUp_inTurn (hPairs : ∀ pair ∈ before, OrdinaryPair rules pair) :
    pairUp (inTurn before) = before := by
  have hAppend := pairUp_inTurn_append hPairs []
  rwa [List.append_nil, show pairUp [] = [] from rfl, List.append_nil] at hAppend

/-- A word in front shifts all pairs, and the last value has no partner. -/
theorem pairUp_cons_inTurn (hValue : strip value = value)
    (hAfter : ∀ pair ∈ after, OrdinaryPair rules pair) :
    pairUp (value :: inTurn after) = shifted value after := by
  induction after generalizing value with
  | nil => rfl
  | cons pair later ih =>
    obtain ⟨hKey, hNext⟩ := hAfter pair (List.mem_cons_self ..)
    have hLater := ih hNext.strip_eq fun next hMem => hAfter next (List.mem_cons_of_mem pair hMem)
    rw [inTurn_cons, pairUp, hLater, hValue, hKey.strip_eq, hKey.readValue_eq]
    rfl

/-! ## The option among its pairs -/

/-- The four words for truth values. -/
def truths : List Text := ["True", "False", "YES", "NO"]

/-- What is written between an option and the word behind it. -/
def inserted (value : Text) : List Text :=
  if value = "True" ∨ value = "False" then [] else ["True"]

/-- The words of ordinary pairs are ordinary. -/
theorem ordinary_of_mem_inTurn (hPairs : ∀ pair ∈ before, OrdinaryPair rules pair) :
    ∀ t ∈ inTurn before, Ordinary rules t := by
  intro t hMem
  obtain ⟨pair, hPair, hWord⟩ := List.mem_flatMap.mp hMem
  rcases List.mem_pair.mp hWord with rfl | rfl
  · exact (hPairs pair hPair).1
  · exact (hPairs pair hPair).2

/-- An option is switched on unless its truth value is seen while options are resolved. -/
theorem switched_option (hBefore : ∀ t ∈ inTurn before, t ≠ option)
    (hAfter : ∀ t ∈ inTurn after, t ≠ option) (hValue : value ≠ option) :
    switched [option] ((inTurn (before ++ (option, value) :: after)).map Piece.bare) =
      (inTurn before ++ option :: (inserted value ++ value :: inTurn after)).map Piece.bare := by
  have hOther : ∀ {ts : List Text}, (∀ t ∈ ts, t ≠ option) → ∀ p ∈ ts.map Piece.bare,
      ∀ later, Piece.optionStep option p later = [p] := fun hWords p hMem later => by
    obtain ⟨t, hWord, rfl⟩ := List.mem_map.mp hMem
    exact if_neg fun hHere => hWords t hWord (Piece.bare.inj hHere.1)
  have hBehind : ∀ t ∈ value :: inTurn after, t ≠ option :=
    List.forall_mem_cons.mpr ⟨hValue, hAfter⟩
  -- only the first two truth values are seen
  have hSeen : Piece.startsTruth ((value :: inTurn after).map Piece.bare) = false ↔
      ¬ (value = "True" ∨ value = "False") := by
    rw [← Bool.not_eq_true, Piece.startsTruth, Bool.or_eq_true, beq_iff_eq, beq_iff_eq,
      List.map_cons, List.head?_cons, Option.some.injEq, Option.some.injEq, Piece.bare.injEq,
      Piece.bare.injEq]
  unfold switched
  rw [List.foldl_cons, List.foldl_nil, inTurn_append, inTurn_cons, List.map_append,
    unfolded_append_of_self (hOther hBefore), List.map_cons, unfolded,
    unfolded_of_self (hOther hBehind), Piece.optionStep, inserted]
  -- the step on the option is the only one that inserts something
  by_cases hTruth : value = "True" ∨ value = "False"
  · rw [if_pos hTruth, if_neg fun hHere => hSeen.mp hHere.2 hTruth]
    simp
  · rw [if_neg hTruth, if_pos ⟨rfl, hSeen.mpr hTruth⟩]
    simp

/-- Words on their own are resolved by nothing but options. -/
theorem settled_bare (s : Text) {ts us : List Text}
    (hSwitched : switched rules.optionKeys (ts.map Piece.bare) = us.map Piece.bare) :
    settled s rules.optionKeys (ts.map Piece.bare) = us.map Piece.bare := by
  have hAlone : ∀ {f : Piece → List Piece}, (∀ t, f (.bare t) = [.bare t]) →
      (ts.map Piece.bare).flatMap f = ts.map Piece.bare := fun hSelf => by
    rw [List.flatMap_map, List.flatMap_congr fun t _ => hSelf t]
    exact List.flatMap_pure_eq_map Piece.bare ts
  unfold settled expanded
  rw [hAlone fun t => rfl, hAlone fun t => rfl, hSwitched]
  refine unfolded_of_self fun p hMem later => ?_
  obtain ⟨t, -, rfl⟩ := List.mem_map.mp hMem
  rfl

/-! ## The standard rules -/

/-- Each construct has one option at most. -/
theorem optionKeys_eq_singleton {construct : Construct}
    (hOption : option ∈ (Rulebook.standard construct).optionKeys) :
    (Rulebook.standard construct).optionKeys = [option] := by
  cases construct <;> simp_all [Rulebook.standard]

/-- The options of the standard rules are words, and none of them is a truth value. -/
theorem standard_option (construct : Construct) :
    ∀ option ∈ (Rulebook.standard construct).optionKeys, IsBare option ∧ option ∉ truths := by
  cases construct <;> decide

/-- The words that are truth values only when paired are truth values. -/
theorem mem_truths_of_late (hValue : value = "YES" ∨ value = "NO") : value ∈ truths := by
  rcases hValue with rfl | rfl <;> decide

/-- Each truth value is a word of its own. -/
theorem isBare_of_mem_truths : ∀ value ∈ truths, IsBare value := by decide

/-- What is paired when an option with a truth value behind it stands among pairs. -/
theorem decode_option {construct : Construct}
    (hOption : option ∈ (Rulebook.standard construct).optionKeys)
    (hBefore : ∀ pair ∈ before, OrdinaryPair (Rulebook.standard construct) pair)
    (hAfter : ∀ pair ∈ after, OrdinaryPair (Rulebook.standard construct) pair)
    (hValue : value ∈ truths)
    (hMerge : ∀ key ∈ (Rulebook.standard construct).mergeKeys,
      ¬ key <:+: written (before ++ (option, value) :: after)) :
    decode (Rulebook.standard construct)
        (written (before ++ (option, value) :: after)) =
      .ok (ofList (before ++ pairUp (option :: (inserted value ++ value :: inTurn after)))) := by
  obtain ⟨hBare, hTruth⟩ := standard_option construct option hOption
  have hWords := ordinary_of_mem_inTurn hBefore
  have hMore := ordinary_of_mem_inTurn hAfter
  have hNotOption : ∀ {t}, Ordinary (Rulebook.standard construct) t → t ≠ option :=
    fun hWord hSame => hWord.1.not_mem_options (hSame ▸ hOption)
  -- what is written are bare words
  have hSound : ∀ p ∈ (inTurn (before ++ (option, value) :: after)).map Piece.bare,
      p.Sound (Rulebook.standard construct).optionKeys := by
    refine List.forall_mem_map.mpr fun t hMem => ?_
    rw [inTurn_append, inTurn_cons, List.mem_append, List.mem_cons, List.mem_cons] at hMem
    rcases hMem with hFront | rfl | rfl | hBack
    · exact (hWords t hFront).1.isBare
    · exact hBare
    · exact isBare_of_mem_truths _ hValue
    · exact (hMore t hBack).1.isBare
  have hNames : ∀ key ∈ (Rulebook.standard construct).optionKeys, IsName key := fun key hMem =>
    (standard_option construct key hMem).1.1
  have hSwitched := switched_option (fun t hMem => hNotOption (hWords t hMem))
    (fun t hMem => hNotOption (hMore t hMem)) (ne_of_mem_of_not_mem hValue hTruth)
  rw [← optionKeys_eq_singleton hOption] at hSwitched
  have hTexts : ∀ ts : List Text, (ts.map Piece.bare).map Piece.text = ts := fun ts => by
    simp [Function.comp_def, Piece.text]
  have hSeparates : Separates (Rulebook.standard construct).separator := by
    rw [Rulebook.standard_separator]
    exact separates_space
  have hDecoded := decode_pieces hSeparates hNames hSound
    (by rwa [hTexts, Rulebook.standard_separator])
  rw [settled_bare _ hSwitched, hTexts, hTexts, Rulebook.standard_separator,
    pairUp_inTurn_append hBefore] at hDecoded
  exact hDecoded

/-- A truth value is no key of ordinary pairs. -/
theorem not_mem_keys_of_mem_truths {pairs : List (Text × Text)}
    (hPairs : ∀ pair ∈ pairs, OrdinaryPair rules pair) (hValue : value = "YES" ∨ value = "NO") :
    value ∉ pairs.map Prod.fst := by
  intro hMem
  obtain ⟨pair, hPair, rfl⟩ := List.mem_map.mp hMem
  have hKey := (hPairs pair hPair).1
  exact hValue.elim hKey.2.1 hKey.2.2

/-- Shifted pairs make the mapping that was written only if there are none. -/
theorem ofList_shifted_eq_iff (hOption : option ∉ truths)
    (hBefore : ∀ pair ∈ before, OrdinaryPair rules pair)
    (hAfter : ∀ pair ∈ after, OrdinaryPair rules pair) (hValue : value = "YES" ∨ value = "NO") :
    ofList (before ++ (option, ("True" : Text)) :: shifted value after) =
        ofList (before ++ (option, readValue value) :: after) ↔ value = "YES" ∧ after = [] := by
  constructor
  · intro hSame
    cases after with
    | nil =>
      -- the option has the last value, which tells the two apart
      have hGet : ∀ last : Text, (ofList (before ++ [(option, last)])).get? option = some last :=
        fun last => get?_ofList_append_cons (List.forall_mem_nil _)
      have hLast : (ofList (before ++ [(option, ("True" : Text))])).get? option =
          (ofList (before ++ [(option, readValue value)])).get? option :=
        congrArg (fun p => p.get? option) hSame
      rw [hGet, hGet, Option.some.injEq] at hLast
      rcases hValue with rfl | rfl
      · exact ⟨rfl, rfl⟩
      · exact absurd hLast (by decide)
    | cons pair later =>
      -- the truth value has become a key, and it was written as none
      have hKey : value ∈ (ofList (before ++ (option, readValue value) :: pair :: later)).keys := by
        rw [← hSame, mem_keys_ofList]
        simp [shifted]
      rw [mem_keys_ofList, List.map_append, List.map_cons, List.mem_append, List.mem_cons] at hKey
      rcases hKey with hFront | hHere | hBack
      · exact absurd hFront (not_mem_keys_of_mem_truths hBefore hValue)
      · have hSame : value = option := hHere
        exact absurd (hSame ▸ mem_truths_of_late hValue) hOption
      · exact absurd hBack (not_mem_keys_of_mem_truths hAfter hValue)
  · rintro ⟨rfl, rfl⟩
    rfl

/-- **A truth value is the value of its option only if it is seen in time**, under the standard
rules of each construct. Behind `True` or `False` the pairs go on as they are written. Behind `YES`
or `NO` they are shifted by one word, and so they are what is written only if the option is switched
on and nothing follows. -/
theorem decode_explicitValue (construct : Construct) (value : Text)
    (hOption : option ∈ (Rulebook.standard construct).optionKeys)
    (hBefore : ∀ pair ∈ before, OrdinaryPair (Rulebook.standard construct) pair)
    (hAfter : ∀ pair ∈ after, OrdinaryPair (Rulebook.standard construct) pair)
    (hMerge : ∀ key ∈ (Rulebook.standard construct).mergeKeys,
      ¬ key <:+: written (before ++ (option, value) :: after)) :
    (value = "True" ∨ value = "False" →
      decode (Rulebook.standard construct)
          (written (before ++ (option, value) :: after)) =
        .ok (ofList (before ++ (option, value) :: after))) ∧
      (value = "YES" ∨ value = "NO" →
        decode (Rulebook.standard construct)
            (written (before ++ (option, value) :: after)) =
          .ok (ofList (before ++ (option, ("True" : Text)) :: shifted value after)) ∧
        (decode (Rulebook.standard construct)
            (written (before ++ (option, value) :: after)) =
          .ok (ofList (before ++ (option, readValue value) :: after)) ↔
            value = "YES" ∧ after = [])) := by
  obtain ⟨hBare, hTruth⟩ := standard_option construct option hOption
  have hName : strip option = option :=
    strip_of_clean (clean_of_nonblank hBare.1.isBlank_eq_false)
  refine ⟨fun hValue => ?_, fun hValue => ?_⟩
  · have hMem : value ∈ truths := by rcases hValue with rfl | rfl <;> decide
    have hRead : strip value = value ∧ readValue value = value := by
      rcases hValue with rfl | rfl <;> decide
    rw [decode_option hOption hBefore hAfter hMem hMerge, inserted, if_pos hValue, List.nil_append,
      pairUp, pairUp_inTurn hAfter, hName, hRead.1, hRead.2]
  · have hMem := mem_truths_of_late hValue
    have hRead : strip value = value := by rcases hValue with rfl | rfl <;> decide
    have hLate : ¬ (value = "True" ∨ value = "False") := by rcases hValue with rfl | rfl <;> decide
    have hTrue : strip "True" = "True" ∧ readValue "True" = "True" := by decide
    -- the option gets its value from the inserted word, and all that follows is shifted
    have hDecoded : decode (Rulebook.standard construct)
        (written (before ++ (option, value) :: after)) =
          .ok (ofList (before ++ (option, ("True" : Text)) :: shifted value after)) := by
      rw [decode_option hOption hBefore hAfter hMem hMerge, inserted, if_neg hLate,
        List.singleton_append, pairUp, pairUp_cons_inTurn hRead hAfter, hName, hTrue.1, hTrue.2]
    refine ⟨hDecoded, ?_⟩
    rw [hDecoded, Except.ok.injEq, ofList_shifted_eq_iff hTruth hBefore hAfter hValue]

/-- A tablespace that is not logged, with a size of its segments. -/
theorem decode_explicitValue_notLogged :
    ("LOGGED" : Text) ∈ (Rulebook.standard .tablespace).optionKeys ∧
      (∀ pair ∈ [(("BUFFERPOOL" : Text), ("BP1" : Text))],
        OrdinaryPair (Rulebook.standard .tablespace) pair) ∧
      (∀ pair ∈ [(("SEGSIZE" : Text), ("4" : Text))],
        OrdinaryPair (Rulebook.standard .tablespace) pair) ∧
      (∀ key ∈ (Rulebook.standard .tablespace).mergeKeys,
        ¬ key <:+: ("BUFFERPOOL BP1 LOGGED NO SEGSIZE 4" : Text)) ∧
      decode (Rulebook.standard .tablespace) "BUFFERPOOL BP1 LOGGED NO SEGSIZE 4" =
        .ok (ofList [("BUFFERPOOL", "BP1"), ("LOGGED", "True"), ("NO", "SEGSIZE")]) := by
  have hOption : ("LOGGED" : Text) ∈ (Rulebook.standard .tablespace).optionKeys := by decide
  have hBefore : ∀ pair ∈ [(("BUFFERPOOL" : Text), ("BP1" : Text))],
      OrdinaryPair (Rulebook.standard .tablespace) pair := by decide +kernel
  have hAfter : ∀ pair ∈ [(("SEGSIZE" : Text), ("4" : Text))],
      OrdinaryPair (Rulebook.standard .tablespace) pair := by decide +kernel
  have hMerge : ∀ key ∈ (Rulebook.standard .tablespace).mergeKeys,
      ¬ key <:+: ("BUFFERPOOL BP1 LOGGED NO SEGSIZE 4" : Text) := by decide +kernel
  have hLate := (decode_explicitValue .tablespace "NO" hOption hBefore hAfter hMerge).2
  exact ⟨hOption, hBefore, hAfter, hMerge, (hLate (Or.inr rfl)).1⟩

/-- Not every option takes the truth value that is written behind it. -/
theorem not_forall_explicitValue :
    ¬ ∀ (construct : Construct) (option : Text) (before after : List (Text × Text)) (value : Text),
      option ∈ (Rulebook.standard construct).optionKeys →
      (∀ pair ∈ before ++ after, OrdinaryPair (Rulebook.standard construct) pair) →
      value = "YES" ∨ value = "NO" →
      (∀ key ∈ (Rulebook.standard construct).mergeKeys,
        ¬ key <:+: written (before ++ (option, value) :: after)) →
      decode (Rulebook.standard construct) (written (before ++ (option, value) :: after)) =
        .ok (ofList (before ++ (option, readValue value) :: after)) := by
  intro hAll
  have hTaken := hAll .tablespace "LOGGED" [] [("SEGSIZE", "4")] "NO" (by decide)
    (by decide +kernel) (Or.inr rfl) (by decide +kernel)
  have hDecoded : (decode (Rulebook.standard .tablespace) "LOGGED NO SEGSIZE 4").toOption =
      some (ofList [("LOGGED", "True"), ("NO", "SEGSIZE")]) := by
    decide +kernel
  have hWritten : written ([] ++ (("LOGGED" : Text), ("NO" : Text)) :: [("SEGSIZE", "4")]) =
      "LOGGED NO SEGSIZE 4" := rfl
  rw [hWritten] at hTaken
  rw [hTaken] at hDecoded
  exact absurd (Option.some.inj hDecoded) (by decide +kernel)

end SchemaScript.Parameters
