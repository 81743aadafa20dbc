import SchemaScript.Proofs.Parameters.Mapping
import SchemaScript.Proofs.Parameters.Pieces

/-!
# Entries under other separators

The rules say what separates keys and values, and entries can be written with any separator
(`writeIn`). All shorthands but one use the separator of the rules or none at all. The last one
joins a unit to its number only if a blank or nothing stands behind the unit, and a separator that
is no blank keeps it from that: such a size is joined at the end of the text only (`Entry.valueIn`).

So entries mean the same under each separator if no size stands before another entry, and where one
does, its space is seen unless its key is set again (`decode_writeIn`).
-/

namespace SchemaScript.Parameters

open Text Pattern Shorthand

variable {rules : Rules} {entries later : List Entry} {e : Entry} {s : Text}

/-! ## Entries with a separator -/

namespace Entry

/-- An entry with a separator between its key and its value. The space inside of a shorthand does
not separate a key from a value, and stays. -/
def textIn (s : Text) : Entry → Text
  | pair key value => key ++ s ++ value
  | sized key digits unit => key ++ s ++ (digits ++ ' ' :: [unit])
  | e => e.text

/-- Whether the words of an entry are its own, and it has no parentheses. What stands for an option
is no word by which another shorthand is known, and no part of a size is an option. -/
def Separable (rules : Rules) : Entry → Prop
  | pair key value => Plain rules key ∧ Plain rules value
  | negated key => Plain rules key
  | present key => Plain rules key
  | option key => key ∈ rules.optionKeys ∧ key ∉ signals
  | function _ _ _ => False
  | sized key digits unit =>
    Plain rules key ∧ digits ≠ [] ∧ digits.all isDecimal = true ∧ isUnit unit = true ∧
      digits ∉ rules.optionKeys ∧ [unit] ∉ rules.optionKeys

instance (rules : Rules) : (e : Entry) → Decidable (e.Separable rules)
  | pair _ _ => inferInstanceAs (Decidable (_ ∧ _))
  | negated key => inferInstanceAs (Decidable (Plain rules key))
  | present key => inferInstanceAs (Decidable (Plain rules key))
  | option _ => inferInstanceAs (Decidable (_ ∧ _))
  | function _ _ _ => inferInstanceAs (Decidable False)
  | sized _ _ _ => inferInstanceAs (Decidable (_ ∧ _))

/-- Whether an entry has a size. -/
def isSized : Entry → Bool
  | sized _ _ _ => true
  | _ => false

/-- The value of an entry with others behind it. A size is joined if a space is the separator or
nothing stands behind it. -/
def valueIn (s : Text) : Entry → List Entry → Text
  | sized _ digits unit, later =>
    if s = " " ∨ later = [] then digits ++ [unit] else digits ++ ' ' :: [unit]
  | e, _ => e.meaning.2

/-- The pieces of an entry between which a separator stands. Functions have none here. -/
def parts : Entry → List Piece
  | pair key value => [.bare key, .bare value]
  | negated key => [.negated key]
  | present key => [.present key]
  | option key => [.bare key]
  | function _ _ _ => []
  | sized key digits unit => [.bare key, .size digits unit]

end Entry

/-- The text of entries with a separator between each two keys and values. -/
def writeIn (s : Text) (entries : List Entry) : Text := join s (entries.map (Entry.textIn s))

/-- Each entry with those behind it. -/
def withLater : List Entry → List (Entry × List Entry)
  | [] => []
  | e :: later => (e, later) :: withLater later

/-- The keys and values of entries under a separator. -/
def meaningsIn (s : Text) (entries : List Entry) : List (Text × Text) :=
  (withLater entries).map fun x => (x.1.meaning.1, x.1.valueIn s x.2)

/-- With a space an entry is written as ever. -/
theorem Entry.textIn_space (e : Entry) : e.textIn " " = e.text := by
  cases e with
  | sized key digits unit => simp [textIn, text_sized]
  | _ => rfl

/-- With spaces, entries are written as ever. -/
theorem writeIn_space (entries : List Entry) : writeIn " " entries = write entries := by
  rw [write_eq, writeIn, funext Entry.textIn_space]

/-! ## Entries as pieces -/

namespace Entry

/-- The text of an entry is that of its pieces. -/
theorem Separable.textIn_eq (hSeparable : e.Separable rules) (s : Text) :
    e.textIn s = join s (e.parts.map Piece.text) := by
  cases e with
  | function name arguments spaced => exact hSeparable.elim
  | negated key => exact text_negated key
  | present key => exact text_present key
  | _ => rfl

/-- An entry has at least one piece. -/
theorem Separable.parts_ne_nil (hSeparable : e.Separable rules) : e.parts ≠ [] := by
  cases e with
  | function name arguments spaced => exact hSeparable.elim
  | _ => simp [parts]

end Entry

/-- The pieces of an entry are sound. -/
theorem Entry.Separable.sound (hNames : ∀ key ∈ rules.optionKeys, IsName key)
    (hSeparable : e.Separable rules) : ∀ p ∈ e.parts, p.Sound rules.optionKeys := by
  cases e with
  | pair key value =>
    exact List.forall_mem_cons.mpr ⟨hSeparable.1.isBare,
      List.forall_mem_singleton.mpr hSeparable.2.isBare⟩
  | negated key => exact List.forall_mem_singleton.mpr (Plain.isBare hSeparable)
  | present key => exact List.forall_mem_singleton.mpr (Plain.isBare hSeparable)
  | option key => exact List.forall_mem_singleton.mpr ⟨hNames key hSeparable.1, hSeparable.2⟩
  | function name arguments spaced => exact hSeparable.elim
  | sized key digits unit =>
    obtain ⟨hKey, hSome, hDecimal, hUnit, hOther⟩ := hSeparable
    exact List.forall_mem_cons.mpr ⟨hKey.isBare,
      List.forall_mem_singleton.mpr ⟨hSome, List.all_eq_true.mp hDecimal, hUnit, hOther⟩⟩

/-- The text of entries is the text of their pieces. -/
theorem writeIn_eq (hSeparable : ∀ e ∈ entries, e.Separable rules) (s : Text) :
    writeIn s entries = join s ((entries.flatMap Entry.parts).map Piece.text) := by
  unfold writeIn
  induction entries with
  | nil => rfl
  | cons e later ih =>
    have hHere := hSeparable e (List.mem_cons_self ..)
    have hLater := fun next hMem => hSeparable next (List.mem_cons_of_mem e hMem)
    have hParts : e.parts.map Piece.text ≠ [] := by simp [hHere.parts_ne_nil]
    rw [List.map_cons, join_cons_eq, hHere.textIn_eq, List.flatMap_cons, List.map_append,
      join_append_eq hParts]
    congr 1
    cases later with
    | nil => rfl
    | cons next more =>
      -- behind the entry the separator stands, and then the pieces of the next one
      have hMore : ((next :: more).flatMap Entry.parts).map Piece.text ≠ [] := by
        have hNext := (hLater next (List.mem_cons_self ..)).parts_ne_nil
        simp [hNext]
      rw [behindFirst_of_ne_nil hMore, ← ih hLater, behindFirst_of_ne_nil (by simp)]

/-- Pieces of entries are decoded under any separator. -/
theorem decode_parts (hSeparates : Separates s) (hNone : rules.mergeKeys = [])
    (hNames : ∀ key ∈ rules.optionKeys, IsName key)
    (hSeparable : ∀ e ∈ entries, e.Separable rules) :
    decode { rules with separator := s } (writeIn s entries) =
      .ok (ofList (pairUp ((settled s rules.optionKeys
        (entries.flatMap Entry.parts)).map Piece.text))) := by
  rw [writeIn_eq hSeparable]
  refine decode_pieces hSeparates hNames ?_ (by simp [hNone])
  intro p hMem
  obtain ⟨e, hEntry, hPiece⟩ := List.mem_flatMap.mp hMem
  exact (hSeparable e hEntry).sound hNames p hPiece

/-! ## Sizes that stand last -/

/-- Whether a piece is a size. -/
def Piece.IsSize : Piece → Prop
  | size _ _ => True
  | _ => False

/-- Whether no size stands before another piece. -/
def Piece.SizesLast : List Piece → Prop
  | [] => True
  | p :: later => (p.IsSize → later = []) ∧ SizesLast later

/-- Pieces that are no sizes may stand before. -/
theorem Piece.SizesLast.append {pieces more : List Piece} (hNone : ∀ p ∈ pieces, ¬ p.IsSize)
    (hMore : SizesLast more) : SizesLast (pieces ++ more) := by
  induction pieces with
  | nil => exact hMore
  | cons p pieces ih =>
    obtain ⟨hHere, hLater⟩ := List.forall_mem_cons.mp hNone
    exact ⟨fun hSize => absurd hSize hHere, ih hLater⟩

/-- Steps that leave sizes alone and bring in none keep them last. -/
theorem Piece.SizesLast.unfolded {f : Piece → List Piece → List Piece} {pieces : List Piece}
    (hStep : ∀ p later, f p later = [p] ∨ ¬ p.IsSize ∧ ∀ q ∈ f p later, ¬ q.IsSize)
    (hLast : SizesLast pieces) : SizesLast (Pattern.unfolded f pieces) := by
  induction pieces with
  | nil => trivial
  | cons p later ih =>
    have hBehind := ih hLast.2
    rw [Pattern.unfolded]
    -- a size that is left alone is the last piece, so nothing is written behind it
    rcases hStep p later with hSelf | ⟨-, hNone⟩
    · rw [hSelf]
      refine ⟨fun hSize => ?_, hBehind⟩
      rw [hLast.1 hSize]
      rfl
    · exact hBehind.append hNone

/-- The steps before the last one keep sizes last. -/
theorem Piece.SizesLast.expanded {pieces : List Piece} (hLast : SizesLast pieces)
    (options : List Text) : SizesLast (expanded options pieces) := by
  have hNegation : SizesLast (pieces.flatMap negationStep) := by
    rw [← unfolded_eq_flatMap (f := fun p _ => negationStep p) fun _ _ => rfl]
    refine hLast.unfolded fun p _ => ?_
    cases p with
    | negated key => exact Or.inr ⟨id, by simp [negationStep, IsSize]⟩
    | _ => exact Or.inl rfl
  have hPresence : SizesLast ((pieces.flatMap negationStep).flatMap presenceStep) := by
    rw [← unfolded_eq_flatMap (f := fun p _ => presenceStep p) fun _ _ => rfl]
    refine hNegation.unfolded fun p _ => ?_
    cases p with
    | present key => exact Or.inr ⟨id, by simp [presenceStep, IsSize]⟩
    | _ => exact Or.inl rfl
  unfold Parameters.expanded switched
  -- option by option, on whatever the steps before have left
  generalize (pieces.flatMap negationStep).flatMap presenceStep = left at hPresence
  induction options generalizing left with
  | nil => exact hPresence
  | cons key keys ih =>
    refine ih _ (hPresence.unfolded fun p later => ?_)
    unfold optionStep
    split
    · next hHere => exact Or.inr ⟨hHere.1 ▸ id, by simp [IsSize]⟩
    · exact Or.inl rfl

/-- The last size is joined under each separator. -/
theorem Piece.SizesLast.unfolded_sizeStep {pieces : List Piece} (hLast : SizesLast pieces)
    (s s' : Text) :
    Pattern.unfolded (sizeStep s) pieces = Pattern.unfolded (sizeStep s') pieces := by
  induction pieces with
  | nil => rfl
  | cons p later ih =>
    rw [Pattern.unfolded, Pattern.unfolded, ih hLast.2]
    cases p with
    | size digits unit =>
      rw [hLast.1 trivial]
      rfl
    | _ => rfl

/-- If no entry but the last one has a size, no size stands before another piece. -/
theorem sizesLast_parts (hLast : ∀ e ∈ entries.dropLast, e.isSized = false) :
    Piece.SizesLast (entries.flatMap Entry.parts) := by
  induction entries with
  | nil => trivial
  | cons e later ih =>
    rw [List.flatMap_cons]
    by_cases hEnd : later = []
    · subst hEnd
      cases e with
      | sized key digits unit => exact ⟨False.elim, fun _ => rfl, trivial⟩
      | _ => exact .append (by simp [Entry.parts, Piece.IsSize]) trivial
    · rw [List.dropLast_cons_of_ne_nil hEnd, List.forall_mem_cons] at hLast
      refine (ih hLast.2).append ?_
      cases e with
      | sized key digits unit => cases hLast.1
      | _ => simp [Entry.parts, Piece.IsSize]

/-! ## Options between entries -/

namespace Entry

/-- Whether an entry is left for the options and sizes, and starts with no truth value. -/
def Switchable (options : List Text) : Entry → Prop
  | pair key value =>
    key ≠ "True" ∧ key ≠ "False" ∧ (key ∉ options ∨ value = "True") ∧ value ∉ options
  | option key => key ≠ "True" ∧ key ≠ "False" ∧ key ∈ options
  | sized key _ _ => key ≠ "True" ∧ key ≠ "False" ∧ key ∉ options
  | _ => False

/-- An entry with all shorthands but its size resolved. -/
def cleared (rules : Rules) (e : Entry) : Entry :=
  e.negationSettled.presenceSettled.optionsSettled rules.optionKeys

/-- Switching options on leaves entries that may be switched. -/
theorem Switchable.optionsSettled {options keys : List Text} (hTrue : "True".toList ∉ options)
    (hSwitchable : e.Switchable options) : (e.optionsSettled keys).Switchable options := by
  cases e with
  | option key =>
    by_cases hMem : key ∈ keys
    · rw [optionsSettled_of_mem hMem]
      exact ⟨hSwitchable.1, hSwitchable.2.1, Or.inr rfl, hTrue⟩
    · rw [optionsSettled_of_not_mem hMem]
      exact hSwitchable
  | _ => exact hSwitchable

end Entry

section

variable {options : List Text} {key : Text}

/-- No entry starts with a truth value. -/
theorem startsTruth_flatMap_parts (hSwitchable : ∀ e ∈ entries, e.Switchable options) :
    Piece.startsTruth (entries.flatMap Entry.parts) = false := by
  cases entries with
  | nil => rfl
  | cons e later =>
    have hHere := hSwitchable e (List.mem_cons_self ..)
    have hOther : ∀ {key : Text} {more : List Piece}, key ≠ "True" → key ≠ "False" →
        Piece.startsTruth (.bare key :: more) = false := by
      intro key more hTrue hFalse
      rw [Piece.startsTruth, List.head?_cons, Bool.or_eq_false_iff, beq_eq_false_iff_ne,
        beq_eq_false_iff_ne]
      exact ⟨fun hSame => hTrue (Piece.bare.inj (Option.some.inj hSame)),
        fun hSame => hFalse (Piece.bare.inj (Option.some.inj hSame))⟩
    cases e with
    | pair key value => exact hOther hHere.1 hHere.2.1
    | option key => exact hOther hHere.1 hHere.2.1
    | sized key digits unit => exact hOther hHere.1 hHere.2.1
    | _ => exact hHere.elim

/-- A piece that is not the option is left alone. -/
theorem optionStep_of_ne {p : Piece} {later : List Piece} (hOther : p ≠ .bare key) :
    Piece.optionStep key p later = [p] := if_neg fun hHere => hOther hHere.1

/-- An option is switched on in the entries that it is. -/
theorem unfolded_optionStep_parts (hKey : key ∈ options)
    (hSwitchable : ∀ e ∈ entries, e.Switchable options) :
    unfolded (Piece.optionStep key) (entries.flatMap Entry.parts) =
      (entries.map (Entry.optionsSettled [key])).flatMap Entry.parts := by
  induction entries with
  | nil => rfl
  | cons e later ih =>
    have hHere := hSwitchable e (List.mem_cons_self ..)
    have hLater := fun next hMem => hSwitchable next (List.mem_cons_of_mem e hMem)
    have hBare : ∀ {t : Text}, t ∉ options → Piece.bare t ≠ .bare key := fun hNot hSame =>
      hNot (Piece.bare.inj hSame ▸ hKey)
    rw [List.map_cons, List.flatMap_cons, List.flatMap_cons, ← ih hLater]
    cases e with
    | pair first value =>
      obtain ⟨-, -, hFirst, hValue⟩ := hHere
      have hLeft : Piece.optionStep key (.bare first)
          (.bare value :: later.flatMap Entry.parts) = [.bare first] := by
        -- a key that is the option has its value already
        rcases hFirst with hOther | rfl
        · exact optionStep_of_ne (hBare hOther)
        · exact if_neg fun hHere => absurd hHere.2 (by simp [Piece.startsTruth])
      simp only [Entry.parts, List.cons_append, List.nil_append, unfolded, hLeft,
        optionStep_of_ne (hBare hValue), Entry.optionsSettled]
    | option first =>
      by_cases hSame : first = key
      · subst hSame
        rw [Entry.optionsSettled_of_mem (List.mem_singleton_self first)]
        have hOpen : Piece.optionStep first (.bare first) (later.flatMap Entry.parts) =
            [.bare first, .bare "True"] := if_pos ⟨rfl, startsTruth_flatMap_parts hLater⟩
        simp only [Entry.parts, List.cons_append, List.nil_append, unfolded, hOpen]
      · rw [Entry.optionsSettled_of_not_mem (by simpa using hSame)]
        have hOther : Piece.bare first ≠ .bare key := fun hHere => hSame (Piece.bare.inj hHere)
        simp only [Entry.parts, List.cons_append, List.nil_append, unfolded,
          optionStep_of_ne hOther]
    | sized first digits unit =>
      have hSize : Piece.size digits unit ≠ .bare key := by simp
      simp only [Entry.parts, List.cons_append, List.nil_append, unfolded,
        optionStep_of_ne (hBare hHere.2.2), optionStep_of_ne hSize, Entry.optionsSettled]
    | _ => exact hHere.elim

/-- All options are switched on in the entries that they are. -/
theorem switched_parts (hTrue : "True".toList ∉ options) {keys : List Text}
    (hKeys : ∀ key ∈ keys, key ∈ options) (hSwitchable : ∀ e ∈ entries, e.Switchable options) :
    switched keys (entries.flatMap Entry.parts) =
      (entries.map (Entry.optionsSettled keys)).flatMap Entry.parts := by
  unfold switched
  induction keys generalizing entries with
  | nil =>
    have hNone : Entry.optionsSettled [] = id := funext fun e => by
      cases e <;> simp [Entry.optionsSettled]
    rw [List.foldl_nil, hNone, List.map_id]
  | cons key keys ih =>
    have hHere := unfolded_optionStep_parts (hKeys key (List.mem_cons_self ..)) hSwitchable
    have hLeft : ∀ e ∈ entries.map (Entry.optionsSettled [key]), e.Switchable options :=
      List.forall_mem_map.mpr fun e hMem => (hSwitchable e hMem).optionsSettled hTrue
    rw [List.foldl_cons, hHere, ih (fun other hMem => hKeys other (List.mem_cons_of_mem key hMem))
      hLeft, List.map_map]
    congr 2
    funext e
    exact e.optionsSettled_cons key keys

end

namespace Entry

/-- To resolve negations in the pieces of an entry is to resolve them in the entry. -/
theorem parts_flatMap_negationStep (e : Entry) :
    e.parts.flatMap Piece.negationStep = e.negationSettled.parts := by
  cases e <;> rfl

/-- The same holds for presence. -/
theorem parts_flatMap_presenceStep (e : Entry) :
    e.parts.flatMap Piece.presenceStep = e.presenceSettled.parts := by
  cases e <;> rfl

/-- A plain word is no truth value. -/
theorem ne_truth_of_plain {t : Text} (hPlain : Plain rules t) : t ≠ "True" ∧ t ≠ "False" := by
  have hTruths : "True".toList ∈ keywords ∧ "False".toList ∈ keywords := by decide
  exact ⟨fun hSame => hPlain.2 (List.mem_append_left _ (hSame ▸ hTruths.1)),
    fun hSame => hPlain.2 (List.mem_append_left _ (hSame ▸ hTruths.2))⟩

/-- What the steps before the options leave of an entry. -/
theorem Separable.switchable (hTrue : "True".toList ∉ rules.optionKeys)
    (hFalse : "False".toList ∉ rules.optionKeys) (hSeparable : e.Separable rules) :
    e.negationSettled.presenceSettled.Switchable rules.optionKeys := by
  cases e with
  | pair key value =>
    obtain ⟨hTrue', hFalse'⟩ := ne_truth_of_plain hSeparable.1
    exact ⟨hTrue', hFalse', Or.inl hSeparable.1.not_mem_options, hSeparable.2.not_mem_options⟩
  | negated key =>
    have hKey : Plain rules key := hSeparable
    exact ⟨(ne_truth_of_plain hKey).1, (ne_truth_of_plain hKey).2, Or.inl hKey.not_mem_options,
      hFalse⟩
  | present key =>
    have hKey : Plain rules key := hSeparable
    exact ⟨(ne_truth_of_plain hKey).1, (ne_truth_of_plain hKey).2, Or.inl hKey.not_mem_options,
      hTrue⟩
  -- an option is no truth value, since the truth values are no options
  | option key =>
    exact ⟨fun hSame => hTrue (hSame ▸ hSeparable.1), fun hSame => hFalse (hSame ▸ hSeparable.1),
      hSeparable.1⟩
  | function name arguments spaced => exact hSeparable.elim
  | sized key digits unit =>
    have hKey := hSeparable.1
    exact ⟨(ne_truth_of_plain hKey).1, (ne_truth_of_plain hKey).2, hKey.not_mem_options⟩

end Entry

/-- All steps but the last one clear the entries. -/
theorem expanded_parts (hTrue : "True".toList ∉ rules.optionKeys)
    (hFalse : "False".toList ∉ rules.optionKeys) (hSeparable : ∀ e ∈ entries, e.Separable rules) :
    expanded rules.optionKeys (entries.flatMap Entry.parts) =
      (entries.map (Entry.cleared rules)).flatMap Entry.parts := by
  have hSwitchable : ∀ e ∈ entries.map fun e => e.negationSettled.presenceSettled,
      e.Switchable rules.optionKeys :=
    List.forall_mem_map.mpr fun e hMem => (hSeparable e hMem).switchable hTrue hFalse
  have hSteps : ((entries.flatMap Entry.parts).flatMap Piece.negationStep).flatMap
      Piece.presenceStep = (entries.map fun e => e.negationSettled.presenceSettled).flatMap
        Entry.parts := by
    simp only [List.flatMap_assoc, List.flatMap_map, Entry.parts_flatMap_negationStep,
      Entry.parts_flatMap_presenceStep]
  rw [expanded, hSteps, switched_parts hTrue (fun _ hMem => hMem) hSwitchable, List.map_map]
  rfl

/-! ## Sizes between entries -/

/-- A size is closed by a space, or at the end of the text. -/
theorem blankFollows_behindFirst (hSeparates : Separates s) (ts : List Text) :
    blankFollows (behindFirst s ts) = true ↔ s = " " ∨ ts = [] := by
  cases ts with
  | nil => simp [behindFirst, blankFollows]
  | cons t ts =>
    rcases hSeparates.blank with rfl | hBlank
    · exact iff_of_true rfl (Or.inl rfl)
    · obtain ⟨c, s', rfl⟩ := List.exists_cons_of_ne_nil hSeparates.some
      have hMark := hBlank c (List.mem_cons_self ..)
      refine iff_of_false (by simp [behindFirst, blankFollows, hMark]) ?_
      rintro (hSpace | hNone)
      · rw [(List.cons.inj hSpace).1] at hMark
        exact absurd hMark (by decide)
      · cases hNone

namespace Entry

/-- Whether an entry is a pair of words or a key with a size. -/
def Cleared : Entry → Prop
  | pair key value => IsName key ∧ IsName value
  | sized key digits unit =>
    IsName key ∧ digits ≠ [] ∧ digits.all isDecimal = true ∧ isUnit unit = true
  | _ => False

theorem Cleared.parts_ne_nil (hCleared : e.Cleared) : e.parts ≠ [] := by
  cases e with
  | function name arguments spaced => exact hCleared.elim
  | _ => simp [parts]

/-- A cleared entry is a pair of words or a key with a size. -/
theorem Separable.isCleared (hSeparable : e.Separable rules)
    (hNames : ∀ key ∈ rules.optionKeys, IsName key) : (e.cleared rules).Cleared := by
  have hTrue : IsName "True" := by decide
  cases e with
  | pair key value => exact ⟨hSeparable.1.1, hSeparable.2.1⟩
  | negated key => exact ⟨And.left hSeparable, by decide⟩
  | present key => exact ⟨And.left hSeparable, hTrue⟩
  | option key =>
    have hOption : (option key).cleared rules = pair key "True" :=
      optionsSettled_of_mem hSeparable.1
    rw [hOption]
    exact ⟨hNames key hSeparable.1, hTrue⟩
  | function name arguments spaced => exact hSeparable.elim
  | sized key digits unit =>
    exact ⟨hSeparable.1.1, hSeparable.2.1, hSeparable.2.2.1, hSeparable.2.2.2.1⟩

/-- Resolving shorthands keeps what an entry means. -/
theorem Separable.meaningIn_cleared (hSeparable : e.Separable rules)
    (hNames : ∀ key ∈ rules.optionKeys, IsName key) (s : Text) (later : List Entry) :
    (e.cleared rules).meaning.1 = e.meaning.1 ∧
      (e.cleared rules).valueIn s (later.map (cleared rules)) = e.valueIn s later := by
  have hSame : ∀ {t}, IsName t → underscored t = t := fun hName =>
    underscored_of_not_mem (hName.not_mem (by decide))
  -- the values that shorthands stand for are read as they are
  have hTruths : readValue (underscored "True") = "True" ∧
      readValue (underscored "False") = "False" := by decide
  cases e with
  | negated key => exact ⟨hSame (And.left hSeparable), hTruths.2⟩
  | present key => exact ⟨hSame (And.left hSeparable), hTruths.1⟩
  | option key =>
    have hOption : (option key).cleared rules = pair key "True" :=
      optionsSettled_of_mem hSeparable.1
    rw [hOption]
    exact ⟨hSame (hNames key hSeparable.1), hTruths.1⟩
  | function name arguments spaced => exact hSeparable.elim
  | sized key digits unit =>
    have hSized : (sized key digits unit).cleared rules = sized key digits unit := rfl
    simp only [hSized, valueIn, List.map_eq_nil_iff, and_self]
  | pair key value => exact ⟨rfl, rfl⟩

end Entry

/-- Pairs and sizes are paired to what they mean. -/
theorem pairUp_parts (hSeparates : Separates s) (hCleared : ∀ e ∈ entries, e.Cleared) :
    pairUp ((unfolded (Piece.sizeStep s) (entries.flatMap Entry.parts)).map Piece.text) =
      meaningsIn s entries := by
  have hStrip : ∀ {t}, IsName t → strip t = t := fun hName =>
    strip_of_clean (clean_of_nonblank hName.isBlank_eq_false)
  have hSame : ∀ {t}, IsName t → underscored t = t := fun hName =>
    underscored_of_not_mem (hName.not_mem (by decide))
  unfold meaningsIn
  induction entries with
  | nil => rfl
  | cons e later ih =>
    have hHere := hCleared e (List.mem_cons_self ..)
    have hLater := ih fun next hMem => hCleared next (List.mem_cons_of_mem e hMem)
    rw [withLater, List.map_cons, ← hLater, List.flatMap_cons]
    cases e with
    | pair key value =>
      simp only [Entry.parts, List.cons_append, List.nil_append, unfolded, Piece.sizeStep,
        List.map_cons, Piece.text, pairUp, hStrip hHere.1, hStrip hHere.2, Entry.meaning,
        Entry.valueIn, hSame hHere.1, hSame hHere.2]
    | sized key digits unit =>
      obtain ⟨hKey, hSome, hDecimal, hUnit⟩ := hHere
      have hDigits := isName_of_isDecimal hSome (List.all_eq_true.mp hDecimal)
      have hJoined := Piece.isName_sized hSome (List.all_eq_true.mp hDecimal) hUnit
      have hSpaced : strip (digits ++ ' ' :: [unit]) = digits ++ ' ' :: [unit] :=
        strip_of_clean (.append_space (clean_of_nonblank hDigits.isBlank_eq_false)
          (clean_of_nonblank (isName_unit hUnit).isBlank_eq_false) hSome (by simp))
      have hEnd : (later.flatMap Entry.parts).map Piece.text = [] ↔ later = [] := by
        rw [List.map_eq_nil_iff, List.flatMap_eq_nil_iff]
        refine ⟨fun hNone => List.eq_nil_iff_forall_not_mem.mpr fun next hMem => ?_, ?_⟩
        · exact (hCleared next (List.mem_cons_of_mem _ hMem)).parts_ne_nil (hNone next hMem)
        · rintro rfl next hMem
          cases hMem
      -- whether the size is closed depends on the entries behind it alone
      have hCloses :=
        blankFollows_behindFirst hSeparates ((later.flatMap Entry.parts).map Piece.text)
      rw [hEnd] at hCloses
      simp only [Entry.parts, List.cons_append, List.nil_append, unfolded, Piece.sizeStep,
        Entry.meaning, Entry.valueIn, hCloses]
      by_cases hClosed : s = " " ∨ later = []
      · simp only [if_pos hClosed, List.cons_append, List.nil_append, List.map_cons, Piece.text,
          pairUp, hStrip hKey, hStrip hJoined, Entry.readValue_of_isDecimal hSome hDecimal]
      · simp only [if_neg hClosed, List.cons_append, List.nil_append, List.map_cons, Piece.text,
          pairUp, hStrip hKey, hSpaced, Entry.readValue_of_isDecimal hSome hDecimal]
    | _ => exact hHere.elim

/-- Clearing entries keeps all their keys and values. -/
theorem meaningsIn_cleared (hSeparable : ∀ e ∈ entries, e.Separable rules)
    (hNames : ∀ key ∈ rules.optionKeys, IsName key) (s : Text) :
    meaningsIn s (entries.map (Entry.cleared rules)) = meaningsIn s entries := by
  unfold meaningsIn
  induction entries with
  | nil => rfl
  | cons e later ih =>
    have hHere := (hSeparable e (List.mem_cons_self ..)).meaningIn_cleared hNames s later
    rw [List.map_cons, withLater, List.map_cons, withLater, List.map_cons, hHere.1, hHere.2,
      ih fun next hMem => hSeparable next (List.mem_cons_of_mem e hMem)]

/-- With spaces an entry has the value that it stands for. -/
theorem Entry.valueIn_space (e : Entry) (later : List Entry) :
    e.valueIn " " later = e.meaning.2 := by
  cases e with
  | sized key digits unit => simp [valueIn, meaning]
  | _ => rfl

/-- With spaces, entries have the keys and values that they stand for. -/
theorem meaningsIn_space (entries : List Entry) :
    meaningsIn " " entries = entries.map Entry.meaning := by
  unfold meaningsIn
  induction entries with
  | nil => rfl
  | cons e later ih =>
    rw [withLater, List.map_cons, ih, List.map_cons, Entry.valueIn_space]

/-- Entries are decoded to their keys and values under the separator, if no option is a truth
value. -/
theorem decode_writeIn_eq (hSeparates : Separates s) (hNone : rules.mergeKeys = [])
    (hNames : ∀ key ∈ rules.optionKeys, IsName key) (hTrue : "True".toList ∉ rules.optionKeys)
    (hFalse : "False".toList ∉ rules.optionKeys) (hSeparable : ∀ e ∈ entries, e.Separable rules) :
    decode { rules with separator := s } (writeIn s entries) =
      .ok (ofList (meaningsIn s entries)) := by
  have hCleared : ∀ e ∈ entries.map (Entry.cleared rules), e.Cleared :=
    List.forall_mem_map.mpr fun e hMem => (hSeparable e hMem).isCleared hNames
  rw [decode_parts hSeparates hNone hNames hSeparable, settled,
    expanded_parts hTrue hFalse hSeparable, pairUp_parts hSeparates hCleared,
    meaningsIn_cleared hSeparable hNames]

/-! ## Two separators -/

/-- An entry stands among the others with those that are behind it. -/
theorem withLater_append_cons (before : List Entry) (e : Entry) (later : List Entry) :
    ∃ front, withLater (before ++ e :: later) = front ++ (e, later) :: withLater later := by
  induction before with
  | nil => exact ⟨[], rfl⟩
  | cons first before ih =>
    obtain ⟨front, hFront⟩ := ih
    exact ⟨_ :: front, by rw [List.cons_append, withLater, hFront]; rfl⟩

/-- Where an entry stands with those behind it, the entries are split there. -/
theorem exists_of_withLater_eq {front after : List (Entry × List Entry)}
    {x : Entry × List Entry} (hSplit : withLater entries = front ++ x :: after) :
    ∃ before, entries = before ++ x.1 :: x.2 ∧ after = withLater x.2 := by
  induction entries generalizing front with
  | nil => simp [withLater] at hSplit
  | cons e later ih =>
    cases front with
    | nil =>
      obtain ⟨rfl, hAfter⟩ := List.cons.inj hSplit
      exact ⟨[], rfl, hAfter.symm⟩
    | cons first front =>
      obtain ⟨before, hBefore, hAfter⟩ := ih (List.cons.inj hSplit).2
      exact ⟨e :: before, by rw [hBefore]; rfl, hAfter⟩

theorem mem_withLater {x : Entry × List Entry} (hMem : x ∈ withLater entries) : x.1 ∈ entries := by
  obtain ⟨front, after, hSplit⟩ := List.append_of_mem hMem
  obtain ⟨before, hBefore, -⟩ := exists_of_withLater_eq hSplit
  rw [hBefore]
  simp

theorem exists_mem_withLater (hMem : e ∈ entries) : ∃ later, (e, later) ∈ withLater entries := by
  obtain ⟨before, later, rfl⟩ := List.append_of_mem hMem
  obtain ⟨front, hFront⟩ := withLater_append_cons before e later
  exact ⟨later, by rw [hFront]; simp⟩

/-- Only a size before another entry has different values. -/
theorem Entry.valueIn_eq_meaning_iff (hOther : s ≠ " ") (e : Entry) (later : List Entry) :
    e.valueIn s later = e.meaning.2 ↔
      ∀ key digits unit, e = sized key digits unit → later = [] := by
  cases e with
  | sized key digits unit =>
    by_cases hEnd : later = []
    · simp [valueIn, meaning, hEnd]
    · have hOpen : ¬ (s = " " ∨ later = []) := not_or.mpr ⟨hOther, hEnd⟩
      refine iff_of_false (fun hSame => ?_) fun hAll => hEnd (hAll key digits unit rfl)
      rw [valueIn, if_neg hOpen, meaning] at hSame
      exact absurd (congrArg List.length hSame) (by simp)
  | _ => exact iff_of_true rfl (by simp)

/-- The mappings are the same exactly if each size before another entry is set again. -/
theorem ofList_meaningsIn_eq_iff (hOther : s ≠ " ") :
    ofList (meaningsIn s entries) = ofList (meaningsIn " " entries) ↔
      ∀ before key digits unit after, entries = before ++ .sized key digits unit :: after →
        after ≠ [] → ∃ e ∈ after, e.meaning.1 = key := by
  have hSpace : meaningsIn " " entries =
      (withLater entries).map fun x => (x.1.meaning.1, x.1.meaning.2) := by
    rw [meaningsIn]
    exact List.map_congr_left fun x _ => by rw [x.1.valueIn_space]
  rw [hSpace, meaningsIn]
  -- the mappings are the same if the last entry with each key has the same value in both
  refine (ofList_eq_ofList_iff (fun x : Entry × List Entry => x.1.meaning.1)
    (fun x => x.1.valueIn s x.2) (fun x => x.1.meaning.2)).trans ?_
  constructor
  · rintro hValues before key digits unit after rfl hSome
    by_contra hNone
    obtain ⟨front, hFront⟩ := withLater_append_cons before (.sized key digits unit) after
    -- a size that is not set again is the last entry with its key
    have hLast : ∀ y ∈ withLater after, y.1.meaning.1 ≠ key := fun y hMem hKey =>
      hNone ⟨y.1, mem_withLater hMem, hKey⟩
    have hSame := hValues _ _ _ hFront hLast
    exact hSome ((Entry.valueIn_eq_meaning_iff hOther _ _).mp hSame key digits unit rfl)
  · rintro hAgain front ⟨e, later⟩ after hSplit hLast
    obtain ⟨before, hBefore, rfl⟩ := exists_of_withLater_eq hSplit
    refine (Entry.valueIn_eq_meaning_iff hOther e later).mpr ?_
    rintro key digits unit rfl
    by_contra hSome
    obtain ⟨next, hNext, hKey⟩ := hAgain before key digits unit later hBefore hSome
    obtain ⟨more, hMem⟩ := exists_mem_withLater hNext
    exact hLast _ hMem hKey

/-- Whether a text may be a separator that is no blank: it has neither word characters nor blanks
nor parentheses, and it is not empty. -/
def IsMark (s : Text) : Prop :=
  s ≠ [] ∧ ∀ c ∈ s, isWord c = false ∧ isBlank c = false ∧ c ≠ '(' ∧ c ≠ ')'

/-- Whether a single character may be a separator. -/
theorem isMark_singleton {c : Char} (hWord : isWord c = false) (hBlank : isBlank c = false)
    (hOther : c ≠ '(' ∧ c ≠ ')') : IsMark [c] :=
  ⟨List.cons_ne_nil c [], List.forall_mem_singleton.mpr ⟨hWord, hBlank, hOther⟩⟩

/-- A mark may stand between pieces. -/
theorem IsMark.separates (hMark : IsMark s) : Separates s where
  some := hMark.1
  apart c hMem := (hMark.2 c hMem).1
  noParenthesis hMem := (hMark.2 '(' hMem).2.2.1 rfl
  blank := Or.inr fun c hMem => (hMark.2 c hMem).2.1

/-- **Entries mean the same under each separator unless a size stands before another entry.** If
none does, they are decoded to one mapping, whatever the options are. If no option is a truth value,
they are decoded to their keys and values, and the mapping is the one of entries with spaces exactly
if the key of each size before another entry is set again. -/
theorem decode_writeIn (hMark : IsMark s) (hNone : rules.mergeKeys = [])
    (hNames : ∀ key ∈ rules.optionKeys, IsName key)
    (hSeparable : ∀ e ∈ entries, e.Separable rules) :
    ((∀ e ∈ entries.dropLast, e.isSized = false) →
      ∃ p, decode { rules with separator := s } (writeIn s entries) = .ok p ∧
        decode { rules with separator := " " } (write entries) = .ok p) ∧
      ("True".toList ∉ rules.optionKeys → "False".toList ∉ rules.optionKeys →
        decode { rules with separator := s } (writeIn s entries) =
            .ok (ofList (meaningsIn s entries)) ∧
          decode { rules with separator := " " } (write entries) =
            .ok (ofList (entries.map Entry.meaning)) ∧
          (decode { rules with separator := s } (writeIn s entries) =
              decode { rules with separator := " " } (write entries) ↔
            ∀ before key digits unit after, entries = before ++ .sized key digits unit :: after →
              after ≠ [] → ∃ e ∈ after, e.meaning.1 = key)) := by
  have hSeparates := hMark.separates
  have hOther : s ≠ " " := by
    rintro rfl
    exact absurd (hMark.2 ' ' (List.mem_singleton_self ' ')).2.1 (by decide)
  rw [← writeIn_space]
  -- with sizes last the two separators are decoded alike, step by step
  refine ⟨fun hLast => ⟨_, decode_parts hSeparates hNone hNames hSeparable, ?_⟩,
    fun hTrue hFalse => ?_⟩
  · rw [decode_parts separates_space hNone hNames hSeparable, settled, settled,
      ((sizesLast_parts hLast).expanded rules.optionKeys).unfolded_sizeStep s " "]
  · have hHere := decode_writeIn_eq hSeparates hNone hNames hTrue hFalse hSeparable
    have hThere := decode_writeIn_eq separates_space hNone hNames hTrue hFalse hSeparable
    refine ⟨hHere, by rw [hThere, meaningsIn_space], ?_⟩
    rw [hHere, hThere, Except.ok.injEq]
    exact ofList_meaningsIn_eq_iff hOther

/-- Options that may be switched with a comma between keys and values. -/
def switches : Rules := { optionKeys := ["LOGGED"] }

/-- A size before a negation, and one behind it. -/
theorem decode_writeIn_comma :
    IsMark "," ∧ switches.mergeKeys = [] ∧ (∀ key ∈ switches.optionKeys, IsName key) ∧
      (∀ e ∈ [Entry.sized "PRIQTY" "2" 'G', .negated "CLOSE"], e.Separable switches) ∧
      decode { switches with separator := "," } "PRIQTY,2 G,NOT CLOSE" =
        .ok (ofList [("PRIQTY", "2 G"), ("CLOSE", "False")]) ∧
      decode { switches with separator := " " } "PRIQTY 2 G NOT CLOSE" =
        .ok (ofList [("PRIQTY", "2G"), ("CLOSE", "False")]) ∧
      (∀ e ∈ [Entry.option "LOGGED", .sized "PRIQTY" "2" 'G'], e.Separable switches) ∧
      ∃ p, decode { switches with separator := "," } "LOGGED,PRIQTY,2 G" = .ok p ∧
        decode { switches with separator := " " } "LOGGED PRIQTY 2 G" = .ok p := by
  have hMark : IsMark "," := isMark_singleton (by decide) (by decide) (by decide)
  have hNames : ∀ key ∈ switches.optionKeys, IsName key := by decide
  have hFirst : ∀ e ∈ [Entry.sized "PRIQTY" "2" 'G', .negated "CLOSE"],
      e.Separable switches := by decide +kernel
  have hLast : ∀ e ∈ [Entry.option "LOGGED", .sized "PRIQTY" "2" 'G'],
      e.Separable switches := by decide +kernel
  obtain ⟨hComma, hSpace, -⟩ :=
    (decode_writeIn hMark rfl hNames hFirst).2 (by decide) (by decide)
  have hSame := (decode_writeIn hMark rfl hNames hLast).1 (by decide)
  exact ⟨hMark, rfl, hNames, hFirst, hComma, hSpace, hLast, hSame⟩

/-- Not all entries mean the same under each separator. -/
theorem not_forall_writeIn :
    ¬ ∀ (s : Text) (rules : Rules) (entries : List Entry), IsMark s → rules.mergeKeys = [] →
      (∀ key ∈ rules.optionKeys, IsName key) → (∀ e ∈ entries, e.Separable rules) →
      decode { rules with separator := s } (writeIn s entries) =
        decode { rules with separator := " " } (write entries) := by
  intro hAll
  have hMark : IsMark "," := isMark_singleton (by decide) (by decide) (by decide)
  have hSame := hAll "," {} [.sized "PRIQTY" "2" 'G', .pair "A" "B"] hMark rfl (by decide)
    (by decide +kernel)
  have hComma : (decode { separator := "," } "PRIQTY,2 G,A,B").toOption =
      some (ofList [("PRIQTY", "2 G"), ("A", "B")]) := by decide +kernel
  have hSpace : (decode {} "PRIQTY 2 G A B").toOption =
      some (ofList [("PRIQTY", "2G"), ("A", "B")]) := by decide +kernel
  have hWritten : writeIn "," [.sized "PRIQTY" "2" 'G', .pair "A" "B"] = "PRIQTY,2 G,A,B" := rfl
  have hSpaced : write [.sized "PRIQTY" "2" 'G', .pair "A" "B"] = "PRIQTY 2 G A B" := rfl
  rw [hWritten, hSpaced] at hSame
  rw [hSame, hSpace, Option.some.injEq] at hComma
  exact absurd hComma (by decide +kernel)

end SchemaScript.Parameters
