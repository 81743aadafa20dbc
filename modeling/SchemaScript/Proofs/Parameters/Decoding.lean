import SchemaScript.Proofs.Parameters.Pairing
import SchemaScript.Proofs.Parameters.Resolution
import SchemaScript.Proofs.Parameters.Rulebook

/-!
# Written parameters are decoded to what their entries mean

Six steps over the whole text resolve all shorthands (`resolveShorthands_write`), and what is left
are keys and values in turn, which are split and paired. So parameters that are written entry by
entry are decoded to the mapping that their entries stand for (`decode_write`), under the standard
rules of each construct.
-/

namespace SchemaScript.Parameters

open Text

variable {rules : Rules} {entries : List Entry} {e : Entry}

/-! ## Merging in entries -/

namespace Entry

/-- An entry once keys of several words are merged. -/
def mergeSettled : Entry → Entry
  | pair key value => pair (underscored key) (underscored value)
  | e => e

/-- A key of an entry that is no pair. -/
theorem isKey_of_proper (hRules : rules.Regular) {key : Text}
    (hKey : Plain rules key ∨ key ∈ rules.optionKeys) : IsKey key :=
  hKey.elim Plain.isKey hRules.isKey

/-- What is merged is made of words that may be written. -/
theorem Proper.tidy_mergeSettled (hRules : rules.Regular) (hProper : e.Proper rules) :
    e.mergeSettled.Tidy rules := by
  -- a plain word is merged already, and a merged key is one of the words that the rules allow
  have hMerged : ∀ {t}, Plain rules t ∨ t ∈ rules.mergeKeys →
      Plain rules (underscored t) := by
    rintro t (hPlain | hMem)
    · rwa [underscored_of_not_mem (hPlain.1.not_mem (by decide))]
    · exact hRules.merged t hMem
  cases e with
  | pair key value =>
    have hKey := hMerged hProper.1
    refine ⟨hKey.isKey, ?_, fun hMem => absurd hMem hKey.not_mem_options⟩
    rcases hProper.2 with hPlain | rfl | rfl | hMem
    · exact (hMerged (Or.inl hPlain)).isValue
    · exact isValue_true rules
    · exact isValue_false rules
    · exact (hMerged (Or.inr hMem)).isValue
  | negated key => exact isKey_of_proper hRules hProper
  | present key => exact isKey_of_proper hRules hProper
  | option key => exact hProper
  | function name arguments spaced => exact ⟨hProper.1, isValue_join hProper.2.1 hProper.2.2⟩
  | sized key digits unit =>
    obtain ⟨hKey, hSome, hDecimal, hUnit⟩ := hProper
    exact ⟨hKey, hSome, List.all_eq_true.mp hDecimal, hUnit⟩

/-- Only pairs have keys of several words. -/
theorem Proper.map_mergeAll (hRules : rules.Regular) (hProper : e.Proper rules) :
    e.pieces.map (mergeAll rules.mergeKeys) = e.mergeSettled.pieces := by
  have hSame : ∀ {t}, ' ' ∉ t → mergeAll rules.mergeKeys t = t := fun hSpace =>
    mergeAll_of_not_mem fun hMem => hSpace (hRules.mergeable.space _ hMem)
  have hTidy := hProper.tidy_mergeSettled hRules
  cases e with
  | pair key value =>
    have hMerged : ∀ {t}, IsName t ∨ t ∈ rules.mergeKeys →
        mergeAll rules.mergeKeys t = underscored t := by
      rintro t (hName | hMem)
      · have hSpace : ' ' ∉ t := hName.not_mem (by decide)
        rw [hSame hSpace, underscored_of_not_mem hSpace]
      · exact mergeAll_of_mem hMem
    have hValue : IsName value ∨ value ∈ rules.mergeKeys := by
      rcases hProper.2 with hPlain | rfl | rfl | hMem
      · exact Or.inl hPlain.1
      · exact Or.inl (by decide)
      · exact Or.inl (by decide)
      · exact Or.inr hMem
    simp only [pieces, mergeSettled, List.map_cons, List.map_nil, hMerged hValue,
      hMerged (hProper.1.imp_left And.left)]
  | _ =>
    -- no piece has a space, so none is a key of several words
    exact (List.map_congr_left fun t hMem => hSame (hTidy.not_mem_space hRules t hMem)).trans
      (List.map_id _)

end Entry

/-- The first step merges keys of several words in the entries where they are written. -/
theorem resolve_mergedKeys_write (hRules : rules.Regular)
    (hProper : ∀ e ∈ entries, e.Proper rules)
    (hOnly : ∀ key ∈ rules.mergeKeys, OnlyWritten key (entries.flatMap Entry.pieces)) :
    (Shorthand.mergedKeys rules.mergeKeys " " "_").resolve (write entries) =
      write (entries.map Entry.mergeSettled) := by
  unfold write
  rw [resolve_mergedKeys hRules.mergeable hOnly, List.map_flatMap, List.flatMap_map]
  congr 1
  exact List.flatMap_congr fun e hMem => (hProper e hMem).map_mergeAll hRules

/-! ## All steps -/

namespace Entry

/-- The key and the value that an entry is resolved to. -/
def resolved : Entry → Text × Text
  | pair key value => (underscored key, underscored value)
  | negated key => (key, "False")
  | present key => (key, "True")
  | option key => (key, "True")
  | function name arguments _ => (name, join "," arguments)
  | sized key digits unit => (key, digits ++ [unit])

/-- An entry before its size is resolved, if it has one. -/
def beforeSize (rules : Rules) (e : Entry) : Entry :=
  e.mergeSettled.negationSettled.presenceSettled.functionSettled.optionsSettled rules.optionKeys

/-- Before sizes are resolved, all entries are pairs or sizes. -/
theorem Proper.awaits_beforeSize (hRules : rules.Regular) (hProper : e.Proper rules) :
    Awaits rules 5 (e.beforeSize rules) := by
  have hNegation := awaits_negationSettled (hProper.tidy_mergeSettled hRules)
  exact hNegation.presenceSettled.functionSettled.allOptionsSettled hRules

/-- All steps together turn an entry into the pair that it is resolved to. -/
theorem Proper.sizeSettled_beforeSize (hProper : e.Proper rules) :
    (e.beforeSize rules).sizeSettled = pair e.resolved.1 e.resolved.2 := by
  cases e with
  | option key =>
    have hMem : key ∈ rules.optionKeys := hProper
    simp [beforeSize, mergeSettled, negationSettled, presenceSettled, functionSettled,
      optionsSettled, sizeSettled, resolved, hMem]
  | _ => rfl

end Entry

/-- **All shorthands are resolved**, each entry to a pair of its own. -/
theorem resolveShorthands_write (hRules : rules.Regular) (hProper : ∀ e ∈ entries, e.Proper rules)
    (hOnly : ∀ key ∈ rules.mergeKeys, OnlyWritten key (entries.flatMap Entry.pieces)) :
    resolveShorthands rules (write entries) =
      write (entries.map fun e => .pair e.resolved.1 e.resolved.2) := by
  have hMerged : ∀ e ∈ entries.map Entry.mergeSettled, e.Tidy rules :=
    List.forall_mem_map.mpr fun e hMem => (hProper e hMem).tidy_mergeSettled hRules
  -- each step leaves what the next one asks of the entries
  have hNegation : ∀ e ∈ (entries.map Entry.mergeSettled).map Entry.negationSettled,
      Awaits rules 2 e :=
    List.forall_mem_map.mpr fun e hMem => awaits_negationSettled (hMerged e hMem)
  have hPresence := List.forall_mem_map.mpr fun e hMem => (hNegation e hMem).presenceSettled
  have hFunction := List.forall_mem_map.mpr fun e hMem => (hPresence e hMem).functionSettled
  have hOptions := List.forall_mem_map.mpr fun e hMem =>
    (hFunction e hMem).allOptionsSettled hRules
  unfold resolveShorthands Rules.shorthands
  rw [hRules.separator, hRules.merger]
  simp only [List.foldl_cons, List.foldl_nil]
  -- the six steps in their order, and then what they make of one entry
  rw [resolve_mergedKeys_write hRules hProper hOnly, resolve_negations hRules hMerged,
    resolve_presence hRules hNegation, resolve_functions hRules hPresence,
    resolve_options hRules hFunction fun _ hMem => hMem, resolve_units hRules hOptions]
  simp only [List.map_map]
  congr 1
  exact List.map_congr_left fun e hMem => (hProper e hMem).sizeSettled_beforeSize

/-! ## Splitting and pairing -/

/-- Whether nothing in a key and its value is blank. -/
def Nonblank (pair : Text × Text) : Prop :=
  (∀ c ∈ pair.1, isBlank c = false) ∧ ∀ c ∈ pair.2, isBlank c = false

/-- What has no blank is a token as it stands where spaces separate. -/
theorem Nonblank.fits {pair : Text × Text} (hNonblank : Nonblank pair) :
    Fits " " pair.1 ∧ Fits " " pair.2 := by
  have hFits : ∀ {t : Text}, (∀ c ∈ t, isBlank c = false) → Fits " " t := fun hNone => by
    have hClean := clean_of_nonblank hNone
    refine ⟨hClean.first, hClean.last, List.forall_mem_singleton.mpr fun hSpace => ?_⟩
    exact absurd (hNone ' ' hSpace) (by decide)
  exact ⟨hFits hNonblank.1, hFits hNonblank.2⟩

/-! ## Written entries -/

namespace Entry

/-- The last step leaves a pair of words. -/
theorem exists_sizeSettled (hAwaits : Awaits rules 5 e) :
    ∃ key value, e.sizeSettled = pair key value ∧ Nonblank (key, value) := by
  obtain ⟨hTidy, hStep⟩ := hAwaits
  cases e with
  | pair key value =>
    exact ⟨key, value, rfl, hTidy.1.1.isBlank_eq_false, fun c hMem => (hTidy.2.1.inside c hMem).1⟩
  | sized key digits unit =>
    obtain ⟨hKey, -, hDecimal, hUnit⟩ := hTidy
    refine ⟨key, digits ++ [unit], rfl, hKey.1.isBlank_eq_false, fun c hMem => ?_⟩
    rcases List.mem_append.mp hMem with hDigit | hLast
    · exact isBlank_eq_false_of_isWord (isWord_of_isDecimal (hDecimal c hDigit))
    · exact (isName_unit hUnit).isBlank_eq_false c hLast
  | _ => simp [Entry.step] at hStep

/-- The key and the value of an entry have no blanks, so that they are split off again. -/
theorem Proper.nonblank_resolved (hRules : rules.Regular) (hProper : e.Proper rules) :
    Nonblank e.resolved := by
  obtain ⟨key, value, hSettled, hNonblank⟩ := exists_sizeSettled (hProper.awaits_beforeSize hRules)
  rw [hProper.sizeSettled_beforeSize] at hSettled
  obtain ⟨hKey, hValue⟩ := pair.inj hSettled
  rwa [← hKey, ← hValue] at hNonblank

/-- What starts with a number is no truth value. -/
theorem readValue_of_isDecimal {digits : Text} (hSome : digits ≠ [])
    (hDecimal : digits.all isDecimal = true) (rest : Text) :
    readValue (digits ++ rest) = digits ++ rest := by
  obtain ⟨c, more, rfl⟩ := List.exists_cons_of_ne_nil hSome
  have hDigit : isDecimal c = true := List.all_eq_true.mp hDecimal c (List.mem_cons_self ..)
  have hNo : c :: more ++ rest ≠ "NO" := by
    intro hSame
    rw [(List.cons.inj hSame).1] at hDigit
    exact absurd hDigit (by decide)
  have hYes : c :: more ++ rest ≠ "YES" := by
    intro hSame
    rw [(List.cons.inj hSame).1] at hDigit
    exact absurd hDigit (by decide)
  rw [readValue, if_neg hNo, if_neg hYes]

/-- An entry means the pair that it is resolved to, with its value read. -/
theorem Proper.meaning_eq (hProper : e.Proper rules) :
    e.meaning = (e.resolved.1, readValue e.resolved.2) := by
  cases e with
  | sized key digits unit =>
    obtain ⟨-, hSome, hDecimal, -⟩ := hProper
    simp only [meaning, resolved, readValue_of_isDecimal hSome hDecimal]
  | _ => rfl

end Entry

/-- Decoding gives what the entries stand for, under all rules that use the notation in the ordinary
way. -/
theorem Rules.Regular.decode_eq (hRules : rules.Regular)
    (hProper : ∀ e ∈ entries, e.Proper rules)
    (hOnly : ∀ key ∈ rules.mergeKeys, OnlyWritten key (entries.flatMap Entry.pieces)) :
    decode rules (write entries) = .ok (ofList (entries.map Entry.meaning)) := by
  have hNonblank : ∀ pair ∈ entries.map Entry.resolved, Nonblank pair :=
    List.forall_mem_map.mpr fun e hMem => (hProper e hMem).nonblank_resolved hRules
  have hPairs := readPairs_join_inTurn (by decide) fun pair hMem => (hNonblank pair hMem).fits
  rw [inTurn, List.flatMap_map, List.map_map] at hPairs
  unfold decode
  rw [resolveShorthands_write hRules hProper hOnly, hRules.separator, write, List.flatMap_map]
  -- splitting finds the pairs again, and their values are read
  have hMeaning : entries.map (fun e => (e.resolved.1, readValue e.resolved.2)) =
      entries.map Entry.meaning :=
    List.map_congr_left fun e hMem => (hProper e hMem).meaning_eq.symm
  rw [← hMeaning]
  exact hPairs

/-! ## The standard rules -/

/-- The standard keys of several words can be merged. -/
theorem standard_mergeable (construct : Construct) :
    Mergeable (Rulebook.standard construct).mergeKeys := by
  cases construct <;> constructor <;> decide

/-- The standard rules use the notation in the ordinary way. -/
theorem standard_regular (construct : Construct) : (Rulebook.standard construct).Regular where
  separator := Rulebook.standard_separator construct
  merger := by cases construct <;> rfl
  options := by cases construct <;> decide
  digits := by cases construct <;> decide
  mergeable := standard_mergeable construct
  merged := by cases construct <;> decide

/-- **Decoding gives what the entries stand for**, under the standard rules of each construct, if
the words of the entries are their own and keys of several words stand only where they are
written. -/
theorem decode_write (construct : Construct) {entries : List Entry}
    (hProper : ∀ e ∈ entries, e.Proper (Rulebook.standard construct))
    (hOnly : ∀ key ∈ (Rulebook.standard construct).mergeKeys,
      OnlyWritten key (entries.flatMap Entry.pieces)) :
    decode (Rulebook.standard construct) (write entries) =
      .ok (ofList (entries.map Entry.meaning)) :=
  (standard_regular construct).decode_eq hProper hOnly

/-- Entries of all kinds. -/
def ofAllKinds : List Entry :=
  [.pair "ON DELETE" "SET NULL", .negated "ENFORCED", .option "ENFORCED", .present "X",
   .function "F" ["NO"] true, .function "G1" ["a", "b"] false, .sized "P" "2" 'K', .pair "X" "YES"]

theorem decode_write_ofAllKinds :
    (∀ e ∈ ofAllKinds, e.Proper (Rulebook.standard .foreignKey)) ∧
      (∀ key ∈ (Rulebook.standard .foreignKey).mergeKeys,
        OnlyWritten key (ofAllKinds.flatMap Entry.pieces)) ∧
      decode (Rulebook.standard .foreignKey)
          "ON DELETE SET NULL NOT ENFORCED ENFORCED WITH X F( NO ) G1(a,b) P 2 K X YES" =
        .ok (ofList [(("ON_DELETE" : Text), "SET_NULL"), ("ENFORCED", "True"), ("X", "True"),
          ("F", "False"), ("G1", "a,b"), ("P", "2K")]) := by
  have hProper : ∀ e ∈ ofAllKinds, e.Proper (Rulebook.standard .foreignKey) := by decide +kernel
  have hOnly : ∀ key ∈ (Rulebook.standard .foreignKey).mergeKeys,
      OnlyWritten key (ofAllKinds.flatMap Entry.pieces) := by decide +kernel
  have hWritten : write ofAllKinds =
      "ON DELETE SET NULL NOT ENFORCED ENFORCED WITH X F( NO ) G1(a,b) P 2 K X YES" := by
    decide +kernel
  have hMeaning : ofList (ofAllKinds.map Entry.meaning) =
      ofList [(("ON_DELETE" : Text), "SET_NULL"), ("ENFORCED", "True"), ("X", "True"),
        ("F", "False"), ("G1", "a,b"), ("P", "2K")] := by
    decide +kernel
  have hDecoded := decode_write .foreignKey hProper hOnly
  rw [hWritten, hMeaning] at hDecoded
  exact ⟨hProper, hOnly, hDecoded⟩

end SchemaScript.Parameters
