import SchemaScript.Proofs.Parameters.Merging
import SchemaScript.Proofs.Parameters.Patterns

/-!
# Resolving entries

Once keys are merged, the other shorthands are resolved one after the other over the whole text, and
each of them turns one kind of entry into a pair and leaves the others alone. `Entry.step` numbers
the kinds by the step that resolves them, so that behind a step only later kinds are left
(`Awaits`).

What keeps a step from finding anything else are the words of the entries: none of them is one that
the notation uses itself, and behind an entry there is nothing or a space and a word that is no
truth value and no unit (`Free`).
-/

namespace SchemaScript.Parameters

open Text Pattern Shorthand

/-! ## Entries as texts -/

/-- An entry as it is written. -/
def Entry.text (e : Entry) : Text := join " " e.pieces

/-- Every entry is written with at least one piece. -/
theorem Entry.pieces_ne_nil (e : Entry) : e.pieces ≠ [] := by
  cases e with
  | function name arguments spaced => cases spaced <;> simp [pieces]
  | _ => simp [pieces]

/-- Pieces may be written in two parts, the second one behind a space. -/
theorem join_append {pieces later : List Text} (hSome : pieces ≠ []) :
    join " " (pieces ++ later) = join " " pieces ++ following later := by
  induction pieces with
  | nil => exact absurd rfl hSome
  | cons t pieces ih =>
    rw [List.cons_append, join_cons, join_cons]
    cases pieces with
    | nil => simp [following]
    | cons u pieces =>
      have hLater := ih (List.cons_ne_nil u pieces)
      rw [List.cons_append] at hLater ⊢
      rw [following, following, hLater]
      simp

/-- Entries are written with single spaces between them. -/
theorem write_eq (entries : List Entry) : write entries = join " " (entries.map Entry.text) := by
  unfold write
  induction entries with
  | nil => rfl
  | cons e later ih =>
    rw [List.flatMap_cons, join_append e.pieces_ne_nil, List.map_cons, join_cons]
    congr 1
    cases later with
    | nil => rfl
    | cons next more =>
      -- behind the space comes the first piece of the next entry
      obtain ⟨t, ts, hPieces⟩ := List.exists_cons_of_ne_nil next.pieces_ne_nil
      rw [List.map_cons, following, ← List.map_cons, ← ih, List.flatMap_cons, hPieces]
      rfl

section

variable (key value name digits : Text) (arguments : List Text) (unit : Char)

/-- A pair is its key and its value with a space between them. -/
theorem text_pair : (Entry.pair key value).text = key ++ ' ' :: value := by
  simp [Entry.text, Entry.pieces, join]

/-- A pair as the shorthands write it. -/
theorem text_pair_eq_append : (Entry.pair key value).text = key ++ " " ++ value := rfl

theorem text_negated : (Entry.negated key).text = "NOT" ++ ' ' :: key := by
  simp [Entry.text, Entry.pieces, join]

theorem text_present : (Entry.present key).text = "WITH" ++ ' ' :: key := by
  simp [Entry.text, Entry.pieces, join]

theorem text_option : (Entry.option key).text = key := rfl

theorem text_sized :
    (Entry.sized key digits unit).text = key ++ ' ' :: (digits ++ ' ' :: [unit]) := by
  simp [Entry.text, Entry.pieces, join]

/-- The spaces around arguments. -/
def around : Bool → Text
  | true => [' ']
  | false => []

theorem text_function (spaced : Bool) :
    (Entry.function name arguments spaced).text =
      name ++ '(' :: (around spaced ++ (join "," arguments ++ (around spaced ++ [')']))) := by
  cases spaced <;> simp [Entry.text, Entry.pieces, join, around]

end

/-! ## Words that can be written -/

/-- Whether rules use the notation in the ordinary way: spaces separate, underscores merge keys of
several words into words that can be keys, and the words that the notation uses are no numbers. -/
structure Rules.Regular (rules : Rules) : Prop where
  separator : rules.separator = " "
  merger : rules.merger = "_"
  options : ∀ key ∈ rules.optionKeys, IsName key ∧ key ∉ keywords
  digits : ∀ t ∈ reserved rules, (t.head?.any isDecimal) = false
  mergeable : Mergeable rules.mergeKeys
  merged : ∀ key ∈ rules.mergeKeys, Plain rules (underscored key)

/-- The keywords of the notation are words. -/
theorem isName_of_mem_keywords {t : Text} (hMem : t ∈ keywords) : IsName t := by
  have hAll : ∀ t ∈ keywords, IsName t := by decide
  exact hAll t hMem

/-- Whether a text can be a key once keys are merged. -/
def IsKey (t : Text) : Prop := IsName t ∧ t ∉ keywords

/-- Whether a text can be a value once keys are merged: words with commas between them, of which
only truth values are words of the notation. -/
structure IsValue (rules : Rules) (t : Text) : Prop where
  some : t ≠ []
  chars : ∀ c ∈ t, isWord c = true ∨ c = ','
  words : ∀ w ∈ runs t, w ∈ reserved rules → w = "True" ∨ w = "False"

section

variable {rules : Rules} {t behind : Text}

/-- A word that the notation does not use can be a key. -/
theorem Plain.isKey (hPlain : Plain rules t) : IsKey t :=
  ⟨hPlain.1, fun hMem => hPlain.2 (List.mem_append_left _ hMem)⟩

/-- A word that the notation does not use is no option. -/
theorem Plain.not_mem_options (hPlain : Plain rules t) : t ∉ rules.optionKeys :=
  fun hMem => hPlain.2 (List.mem_append_right _ hMem)

/-- An option can be a key. -/
theorem Rules.Regular.isKey (hRules : rules.Regular) (hMem : t ∈ rules.optionKeys) : IsKey t :=
  hRules.options t hMem

/-- A word can be a value if it is a truth value or no word of the notation. -/
theorem isValue_of_isName (hName : IsName t)
    (hWord : t ∈ reserved rules → t = "True" ∨ t = "False") : IsValue rules t where
  some := hName.1
  chars c hMem := Or.inl (hName.2 c hMem)
  words w hRun := by
    rw [runs_of_word hName.2, List.mem_singleton] at hRun
    rwa [hRun]

theorem Plain.isValue (hPlain : Plain rules t) : IsValue rules t :=
  isValue_of_isName hPlain.1 fun hMem => absurd hMem hPlain.2

theorem isValue_true (rules : Rules) : IsValue rules "True" :=
  isValue_of_isName (by decide) fun _ => Or.inl rfl

theorem isValue_false (rules : Rules) : IsValue rules "False" :=
  isValue_of_isName (by decide) fun _ => Or.inr rfl

/-- Between commas stand the words that were joined, and no others. -/
theorem runs_join_subset {ts : List Text} (hSome : ts ≠ [])
    (hWord : ∀ t ∈ ts, t.all isWord = true) : ∀ w ∈ runs (join "," ts), w ∈ ts := by
  induction ts with
  | nil => exact absurd rfl hSome
  | cons t ts ih =>
    have hRuns : runs t = [t] :=
      runs_of_word (List.all_eq_true.mp (hWord t (List.mem_cons_self ..)))
    cases ts with
    | nil => simp [join, hRuns]
    | cons u ts =>
      have hLater := ih (List.cons_ne_nil u ts) fun t hMem => hWord t (List.mem_cons_of_mem _ hMem)
      have hText : join "," (t :: u :: ts) = t ++ ',' :: join "," (u :: ts) := by simp [join]
      -- a comma stands in no word, so the runs of the two sides are put together
      rw [hText, runs_append_cons (by decide), hRuns]
      intro w hMem
      rcases List.mem_append.mp hMem with hFirst | hMore
      · exact List.mem_cons.mpr (Or.inl (List.mem_singleton.mp hFirst))
      · exact List.mem_cons_of_mem t (hLater w hMore)

/-- Words that are joined by commas have no other characters. -/
theorem chars_join {ts : List Text} (hWord : ∀ t ∈ ts, t.all isWord = true) :
    ∀ c ∈ join "," ts, isWord c = true ∨ c = ',' := by
  induction ts with
  | nil => simp [join]
  | cons t ts ih =>
    have hFirst := List.all_eq_true.mp (hWord t (List.mem_cons_self ..))
    cases ts with
    | nil => exact fun c hMem => Or.inl (hFirst c hMem)
    | cons u ts =>
      have hLater := ih fun t hMem => hWord t (List.mem_cons_of_mem _ hMem)
      have hText : join "," (t :: u :: ts) = t ++ ',' :: join "," (u :: ts) := by simp [join]
      rw [hText]
      intro c hMem
      rcases List.mem_append.mp hMem with hHere | hMore
      · exact Or.inl (hFirst c hHere)
      · rcases List.mem_cons.mp hMore with hComma | hThere
        · exact Or.inr hComma
        · exact hLater c hThere

/-- Words with commas between them can be a value if the notation uses none of them. -/
theorem isValue_join {ts : List Text} (hSome : join "," ts ≠ [])
    (hWord : ∀ t ∈ ts, t.all isWord = true ∧ t ∉ reserved rules) : IsValue rules (join "," ts) where
  some := hSome
  chars := chars_join fun t hMem => (hWord t hMem).1
  words w hRun := by
    have hNil : ts ≠ [] := by
      rintro rfl
      exact hSome rfl
    have hMem := runs_join_subset hNil (fun t hMem => (hWord t hMem).1) w hRun
    exact fun hReserved => absurd hReserved (hWord w hMem).2

/-- No mark but the comma stands in a value. -/
theorem IsValue.not_mem (hValue : IsValue rules t) {x : Char} (hWord : isWord x = false)
    (hComma : x ≠ ',') : x ∉ t := by
  intro hMem
  rcases hValue.chars x hMem with hHere | hHere
  · exact absurd (hWord.symm.trans hHere) (by simp)
  · exact hComma hHere

/-- Neither a blank nor a parenthesis stands in a value. -/
theorem IsValue.inside (hValue : IsValue rules t) : ∀ c ∈ t, isBlank c = false ∧ c ≠ ')' := by
  intro c hMem
  rcases hValue.chars c hMem with hWord | rfl
  · refine ⟨isBlank_eq_false_of_isWord hWord, ?_⟩
    rintro rfl
    exact absurd hWord (by decide)
  · decide

/-! ## What stands behind an entry -/

/-- The words that would change the meaning of what stands before them. -/
def continuations : List Text := ["True", "False", "K", "M", "G"]

/-- Whether what stands behind an entry does not belong to it. -/
def Free (behind : Text) : Prop :=
  behind = [] ∨ ∃ t, behind = ' ' :: t ∧ word t ∉ continuations

/-- A word that ends an entry ends there. -/
theorem Free.startsWord (hFree : Free behind) : startsWord behind = false := by
  rcases hFree with rfl | ⟨t, rfl, -⟩ <;> rfl

/-- No parenthesis follows an entry. -/
theorem Free.head?_ne (hFree : Free behind) : behind.head? ≠ some '(' := by
  rcases hFree with rfl | ⟨t, rfl, -⟩ <;> simp

/-- No truth value follows an entry. -/
theorem Free.valueFollows (hFree : Free behind) : valueFollows " " behind = false := by
  rcases hFree with rfl | ⟨t, rfl, hWord⟩
  · rfl
  · -- both truth values are among the words that continue an entry
    -- both truth values are among the words that continue an entry
    have hTrue : word t ≠ "True" := ne_of_mem_of_not_mem (by decide) hWord |>.symm
    have hFalse : word t ≠ "False" := ne_of_mem_of_not_mem (by decide) hWord |>.symm
    have hBehind : List.drop (" " : Text).length (' ' :: t) = t := rfl
    rw [Shorthand.valueFollows, hBehind, beq_false_of_ne hTrue, beq_false_of_ne hFalse]
    simp

/-- A blank follows an entry, or nothing. -/
theorem Free.blankFollows (hFree : Free behind) : blankFollows behind = true := by
  rcases hFree with rfl | ⟨t, rfl, -⟩ <;> rfl

/-- A unit is a word. -/
theorem isName_unit {unit : Char} (hUnit : isUnit unit = true) : IsName [unit] := by
  simp only [isUnit, Bool.or_eq_true, beq_iff_eq] at hUnit
  rcases hUnit with (rfl | rfl) | rfl <;> decide

/-- A unit with a blank behind it is a word. -/
theorem word_of_unit {unit : Char} {rest : Text} (hUnit : isUnit unit = true)
    (hBlank : Shorthand.blankFollows rest = true) : word (unit :: rest) = [unit] := by
  have hRest : Text.startsWord rest = false := by
    cases rest with
    | nil => rfl
    | cons c rest => exact isWord_eq_false_of_isBlank hBlank
  exact (isName_unit hUnit).word_append hRest

theorem unit_mem_continuations {unit : Char} (hUnit : isUnit unit = true) :
    [unit] ∈ continuations := by
  simp only [isUnit, Bool.or_eq_true, beq_iff_eq] at hUnit
  rcases hUnit with (rfl | rfl) | rfl <;> decide

theorem unit_mem_reserved (rules : Rules) {unit : Char} (hUnit : isUnit unit = true) :
    [unit] ∈ reserved rules :=
  List.mem_append_left _ (List.mem_of_mem_drop (i := 2) (unit_mem_continuations hUnit))

/-- A unit has one character, and a truth value more. -/
theorem unit_ne_truth (unit : Char) : [unit] ≠ "True".toList ∧ [unit] ≠ "False".toList := by
  constructor <;> exact fun hSame => absurd (congrArg List.length hSame) (by simp)

theorem ne_truth_of_not_mem (hLeads : t ∉ continuations) : t ≠ "True" ∧ t ≠ "False" := by
  constructor <;> rintro rfl <;> exact hLeads (by decide)

/-- A truth value behind a space is seen as one. -/
theorem valueFollows_of_truth {value : Text} (hTruth : value = "True" ∨ value = "False")
    (hBehind : startsWord behind = false) :
    valueFollows " " (' ' :: (value ++ behind)) = true := by
  have hName : IsName value := by
    rcases hTruth with rfl | rfl <;> decide
  have hRest : List.drop (" " : Text).length (' ' :: (value ++ behind)) = value ++ behind := rfl
  rw [Shorthand.valueFollows, hRest, hName.word_append hBehind]
  rcases hTruth with rfl | rfl <;> simp

/-- A space is not followed by a unit if the word behind it is none. -/
theorem unitFollows_of_word (hWord : ∀ unit, isUnit unit = true → word t ≠ [unit]) :
    unitFollows (' ' :: t) = false := by
  cases t with
  | nil => rfl
  | cons unit rest =>
    rw [← Bool.not_eq_true]
    intro hHere
    obtain ⟨hUnit, hBlank⟩ := Bool.and_eq_true_iff.mp hHere
    exact hWord unit hUnit (word_of_unit hUnit hBlank)

/-- No unit follows an entry. -/
theorem Free.unitFollows (hFree : Free behind) : unitFollows behind = false := by
  rcases hFree with rfl | ⟨t, rfl, hWord⟩
  · rfl
  · refine unitFollows_of_word fun unit hUnit hSame => hWord ?_
    rw [hSame]
    exact unit_mem_continuations hUnit

end

/-! ## Entries once keys are merged -/

namespace Entry

variable {rules : Rules} {e : Entry} {behind : Text}

/-- Whether the words of an entry, once keys are merged, are those that it may have. -/
def Tidy (rules : Rules) : Entry → Prop
  | pair key value =>
    IsKey key ∧ IsValue rules value ∧ (key ∈ rules.optionKeys → value = "True" ∨ value = "False")
  | negated key => IsKey key
  | present key => IsKey key
  | option key => key ∈ rules.optionKeys
  | function name arguments _ => Plain rules name ∧ IsValue rules (join "," arguments)
  | sized key digits unit =>
    Plain rules key ∧ digits ≠ [] ∧ (∀ c ∈ digits, isDecimal c = true) ∧ isUnit unit = true

/-- The step that resolves an entry. A pair is left by all of them. -/
def step : Entry → Nat
  | negated _ => 1
  | present _ => 2
  | function _ _ _ => 3
  | option _ => 4
  | sized _ _ _ => 5
  | pair _ _ => 6

/-- Spaces stand between pieces only. -/
theorem Tidy.not_mem_space (hRules : rules.Regular) (hTidy : e.Tidy rules) :
    ∀ t ∈ e.pieces, ' ' ∉ t := by
  have hWord : ∀ {t}, IsName t → ' ' ∉ t := fun hName => hName.not_mem (by decide)
  have hValue : ∀ {t}, IsValue rules t → ' ' ∉ t := fun hValue =>
    hValue.not_mem (by decide) (by decide)
  cases e with
  | pair key value => simp [pieces, hWord hTidy.1.1, hValue hTidy.2.1]
  | negated key => simp [pieces, hWord (And.left hTidy)]
  | present key => simp [pieces, hWord (And.left hTidy)]
  | option key => simp [pieces, hWord (hRules.isKey hTidy).1]
  | function name arguments spaced =>
    have hArguments := hValue hTidy.2
    cases spaced <;> simpa [pieces, hWord hTidy.1.1] using hArguments
  | sized key digits unit =>
    obtain ⟨hKey, hSome, hDecimal, hUnit⟩ := hTidy
    have hDigits := isName_of_isDecimal hSome hDecimal
    simp only [pieces, List.forall_mem_cons]
    exact ⟨hWord hKey.1, hWord hDigits, hWord (isName_unit hUnit), by simp⟩

/-- The first word of an entry does not belong to what stands before it. -/
theorem Tidy.word_not_mem (hRules : rules.Regular) (hTidy : e.Tidy rules)
    (hBehind : startsWord behind = false) : word (e.text ++ behind) ∉ continuations := by
  -- a key ends at the first character that is no word character, and is no continuation
  have hKey : ∀ {t left}, IsKey t → startsWord left = false →
      word (t ++ left) ∉ continuations := by
    intro t left hKey hLeft
    rw [hKey.1.word_append hLeft]
    exact fun hMem => hKey.2 (List.mem_of_mem_drop (i := 2) hMem)
  have hNot : IsName "NOT" := by decide
  have hWith : IsName "WITH" := by decide
  cases e with
  | pair key value =>
    rw [text_pair, List.append_assoc]
    exact hKey hTidy.1 rfl
  | negated key =>
    rw [text_negated, List.append_assoc, hNot.word_append rfl]
    decide
  | present key =>
    rw [text_present, List.append_assoc, hWith.word_append rfl]
    decide
  | option key => exact hKey (hRules.isKey hTidy) hBehind
  | function name arguments spaced =>
    rw [text_function, List.append_assoc]
    exact hKey hTidy.1.isKey rfl
  | sized key digits unit =>
    rw [text_sized, List.append_assoc]
    exact hKey hTidy.1.isKey rfl

end Entry

/-! ## Words that are not there -/

/-- A word stands on neither side of a mark, so it does not stand in the whole. -/
theorem not_mem_runs_append_cons {sought s t : Text} {x : Char} (hMark : isWord x = false)
    (hFirst : sought ∉ runs s) (hSecond : sought ∉ runs t) : sought ∉ runs (s ++ x :: t) := by
  rw [runs_append_cons hMark, List.mem_append, not_or]
  exact ⟨hFirst, hSecond⟩

/-- A word holds no word but itself. -/
theorem not_mem_runs_of_word {sought t : Text} (hWord : ∀ c ∈ t, isWord c = true)
    (hOther : sought ≠ t) : sought ∉ runs t := by
  rw [runs_of_word hWord]
  simpa using hOther

/-- Of the words of the notation only truth values stand in a value. -/
theorem IsValue.not_mem_runs {rules : Rules} {sought t : Text} (hValue : IsValue rules t)
    (hSought : sought ∈ reserved rules) (hTruth : sought ≠ "True" ∧ sought ≠ "False") :
    sought ∉ runs t := by
  intro hRun
  rcases hValue.words sought hRun hSought with hSame | hSame
  · exact hTruth.1 hSame
  · exact hTruth.2 hSame

/-- No word of the notation is a number. -/
theorem Rules.Regular.ne_of_decimal {rules : Rules} (hRules : rules.Regular) {sought digits : Text}
    (hSought : sought ∈ reserved rules) (hSome : digits ≠ [])
    (hDecimal : ∀ c ∈ digits, isDecimal c = true) : sought ≠ digits := by
  rintro rfl
  obtain ⟨c, rest, rfl⟩ := List.exists_cons_of_ne_nil hSome
  have hNone := hRules.digits _ hSought
  rw [List.head?_cons, Option.any_some, hDecimal c (List.mem_cons_self ..)] at hNone
  cases hNone

/-- The words of an entry that the notation may use itself. -/
def Entry.own : Entry → List Text
  | pair key _ => [key]
  | negated key => ["NOT", key]
  | present key => ["WITH", key]
  | option key => [key]
  | _ => []

/-- A word of the notation that is no value, no unit and none of an entry's own does not stand in
the entry. -/
theorem Entry.Tidy.not_mem_runs {rules : Rules} (hRules : rules.Regular) {e : Entry}
    (hTidy : e.Tidy rules) {sought : Text} (hName : IsName sought)
    (hSought : sought ∈ reserved rules) (hValue : sought ∉ continuations) (hOwn : sought ∉ e.own) :
    sought ∉ runs e.text := by
  have hTruth := ne_truth_of_not_mem hValue
  have hPlain : ∀ {t}, Plain rules t → sought ∉ runs t := fun hPlain =>
    not_mem_runs_of_word hPlain.1.2 (ne_of_mem_of_not_mem hSought hPlain.2)
  cases e with
  | pair key value =>
    rw [text_pair]
    refine not_mem_runs_append_cons (by decide) ?_ (hTidy.2.1.not_mem_runs hSought hTruth)
    exact not_mem_runs_of_word hTidy.1.1.2 (by simpa [own] using hOwn)
  | negated key =>
    rw [own, List.mem_cons, List.mem_singleton, not_or] at hOwn
    rw [text_negated]
    have hWord : IsName "NOT" := by decide
    refine not_mem_runs_append_cons (by decide) (not_mem_runs_of_word hWord.2 hOwn.1) ?_
    exact not_mem_runs_of_word (And.left hTidy).2 hOwn.2
  | present key =>
    rw [own, List.mem_cons, List.mem_singleton, not_or] at hOwn
    rw [text_present]
    have hWord : IsName "WITH" := by decide
    refine not_mem_runs_append_cons (by decide) (not_mem_runs_of_word hWord.2 hOwn.1) ?_
    exact not_mem_runs_of_word (And.left hTidy).2 hOwn.2
  | option key =>
    rw [text_option]
    exact not_mem_runs_of_word (hRules.isKey hTidy).1.2 (by simpa [own] using hOwn)
  | function name arguments spaced =>
    have hNil : sought ∉ runs [] := not_mem_runs_of_word (by simp) hName.1
    have hArguments := hTidy.2.not_mem_runs hSought hTruth
    rw [text_function]
    refine not_mem_runs_append_cons (by decide) (hPlain hTidy.1) ?_
    -- around the arguments there are only spaces and a parenthesis
    cases spaced with
    | false => exact not_mem_runs_append_cons (by decide) hArguments hNil
    | true =>
      refine not_mem_runs_append_cons (s := []) (by decide) hNil ?_
      refine not_mem_runs_append_cons (by decide) hArguments ?_
      exact not_mem_runs_append_cons (s := []) (by decide) hNil hNil
  | sized key digits unit =>
    obtain ⟨hKey, hSome, hDecimal, hUnit⟩ := hTidy
    rw [text_sized]
    refine not_mem_runs_append_cons (by decide) (hPlain hKey) ?_
    refine not_mem_runs_append_cons (by decide) ?_ ?_
    · exact not_mem_runs_of_word (isName_of_isDecimal hSome hDecimal).2
        (hRules.ne_of_decimal hSought hSome hDecimal)
    · refine not_mem_runs_of_word (isName_unit hUnit).2 ?_
      rintro rfl
      exact hValue (unit_mem_continuations hUnit)

/-- What follows an entry does not belong to it, since the next entry starts with a word of its own.
-/
theorem free_following {rules : Rules} (hRules : rules.Regular) {later : List Entry}
    (hTidy : ∀ e ∈ later, e.Tidy rules) : Free (following (later.map Entry.text)) := by
  cases later with
  | nil => exact Or.inl rfl
  | cons e later =>
    refine Or.inr ⟨_, rfl, ?_⟩
    rw [join_cons]
    refine (hTidy e (List.mem_cons_self ..)).word_not_mem hRules ?_
    cases later <;> rfl

/-- A step over entries is a step over each of them. -/
theorem replace_write {rules : Rules} (hRules : rules.Regular) {p : Pattern} (hIn : p.InWords)
    {settle : Entry → Entry} {entries : List Entry} (hTidy : ∀ e ∈ entries, e.Tidy rules)
    (hTurns : ∀ e ∈ entries, ∀ behind, Free behind →
      Turns p false e.text (settle e).text behind) :
    p.replace (write entries) = write (entries.map settle) := by
  rw [write_eq, write_eq, List.map_map]
  -- entry by entry, each with what is written behind it
  refine hIn.replace_join fun e later hSuffix => ?_
  have hMem := hSuffix.subset
  exact hTurns e (hMem (List.mem_cons_self ..)) _
    (free_following hRules fun next hLater => hTidy next (hMem (List.mem_cons_of_mem e hLater)))

/-! ## The steps -/

/-- Whether an entry is left for a step or a later one. -/
structure Awaits (rules : Rules) (n : Nat) (e : Entry) : Prop where
  tidy : e.Tidy rules
  step : n ≤ e.step

namespace Entry

variable {rules : Rules} {e : Entry} {behind : Text}

/-- An entry once negations are resolved. -/
def negationSettled : Entry → Entry
  | negated key => pair key "False"
  | e => e

/-- An entry once presence is resolved. -/
def presenceSettled : Entry → Entry
  | present key => pair key "True"
  | e => e

/-- An entry once functions are resolved. -/
def functionSettled : Entry → Entry
  | function name arguments _ => pair name (join "," arguments)
  | e => e

/-- An entry once some options are resolved. -/
def optionsSettled (keys : List Text) : Entry → Entry
  | option key => if keys.contains key then pair key "True" else option key
  | e => e

/-- An option that is resolved is switched on. -/
theorem optionsSettled_of_mem {keys : List Text} {key : Text} (hMem : key ∈ keys) :
    (option key).optionsSettled keys = pair key "True" :=
  if_pos (List.contains_iff_mem.mpr hMem)

theorem optionsSettled_of_not_mem {keys : List Text} {key : Text} (hOther : key ∉ keys) :
    (option key).optionsSettled keys = option key :=
  if_neg fun hContains => hOther (List.contains_iff_mem.mp hContains)

/-- An entry once sizes are resolved. -/
def sizeSettled : Entry → Entry
  | sized key digits unit => pair key (digits ++ [unit])
  | e => e

/-- The keys of an entry are no keywords. -/
theorem Tidy.not_mem_own (hRules : rules.Regular) (hTidy : e.Tidy rules) {keyword : Text}
    (hKeyword : keyword ∈ keywords) (hNegated : e.step = 1 → keyword ≠ "NOT")
    (hPresent : e.step = 2 → keyword ≠ "WITH") : keyword ∉ e.own := by
  have hOther : ∀ {t}, IsKey t → keyword ≠ t := fun hKey => ne_of_mem_of_not_mem hKeyword hKey.2
  cases e with
  | negated key => simpa [own] using ⟨hNegated rfl, hOther hTidy⟩
  | present key => simpa [own] using ⟨hPresent rfl, hOther hTidy⟩
  | pair key value => simpa [own] using hOther hTidy.1
  | option key => simpa [own] using hOther (hRules.isKey hTidy)
  | function name arguments spaced => simp [own]
  | sized key digits unit => simp [own]

/-- An entry without the keyword is left alone where the keyword is looked for. -/
theorem Tidy.turns_keyword_self (hRules : rules.Regular) (hTidy : e.Tidy rules)
    (hFree : Free behind) {keyword value : Text} (hKeyword : keyword ∈ keywords)
    (hLeads : keyword ∉ continuations) (hOwn : keyword ∉ e.own) :
    Turns (keywordPattern (keyword ++ " ") " " value) false e.text e.text behind := by
  have hName := isName_of_mem_keywords hKeyword
  refine (seeks_keywordPattern hName).turns ?_ hFree.startsWord
  exact hTidy.not_mem_runs hRules hName (List.mem_append_left _ hKeyword) hLeads hOwn

/-- Negations become pairs, and all the other entries are left alone. -/
theorem Tidy.turns_negation (hRules : rules.Regular) (hTidy : e.Tidy rules)
    (hFree : Free behind) :
    Turns (keywordPattern ("NOT" ++ " ") " " "False") false e.text e.negationSettled.text
      behind := by
  -- an entry of another kind does not have the keyword among its words
  have hSelf : e.step ≠ 1 →
      Turns (keywordPattern ("NOT" ++ " ") " " "False") false e.text e.text behind := fun hStep =>
    hTidy.turns_keyword_self hRules hFree (by decide) (by decide)
      (hTidy.not_mem_own hRules (by decide) (fun hHere => absurd hHere hStep) fun _ => by decide)
  cases e with
  | negated key =>
    rw [text_negated, negationSettled, text_pair_eq_append]
    exact turns_keywordPattern (by decide) (And.left hTidy) hFree.startsWord
  | _ => exact hSelf (by simp [step])

end Entry

/-- Presence becomes a pair, and what is left of the other entries is left alone. -/
theorem Awaits.turns_presence {rules : Rules} {e : Entry} {behind : Text} (hRules : rules.Regular)
    (hAwaits : Awaits rules 2 e) (hFree : Free behind) :
    Turns (keywordPattern ("WITH" ++ " ") " " "True") false e.text e.presenceSettled.text
      behind := by
  have hSelf : e.step ≠ 2 →
      Turns (keywordPattern ("WITH" ++ " ") " " "True") false e.text e.text behind := fun hStep =>
    hAwaits.tidy.turns_keyword_self hRules hFree (by decide) (by decide)
      (hAwaits.tidy.not_mem_own hRules (by decide) (fun _ => by decide)
        fun hHere => absurd hHere hStep)
  cases e with
  | present key =>
    rw [text_present, Entry.presenceSettled, text_pair_eq_append]
    exact turns_keywordPattern (by decide) (And.left hAwaits.tidy) hFree.startsWord
  | _ => exact hSelf (by simp [Entry.step])

/-- A function becomes a pair, and what is left of the other entries is left alone. -/
theorem Awaits.turns_function {rules : Rules} {e : Entry} {behind : Text} (hRules : rules.Regular)
    (hAwaits : Awaits rules 3 e) (hFree : Free behind) :
    Turns (functionPattern " ") false e.text e.functionSettled.text behind := by
  -- of the entries that are left, functions alone have a parenthesis
  have hSelf : '(' ∉ e.text → Turns (functionPattern " ") false e.text e.text behind :=
    fun hInside => turns_functionPattern_self hInside hFree.startsWord hFree.head?_ne
  have hWord : ∀ {t}, IsName t → '(' ∉ t := fun hName => hName.not_mem (by decide)
  obtain ⟨hTidy, hStep⟩ := hAwaits
  cases e with
  | negated key => simp [Entry.step] at hStep
  | present key => simp [Entry.step] at hStep
  | function name arguments spaced =>
    have hAround : around spaced = [] ∨ around spaced = [' '] := by
      cases spaced <;> simp [around]
    rw [text_function, Entry.functionSettled, text_pair_eq_append]
    exact turns_functionPattern hTidy.1.1 hTidy.2.some hTidy.2.inside hAround behind
  | option key => exact hSelf (hWord (hRules.isKey hTidy).1)
  | sized key digits unit =>
    have hDigits := isName_of_isDecimal hTidy.2.1 hTidy.2.2.1
    have hUnit := hWord (isName_unit hTidy.2.2.2)
    refine hSelf ?_
    rw [text_sized]
    simpa [hWord hTidy.1.1, hWord hDigits] using hUnit
  | pair key value =>
    refine hSelf ?_
    rw [text_pair]
    simp [hWord hTidy.1.1, hTidy.2.1.not_mem (x := '(') (by decide) (by decide)]

/-- An option that stands alone becomes a pair. It is left alone where it has its truth value behind
it, and so is every other entry. -/
theorem Awaits.turns_option {rules : Rules} {e : Entry} {behind : Text} (hRules : rules.Regular)
    (hAwaits : Awaits rules 4 e) (hFree : Free behind) {sought : Text}
    (hSought : sought ∈ rules.optionKeys) :
    Turns (optionPattern sought " ") false e.text (e.optionsSettled [sought]).text behind := by
  obtain ⟨hName, hKeyword⟩ := hRules.isKey hSought
  have hReserved : sought ∈ reserved rules := List.mem_append_right _ hSought
  have hLeads : sought ∉ continuations := fun hMem => hKeyword (List.mem_of_mem_drop (i := 2) hMem)
  obtain ⟨hTidy, hStep⟩ := hAwaits
  -- an entry that does not have the option as its key is left alone
  have hSelf : sought ∉ e.own → Turns (optionPattern sought " ") false e.text e.text behind :=
    fun hOwn => (seeks_optionPattern hName).turns
      (hTidy.not_mem_runs hRules hName hReserved hLeads hOwn) hFree.startsWord
  cases e with
  | negated key => simp [Entry.step] at hStep
  | present key => simp [Entry.step] at hStep
  | function name arguments spaced => simp [Entry.step] at hStep
  | option key =>
    by_cases hKey : key = sought
    · subst hKey
      rw [text_option, Entry.optionsSettled_of_mem (List.mem_singleton_self key),
        text_pair_eq_append]
      exact turns_optionPattern hName hFree.startsWord hFree.valueFollows
    · rw [Entry.optionsSettled_of_not_mem (by simpa using hKey)]
      exact hSelf (by simpa [Entry.own] using Ne.symm hKey)
  | sized key digits unit => exact hSelf (by simp [Entry.own])
  | pair key value =>
    by_cases hKey : key = sought
    · -- the option has its truth value behind it
      subst hKey
      have hTruth := hTidy.2.2 hSought
      have hTurns := turns_optionPattern_self hName (valueFollows_of_truth hTruth hFree.startsWord)
      -- and inside the value no option starts
      have hValue : key ∉ runs value :=
        hTidy.2.1.not_mem_runs hReserved (ne_truth_of_not_mem hLeads)
      change Turns _ false (Entry.pair key value).text (Entry.pair key value).text behind
      rw [text_pair]
      exact (inWords_optionPattern hName _).turns_append_cons (by decide) hTurns
        ((seeks_optionPattern hName).turns hValue hFree.startsWord)
    · exact hSelf (by simpa [Entry.own] using Ne.symm hKey)

/-- A size becomes a pair, and a pair is left alone. -/
theorem Awaits.turns_size {rules : Rules} {e : Entry} {behind : Text} (hRules : rules.Regular)
    (hAwaits : Awaits rules 5 e) (hFree : Free behind) :
    Turns sizedPattern false e.text e.sizeSettled.text behind := by
  obtain ⟨hTidy, hStep⟩ := hAwaits
  cases e with
  | negated key => simp [Entry.step] at hStep
  | present key => simp [Entry.step] at hStep
  | function name arguments spaced => simp [Entry.step] at hStep
  | option key => simp [Entry.step] at hStep
  | sized key digits unit =>
    obtain ⟨hKey, hSome, hDecimal, hUnit⟩ := hTidy
    rw [text_sized, Entry.sizeSettled, text_pair]
    refine inWords_sizedPattern.turns_append_cons (by decide) ?_
      (turns_sizedPattern hSome hDecimal hUnit hFree.blankFollows)
    have hDigits := isName_of_isDecimal hSome hDecimal
    -- a number stands behind the key, and it is no unit
    refine turns_sizedPattern_self (hKey.1.not_mem (by decide)) rfl
      (unitFollows_of_word fun unit' hUnit' => ?_)
    rw [List.append_assoc, hDigits.word_append rfl]
    exact (hRules.ne_of_decimal (unit_mem_reserved rules hUnit') hSome hDecimal).symm
  | pair key value =>
    change Turns _ false (Entry.pair key value).text (Entry.pair key value).text behind
    rw [text_pair]
    -- key and value may both be numbers, but neither has a unit behind it
    refine inWords_sizedPattern.turns_append_cons (by decide) ?_ ?_
    · refine turns_sizedPattern_self (hTidy.1.1.not_mem (by decide)) rfl
        (unitFollows_of_word fun unit hUnit => ?_)
      rw [word_append hFree.startsWord]
      intro hSame
      have hNone := hTidy.2.1.not_mem_runs (unit_mem_reserved rules hUnit) (unit_ne_truth unit)
      exact hNone (hSame ▸ word_mem_runs value)
    · exact turns_sizedPattern_self (hTidy.2.1.not_mem (by decide) (by decide)) hFree.startsWord
        hFree.unitFollows

/-! ## The steps over all entries -/

section

variable {rules : Rules} {entries : List Entry} {e : Entry}

/-- The first step turns all negations into pairs. -/
theorem resolve_negations (hRules : rules.Regular) (hTidy : ∀ e ∈ entries, e.Tidy rules) :
    (Shorthand.negations " ").resolve (write entries) =
      write (entries.map Entry.negationSettled) := by
  have hIn : (keywordPattern ("NOT" ++ " ") " " "False").InWords :=
    (seeks_keywordPattern (by decide)).inWords
  exact replace_write hRules hIn hTidy fun e hMem _ hFree =>
    (hTidy e hMem).turns_negation hRules hFree

/-- The second step turns all presences into pairs. -/
theorem resolve_presence (hRules : rules.Regular) (hAwait : ∀ e ∈ entries, Awaits rules 2 e) :
    (Shorthand.presence " ").resolve (write entries) =
      write (entries.map Entry.presenceSettled) := by
  have hIn : (keywordPattern ("WITH" ++ " ") " " "True").InWords :=
    (seeks_keywordPattern (by decide)).inWords
  exact replace_write hRules hIn (fun e hMem => (hAwait e hMem).tidy) fun e hMem _ hFree =>
    (hAwait e hMem).turns_presence hRules hFree

/-- The third step turns all functions into pairs. -/
theorem resolve_functions (hRules : rules.Regular) (hAwait : ∀ e ∈ entries, Awaits rules 3 e) :
    (Shorthand.functions " ").resolve (write entries) =
      write (entries.map Entry.functionSettled) :=
  replace_write hRules (inWords_functionPattern " ") (fun e hMem => (hAwait e hMem).tidy)
    fun e hMem _ hFree => (hAwait e hMem).turns_function hRules hFree

/-- Options may be resolved one after the other. -/
theorem Entry.optionsSettled_cons (key : Text) (keys : List Text) (e : Entry) :
    (e.optionsSettled [key]).optionsSettled keys = e.optionsSettled (key :: keys) := by
  cases e with
  | option sought =>
    by_cases hKey : sought = key <;> simp [optionsSettled, hKey]
  | _ => rfl

/-! ### What is left for the next step -/

/-- Once negations are resolved, none is left. -/
theorem awaits_negationSettled (hTidy : e.Tidy rules) : Awaits rules 2 e.negationSettled := by
  cases e with
  | negated key =>
    exact ⟨⟨hTidy, isValue_false rules, fun _ => Or.inr rfl⟩,
      by simp [Entry.negationSettled, Entry.step]⟩
  | _ => exact ⟨hTidy, by simp [Entry.negationSettled, Entry.step]⟩

/-- Once presences are resolved, none is left. -/
theorem Awaits.presenceSettled (hAwaits : Awaits rules 2 e) : Awaits rules 3 e.presenceSettled := by
  obtain ⟨hTidy, hStep⟩ := hAwaits
  cases e with
  | negated key => simp [Entry.step] at hStep
  | present key =>
    exact ⟨⟨hTidy, isValue_true rules, fun _ => Or.inl rfl⟩,
      by simp [Entry.presenceSettled, Entry.step]⟩
  | _ => exact ⟨hTidy, by simp [Entry.presenceSettled, Entry.step]⟩

/-- Once functions are resolved, none is left. The key of the pair that comes of one is no option.
-/
theorem Awaits.functionSettled (hAwaits : Awaits rules 3 e) : Awaits rules 4 e.functionSettled := by
  obtain ⟨hTidy, hStep⟩ := hAwaits
  cases e with
  | negated key => simp [Entry.step] at hStep
  | present key => simp [Entry.step] at hStep
  | function name arguments spaced =>
    -- the pair has a plain key, so it asks nothing of its value
    refine ⟨⟨hTidy.1.isKey, hTidy.2, fun hMem => ?_⟩, by simp [Entry.functionSettled, Entry.step]⟩
    exact absurd hMem hTidy.1.not_mem_options
  | _ => exact ⟨hTidy, by simp [Entry.functionSettled, Entry.step]⟩

/-- While options are resolved, some may be left. -/
theorem Awaits.optionsSettled (hRules : rules.Regular) (hAwaits : Awaits rules 4 e)
    (keys : List Text) : Awaits rules 4 (e.optionsSettled keys) := by
  obtain ⟨hTidy, hStep⟩ := hAwaits
  cases e with
  | option key =>
    by_cases hMem : key ∈ keys
    · rw [Entry.optionsSettled_of_mem hMem]
      exact ⟨⟨hRules.isKey hTidy, isValue_true rules, fun _ => Or.inl rfl⟩, by simp [Entry.step]⟩
    · rw [Entry.optionsSettled_of_not_mem hMem]
      exact ⟨hTidy, hStep⟩
  | _ => exact ⟨hTidy, hStep⟩

/-- Once all options are resolved, only sizes are left. -/
theorem Awaits.allOptionsSettled (hRules : rules.Regular) (hAwaits : Awaits rules 4 e) :
    Awaits rules 5 (e.optionsSettled rules.optionKeys) := by
  have hTidy := (hAwaits.optionsSettled hRules rules.optionKeys).tidy
  obtain ⟨hBefore, hStep⟩ := hAwaits
  refine ⟨hTidy, ?_⟩
  cases e with
  | option key =>
    have hMem : key ∈ rules.optionKeys := hBefore
    rw [Entry.optionsSettled_of_mem hMem]
    simp [Entry.step]
  | negated key => simp [Entry.step] at hStep
  | present key => simp [Entry.step] at hStep
  | function name arguments spaced => simp [Entry.step] at hStep
  | _ => simp [Entry.optionsSettled, Entry.step]

/-- The fourth step turns all options that are asked for into pairs. -/
theorem resolve_options (hRules : rules.Regular) (hAwait : ∀ e ∈ entries, Awaits rules 4 e)
    {keys : List Text} (hKeys : ∀ key ∈ keys, key ∈ rules.optionKeys) :
    (Shorthand.options keys " ").resolve (write entries) =
      write (entries.map (Entry.optionsSettled keys)) := by
  unfold Shorthand.resolve
  dsimp only
  -- one option after the other: what one leaves as a pair, the later ones pass over
  induction keys generalizing entries with
  | nil =>
    have hNone : Entry.optionsSettled [] = id := funext fun e => by
      cases e <;> simp [Entry.optionsSettled]
    rw [List.foldl_nil, hNone, List.map_id]
  | cons key keys ih =>
    have hKey := hKeys key (List.mem_cons_self ..)
    have hIn := inWords_optionPattern (hRules.isKey hKey).1 " "
    have hHere := replace_write hRules hIn (fun e hMem => (hAwait e hMem).tidy)
      fun e hMem _ hFree => (hAwait e hMem).turns_option hRules hFree hKey
    have hLater : ∀ e ∈ entries.map (Entry.optionsSettled [key]), Awaits rules 4 e :=
      List.forall_mem_map.mpr fun e hMem => (hAwait e hMem).optionsSettled hRules [key]
    rw [List.foldl_cons, hHere,
      ih hLater fun other hMem => hKeys other (List.mem_cons_of_mem key hMem), List.map_map]
    congr 2
    funext e
    exact e.optionsSettled_cons key keys

/-- The last step joins all numbers with their units. -/
theorem resolve_units (hRules : rules.Regular) (hAwait : ∀ e ∈ entries, Awaits rules 5 e) :
    Shorthand.units.resolve (write entries) = write (entries.map Entry.sizeSettled) :=
  replace_write hRules inWords_sizedPattern (fun e hMem => (hAwait e hMem).tidy)
    fun e hMem _ hFree => (hAwait e hMem).turns_size hRules hFree

end

end SchemaScript.Parameters
