import SchemaScript.Proofs.Parameters.Decoding

/-!
# Pieces between separators

A text of parameters is a list of pieces with a separator between each two: words, negated and
present keys, and sizes. Each step that resolves a shorthand writes some pieces for each piece,
which depend on the piece and on those behind it (`unfolded`), so that it is a function of lists
whatever the separator is (`InWords.replace_unfolded`). Only the last step sees the separator: a
size is closed if a blank or nothing stands behind it.

`decode_pieces` puts the steps together. It asks of the words that they are none by which a
shorthand is known (`signals`), and of the separator that it parts words (`Separates`).
-/

namespace SchemaScript

namespace Text

variable {s t : Text} {ts us : List Text}

/-! ## Separators -/

/-- Whether a text stands between pieces without belonging to them: it has no word character and no
parenthesis, and it is a space or has no blank. -/
structure Separates (s : Text) : Prop where
  some : s ≠ []
  apart : ∀ c ∈ s, isWord c = false
  noParenthesis : '(' ∉ s
  blank : s = " " ∨ ∀ c ∈ s, isBlank c = false

/-- A space stands between pieces. -/
theorem separates_space : Separates " " where
  some := by decide
  apart := List.forall_mem_singleton.mpr rfl
  noParenthesis := by decide
  blank := Or.inl rfl

/-- What stands behind the first of some texts. -/
def behindFirst (s : Text) : List Text → Text
  | [] => []
  | t :: ts => s ++ join s (t :: ts)

/-- Joined texts are the first one and what stands behind it. -/
theorem join_cons_eq (s t : Text) (ts : List Text) : join s (t :: ts) = t ++ behindFirst s ts := by
  cases ts with
  | nil => simp [join, behindFirst]
  | cons u ts => simp [join, behindFirst]

/-- Texts may be joined in two parts. -/
theorem join_append_eq (hSome : ts ≠ []) : join s (ts ++ us) = join s ts ++ behindFirst s us := by
  induction ts with
  | nil => exact absurd rfl hSome
  | cons t ts ih =>
    rw [List.cons_append, join_cons_eq, join_cons_eq]
    cases ts with
    | nil => simp [behindFirst]
    | cons u ts =>
      have hLater := ih (List.cons_ne_nil u ts)
      rw [List.cons_append] at hLater ⊢
      rw [behindFirst, behindFirst, hLater]
      simp

/-- A character of joined texts is one of the separator or of a text. -/
theorem mem_join {c : Char} (hMem : c ∈ join s ts) : c ∈ s ∨ ∃ t ∈ ts, c ∈ t := by
  induction ts with
  | nil => cases hMem
  | cons t ts ih =>
    rw [join_cons_eq, List.mem_append] at hMem
    rcases hMem with hHere | hBehind
    · exact Or.inr ⟨t, List.mem_cons_self .., hHere⟩
    · cases ts with
      | nil => cases hBehind
      | cons u ts =>
        rcases List.mem_append.mp hBehind with hBetween | hLater
        · exact Or.inl hBetween
        · exact (ih hLater).imp_right fun ⟨t', hThere, hIn⟩ =>
            ⟨t', List.mem_cons_of_mem t hThere, hIn⟩

theorem behindFirst_of_ne_nil (hSome : ts ≠ []) : behindFirst s ts = s ++ join s ts := by
  obtain ⟨t, ts, rfl⟩ := List.exists_cons_of_ne_nil hSome
  rfl

theorem Separates.parts (hSeparates : Separates s) : Parts s := ⟨hSeparates.some, hSeparates.apart⟩

/-- No word goes on behind the first piece. -/
theorem Separates.startsWord_behindFirst (hSeparates : Separates s) (ts : List Text) :
    startsWord (behindFirst s ts) = false := by
  cases ts with
  | nil => rfl
  | cons t ts => exact hSeparates.parts.startsWord_append _

/-! ## Steps over pieces -/

namespace Pattern

variable {p : Pattern} {α : Type} {f : α → List α → List α} {items : List α} {text : α → Text}

/-- The pieces that a step writes, if it writes some for each piece with those behind it. -/
def unfolded (f : α → List α → List α) : List α → List α
  | [] => []
  | x :: later => f x later ++ unfolded f later

/-- A step that writes something for every piece leaves pieces. -/
theorem unfolded_ne_nil (hSome : ∀ x later, f x later ≠ []) (hItems : items ≠ []) :
    unfolded f items ≠ [] := by
  obtain ⟨x, later, rfl⟩ := List.exists_cons_of_ne_nil hItems
  simp [unfolded, hSome]

/-- A step that turns each piece by itself turns the whole text. -/
theorem InWords.replace_unfolded (hIn : p.InWords) (hSeparates : Separates s)
    (hSome : ∀ x later, f x later ≠ [])
    (hTurns : ∀ x later, x :: later <:+ items →
      Turns p false (text x) (join s ((f x later).map text)) (behindFirst s (later.map text))) :
    p.replace (join s (items.map text)) = join s ((unfolded f items).map text) := by
  unfold replace
  -- along the pieces, each with those behind it
  induction items with
  | nil => simp [join, unfolded, replaceFrom, hIn false [] rfl]
  | cons x later ih =>
    have hHere := hTurns x later List.suffix_rfl
    have hLater := ih fun y more hSuffix =>
      hTurns y more (hSuffix.trans (List.suffix_cons x later))
    have hOut : (f x later).map text ≠ [] := by simp [hSome]
    unfold Turns at hHere
    rw [List.map_cons, join_cons_eq, hHere, unfolded, List.map_append, join_append_eq hOut]
    congr 1
    by_cases hEnd : later = []
    · subst hEnd
      simp [behindFirst, unfolded, replaceFrom, hIn _ [] rfl]
    · -- nothing is found in the separator, and behind it the next piece comes
      have hBetween : Turns p (endsInWord false (text x)) s s (join s (later.map text)) := by
        refine .self fun s₁ s₂ hSplit hMore => hIn _ _ ?_
        obtain ⟨c, s₂, rfl⟩ := List.exists_cons_of_ne_nil hMore
        exact hSeparates.apart c (by simp [hSplit])
      unfold Turns at hBetween
      rw [behindFirst_of_ne_nil (by simpa using hEnd), hBetween,
        hSeparates.parts.endsInWord_eq_false, hLater,
        behindFirst_of_ne_nil (by simpa using unfolded_ne_nil hSome hEnd)]

/-- A text that is left alone up to its end is left as it is. -/
theorem Turns.replace_self (hTurns : Turns p false t t [])
    (hEnd : p (endsInWord false t) [] = none) : p.replace t = t := by
  unfold Turns at hTurns
  rw [List.append_nil, replaceFrom, hEnd] at hTurns
  simpa [replace] using hTurns

/-- What does not occur is not replaced. -/
theorem replaceAll_of_absent {part : Text} (hNone : ¬ part <:+: t) (output : Text) :
    replaceAll part output t = t := by
  have hNowhere : ∀ {afterWord t'}, t' <:+ t → literally part output afterWord t' = none := by
    intro afterWord t' hSuffix
    refine if_neg fun hHere => hNone ?_
    exact (List.isPrefixOf_iff_prefix.mp hHere).isInfix.trans hSuffix.isInfix
  refine Turns.replace_self (.self fun s s' hSplit _ => ?_) (hNowhere (List.nil_suffix ..))
  rw [List.append_nil]
  exact hNowhere ⟨s, hSplit.symm⟩

/-- What a step of single pieces writes. -/
theorem unfolded_eq_flatMap {g : α → List α} (hSame : ∀ x later, f x later = g x)
    (items : List α) : unfolded f items = items.flatMap g := by
  induction items with
  | nil => rfl
  | cons x later ih => rw [unfolded, hSame, ih, List.flatMap_cons]

/-- Pieces that a step leaves alone, whatever stands behind them. -/
theorem unfolded_append_of_self {first second : List α}
    (hSelf : ∀ x ∈ first, ∀ later, f x later = [x]) :
    unfolded f (first ++ second) = first ++ unfolded f second := by
  induction first with
  | nil => rfl
  | cons x first ih =>
    rw [List.cons_append, unfolded, hSelf x (List.mem_cons_self ..),
      ih fun y hMem => hSelf y (List.mem_cons_of_mem x hMem)]
    rfl

/-- A step that leaves every piece alone leaves all of them. -/
theorem unfolded_of_self (hSelf : ∀ x ∈ items, ∀ later, f x later = [x]) :
    unfolded f items = items := by
  have hAppend : unfolded f (items ++ []) = items ++ unfolded f [] :=
    unfolded_append_of_self hSelf
  rwa [List.append_nil, unfolded, List.append_nil] at hAppend

/-- Each piece that is written comes from one that was there. -/
theorem mem_unfolded {y : α} (hMem : y ∈ unfolded f items) :
    ∃ x later, x :: later <:+ items ∧ y ∈ f x later := by
  induction items with
  | nil => cases hMem
  | cons x later ih =>
    rcases List.mem_append.mp hMem with hHere | hBehind
    · exact ⟨x, later, List.suffix_rfl, hHere⟩
    · obtain ⟨x', later', hSuffix, hThere⟩ := ih hBehind
      exact ⟨x', later', hSuffix.trans (List.suffix_cons x later), hThere⟩

end Pattern

end Text

namespace Parameters

open Text Pattern Shorthand

/-! ## Pieces -/

/-- The words by which shorthands are known. -/
def signals : List Text := ["NOT", "WITH", "K", "M", "G"]

/-- Whether a text is a word by which no shorthand is known. -/
def IsBare (t : Text) : Prop := IsName t ∧ t ∉ signals

instance (t : Text) : Decidable (IsBare t) := inferInstanceAs (Decidable (_ ∧ _))

/-- A word that the notation does not use signals no shorthand. -/
theorem Plain.isBare {rules : Rules} {t : Text} (hPlain : Plain rules t) : IsBare t := by
  have hSignals : signals ⊆ keywords := by decide
  exact ⟨hPlain.1, fun hMem => hPlain.2 (List.mem_append_left _ (hSignals hMem))⟩

/-- A piece of written parameters. -/
inductive Piece where
  /-- a word that stands for itself -/
  | bare (t : Text)
  | negated (key : Text)
  | present (key : Text)
  /-- a whole number with a size unit behind it -/
  | size (digits : Text) (unit : Char)
  deriving DecidableEq

namespace Piece

/-- A piece as it is written, whatever separates it from others. -/
def text : Piece → Text
  | bare t => t
  | negated key => "NOT" ++ ' ' :: key
  | present key => "WITH" ++ ' ' :: key
  | size digits unit => digits ++ ' ' :: [unit]

/-- The words in a piece. -/
def words : Piece → List Text
  | bare t => [t]
  | negated key => ["NOT", key]
  | present key => ["WITH", key]
  | size digits unit => [digits, [unit]]

/-- Whether the words of a piece are those that it may have. The parts of a size are no options. -/
def Sound (options : List Text) : Piece → Prop
  | bare t => IsBare t
  | negated key => IsBare key
  | present key => IsBare key
  | size digits unit =>
    digits ≠ [] ∧ (∀ c ∈ digits, isDecimal c = true) ∧ isUnit unit = true ∧
      digits ∉ options ∧ [unit] ∉ options

variable {options : List Text} {p : Piece} {later pieces : List Piece} {s : Text}

/-- The words of a sound piece are words. -/
theorem Sound.isName (hSound : p.Sound options) : ∀ t ∈ p.words, IsName t := by
  have hNot : IsName "NOT" := by decide
  have hWith : IsName "WITH" := by decide
  cases p with
  | bare t => exact List.forall_mem_singleton.mpr hSound.1
  | negated key => exact List.forall_mem_cons.mpr ⟨hNot, List.forall_mem_singleton.mpr hSound.1⟩
  | present key => exact List.forall_mem_cons.mpr ⟨hWith, List.forall_mem_singleton.mpr hSound.1⟩
  | size digits unit =>
    have hDigits := isName_of_isDecimal hSound.1 hSound.2.1
    have hUnit := isName_unit hSound.2.2.1
    exact List.forall_mem_cons.mpr ⟨hDigits, List.forall_mem_singleton.mpr hUnit⟩

/-- A piece is one word, or two with a space between them. -/
theorem text_eq (p : Piece) :
    (∃ t, p.words = [t] ∧ p.text = t) ∨ ∃ t u, p.words = [t, u] ∧ p.text = t ++ ' ' :: u := by
  cases p with
  | bare t => exact Or.inl ⟨t, rfl, rfl⟩
  | negated key => exact Or.inr ⟨"NOT", key, rfl, rfl⟩
  | present key => exact Or.inr ⟨"WITH", key, rfl, rfl⟩
  | size digits unit => exact Or.inr ⟨digits, [unit], rfl, rfl⟩

/-- A sound piece has its words in it, and no others. -/
theorem Sound.runs_text (hSound : p.Sound options) : runs p.text = p.words := by
  have hNames := hSound.isName
  obtain ⟨t, hWords, hText⟩ | ⟨t, u, hWords, hText⟩ := p.text_eq
  · rw [hWords, List.forall_mem_singleton] at hNames
    rw [hText, hWords, runs_of_word hNames.2]
  · rw [hWords, List.forall_mem_cons, List.forall_mem_singleton] at hNames
    rw [hText, hWords, runs_append_cons (by decide), runs_of_word hNames.1.2,
      runs_of_word hNames.2.2]
    rfl

/-- The word at the start of a piece ends before what stands behind the piece. -/
theorem Sound.word_append (hSound : p.Sound options) {behind : Text}
    (hBehind : startsWord behind = false) : p.words.head? = some (word (p.text ++ behind)) := by
  have hNames := hSound.isName
  obtain ⟨t, hWords, hText⟩ | ⟨t, u, hWords, hText⟩ := p.text_eq
  · rw [hWords, List.forall_mem_singleton] at hNames
    rw [hText, hWords, hNames.word_append hBehind]
    rfl
  · rw [hWords, List.forall_mem_cons] at hNames
    rw [hText, hWords, List.append_assoc, hNames.1.word_append (by rfl)]
    rfl

/-- No parenthesis stands in a piece. -/
theorem Sound.noParenthesis (hSound : p.Sound options) : '(' ∉ p.text := by
  have hNames := fun t hMem => (hSound.isName t hMem).not_mem (x := '(') (by decide)
  obtain ⟨t, hWords, hText⟩ | ⟨t, u, hWords, hText⟩ := p.text_eq
  · rw [hWords, List.forall_mem_singleton] at hNames
    rwa [hText]
  · rw [hWords, List.forall_mem_cons, List.forall_mem_singleton] at hNames
    rw [hText]
    simpa using hNames

/-- A keyword stands in a piece only as its first word. -/
theorem Sound.not_mem_words (hSound : p.Sound options) {keyword : Text}
    (hKeyword : keyword = "NOT" ∨ keyword = "WITH") (hFirst : p.words.head? ≠ some keyword) :
    keyword ∉ p.words := by
  have hSignal : keyword ∈ signals := by
    rcases hKeyword with rfl | rfl <;> decide
  have hOther : ∀ {t}, IsBare t → keyword ≠ t := fun hBare => ne_of_mem_of_not_mem hSignal hBare.2
  have hHead : ∀ {t u}, p.words = [t, u] → keyword ≠ t := by
    rintro t u hWords rfl
    exact hFirst (by rw [hWords]; rfl)
  cases p with
  | bare t => simpa [words] using hOther hSound
  | negated key => simpa [words] using ⟨hHead rfl, hOther hSound⟩
  | present key => simpa [words] using ⟨hHead rfl, hOther hSound⟩
  | size digits unit =>
    have hUnit : keyword ≠ [unit] := by
      rcases hKeyword with rfl | rfl <;>
        exact fun hSame => absurd (congrArg List.length hSame) (by simp)
    simpa [words] using ⟨hHead rfl, hUnit⟩

/-- Every unit is a word by which a shorthand is known. -/
theorem unit_mem_signals {unit : Char} (hUnit : isUnit unit = true) : [unit] ∈ signals := by
  simp only [isUnit, Bool.or_eq_true, beq_iff_eq] at hUnit
  rcases hUnit with (rfl | rfl) | rfl <;> decide

/-- A number and its unit make one word. -/
theorem isName_sized {digits : Text} {unit : Char} (hSome : digits ≠ [])
    (hDecimal : ∀ c ∈ digits, isDecimal c = true) (hUnit : isUnit unit = true) :
    IsName (digits ++ [unit]) := by
  refine ⟨by simp, fun c hMem => ?_⟩
  rcases List.mem_append.mp hMem with hDigit | hLast
  · exact (isName_of_isDecimal hSome hDecimal).2 c hDigit
  · exact (isName_unit hUnit).2 c hLast

/-- A number is no word that starts with another character. -/
theorem ne_of_isDecimal {digits t : Text} (hSome : digits ≠ [])
    (hDecimal : ∀ c ∈ digits, isDecimal c = true) (hOther : t.head?.any isDecimal = false) :
    digits ≠ t := by
  rintro rfl
  obtain ⟨c, rest, rfl⟩ := List.exists_cons_of_ne_nil hSome
  rw [List.head?_cons, Option.any_some, hDecimal c (List.mem_cons_self ..)] at hOther
  cases hOther

/-- No piece starts with a size unit. -/
theorem Sound.head?_words_ne (hSound : p.Sound options) {unit : Char} (hUnit : isUnit unit = true) :
    p.words.head? ≠ some [unit] := by
  have hSignal := unit_mem_signals hUnit
  intro hHead
  have hFirst : ∀ {t u}, p.words = t :: u → t = [unit] := by
    intro t u hWords
    rw [hWords] at hHead
    exact Option.some.inj hHead
  -- a unit is one letter, unlike the keywords, and no digit
  cases p with
  | bare t => exact hSound.2 (hFirst rfl ▸ hSignal)
  | negated key => exact absurd (congrArg List.length (hFirst rfl)) (by simp)
  | present key => exact absurd (congrArg List.length (hFirst rfl)) (by simp)
  | size digits unit' =>
    refine ne_of_isDecimal hSound.1 hSound.2.1 ?_ (hFirst rfl)
    simp only [isUnit, Bool.or_eq_true, beq_iff_eq] at hUnit
    rcases hUnit with (rfl | rfl) | rfl <;> decide

/-! ## Steps -/

/-- The pieces for a piece once negations are resolved. -/
def negationStep : Piece → List Piece
  | negated key => [bare key, bare "False"]
  | p => [p]

/-- The pieces for a piece once presence is resolved. -/
def presenceStep : Piece → List Piece
  | present key => [bare key, bare "True"]
  | p => [p]

/-- Whether the first of some pieces is a truth value. -/
def startsTruth (later : List Piece) : Bool :=
  later.head? == some (bare "True") || later.head? == some (bare "False")

/-- The pieces for a piece once an option is resolved. -/
def optionStep (key : Text) (p : Piece) (later : List Piece) : List Piece :=
  if p = bare key ∧ startsTruth later = false then [bare key, bare "True"] else [p]

/-- The pieces for a piece once sizes are resolved. With separators that are no blanks, a size is
closed by the end of the text only. -/
def sizeStep (s : Text) : Piece → List Piece → List Piece
  | size digits unit, later =>
    if blankFollows (behindFirst s (later.map text)) then [bare (digits ++ [unit])]
    else [size digits unit]
  | p, _ => [p]

/-- Resolving negations leaves something of every piece. -/
theorem negationStep_ne_nil (p : Piece) : negationStep p ≠ [] := by
  cases p <;> simp [negationStep]

theorem presenceStep_ne_nil (p : Piece) : presenceStep p ≠ [] := by
  cases p <;> simp [presenceStep]

theorem optionStep_ne_nil (key : Text) (p : Piece) (later : List Piece) :
    optionStep key p later ≠ [] := by
  rw [optionStep]
  split <;> simp

theorem sizeStep_ne_nil (s : Text) (p : Piece) (later : List Piece) :
    sizeStep s p later ≠ [] := by
  cases p with
  | size digits unit =>
    rw [sizeStep]
    split <;> simp
  | _ => simp [sizeStep]

/-! ### What each step does to a text -/

section

variable {behind : Text} {key : Text}

/-- A piece that does not start with a keyword is left alone by it. -/
theorem Sound.turns_keyword_self (hSound : p.Sound options) {keyword value : Text}
    (hKeyword : keyword = "NOT" ∨ keyword = "WITH") (hFirst : p.words.head? ≠ some keyword)
    (hBehind : startsWord behind = false) :
    Turns (keywordPattern (keyword ++ " ") s value) false p.text p.text behind := by
  have hName : IsName keyword := by
    rcases hKeyword with rfl | rfl <;> decide
  refine (seeks_keywordPattern hName).turns ?_ hBehind
  rw [hSound.runs_text]
  exact hSound.not_mem_words hKeyword hFirst

/-- A negation becomes its key and a truth value, and every other piece is left alone. -/
theorem Sound.turns_negation (hSound : p.Sound options) (hBehind : startsWord behind = false) :
    Turns (keywordPattern ("NOT" ++ " ") s "False") false p.text
      (join s ((negationStep p).map text)) behind := by
  cases p with
  | negated key => exact turns_keywordPattern (by decide) (And.left hSound) hBehind
  | bare t =>
    refine hSound.turns_keyword_self (Or.inl rfl) ?_ hBehind
    exact fun hSame => hSound.2 (Option.some.inj hSame ▸ by decide)
  | present key => exact hSound.turns_keyword_self (Or.inl rfl) (by simp [words]) hBehind
  | size digits unit =>
    refine hSound.turns_keyword_self (Or.inl rfl) ?_ hBehind
    exact fun hSame => ne_of_isDecimal hSound.1 hSound.2.1 (by decide) (Option.some.inj hSame)

/-- A presence becomes its key and a truth value, and every other piece is left alone. -/
theorem Sound.turns_presence (hSound : p.Sound options) (hBehind : startsWord behind = false) :
    Turns (keywordPattern ("WITH" ++ " ") s "True") false p.text
      (join s ((presenceStep p).map text)) behind := by
  cases p with
  | present key => exact turns_keywordPattern (by decide) (And.left hSound) hBehind
  | bare t =>
    refine hSound.turns_keyword_self (Or.inr rfl) ?_ hBehind
    exact fun hSame => hSound.2 (Option.some.inj hSame ▸ by decide)
  | negated key => exact hSound.turns_keyword_self (Or.inr rfl) (by simp [words]) hBehind
  | size digits unit =>
    refine hSound.turns_keyword_self (Or.inr rfl) ?_ hBehind
    exact fun hSame => ne_of_isDecimal hSound.1 hSound.2.1 (by decide) (Option.some.inj hSame)

/-- A truth value is found by its word. -/
theorem Sound.head?_words_eq_iff (hSound : p.Sound options) {value : Text}
    (hValue : value = "True" ∨ value = "False") : p.words.head? = some value ↔ p = bare value := by
  cases p with
  | bare t => simp [words]
  | negated key => rcases hValue with rfl | rfl <;> simp [words]
  | present key => rcases hValue with rfl | rfl <;> simp [words]
  | size digits unit =>
    have hOther : digits ≠ value := by
      refine ne_of_isDecimal hSound.1 hSound.2.1 ?_
      rcases hValue with rfl | rfl <;> decide
    simp [words, hOther]

/-- A truth value follows a piece in the text exactly if it is the next piece. -/
theorem valueFollows_behindFirst (hSeparates : Separates s)
    (hLater : ∀ p ∈ later, p.Sound options) :
    valueFollows s (behindFirst s (later.map text)) = startsTruth later := by
  cases later with
  | nil =>
    obtain ⟨c, s', rfl⟩ := List.exists_cons_of_ne_nil hSeparates.some
    rfl
  | cons q more =>
    have hSound := hLater q (List.mem_cons_self ..)
    have hWord := hSound.word_append (hSeparates.startsWord_behindFirst (more.map text))
    have hTrue := hSound.head?_words_eq_iff (Or.inl rfl)
    have hFalse := hSound.head?_words_eq_iff (Or.inr rfl)
    rw [hWord, Option.some.injEq] at hTrue hFalse
    -- the separator stands there, and behind it the word at the start of the next piece
    have hPrefix : s.isPrefixOf (s ++ join s (q.text :: more.map text)) = true :=
      List.isPrefixOf_iff_prefix.mpr (List.prefix_append _ _)
    rw [List.map_cons, behindFirst, valueFollows, hPrefix, List.drop_left, join_cons_eq,
      startsTruth, Bool.eq_iff_iff]
    simp only [Bool.true_and, Bool.or_eq_true, beq_iff_eq, List.head?_cons, Option.some.injEq,
      hTrue, hFalse]

/-- Whether the keyword of a piece, if it had one, is resolved. -/
def Settled : Piece → Prop
  | bare _ => True
  | size _ _ => True
  | negated _ => False
  | present _ => False

/-- A piece that is the option gets its truth value, unless one stands behind it, and every other
piece is left alone. -/
theorem Sound.turns_option (hSeparates : Separates s) (hName : IsName key) (hMem : key ∈ options)
    (hSound : p.Sound options) (hSettled : p.Settled) (hLater : ∀ p ∈ later, p.Sound options) :
    Turns (optionPattern key s) false p.text (join s ((optionStep key p later).map text))
      (behindFirst s (later.map text)) := by
  have hBehind := hSeparates.startsWord_behindFirst (later.map text)
  have hValue := valueFollows_behindFirst hSeparates hLater
  unfold optionStep
  by_cases hHere : p = bare key
  · subst hHere
    by_cases hTruth : startsTruth later = true
    · rw [if_neg (by simp [hTruth])]
      exact turns_optionPattern_self hName (hValue.trans hTruth)
    · rw [Bool.not_eq_true] at hTruth
      rw [if_pos ⟨rfl, hTruth⟩]
      exact turns_optionPattern hName hBehind (hValue.trans hTruth)
  · rw [if_neg (by simp [hHere])]
    refine (seeks_optionPattern hName).turns ?_ hBehind
    rw [hSound.runs_text]
    -- a piece whose words are others does not hold the option
    cases p with
    | bare t => simpa [words, eq_comm] using hHere
    | size digits unit =>
      simpa [words] using ⟨ne_of_mem_of_not_mem hMem hSound.2.2.2.1,
        ne_of_mem_of_not_mem hMem hSound.2.2.2.2⟩
    | negated key => exact hSettled.elim
    | present key => exact hSettled.elim

/-- No unit stands behind a separator. -/
theorem unitFollows_behindFirst (hSeparates : Separates s)
    (hLater : ∀ p ∈ later, p.Sound options) :
    unitFollows (behindFirst s (later.map text)) = false := by
  cases later with
  | nil => rfl
  | cons q more =>
    have hSound := hLater q (List.mem_cons_self ..)
    rw [List.map_cons, behindFirst, join_cons_eq]
    -- a unit would be the word behind a space, and no other separator starts with one
    rcases hSeparates.blank with rfl | hBlank
    · refine unitFollows_of_word fun unit hUnit hSame => hSound.head?_words_ne hUnit ?_
      have hWord : word (q.text ++ behindFirst " " (more.map text)) = [unit] := hSame
      rw [hSound.word_append (separates_space.startsWord_behindFirst (more.map text)), hWord]
    · obtain ⟨c, s', rfl⟩ := List.exists_cons_of_ne_nil hSeparates.some
      have hSpace : c ≠ ' ' := by
        rintro rfl
        exact absurd (hBlank ' ' (List.mem_cons_self ..)) (by decide)
      unfold unitFollows
      split
      · next hText => exact absurd (List.cons.inj hText).1 hSpace
      · rfl

/-- A size that is closed is joined, and every other piece is left alone. -/
theorem Sound.turns_size (hSeparates : Separates s) (hSound : p.Sound options)
    (hSettled : p.Settled) (hLater : ∀ p ∈ later, p.Sound options) :
    Turns sizedPattern false p.text (join s ((sizeStep s p later).map text))
      (behindFirst s (later.map text)) := by
  have hBehind := hSeparates.startsWord_behindFirst (later.map text)
  have hUnit := unitFollows_behindFirst hSeparates hLater
  cases p with
  | bare t => exact turns_sizedPattern_self (hSound.1.not_mem (by decide)) hBehind hUnit
  | size digits unit =>
    obtain ⟨hSome, hDecimal, hSize, -⟩ := hSound
    rw [sizeStep]
    split
    · next hBlank => exact turns_sizedPattern hSome hDecimal hSize hBlank
    · next hBlank =>
      -- the unit does not stand alone, so the number and the unit are passed one by one
      have hDigits := isName_of_isDecimal hSome hDecimal
      refine inWords_sizedPattern.turns_append_cons (by decide) ?_ ?_
      · refine turns_sizedPattern_self (hDigits.not_mem (by decide)) rfl ?_
        show (isUnit unit && blankFollows (behindFirst s (later.map text))) = false
        simpa using fun _ => hBlank
      · exact turns_sizedPattern_self ((isName_unit hSize).not_mem (by decide)) hBehind hUnit
  | negated key => exact hSettled.elim
  | present key => exact hSettled.elim

end

/-! ### What is left for the next step -/

/-- Resolving negations leaves sound pieces. -/
theorem Sound.of_mem_negationStep (hSound : p.Sound options) {q : Piece}
    (hMem : q ∈ negationStep p) : q.Sound options := by
  cases p with
  | negated key =>
    rcases List.mem_pair.mp hMem with rfl | rfl
    · exact hSound
    · exact (by decide : IsBare "False")
  | _ => exact List.mem_singleton.mp hMem ▸ hSound

/-- Whether a piece is no negation. -/
def NotNegated : Piece → Prop
  | negated _ => False
  | _ => True

/-- Once negations are resolved, none is left. -/
theorem notNegated_of_mem {q : Piece} (hMem : q ∈ negationStep p) : q.NotNegated := by
  cases p with
  | negated key => rcases List.mem_pair.mp hMem with rfl | rfl <;> trivial
  | _ => exact List.mem_singleton.mp hMem ▸ trivial

/-- Resolving presences leaves sound pieces. -/
theorem Sound.of_mem_presenceStep (hSound : p.Sound options) {q : Piece}
    (hMem : q ∈ presenceStep p) : q.Sound options := by
  cases p with
  | present key =>
    rcases List.mem_pair.mp hMem with rfl | rfl
    · exact hSound
    · exact (by decide : IsBare "True")
  | _ => exact List.mem_singleton.mp hMem ▸ hSound

/-- Once presences are resolved too, words and sizes are left. -/
theorem NotNegated.settled_of_mem (hPiece : p.NotNegated) {q : Piece}
    (hMem : q ∈ presenceStep p) : q.Settled := by
  cases p with
  | present key => rcases List.mem_pair.mp hMem with rfl | rfl <;> trivial
  | negated key => exact hPiece.elim
  | _ => exact List.mem_singleton.mp hMem ▸ trivial

/-- Resolving an option only adds truth values. -/
theorem of_mem_optionStep {key : Text} {q : Piece} (hMem : q ∈ optionStep key p later) :
    q = p ∨ q = bare "True" := by
  unfold optionStep at hMem
  split at hMem
  · next hHere =>
    rcases List.mem_pair.mp hMem with rfl | rfl
    · exact Or.inl hHere.1.symm
    · exact Or.inr rfl
  · exact Or.inl (List.mem_singleton.mp hMem)

/-- The characters of a piece are word characters and spaces. -/
theorem Sound.isWord_or_space (hSound : p.Sound options) :
    ∀ c ∈ p.text, isWord c = true ∨ c = ' ' := by
  have hNames := hSound.isName
  intro c hMem
  obtain ⟨t, hWords, hText⟩ | ⟨t, u, hWords, hText⟩ := p.text_eq
  · rw [hWords, List.forall_mem_singleton] at hNames
    exact Or.inl (hNames.2 c (hText ▸ hMem))
  · rw [hWords, List.forall_mem_cons, List.forall_mem_singleton] at hNames
    rw [hText, List.mem_append, List.mem_cons] at hMem
    rcases hMem with hFirst | rfl | hSecond
    · exact Or.inl (hNames.1.2 c hFirst)
    · exact Or.inr rfl
    · exact Or.inl (hNames.2.2 c hSecond)

/-- No character of the separator is left in a piece, so that it can be split off. -/
theorem Sound.apart_of_mem_sizeStep (hSeparates : Separates s) (hSound : p.Sound options)
    (hSettled : p.Settled) {q : Piece} (hMem : q ∈ sizeStep s p later) :
    ∀ c ∈ s, c ∉ q.text := by
  intro c hBetween hInside
  have hMark := hSeparates.apart c hBetween
  -- what is left in a piece are word characters, or a space where no space separates
  have hChar : isWord c = true ∨ c = ' ' ∧ s ≠ " " := by
    cases p with
    | bare t =>
      rw [List.mem_singleton.mp hMem] at hInside
      exact Or.inl (hSound.1.2 c hInside)
    | negated key => exact hSettled.elim
    | present key => exact hSettled.elim
    | size digits unit =>
      rw [sizeStep] at hMem
      split at hMem
      · rw [List.mem_singleton.mp hMem] at hInside
        have hJoined : IsName (digits ++ [unit]) := isName_sized hSound.1 hSound.2.1 hSound.2.2.1
        exact Or.inl (hJoined.2 c hInside)
      · next hOpen =>
        -- a space would have closed the size
        refine (hSound.isWord_or_space c (List.mem_singleton.mp hMem ▸ hInside)).imp_right
          fun hSpace => ⟨hSpace, ?_⟩
        rintro rfl
        cases later <;> exact hOpen rfl
  rcases hChar with hWord | ⟨rfl, hOther⟩
  · rw [hMark] at hWord
    cases hWord
  · rcases hSeparates.blank with hSpace | hBlank
    · exact hOther hSpace
    · exact absurd (hBlank ' ' hBetween) (by decide)

end Piece

/-! ## The steps over all pieces -/

/-- The pieces once options are resolved, one after the other. -/
def switched (keys : List Text) (pieces : List Piece) : List Piece :=
  keys.foldl (fun pieces key => unfolded (Piece.optionStep key) pieces) pieces

/-- The pieces once all shorthands but sizes are resolved. -/
def expanded (options : List Text) (pieces : List Piece) : List Piece :=
  switched options ((pieces.flatMap Piece.negationStep).flatMap Piece.presenceStep)

/-- The pieces once all shorthands are resolved. -/
def settled (s : Text) (options : List Text) (pieces : List Piece) : List Piece :=
  unfolded (Piece.sizeStep s) (expanded options pieces)

section

variable {options : List Text} {pieces : List Piece} {s : Text}

/-- The step for negations is done piece by piece. -/
theorem resolve_negations_pieces (hSeparates : Separates s)
    (hSound : ∀ p ∈ pieces, p.Sound options) :
    (Shorthand.negations s).resolve (join s (pieces.map Piece.text)) =
      join s ((pieces.flatMap Piece.negationStep).map Piece.text) := by
  have hIn : (keywordPattern ("NOT" ++ " ") s "False").InWords :=
    (seeks_keywordPattern (by decide)).inWords
  rw [← unfolded_eq_flatMap (f := fun p _ => Piece.negationStep p) fun _ _ => rfl]
  refine hIn.replace_unfolded hSeparates (fun p _ => Piece.negationStep_ne_nil p) ?_
  intro p later hSuffix
  exact (hSound p (hSuffix.subset (List.mem_cons_self ..))).turns_negation
    (hSeparates.startsWord_behindFirst _)

/-- The step for presences is done piece by piece. -/
theorem resolve_presence_pieces (hSeparates : Separates s)
    (hSound : ∀ p ∈ pieces, p.Sound options) :
    (Shorthand.presence s).resolve (join s (pieces.map Piece.text)) =
      join s ((pieces.flatMap Piece.presenceStep).map Piece.text) := by
  have hIn : (keywordPattern ("WITH" ++ " ") s "True").InWords :=
    (seeks_keywordPattern (by decide)).inWords
  rw [← unfolded_eq_flatMap (f := fun p _ => Piece.presenceStep p) fun _ _ => rfl]
  refine hIn.replace_unfolded hSeparates (fun p _ => Piece.presenceStep_ne_nil p) ?_
  intro p later hSuffix
  exact (hSound p (hSuffix.subset (List.mem_cons_self ..))).turns_presence
    (hSeparates.startsWord_behindFirst _)

/-- Pieces have no arguments in parentheses. -/
theorem resolve_functions_pieces (hSeparates : Separates s)
    (hSound : ∀ p ∈ pieces, p.Sound options) :
    (Shorthand.functions s).resolve (join s (pieces.map Piece.text)) =
      join s (pieces.map Piece.text) := by
  have hNone : '(' ∉ join s (pieces.map Piece.text) := by
    intro hMem
    rcases mem_join hMem with hBetween | ⟨t, hText, hInside⟩
    · exact hSeparates.noParenthesis hBetween
    · obtain ⟨p, hPiece, rfl⟩ := List.mem_map.mp hText
      exact (hSound p hPiece).noParenthesis hInside
  exact (turns_functionPattern_self hNone rfl (by simp)).replace_self
    (inWords_functionPattern s _ _ rfl)

/-- Options are resolved one after the other, and each of them leaves sound pieces for the next one.
-/
theorem resolve_options_pieces (hSeparates : Separates s) (hNames : ∀ key ∈ options, IsName key)
    {keys : List Text} (hKeys : ∀ key ∈ keys, key ∈ options)
    (hPieces : ∀ p ∈ pieces, p.Sound options ∧ p.Settled) :
    (Shorthand.options keys s).resolve (join s (pieces.map Piece.text)) =
        join s ((switched keys pieces).map Piece.text) ∧
      ∀ p ∈ switched keys pieces, p.Sound options ∧ p.Settled := by
  unfold Shorthand.resolve switched
  dsimp only
  induction keys generalizing pieces with
  | nil => exact ⟨rfl, hPieces⟩
  | cons key keys ih =>
    have hKey := hKeys key (List.mem_cons_self ..)
    have hName := hNames key hKey
    have hHere : (optionPattern key s).replace (join s (pieces.map Piece.text)) =
        join s ((unfolded (Piece.optionStep key) pieces).map Piece.text) := by
      refine (inWords_optionPattern hName _).replace_unfolded hSeparates
        (Piece.optionStep_ne_nil key) fun p later hSuffix => ?_
      obtain ⟨hSound, hSettled⟩ := hPieces p (hSuffix.subset (List.mem_cons_self ..))
      exact hSound.turns_option hSeparates hName hKey hSettled fun q hMem =>
        (hPieces q (hSuffix.subset (List.mem_cons_of_mem p hMem))).1
    -- the only new piece is the value
    have hLeft : ∀ p ∈ unfolded (Piece.optionStep key) pieces, p.Sound options ∧ p.Settled := by
      intro p hMem
      obtain ⟨q, later, hSuffix, hOut⟩ := mem_unfolded hMem
      rcases Piece.of_mem_optionStep hOut with rfl | rfl
      · exact hPieces p (hSuffix.subset (List.mem_cons_self ..))
      · exact ⟨(by decide : IsBare "True"), trivial⟩
    rw [List.foldl_cons, List.foldl_cons, hHere]
    exact ih (fun other hMem => hKeys other (List.mem_cons_of_mem key hMem)) hLeft

/-- The step for sizes is done piece by piece, with the separator behind each of them. -/
theorem resolve_units_pieces (hSeparates : Separates s)
    (hPieces : ∀ p ∈ pieces, p.Sound options ∧ p.Settled) :
    Shorthand.units.resolve (join s (pieces.map Piece.text)) =
      join s ((unfolded (Piece.sizeStep s) pieces).map Piece.text) := by
  refine inWords_sizedPattern.replace_unfolded hSeparates (Piece.sizeStep_ne_nil s)
    fun p later hSuffix => ?_
  obtain ⟨hSound, hSettled⟩ := hPieces p (hSuffix.subset (List.mem_cons_self ..))
  exact hSound.turns_size hSeparates hSettled fun q hMem =>
    (hPieces q (hSuffix.subset (List.mem_cons_of_mem p hMem))).1

/-- What the steps before the options leave. -/
theorem sound_of_mem_steps (hSound : ∀ p ∈ pieces, p.Sound options) :
    ∀ p ∈ (pieces.flatMap Piece.negationStep).flatMap Piece.presenceStep,
      p.Sound options ∧ p.Settled := by
  intro p hMem
  obtain ⟨q, hMid, hLast⟩ := List.mem_flatMap.mp hMem
  obtain ⟨r, hFirst, hNegation⟩ := List.mem_flatMap.mp hMid
  exact ⟨((hSound r hFirst).of_mem_negationStep hNegation).of_mem_presenceStep hLast,
    (Piece.notNegated_of_mem hNegation).settled_of_mem hLast⟩

/-- Keys that do not occur are not merged. -/
theorem resolve_mergedKeys_of_absent {keys : List Text} {t : Text}
    (hNone : ∀ key ∈ keys, ¬ key <:+: t) (merger : Text) :
    (Shorthand.mergedKeys keys s merger).resolve t = t := by
  unfold Shorthand.resolve
  dsimp only
  induction keys with
  | nil => rfl
  | cons key keys ih =>
    rw [List.foldl_cons, replaceAll_of_absent (hNone key (List.mem_cons_self ..))]
    exact ih fun other hMem => hNone other (List.mem_cons_of_mem key hMem)

/-- **Pieces are decoded to the pairs of what their steps leave**, whatever separates them, if no
key of several words comes about. -/
theorem decode_pieces {rules : Rules} (hSeparates : Separates rules.separator)
    (hNames : ∀ key ∈ rules.optionKeys, IsName key)
    (hSound : ∀ p ∈ pieces, p.Sound rules.optionKeys)
    (hMerge : ∀ key ∈ rules.mergeKeys,
      ¬ key <:+: join rules.separator (pieces.map Piece.text)) :
    decode rules (join rules.separator (pieces.map Piece.text)) =
      .ok (ofList (pairUp ((settled rules.separator rules.optionKeys pieces).map Piece.text))) := by
  have hSteps := sound_of_mem_steps hSound
  obtain ⟨hOptions, hExpanded⟩ :=
    resolve_options_pieces hSeparates hNames (fun _ hMem => hMem) hSteps
  have hNegation : ∀ p ∈ pieces.flatMap Piece.negationStep, p.Sound rules.optionKeys := by
    intro p hMem
    obtain ⟨q, hFirst, hOut⟩ := List.mem_flatMap.mp hMem
    exact (hSound q hFirst).of_mem_negationStep hOut
  -- the six steps in their order
  have hResolved : resolveShorthands rules (join rules.separator (pieces.map Piece.text)) =
      join rules.separator ((settled rules.separator rules.optionKeys pieces).map Piece.text) := by
    unfold resolveShorthands Rules.shorthands
    simp only [List.foldl_cons, List.foldl_nil]
    rw [resolve_mergedKeys_of_absent hMerge, resolve_negations_pieces hSeparates hSound,
      resolve_presence_pieces hSeparates hNegation,
      resolve_functions_pieces hSeparates fun p hMem => (hSteps p hMem).1, hOptions,
      resolve_units_pieces hSeparates hExpanded]
    rfl
  unfold decode
  rw [hResolved]
  -- no piece holds a character of the separator, so they are split off again
  refine readPairs_join hSeparates.some fun t hMem c hBetween => ?_
  obtain ⟨q, hPiece, rfl⟩ := List.mem_map.mp hMem
  obtain ⟨r, behind, hSuffix, hOut⟩ := mem_unfolded hPiece
  obtain ⟨hSoundHere, hReady⟩ := hExpanded r (hSuffix.subset (List.mem_cons_self ..))
  exact hSoundHere.apart_of_mem_sizeStep hSeparates hReady hOut c hBetween

end

end Parameters

end SchemaScript
