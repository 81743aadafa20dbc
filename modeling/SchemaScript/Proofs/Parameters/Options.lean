import Mathlib.Data.List.DropRight
import SchemaScript.Proofs.Parameters.Patterns

/-!
# Options are switched on once

Options are resolved one after the other, each in the text that the one before left. `SwitchesOn`
says what comes of that word by word: behind each word that is one of the options a value is written
unless one stands there, and everything else is kept. Nothing more is needed to know the text
(`SwitchesOn.unique`), and doing so for some options and then for others is to do so for all of them
(`SwitchesOn.comp`), since a value is no option and what is written behind a word stays next to it.

So the order of the options and their repetitions do not matter, a value is written at every place
that awaits one and nowhere else (`SwitchesOn.eq_insertWhere`), and a text that was resolved is not
changed again. Then no place of it awaits a value any more. The result is `options_expanded`.
-/

namespace SchemaScript

/-! ## Texts word by word -/

namespace Text

/-- A text is made of words and of characters that stand in none. -/
theorem word_induction {motive : Text → Prop} (nil : motive [])
    (mark : ∀ x t, isWord x = false → motive t → motive (x :: t))
    (word : ∀ w t, IsName w → startsWord t = false → motive t → motive (w ++ t)) (t : Text) :
    motive t := by
  induction hLength : t.length using Nat.strong_induction_on generalizing t with
  | h length ih =>
    cases t with
    | nil => exact nil
    | cons x rest =>
      cases hWord : isWord x with
      | false => exact mark x rest hWord (ih rest.length (by simp [← hLength]) rest rfl)
      | true =>
        have hName : IsName (Text.word (x :: rest)) := by
          refine isName_word fun hNone => ?_
          rw [word_eq_nil_iff, startsWord, hWord] at hNone
          cases hNone
        -- behind the first word a shorter text is left
        have hSplit := word_append_dropWhile (x :: rest)
        have hShorter := congrArg List.length hSplit
        have hSome := List.length_pos_iff.mpr hName.1
        rw [List.length_append] at hShorter
        rw [← hSplit]
        exact word _ _ hName (startsWord_dropWhile_isWord _) (ih _ (by omega) _ rfl)

/-- The word at the end of a text. -/
def lastWord (t : Text) : Text := t.rtakeWhile isWord

/-- The last word is the one that was put behind a text that ends in none. -/
theorem lastWord_append {before w : Text} (hName : IsName w)
    (hBefore : endsInWord false before = false) : lastWord (before ++ w) = w := by
  have hEnd : ∀ c ∈ before.reverse.head?, isWord c = false := by
    intro c hHead
    rw [List.head?_reverse] at hHead
    rwa [endsInWord, Option.mem_def.mp hHead] at hBefore
  have hWord : ∀ c ∈ w.reverse, isWord c = true :=
    fun c hMem => hName.2 c (List.mem_reverse.mp hMem)
  rw [lastWord, List.rtakeWhile, List.reverse_append, takeWhile_append_eq hWord hEnd,
    List.reverse_reverse]

/-- A text that ends in no word character has no last word. -/
theorem lastWord_concat {x : Char} (hMark : isWord x = false) (before : Text) :
    lastWord (before ++ [x]) = [] := by
  rw [lastWord, List.rtakeWhile_concat_neg _ _ _ (by simp [hMark])]

/-! ## Insertion -/

/-- A text in front of which more is written at some of its places, told by what stands before and
behind them. -/
def insertWhere (chosen : Text → Text → Bool) (more : Text) : (before : Text) → Text → Text
  | before, [] => if chosen before [] then more else []
  | before, c :: t =>
    (if chosen before (c :: t) then more else []) ++ c :: insertWhere chosen more (before ++ [c]) t

variable {chosen : Text → Text → Bool} {more before w t : Text}

/-- Nothing is inserted into a text that has no chosen place. -/
theorem insertWhere_append (hNone : ∀ s s', w = s ++ s' → s' ≠ [] →
      chosen (before ++ s) (s' ++ t) = false) :
    insertWhere chosen more before (w ++ t) = w ++ insertWhere chosen more (before ++ w) t := by
  induction w generalizing before with
  | nil => simp
  | cons c w ih =>
    have hHere := hNone [] (c :: w) rfl (List.cons_ne_nil c w)
    have hLater : insertWhere chosen more (before ++ [c]) (w ++ t) =
        w ++ insertWhere chosen more (before ++ [c] ++ w) t := ih fun s s' hSplit hMore => by
      simpa using hNone (c :: s) s' (by rw [hSplit]; rfl) hMore
    rw [List.append_nil] at hHere
    rw [List.cons_append] at hHere ⊢
    rw [insertWhere, hHere, hLater]
    simp

/-- Inserting never shortens a text. -/
theorem length_le_insertWhere (chosen : Text → Text → Bool) (more before t : Text) :
    t.length ≤ (insertWhere chosen more before t).length := by
  induction t generalizing before with
  | nil => exact Nat.zero_le _
  | cons c t ih =>
    have hLater := ih (before ++ [c])
    simp only [insertWhere, List.length_append, List.length_cons]
    omega

/-- If nothing comes of an insertion, no place was chosen. -/
theorem not_chosen_of_insertWhere_eq_self (hMore : more ≠ [])
    (hSelf : insertWhere chosen more before t = t) {s s' : Text} (hSplit : t = s ++ s') :
    chosen (before ++ s) s' = false := by
  induction t generalizing before s with
  | nil =>
    obtain ⟨rfl, rfl⟩ := List.append_eq_nil_iff.mp hSplit.symm
    rw [List.append_nil]
    by_contra hChosen
    rw [insertWhere, if_pos (by simpa using hChosen)] at hSelf
    exact hMore hSelf
  | cons c t ih =>
    have hHere : chosen before (c :: t) = false := by
      by_contra hChosen
      -- what is inserted makes the text longer, and nothing later makes up for it
      rw [insertWhere, if_pos (by simpa using hChosen)] at hSelf
      have hLonger := congrArg List.length hSelf
      have hLater := length_le_insertWhere chosen more (before ++ [c]) t
      have hSome := List.length_pos_iff.mpr hMore
      simp only [List.length_append, List.length_cons] at hLonger
      omega
    cases s with
    | nil =>
      obtain rfl : c :: t = s' := hSplit
      rwa [List.append_nil]
    | cons x s =>
      obtain ⟨rfl, hRest⟩ := List.cons.inj hSplit
      rw [insertWhere, hHere] at hSelf
      simpa using ih (List.cons.inj hSelf).2 hRest

end Text

namespace Shorthand

open Text Pattern

variable {keys keys' : List Text} {key separator s t : Text} {f g : Text → Text}

/-- A value follows if the separator and one of the truth values do. -/
theorem valueFollows_iff : valueFollows separator t = true ↔
    ∃ behind, t = separator ++ behind ∧ (word behind = "True" ∨ word behind = "False") := by
  unfold valueFollows
  rw [Bool.and_eq_true, Bool.or_eq_true, beq_iff_eq, beq_iff_eq, List.isPrefixOf_iff_prefix]
  constructor
  · rintro ⟨⟨behind, rfl⟩, hValue⟩
    rw [List.drop_left] at hValue
    exact ⟨behind, rfl, hValue⟩
  · rintro ⟨behind, rfl, hValue⟩
    rw [List.drop_left]
    exact ⟨List.prefix_append _ _, hValue⟩

/-! ## Switching on word by word -/

/-- Whether a word is one of the options and has no value behind it. -/
def lacksValue (keys : List Text) (separator w behind : Text) : Bool :=
  keys.contains w && !valueFollows separator behind

/-- What is written behind a word: a value, if the word lacks one. -/
def newValue (keys : List Text) (separator w behind : Text) : Text :=
  if lacksValue keys separator w behind then separator ++ "True" else []

/-- Whether a function goes over a text word by word and writes behind each word what is new
there. -/
structure SwitchesOn (keys : List Text) (separator : Text) (f : Text → Text) : Prop where
  nil : f [] = []
  mark : ∀ x t, isWord x = false → f (x :: t) = x :: f t
  word : ∀ w t, IsName w → startsWord t = false →
    f (w ++ t) = w ++ (newValue keys separator w t ++ f t)

/-- A word lacks a value if it is an option and no truth value follows it. -/
theorem lacksValue_iff {w : Text} : lacksValue keys separator w t = true ↔
    w ∈ keys ∧ valueFollows separator t = false := by
  simp [lacksValue]

/-- An option without a value gets one. -/
theorem newValue_of_mem {w : Text} (hKey : w ∈ keys) (hNone : valueFollows separator t = false) :
    newValue keys separator w t = separator ++ "True" := if_pos (lacksValue_iff.mpr ⟨hKey, hNone⟩)

/-- No other word gets a value. -/
theorem newValue_eq_nil {w : Text} (hOld : w ∈ keys → valueFollows separator t = true) :
    newValue keys separator w t = [] := by
  refine if_neg fun hLacks => ?_
  obtain ⟨hKey, hNone⟩ := lacksValue_iff.mp hLacks
  rw [hOld hKey] at hNone
  cases hNone

/-- A new value starts with its separator, so no word goes on before it. -/
theorem startsWord_newValue_append (keys : List Text) (hParts : Parts separator) (w behind : Text)
    (hStart : startsWord t = false) :
    startsWord (newValue keys separator w behind ++ t) = false := by
  unfold newValue
  split
  · rw [List.append_assoc]
    exact hParts.startsWord_append _
  · exact hStart

namespace SwitchesOn

/-- There is one way only to switch the same options on. -/
theorem unique (hFirst : SwitchesOn keys separator f) (hSecond : SwitchesOn keys' separator g)
    (hKeys : ∀ w, w ∈ keys ↔ w ∈ keys') : f = g := by
  funext t
  induction t using word_induction with
  | nil => rw [hFirst.nil, hSecond.nil]
  | mark x t hMark ih => rw [hFirst.mark x t hMark, hSecond.mark x t hMark, ih]
  | word w t hName hEnd ih =>
    have hNew : newValue keys separator w t = newValue keys' separator w t := by
      simp [newValue, lacksValue, hKeys]
    rw [hFirst.word w t hName hEnd, hSecond.word w t hName hEnd, hNew, ih]

/-! ### What stays as it is -/

/-- A text starts with a word after switching exactly if it did before. -/
theorem startsWord_apply (hSwitches : SwitchesOn keys separator f) (t : Text) :
    startsWord (f t) = startsWord t := by
  induction t using word_induction with
  | nil => rw [hSwitches.nil]
  | mark x t hMark => rw [hSwitches.mark x t hMark]; rfl
  | word w t hName hEnd =>
    rw [hSwitches.word w t hName hEnd, startsWord_append_of_isName hName,
      startsWord_append_of_isName hName]

/-- The word at the start of a text stays, since a value is written with its separator. -/
theorem word_apply (hSwitches : SwitchesOn keys separator f) (hParts : Parts separator)
    (t : Text) : Text.word (f t) = Text.word t := by
  induction t using word_induction with
  | nil => rw [hSwitches.nil]
  | mark x t hMark =>
    have hNone : ∀ t, Text.word (x :: t) = [] := fun t => word_eq_nil_iff.mpr hMark
    rw [hSwitches.mark x t hMark, hNone, hNone]
  | word w t hName hEnd =>
    have hStart := startsWord_newValue_append keys hParts w t
      ((hSwitches.startsWord_apply t).trans hEnd)
    rw [hSwitches.word w t hName hEnd, hName.word_append hStart, hName.word_append hEnd]

/-- What stands in no word before a text stays in front of it. -/
theorem append_of_marks (hSwitches : SwitchesOn keys separator f)
    (hMarks : ∀ c ∈ s, isWord c = false) (t : Text) : f (s ++ t) = s ++ f t := by
  induction s with
  | nil => rfl
  | cons x s ih =>
    obtain ⟨hMark, hMarks⟩ := List.forall_mem_cons.mp hMarks
    rw [List.cons_append, hSwitches.mark _ _ hMark, ih hMarks]
    rfl

/-- What stands in no word at the start of the result stood there before. -/
theorem exists_of_apply_eq_append (hSwitches : SwitchesOn keys separator f)
    (hMarks : ∀ c ∈ s, isWord c = false) {left : Text} (hLeft : f t = s ++ left) :
    ∃ behind, t = s ++ behind ∧ f behind = left := by
  induction s generalizing t with
  | nil => exact ⟨t, rfl, hLeft⟩
  | cons x s ih =>
    obtain ⟨hMark, hLater⟩ := List.forall_mem_cons.mp hMarks
    -- the text starts with the same character, since no word starts there
    have hStart : startsWord t = false := by
      rw [← hSwitches.startsWord_apply, hLeft]
      exact hMark
    cases t with
    | nil =>
      rw [hSwitches.nil] at hLeft
      cases hLeft
    | cons y t =>
      rw [hSwitches.mark y t hStart] at hLeft
      obtain ⟨rfl, hRest⟩ := List.cons.inj hLeft
      obtain ⟨behind, rfl, hBehind⟩ := ih hLater hRest
      exact ⟨behind, rfl, hBehind⟩

/-- Whether a value follows does not change. -/
theorem valueFollows_apply (hSwitches : SwitchesOn keys separator f) (hParts : Parts separator)
    (t : Text) : valueFollows separator (f t) = valueFollows separator t := by
  rw [Bool.eq_iff_iff, valueFollows_iff, valueFollows_iff]
  constructor
  · rintro ⟨left, hLeft, hValue⟩
    obtain ⟨behind, rfl, rfl⟩ := hSwitches.exists_of_apply_eq_append hParts.apart hLeft
    rw [hSwitches.word_apply hParts] at hValue
    exact ⟨behind, rfl, hValue⟩
  · rintro ⟨behind, rfl, hValue⟩
    rw [← hSwitches.word_apply hParts] at hValue
    exact ⟨f behind, hSwitches.append_of_marks hParts.apart behind, hValue⟩

/-! ### One pass after the other -/

/-- Nothing is switched on without options. -/
theorem none (separator : Text) : SwitchesOn [] separator id where
  nil := rfl
  mark _ _ _ := rfl
  word w t _ _ := by simp [newValue, lacksValue]

/-- A new value is passed over by a later step, since it is no option. -/
theorem append_value (hSwitches : SwitchesOn keys separator f) (hParts : Parts separator)
    (hTrue : ("True" : Text) ∉ keys) (hEnd : startsWord t = false) :
    f (separator ++ ("True" ++ t)) = separator ++ ("True" ++ f t) := by
  have hValue : newValue keys separator "True" t = [] :=
    newValue_eq_nil fun hKey => absurd hKey hTrue
  rw [hSwitches.append_of_marks hParts.apart, hSwitches.word "True" t (by decide) hEnd, hValue]
  rfl

/-- Switching some options on and then others is switching all of them on. -/
theorem comp (hFirst : SwitchesOn keys separator f) (hSecond : SwitchesOn keys' separator g)
    (hParts : Parts separator) (hTrue : ("True" : Text) ∉ keys') :
    SwitchesOn (keys ++ keys') separator (g ∘ f) where
  nil := by rw [Function.comp_apply, hFirst.nil, hSecond.nil]
  mark x t hMark := by
    rw [Function.comp_apply, hFirst.mark x t hMark, hSecond.mark x (f t) hMark]
    rfl
  word w t hName hEnd := by
    have hEnd' : startsWord (f t) = false := (hFirst.startsWord_apply t).trans hEnd
    have hStart := startsWord_newValue_append keys hParts w t hEnd'
    rw [Function.comp_apply, Function.comp_apply, hFirst.word w t hName hEnd,
      hSecond.word w _ hName hStart]
    by_cases hLacks : lacksValue keys separator w t = true
    · -- the first step wrote a value, which the second one sees
      obtain ⟨hKey, hNone⟩ := lacksValue_iff.mp hLacks
      have hFollows : valueFollows separator (separator ++ ("True" ++ f t)) = true :=
        valueFollows_iff.mpr
          ⟨_, rfl, Or.inl (IsName.word_append (t := "True") (by decide) hEnd')⟩
      rw [newValue_of_mem hKey hNone, newValue_of_mem (List.mem_append_left _ hKey) hNone,
        List.append_assoc, newValue_eq_nil fun _ => hFollows,
        hSecond.append_value hParts hTrue hEnd', List.append_assoc, List.nil_append]
    · -- the first step wrote nothing, and the second one is to decide
      have hNone : newValue keys separator w t = [] := if_neg hLacks
      rw [lacksValue_iff] at hLacks
      have hSame : newValue keys' separator w (f t) = newValue (keys ++ keys') separator w t := by
        refine if_congr ?_ rfl rfl
        rw [lacksValue_iff, lacksValue_iff, hFirst.valueFollows_apply hParts, List.mem_append,
          or_and_right, or_iff_right hLacks]
      rw [hNone, List.nil_append, hSame]

/-- Options that are switched on are not switched on again. -/
theorem apply_apply (hSwitches : SwitchesOn keys separator f) (hParts : Parts separator)
    (hTrue : ("True" : Text) ∉ keys) (t : Text) : f (f t) = f t :=
  -- twice the same options are these options
  congrFun ((hSwitches.comp hSwitches hParts hTrue).unique hSwitches (by simp)) t

end SwitchesOn

/-! ## The places that await a value -/

/-- Whether a value is to be written at a place: an option ends before it, as a word of its own, and
none of the truth values follows. -/
def awaitsValue (keys : List Text) (separator before behind : Text) : Bool :=
  lacksValue keys separator (lastWord before) behind && !startsWord behind

/-- Behind a whole word a value is awaited if the word lacks one. -/
theorem awaitsValue_append {before w : Text} (hName : IsName w)
    (hBefore : endsInWord false before = false) (hEnd : startsWord t = false) :
    awaitsValue keys separator (before ++ w) t = lacksValue keys separator w t := by
  simp [awaitsValue, lastWord_append hName hBefore, hEnd]

/-- A place without a word before it awaits none. -/
theorem awaitsValue_eq_false (hNames : ∀ key ∈ keys, IsName key) {before : Text}
    (hNone : lastWord before = []) : awaitsValue keys separator before t = false := by
  have hNoKey : [] ∉ keys := fun hMem => (hNames [] hMem).1 rfl
  simp [awaitsValue, lacksValue, hNone, hNoKey]

/-- What is switched on is the text with a value at each place that awaits one. -/
theorem SwitchesOn.eq_insertWhere (hSwitches : SwitchesOn keys separator f)
    (hNames : ∀ key ∈ keys, IsName key) (t : Text) :
    f t = insertWhere (awaitsValue keys separator) (separator ++ "True") [] t := by
  -- the induction carries what stands before, which no word may join
  suffices hAll : ∀ before, (endsInWord false before = false ∨ startsWord t = false) →
      insertWhere (awaitsValue keys separator) (separator ++ "True") before t =
        (if awaitsValue keys separator before t then separator ++ "True" else []) ++ f t by
    rw [hAll [] (Or.inl rfl), awaitsValue_eq_false hNames rfl]
    rfl
  induction t using word_induction with
  | nil =>
    intro before _
    rw [hSwitches.nil, insertWhere, List.append_nil]
  | mark x t hMark ih =>
    intro before _
    have hEnds : endsInWord false (before ++ [x]) = false := by
      rw [endsInWord_append]
      exact hMark
    rw [insertWhere, ih _ (Or.inl hEnds),
      awaitsValue_eq_false hNames (lastWord_concat hMark before), hSwitches.mark x t hMark]
    rfl
  | word w t hName hEnd ih =>
    intro before hApart
    have hBefore : endsInWord false before = false := by
      refine hApart.resolve_right ?_
      rw [startsWord_append_of_isName hName]
      simp
    -- no place before the end of the word is the end of a word
    have hInside : ∀ before s s', w = s ++ s' → s' ≠ [] →
        awaitsValue keys separator (before ++ s) (s' ++ t) = false := by
      intro before s s' hSplit hMore
      have hLater : IsName s' := ⟨hMore, fun c hMem => hName.2 c (by simp [hSplit, hMem])⟩
      simp [awaitsValue, startsWord_append_of_isName hLater]
    have hHere := hInside before [] w rfl hName.1
    have hNew : (if awaitsValue keys separator (before ++ w) t then separator ++ "True" else []) =
        newValue keys separator w t := by
      rw [awaitsValue_append hName hBefore hEnd, newValue]
    rw [List.append_nil] at hHere
    rw [insertWhere_append (hInside before), ih _ (Or.inr hEnd), hNew, hHere,
      hSwitches.word w t hName hEnd]
    rfl

/-! ## Resolving options -/

/-- Where no word starts, a pattern that acts in words goes on as at the start of a text. -/
theorem replaceFrom_eq_replace {p : Pattern} (hIn : p.InWords) (hStart : startsWord t = false)
    (afterWord : Bool) : p.replaceFrom afterWord 0 t = p.replace t := by
  cases t with
  | nil => simp [replace, replaceFrom, hIn _ [] rfl]
  | cons x t => simp [replace, replaceFrom, hIn _ _ hStart]

/-- The pattern of an option switches that option on. -/
theorem switchesOn_optionPattern (hKey : IsName key) :
    SwitchesOn [key] separator (optionPattern key separator).replace where
  nil := by
    have hIn := inWords_optionPattern hKey separator
    simp [replace, replaceFrom, hIn _ [] rfl]
  mark x t hMark := by
    have hIn := inWords_optionPattern hKey separator
    have hTurns : Turns (optionPattern key separator) false [x] [x] t := .of_none (hIn _ _ hMark)
    unfold Turns at hTurns
    have hEnds : endsInWord false [x] = false := hMark
    rwa [hEnds] at hTurns
  word w t hName hEnd := by
    have hIn := inWords_optionPattern hKey separator
    have hTurns : Turns (optionPattern key separator) false w
        (w ++ newValue [key] separator w t) t := by
      -- within a word the pattern finds the whole word or nothing
      by_cases hHere : w = key
      · subst hHere
        cases hValue : valueFollows separator t with
        | false =>
          rw [newValue_of_mem (List.mem_singleton_self w) hValue, ← List.append_assoc]
          exact turns_optionPattern hName hEnd hValue
        | true =>
          rw [newValue_eq_nil fun _ => hValue, List.append_nil]
          exact turns_optionPattern_self hName hValue
      · have hMissing : key ∉ runs w := by simpa [runs_of_word hName.2] using Ne.symm hHere
        rw [newValue_eq_nil fun hMem => absurd (List.mem_singleton.mp hMem) hHere, List.append_nil]
        exact (seeks_optionPattern hKey).turns hMissing hEnd
    unfold Turns at hTurns
    rwa [replaceFrom_eq_replace hIn hEnd, List.append_assoc] at hTurns

/-- Resolving options switches all of them on. -/
theorem switchesOn_options (hParts : Parts separator) (hNames : ∀ key ∈ keys, IsName key)
    (hTrue : ("True" : Text) ∉ keys) :
    SwitchesOn keys separator (options keys separator).resolve := by
  induction keys with
  | nil => exact .none separator
  | cons key keys ih =>
    obtain ⟨hKey, hNames⟩ := List.forall_mem_cons.mp hNames
    have hLater : ("True" : Text) ∉ keys := fun hMem => hTrue (List.mem_cons_of_mem _ hMem)
    exact (switchesOn_optionPattern hKey).comp (ih hNames hLater) hParts hLater

/-- **Options are expanded completely and once.** Behind every option that stands in the result as a
word of its own come the separator and a truth value. The result is the text with the separator and
`True` written at each place that awaits a value, and nothing else. Resolved again, it does not
change. -/
theorem options_expanded (hParts : Parts separator) (hNames : ∀ key ∈ keys, IsName key)
    (hTrue : ("True" : Text) ∉ keys) (t : Text) :
    (∀ before key behind, (options keys separator).resolve t = before ++ (key ++ behind) →
      key ∈ keys → endsInWord false before = false → startsWord behind = false →
        ∃ value left : Text, (value = "True" ∨ value = "False") ∧
          behind = separator ++ (value ++ left) ∧ startsWord left = false) ∧
    (options keys separator).resolve t =
      insertWhere (awaitsValue keys separator) (separator ++ "True") [] t ∧
    (options keys separator).resolve ((options keys separator).resolve t) =
      (options keys separator).resolve t := by
  have hSwitches := switchesOn_options hParts hNames hTrue
  have hOnce := hSwitches.apply_apply hParts hTrue t
  refine ⟨fun before key behind hText hKey hBefore hEnd => ?_, hSwitches.eq_insertWhere hNames t,
    hOnce⟩
  -- the result is not changed again, so that this place of it does not await a value
  rw [hSwitches.eq_insertWhere hNames ((options keys separator).resolve t)] at hOnce
  have hSettled := not_chosen_of_insertWhere_eq_self (by simp [hParts.some]) hOnce
    (hText.trans (List.append_assoc before key behind).symm)
  have hFollows : valueFollows separator behind = true := by
    by_contra hNone
    have hLacks : lacksValue keys separator key behind = true :=
      lacksValue_iff.mpr ⟨hKey, by simpa using hNone⟩
    rw [List.nil_append, awaitsValue_append (hNames key hKey) hBefore hEnd, hLacks] at hSettled
    cases hSettled
  obtain ⟨left, rfl, hValue⟩ := valueFollows_iff.mp hFollows
  exact ⟨word left, left.dropWhile isWord, hValue, by rw [word_append_dropWhile],
    startsWord_dropWhile_isWord left⟩

/-- Two options, one of them given twice, of which the first has a value already. The value of the
other one was written. -/
theorem options_expanded_repeated :
    (Parts "::" ∧ (∀ key ∈ (["LOGGED", "CLUSTER", "LOGGED"] : List Text), IsName key) ∧
      ("True" : Text) ∉ (["LOGGED", "CLUSTER", "LOGGED"] : List Text)) ∧
    (options ["LOGGED", "CLUSTER", "LOGGED"] "::").resolve "LOGGED::False CLUSTER LOGGED" =
      ("LOGGED::False CLUSTER::True LOGGED::True" : Text) ∧
    ∃ value left : Text, (value = "True" ∨ value = "False") ∧
      ("::True LOGGED::True" : Text) = "::" ++ (value ++ left) ∧ startsWord left = false := by
  have hParts : Parts "::" := by decide
  have hNames : ∀ key ∈ (["LOGGED", "CLUSTER", "LOGGED"] : List Text), IsName key := by
    decide +kernel
  have hTrue : ("True" : Text) ∉ (["LOGGED", "CLUSTER", "LOGGED"] : List Text) := by decide +kernel
  have hText : (options ["LOGGED", "CLUSTER", "LOGGED"] "::").resolve
      "LOGGED::False CLUSTER LOGGED" = ("LOGGED::False CLUSTER::True LOGGED::True" : Text) := by
    decide +kernel
  refine ⟨⟨hParts, hNames, hTrue⟩, hText, ?_⟩
  have hComplete := (options_expanded hParts hNames hTrue "LOGGED::False CLUSTER LOGGED").1
  exact hComplete "LOGGED::False " "CLUSTER" "::True LOGGED::True" hText (by decide +kernel)
    (by decide +kernel) (by decide +kernel)

end Shorthand

end SchemaScript
