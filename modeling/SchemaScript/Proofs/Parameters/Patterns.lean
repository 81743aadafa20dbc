import SchemaScript.Parameters.Decode
import SchemaScript.Proofs.Text.Replacement

/-!
# What the patterns of shorthands find

Each pattern of the parameter notation acts in words, and for each of them two things are settled:
what it takes and writes where its shorthand stands, and which texts it leaves alone. `NOT`, `WITH`
and options are words that are looked for; a function is known by its parenthesis, and a size by the
unit that follows a number.
-/

namespace SchemaScript.Shorthand

open Text Pattern

variable {keyword key value separator behind t : Text} {afterWord : Bool}

/-- A text that starts with a word starts with a word character. -/
theorem startsWord_append_of_isName (hName : IsName t) (behind : Text) :
    startsWord (t ++ behind) = true := by
  obtain ⟨c, rest, rfl⟩ := List.exists_cons_of_ne_nil hName.1
  exact hName.2 c (List.mem_cons_self ..)

/-- A word character is at a boundary if none stands before it. -/
theorem atBoundary_of_startsWord (hStarts : startsWord t = true) :
    atBoundary afterWord t = true ↔ afterWord = false := by
  simp [atBoundary, hStarts]

/-! ## Keywords -/

/-- A keyword is found as a whole word, since a space ends it. -/
theorem seeks_keywordPattern (hKeyword : IsName keyword) :
    (keywordPattern (keyword ++ " ") separator value).Seeks keyword where
  name := hKeyword
  found := by
    intro afterWord t hFound
    unfold keywordPattern at hFound
    split at hFound
    · next hHere =>
      obtain ⟨hBoundary, hPrefix⟩ := Bool.and_eq_true_iff.mp hHere
      obtain ⟨rest, rfl⟩ := List.isPrefixOf_iff_prefix.mp hPrefix
      rw [List.append_assoc] at hBoundary ⊢
      have hStarts := startsWord_append_of_isName hKeyword ((" " : Text) ++ rest)
      exact ⟨(atBoundary_of_startsWord hStarts).mp hBoundary, hKeyword.word_append rfl⟩
    · exact absurd rfl hFound

/-- A keyword with a key behind it becomes the key with a value. -/
theorem turns_keywordPattern (hKeyword : IsName keyword) (hKey : IsName key)
    (hBehind : startsWord behind = false) :
    Turns (keywordPattern (keyword ++ " ") separator value) false (keyword ++ ' ' :: key)
      (key ++ separator ++ value) behind := by
  refine .of_hit (by simp) ?_
  have hText : keyword ++ ' ' :: key ++ behind = (keyword ++ " ") ++ (key ++ behind) := by simp
  -- the keyword starts a word, and behind its space comes the key
  have hStarts : startsWord ((keyword ++ " ") ++ (key ++ behind)) = true := by
    rw [List.append_assoc]
    exact startsWord_append_of_isName hKeyword _
  have hPrefix : (keyword ++ " ").isPrefixOf ((keyword ++ " ") ++ (key ++ behind)) = true :=
    List.isPrefixOf_iff_prefix.mpr (List.prefix_append _ _)
  unfold keywordPattern
  rw [hText, hPrefix, (atBoundary_of_startsWord hStarts).mpr rfl]
  simp [hKey.word_append hBehind, hKey.1]
  omega

/-! ## Functions -/

/-- Without a parenthesis behind the word there is no function. -/
theorem functionPattern_eq_none (hNext : ∀ inner, t.dropWhile isWord ≠ '(' :: inner) :
    functionPattern separator afterWord t = none := by
  unfold functionPattern
  dsimp only
  rw [drop_length_word]
  split
  · next inner hInner => exact absurd hInner (hNext inner)
  · rfl

/-- The name of a function has characters. -/
theorem inWords_functionPattern (separator : Text) : (functionPattern separator).InWords := by
  intro afterWord t hStart
  have hNone : word t = [] := word_eq_nil_iff.mpr hStart
  unfold functionPattern
  simp only [hNone]
  split <;> simp

/-- A text without an opening parenthesis is left alone. -/
theorem turns_functionPattern_self (hInside : '(' ∉ t) (hStart : startsWord behind = false)
    (hBehind : behind.head? ≠ some '(') :
    Turns (functionPattern separator) afterWord t t behind := by
  refine .self fun s s' hSplit _ => functionPattern_eq_none fun inner hNext => ?_
  rw [dropWhile_isWord_append hStart] at hNext
  cases hRest : s'.dropWhile isWord with
  | nil =>
    -- only what stands behind could start with a parenthesis
    rw [hRest, List.nil_append] at hNext
    exact hBehind (by rw [hNext]; rfl)
  | cons x rest =>
    rw [hRest, List.cons_append, List.cons.injEq] at hNext
    have hMem : x ∈ s' := (List.dropWhile_sublist isWord).subset (by simp [hRest])
    exact hInside (by rw [hSplit, ← hNext.1]; exact List.mem_append_right s hMem)

/-- A function becomes its name and its arguments. -/
theorem turns_functionPattern {name arguments around : Text} (hName : IsName name)
    (hSome : arguments ≠ []) (hInside : ∀ c ∈ arguments, isBlank c = false ∧ c ≠ ')')
    (hAround : around = [] ∨ around = [' ']) (behind : Text) :
    Turns (functionPattern separator) false
      (name ++ '(' :: (around ++ (arguments ++ (around ++ [')'])))) (name ++ separator ++ arguments)
      behind := by
  refine .of_hit (by simp) ?_
  have hBlank : ∀ c ∈ around, isBlank c = true := by
    rcases hAround with rfl | rfl
    · simp
    · simp only [List.mem_singleton, forall_eq]
      decide
  have hFirst : ∀ c ∈ (arguments ++ (around ++ ')' :: behind)).head?, isBlank c = false := by
    rw [List.head?_append_of_ne_nil _ hSome]
    exact fun c hHead => (hInside c (List.mem_of_mem_head? hHead)).1
  have hLast : ∀ c ∈ (around ++ ')' :: behind).head?, (!isBlank c && c != ')') = false := by
    rcases hAround with rfl | rfl
    · simp
    · simp only [List.singleton_append, List.head?_cons, Option.mem_some_iff, forall_eq']
      decide
  -- the three runs behind the parenthesis: blanks, arguments, blanks
  have hLead := takeWhile_append_eq hBlank hFirst
  have hArguments := takeWhile_append_eq (p := fun c => !isBlank c && c != ')') (t := arguments)
    (fun c hMem => by simp [hInside c hMem]) hLast
  have hTrail : (around ++ ')' :: behind).takeWhile isBlank = around :=
    takeWhile_append_eq hBlank (by simp; decide)
  have hText : name ++ '(' :: (around ++ (arguments ++ (around ++ [')']))) ++ behind =
      name ++ '(' :: (around ++ (arguments ++ (around ++ ')' :: behind))) := by simp
  have hWord : word (name ++ '(' :: (around ++ (arguments ++ (around ++ ')' :: behind)))) = name :=
    hName.word_append (by rfl)
  unfold functionPattern
  dsimp only
  rw [hText, hWord, List.drop_left]
  simp only
  rw [hLead, List.drop_left, hArguments, ← List.length_append, ← List.append_assoc, List.drop_left,
    hTrail, List.drop_left, if_neg (by simp [hName.1, hSome]), if_pos (by rfl)]
  simp
  omega

/-! ## Options -/

/-- An option is found as a whole word. -/
theorem seeks_optionPattern (hKey : IsName key) : (optionPattern key separator).Seeks key where
  name := hKey
  found := by
    intro afterWord t hFound
    unfold optionPattern at hFound
    dsimp only at hFound
    split at hFound
    · next hHere =>
      simp only [Bool.and_eq_true] at hHere
      obtain ⟨⟨⟨hBoundary, hPrefix⟩, hEnd⟩, -⟩ := hHere
      obtain ⟨rest, rfl⟩ := List.isPrefixOf_iff_prefix.mp hPrefix
      have hStarts := startsWord_append_of_isName hKey rest
      refine ⟨(atBoundary_of_startsWord hStarts).mp hBoundary, hKey.word_append ?_⟩
      -- the option ends in a word, so the boundary behind it is the end of the word
      have hEnds := endsInWord_of_isName hKey afterWord
      unfold endsInWord at hEnds
      rw [hEnds, List.drop_left] at hEnd
      simpa [atBoundary] using hEnd
    · exact absurd rfl hFound

theorem inWords_optionPattern (hKey : IsName key) (separator : Text) :
    (optionPattern key separator).InWords := (seeks_optionPattern hKey).inWords

/-- An option that stands alone is switched on. -/
theorem turns_optionPattern (hKey : IsName key) (hBehind : startsWord behind = false)
    (hNoValue : valueFollows separator behind = false) :
    Turns (optionPattern key separator) false key (key ++ separator ++ "True") behind := by
  refine .of_hit hKey.1 ?_
  have hStarts := startsWord_append_of_isName hKey behind
  have hPrefix : key.isPrefixOf (key ++ behind) = true :=
    List.isPrefixOf_iff_prefix.mpr (List.prefix_append _ _)
  have hEnds := endsInWord_of_isName hKey false
  unfold endsInWord at hEnds
  unfold optionPattern
  dsimp only
  rw [(atBoundary_of_startsWord hStarts).mpr rfl, hPrefix, hEnds, List.drop_left, hNoValue]
  simp [atBoundary, hBehind]

/-- An option with a truth value behind it is left alone. -/
theorem turns_optionPattern_self (hKey : IsName key)
    (hValue : valueFollows separator behind = true) :
    Turns (optionPattern key separator) false key key behind := by
  refine .self fun s s' hSplit hMore => ?_
  cases s with
  | nil =>
    obtain rfl : key = s' := hSplit
    unfold optionPattern
    simp [hValue]
  | cons x s =>
    -- inside of the option no other one starts
    by_contra hFound
    have hInside := ((seeks_optionPattern hKey).found _ _ hFound).1
    have hName : IsName (x :: s) :=
      ⟨List.cons_ne_nil x s, fun c hMem => hKey.2 c (hSplit ▸ List.mem_append_left s' hMem)⟩
    rw [endsInWord_of_isName hName] at hInside
    cases hInside

/-! ## Sizes -/

/-- What is found as a size: a number, a space, and a unit that stands alone. -/
theorem exists_of_sizedPattern (hFound : sizedPattern afterWord t ≠ none) :
    afterWord = false ∧ ∃ digits unit rest, digits ≠ [] ∧ (∀ c ∈ digits, isDecimal c = true) ∧
      t = digits ++ ' ' :: unit :: rest ∧ isUnit unit = true ∧ blankFollows rest = true := by
  unfold sizedPattern at hFound
  dsimp only at hFound
  split at hFound
  · next unit rest hNext =>
    split at hFound
    · next hHere =>
      simp only [Bool.and_eq_true, Bool.not_eq_true', List.isEmpty_eq_false_iff] at hHere
      obtain ⟨⟨⟨hStart, hSome⟩, hUnit⟩, hBlank⟩ := hHere
      refine ⟨hStart, t.takeWhile isDecimal, unit, rest, hSome, ?_, ?_, hUnit, hBlank⟩
      · exact fun c hMem => List.all_eq_true.mp List.all_takeWhile c hMem
      · rw [← hNext]
        exact (List.prefix_iff_eq_append.mp (List.takeWhile_prefix isDecimal)).symm
    · exact absurd rfl hFound
  · exact absurd rfl hFound

/-- A size starts with a digit, which is a word character. -/
theorem inWords_sizedPattern : sizedPattern.InWords := by
  intro afterWord t hStart
  by_contra hFound
  obtain ⟨-, digits, unit, rest, hSome, hDecimal, rfl, -⟩ := exists_of_sizedPattern hFound
  rw [startsWord_append_of_isName (isName_of_isDecimal hSome hDecimal)] at hStart
  cases hStart

/-- Whether a unit stands behind a text, with a space before it and nothing on it. -/
def unitFollows : Text → Bool
  | ' ' :: unit :: rest => isUnit unit && blankFollows rest
  | _ => false

/-- A text without a space is left alone if no unit follows it. -/
theorem turns_sizedPattern_self (hSpace : ' ' ∉ t) (hBehind : startsWord behind = false)
    (hUnit : unitFollows behind = false) : Turns sizedPattern afterWord t t behind := by
  refine .self fun s s' hSplit hMore => ?_
  by_contra hFound
  obtain ⟨-, digits, unit, rest, -, hDecimal, hText, hHere, hBlank⟩ :=
    exists_of_sizedPattern hFound
  -- the number ends behind the text, or its space stands in it
  rcases List.append_eq_append_iff.mp hText with ⟨more, rfl, rfl⟩ | ⟨more, rfl, hRest⟩
  · cases more with
    | nil =>
      -- the text ends in the number, and the unit stands behind it
      rw [List.nil_append, unitFollows, hHere, hBlank] at hUnit
      cases hUnit
    | cons c more =>
      have hWord := isWord_of_isDecimal (hDecimal c (by simp))
      exact absurd (hBehind.symm.trans hWord) (by simp)
  · cases more with
    | nil =>
      rw [List.nil_append] at hRest
      rw [← hRest, unitFollows, hHere, hBlank] at hUnit
      cases hUnit
    | cons c more =>
      obtain ⟨rfl, -⟩ := List.cons.inj hRest
      exact hSpace (by simp [hSplit])

/-- A number and its unit are joined. -/
theorem turns_sizedPattern {digits : Text} {unit : Char} (hSome : digits ≠ [])
    (hDecimal : ∀ c ∈ digits, isDecimal c = true) (hUnit : isUnit unit = true)
    (hBlank : blankFollows behind = true) :
    Turns sizedPattern false (digits ++ ' ' :: [unit]) (digits ++ [unit]) behind := by
  refine .of_hit (by simp) ?_
  have hText : digits ++ ' ' :: [unit] ++ behind = digits ++ ' ' :: unit :: behind := by simp
  have hRun : (digits ++ ' ' :: unit :: behind).takeWhile isDecimal = digits :=
    takeWhile_append_eq hDecimal (by simp; decide)
  unfold sizedPattern
  dsimp only
  rw [hText, hRun, List.drop_left]
  simp [hSome, hUnit, hBlank]

end SchemaScript.Shorthand
