import SchemaScript.Proofs.Cursor.Reads
import SchemaScript.Text.Search

/-!
# What a replacement does

`Turns p afterWord t out behind` says that a replacement which comes to a text writes another one
for it and goes on with what stands behind. Texts that are written one after the other are turned
one after the other (`Turns.append`), a text in which the pattern finds nothing is left alone
(`Turns.self`), and one that it takes as a whole becomes its output (`Turns.of_hit`).

The patterns of the parameter notation act where a word starts, if anywhere (`InWords`), and so they
never touch the spaces between pieces (`InWords.replace_join`). Most of them look for a certain word
(`Seeks`), and a text without that word is left alone (`Seeks.turns`).
-/

namespace SchemaScript.Text

/-! ## Words in a text -/

/-- A number is a word. -/
theorem isName_of_isDecimal {digits : Text} (hSome : digits ≠ [])
    (hDecimal : ∀ c ∈ digits, isDecimal c = true) : IsName digits :=
  ⟨hSome, fun c hMem => isWord_of_isDecimal (hDecimal c hMem)⟩

/-- Whether a word character stands at the end of a text, or before it if it is empty. -/
def endsInWord (afterWord : Bool) (t : Text) : Bool := (t.getLast?.map isWord).getD afterWord

/-- A word character stands at the end of a word. -/
theorem endsInWord_of_isName {t : Text} (hName : IsName t) (afterWord : Bool) :
    endsInWord afterWord t = true := by
  have hLast := hName.2 _ (List.getLast_mem hName.1)
  rw [endsInWord, List.getLast?_eq_some_getLast hName.1]
  exact hLast

/-- What stands before a text counts only if the text is empty. -/
theorem endsInWord_append (afterWord : Bool) (s t : Text) :
    endsInWord afterWord (s ++ t) = endsInWord (endsInWord afterWord s) t := by
  unfold endsInWord
  rw [List.getLast?_append]
  cases t.getLast? <;> rfl

/-- The runs of word characters in a text, some of them empty. -/
def runs (t : Text) : List Text := t.splitOnP fun c => !isWord c

/-- A mark parts the runs before it and behind it. -/
theorem runs_append_cons {x : Char} (hMark : isWord x = false) (s t : Text) :
    runs (s ++ x :: t) = runs s ++ runs t :=
  List.splitOnP_append_cons s t (by simp [hMark])

/-- A word is one run. -/
theorem runs_of_word {t : Text} (hWord : ∀ c ∈ t, isWord c = true) : runs t = [t] :=
  List.splitOnP_eq_singleton fun c hMem => by simp [hWord c hMem]

/-- A word ends before a text that starts with none. -/
theorem word_append {t behind : Text} (hBehind : startsWord behind = false) :
    word (t ++ behind) = word t := by
  have hNone : behind.takeWhile isWord = [] := word_eq_nil_iff.mpr hBehind
  unfold word
  rw [List.takeWhile_append, hNone, List.append_nil]
  -- the word may fill the whole text, and then none goes on behind it
  split
  · next hAll => exact ((List.takeWhile_prefix isWord).eq_of_length hAll).symm
  · rfl

/-- Behind the word at its start a text goes on to what stands behind it. -/
theorem dropWhile_isWord_append {t behind : Text} (hBehind : startsWord behind = false) :
    (t ++ behind).dropWhile isWord = t.dropWhile isWord ++ behind := by
  have hNone : behind.dropWhile isWord = behind := by
    cases behind with
    | nil => rfl
    | cons x behind => exact List.dropWhile_cons_of_neg (by simpa [startsWord] using hBehind)
  rw [List.dropWhile_append, hNone]
  split
  · next hAll => rw [List.isEmpty_iff.mp hAll, List.nil_append]
  · rfl

/-- To drop the word at the start is to drop its characters. -/
theorem drop_length_word (t : Text) : t.drop (word t).length = t.dropWhile isWord := by
  have hSplit := congrArg (List.drop (word t).length) (word_append_dropWhile t)
  rw [← hSplit]
  exact List.drop_left

/-- A run of characters ends at the first one that does not belong to it. -/
theorem takeWhile_append_eq {p : Char → Bool} {t behind : Text} (hAll : ∀ c ∈ t, p c = true)
    (hEnd : ∀ c ∈ behind.head?, p c = false) : (t ++ behind).takeWhile p = t := by
  rw [List.takeWhile_append_of_pos hAll]
  cases behind with
  | nil => simp
  | cons x behind => simp [hEnd x rfl]

/-- The word at the start of a text is one of its runs. -/
theorem word_mem_runs (t : Text) : word t ∈ runs t := by
  have hSplit := word_append_dropWhile t
  have hEnd := startsWord_dropWhile_isWord t
  have hRuns : runs (word t) = [word t] := runs_of_word fun c hMem => isWord_of_mem_word hMem
  -- behind the word the text ends, or a mark stands
  cases hRest : t.dropWhile isWord with
  | nil =>
    rw [hRest, List.append_nil] at hSplit
    rw [hSplit] at hRuns ⊢
    simp [hRuns]
  | cons x rest =>
    rw [hRest] at hSplit hEnd
    have hAll : runs t = runs (word t) ++ runs rest := by rw [← runs_append_cons hEnd, hSplit]
    rw [hAll, hRuns]
    simp

/-! ## Words apart -/

/-- Whether a text parts the words around it: it has characters, and none of them stands in a
word. -/
structure Parts (s : Text) : Prop where
  some : s ≠ []
  apart : ∀ c ∈ s, isWord c = false

instance (s : Text) : Decidable (Parts s) :=
  decidable_of_iff (s ≠ [] ∧ (s.all fun c => !isWord c) = true) <| by
    simp only [List.all_eq_true, Bool.not_eq_true']
    exact ⟨fun h => ⟨h.1, h.2⟩, fun h => ⟨h.some, h.apart⟩⟩

/-- No word starts where a text parts words. -/
theorem Parts.startsWord_append {s : Text} (hParts : Parts s) (t : Text) :
    startsWord (s ++ t) = false := by
  obtain ⟨c, s', rfl⟩ := List.exists_cons_of_ne_nil hParts.some
  exact hParts.apart c (List.mem_cons_self ..)

/-- No word ends where a text parts words. -/
theorem Parts.endsInWord_eq_false {s : Text} (hParts : Parts s) (afterWord : Bool) :
    endsInWord afterWord s = false := by
  rw [endsInWord, List.getLast?_eq_some_getLast hParts.some]
  exact hParts.apart _ (List.getLast_mem _)

/-! ## What comes of a text -/

namespace Pattern

variable {p : Pattern} {afterWord : Bool} {t t' out out' behind : Text} {x : Char}

/-- Whether a replacement that comes to a text writes another one for it and goes on with what
stands behind. -/
def Turns (p : Pattern) (afterWord : Bool) (t out behind : Text) : Prop :=
  p.replaceFrom afterWord 0 (t ++ behind) =
    out ++ p.replaceFrom (endsInWord afterWord t) 0 behind

/-- The empty text is turned into itself. -/
theorem Turns.nil (p : Pattern) (afterWord : Bool) (behind : Text) :
    Turns p afterWord [] [] behind := rfl

/-- Two texts are turned one after the other, the second one behind what the first one ends with. -/
theorem Turns.append (hFirst : Turns p afterWord t out (t' ++ behind))
    (hSecond : Turns p (endsInWord afterWord t) t' out' behind) :
    Turns p afterWord (t ++ t') (out ++ out') behind := by
  unfold Turns at hFirst hSecond ⊢
  rw [List.append_assoc, hFirst, hSecond, endsInWord_append, List.append_assoc]

/-- A character at which the pattern finds nothing. -/
theorem Turns.of_none (hNone : p afterWord (x :: behind) = none) :
    Turns p afterWord [x] [x] behind := by
  unfold Turns
  rw [List.singleton_append, replaceFrom, hNone]
  rfl

/-- A text is left alone if the pattern finds nothing at any of its places. -/
theorem Turns.self (hNone : ∀ s s', t = s ++ s' → s' ≠ [] →
      p (endsInWord afterWord s) (s' ++ behind) = none) :
    Turns p afterWord t t behind := by
  induction t generalizing afterWord with
  | nil => exact .nil p afterWord behind
  | cons x t ih =>
    have hHere : p afterWord (x :: (t ++ behind)) = none :=
      hNone [] (x :: t) rfl (List.cons_ne_nil x t)
    refine (Turns.of_none hHere).append (ih fun s s' hSplit hMore => ?_)
    -- a place behind the first character is one of the whole text
    have hLater := hNone (x :: s) s' (by rw [hSplit]; rfl) hMore
    rwa [← List.singleton_append, endsInWord_append] at hLater

/-- The characters of a hit are passed without a search. -/
theorem replaceFrom_skip (p : Pattern) (afterWord : Bool) (t behind : Text) :
    p.replaceFrom afterWord t.length (t ++ behind) =
      p.replaceFrom (endsInWord afterWord t) 0 behind := by
  induction t generalizing afterWord with
  | nil => rfl
  | cons x t ih =>
    rw [List.length_cons, List.cons_append, replaceFrom, ih, ← List.singleton_append,
      endsInWord_append]
    rfl

/-- A text that the pattern takes as a whole becomes its output. -/
theorem Turns.of_hit (hSome : t ≠ []) (hHit : p afterWord (t ++ behind) = some ⟨t.length, out⟩) :
    Turns p afterWord t out behind := by
  obtain ⟨x, t, rfl⟩ := List.exists_cons_of_ne_nil hSome
  unfold Turns
  rw [List.cons_append] at hHit ⊢
  rw [replaceFrom, hHit]
  simp only [List.length_cons]
  rw [replaceFrom_skip, ← List.singleton_append, endsInWord_append]
  rfl

/-! ## Patterns that act on words -/

/-- Whether a pattern finds something only where a word character stands next. -/
def InWords (p : Pattern) : Prop := ∀ afterWord t, startsWord t = false → p afterWord t = none

/-- A character that stands in no word parts what is turned before it and behind it. -/
theorem InWords.turns_append_cons (hIn : p.InWords) (hMark : isWord x = false)
    (hFirst : Turns p afterWord t out (x :: (t' ++ behind)))
    (hSecond : Turns p false t' out' behind) :
    Turns p afterWord (t ++ x :: t') (out ++ x :: out') behind := by
  have hBetween : ∀ afterWord, Turns p afterWord [x] [x] (t' ++ behind) :=
    fun afterWord => .of_none (hIn afterWord _ hMark)
  have hEnds : ∀ afterWord, endsInWord afterWord [x] = false := fun _ => hMark
  have hLater : Turns p (endsInWord afterWord t) (x :: t') (x :: out') behind :=
    (hBetween _).append (by rwa [hEnds])
  exact hFirst.append hLater

/-- What stands behind the first piece of a text. -/
def following : List Text → Text
  | [] => []
  | t :: ts => ' ' :: join " " (t :: ts)

theorem join_cons (t : Text) (ts : List Text) : join " " (t :: ts) = t ++ following ts := by
  cases ts with
  | nil => simp [join, following]
  | cons u ts => simp [join, following]

/-- Texts with spaces between them are turned one by one, each with the later ones behind it. -/
theorem InWords.replace_join {α : Type} (hIn : p.InWords) {items : List α} {text text' : α → Text}
    (hItems : ∀ item later, item :: later <:+ items →
      Turns p false (text item) (text' item) (following (later.map text))) :
    p.replace (join " " (items.map text)) = join " " (items.map text') := by
  unfold replace
  induction items with
  | nil => simp [join, replaceFrom, hIn false [] rfl]
  | cons item later ih =>
    have hHere := hItems item later List.suffix_rfl
    have hLater := ih fun next more hSuffix =>
      hItems next more (hSuffix.trans (List.suffix_cons item later))
    unfold Turns at hHere
    rw [List.map_cons, List.map_cons, join_cons, join_cons, hHere]
    congr 1
    cases later with
    | nil => simp [following, replaceFrom, hIn _ [] rfl]
    | cons next more =>
      -- nothing is found at the space, and behind it the next text comes
      have hSpace : Turns p (endsInWord false (text item)) " " " "
          (join " " ((next :: more).map text)) := .of_none (hIn _ _ rfl)
      exact hSpace.trans (congrArg _ hLater)

/-! ## Patterns that look for a word -/

/-- Whether a pattern finds something only where a certain word starts. -/
structure Seeks (p : Pattern) (sought : Text) : Prop where
  name : IsName sought
  found : ∀ afterWord t, p afterWord t ≠ none → afterWord = false ∧ word t = sought

/-- A pattern that looks for a word finds nothing where no word starts. -/
theorem Seeks.inWords {sought : Text} (hSeeks : p.Seeks sought) : p.InWords := by
  intro afterWord t hStart
  by_contra hFound
  have hWord := (hSeeks.found afterWord t hFound).2
  -- a word that is sought has characters
  rw [word_eq_nil_iff.mpr hStart] at hWord
  exact hSeeks.name.1 hWord.symm

/-- A text without the word that a pattern looks for is left alone. -/
theorem Seeks.turns {sought : Text} (hSeeks : p.Seeks sought) (hMissing : sought ∉ runs t)
    (hBehind : startsWord behind = false) : Turns p false t t behind := by
  refine .self fun s s' hSplit hMore => ?_
  by_contra hFound
  obtain ⟨hStart, hWord⟩ := hSeeks.found _ _ hFound
  refine hMissing ?_
  -- the word ends in the text, since none goes on behind it
  rw [word_append hBehind] at hWord
  rw [hSplit, ← hWord]
  -- the hit is at the start of the text, or behind a mark
  rcases List.eq_nil_or_concat s with rfl | ⟨before, last, rfl⟩
  · exact word_mem_runs s'
  · have hMark : isWord last = false := by simpa [endsInWord] using hStart
    rw [List.concat_eq_append, List.append_assoc, List.singleton_append, runs_append_cons hMark]
    exact List.mem_append_right _ (word_mem_runs s')

end Pattern

end SchemaScript.Text
