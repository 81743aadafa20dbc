import Mathlib.Data.List.Chain
import SchemaScript.Proofs.Text.Line

/-!
# Clean texts

A clean text has no carriage return, line feed or tab, no two spaces next to each other, and no
blank at its start or its end. Neither `normalize` nor `trim` changes it (`normalize_of_clean`,
`trim_of_clean`), and blanks around it are trimmed away (`trim_around`).

`Spaced` is the part of it that `normalize` needs. It is kept when texts are put together, as long
as no two spaces meet.
-/

namespace SchemaScript.Text

/-- Whether there is no carriage return, no tab and no pair of spaces in a text. -/
structure Spaced (t : Text) : Prop where
  noReturn : '\r' ∉ t
  noTab : '\t' ∉ t
  single : t.IsChain fun x y => x ≠ ' ' ∨ y ≠ ' '

/-- Whether a text is clean. -/
structure Clean (t : Text) : Prop extends Spaced t where
  noBreak : '\n' ∉ t
  first : ∀ x ∈ t.head?, isBlank x = false
  last : ∀ x ∈ t.getLast?, isBlank x = false

/-! ## Normalizing -/

/-- Texts may be put together unless a space ends the first and another one starts the second. -/
theorem Spaced.append {s t : Text} (hFirst : Spaced s) (hSecond : Spaced t)
    (hMeet : s.getLast? ≠ some ' ' ∨ t.head? ≠ some ' ') : Spaced (s ++ t) where
  noReturn := by simp [hFirst.noReturn, hSecond.noReturn]
  noTab := by simp [hFirst.noTab, hSecond.noTab]
  single := by
    -- each text is well spaced, so the one place to look at is where they meet
    refine List.isChain_append.mpr ⟨hFirst.single, hSecond.single, ?_⟩
    intro x hLast y hNext
    rcases hMeet with hMeet | hMeet
    · exact Or.inl fun hSpace => hMeet (hSpace ▸ hLast)
    · exact Or.inr fun hSpace => hMeet (hSpace ▸ hNext)

theorem spaced_iff {t : Text} :
    Spaced t ↔ ('\r' ∉ t ∧ '\t' ∉ t) ∧ t.IsChain fun x y => x ≠ ' ' ∨ y ≠ ' ' :=
  ⟨fun h => ⟨⟨h.noReturn, h.noTab⟩, h.single⟩, fun h => ⟨h.1.1, h.1.2, h.2⟩⟩

instance (t : Text) : Decidable (Spaced t) := decidable_of_iff' _ spaced_iff

/-- What stands behind has no wider gaps than the whole. -/
theorem Spaced.of_append_right {s t : Text} (hSpaced : Spaced (s ++ t)) : Spaced t where
  noReturn hMem := hSpaced.noReturn (List.mem_append_right s hMem)
  noTab hMem := hSpaced.noTab (List.mem_append_right s hMem)
  single := (List.isChain_append.mp hSpaced.single).2.1

theorem forall_mem_nonblank_iff (o : Option Char) :
    (∀ x ∈ o, isBlank x = false) ↔ o.any isBlank = false := by
  cases o <;> simp

theorem clean_iff {t : Text} :
    Clean t ↔ Spaced t ∧ '\n' ∉ t ∧ t.head?.any isBlank = false ∧
      t.getLast?.any isBlank = false := by
  rw [← forall_mem_nonblank_iff, ← forall_mem_nonblank_iff]
  exact ⟨fun h => ⟨h.toSpaced, h.noBreak, h.first, h.last⟩, fun h => ⟨h.1, h.2.1, h.2.2.1, h.2.2.2⟩⟩

instance (t : Text) : Decidable (Clean t) := decidable_of_iff' _ clean_iff

/-! ### Writing from left to right

A text that can stand behind a space is one that starts with no space of its own. -/

section

variable {s t : Text}

/-- What can stand behind a space starts with none. -/
theorem head?_ne_of_spaced_cons (hBehind : Spaced (' ' :: t)) : t.head? ≠ some ' ' := by
  intro hHead
  obtain ⟨behind, rfl⟩ := List.head?_eq_some_iff.mp hHead
  have hMeet := (List.isChain_cons_cons.mp hBehind.single).1
  simp at hMeet

/-- A text may be followed by one that can stand behind a space. -/
theorem Spaced.append_of_spaced_cons (hFirst : Spaced s) (hBehind : Spaced (' ' :: t)) :
    Spaced (s ++ t) :=
  hFirst.append (Spaced.of_append_right (s := [' ']) hBehind)
    (Or.inr (head?_ne_of_spaced_cons hBehind))

theorem spaced_space : Spaced " " := by decide

/-- A clean text can stand behind a space if what follows it can, since it may be empty. -/
theorem Clean.spaced_cons_append (hClean : Clean t) (hBehind : Spaced (' ' :: s)) :
    Spaced (' ' :: (t ++ s)) := by
  refine spaced_space.append (hClean.append_of_spaced_cons hBehind) (Or.inr ?_)
  cases t with
  | nil => exact head?_ne_of_spaced_cons hBehind
  | cons c t =>
    intro hHead
    obtain rfl : c = ' ' := Option.some.inj hHead
    exact absurd (hClean.first ' ' rfl) (by decide)

/-- Behind the last character of a clean text a space can follow. -/
theorem Clean.spaced_cons_append_of_ne_nil (hClean : Clean t) (hSome : t ≠ []) (hRest : Spaced s) :
    Spaced (' ' :: (t ++ s)) := by
  have hLast : t.getLast? ≠ some ' ' := fun hLast =>
    absurd (hClean.last ' ' hLast) (by decide)
  refine spaced_space.append (hClean.append hRest (Or.inl hLast)) (Or.inr ?_)
  obtain ⟨c, t, rfl⟩ := List.exists_cons_of_ne_nil hSome
  intro hHead
  obtain rfl : c = ' ' := Option.some.inj hHead
  exact absurd (hClean.first ' ' rfl) (by decide)

end

theorem isGap_eq_false {c : Char} (hSpace : c ≠ ' ') (hTab : c ≠ '\t') : isGap c = false := by
  simp [isGap, hSpace, hTab]

/-- Where no gap is wider than one space there is nothing to collapse, unless a gap is open before
the text and goes on in it. -/
theorem collapseGaps_of_single {inGap : Bool} {t : Text} (hTab : '\t' ∉ t)
    (hSingle : t.IsChain fun x y => x ≠ ' ' ∨ y ≠ ' ')
    (hStart : inGap = true → t.head? ≠ some ' ') : collapseGaps inGap t = t := by
  induction t generalizing inGap with
  | nil => rfl
  | cons c t ih =>
    rw [List.mem_cons, not_or] at hTab
    by_cases hSpace : c = ' '
    · subst hSpace
      -- the space is the first of its run, and the run ends behind it
      have hFirst : inGap = false := by
        cases inGap with
        | false => rfl
        | true => exact absurd rfl (hStart rfl)
      have hNext : t.head? ≠ some ' ' := by
        intro hNext
        obtain ⟨rest, rfl⟩ := List.head?_eq_some_iff.mp hNext
        have := (List.isChain_cons_cons.mp hSingle).1
        simp at this
      rw [hFirst, collapseGaps, ih hTab.2 hSingle.tail fun _ => hNext]
      rfl
    · -- any other character is written, and no gap is open behind it
      -- any other character is written, and no gap is open behind it
      have hGap : isGap c = false := isGap_eq_false hSpace (Ne.symm hTab.1)
      have hRest : collapseGaps false t = t := ih hTab.2 hSingle.tail (by simp)
      rw [collapseGaps, hGap, hRest]
      simp

/-- A text in which no gap is wider than one space is normalized. -/
theorem normalize_of_spaced {t : Text} (hSpaced : Spaced t) : normalize t = t := by
  have hKept : t.filter (· != '\r') = t := by
    rw [List.filter_eq_self]
    intro c hMem
    have hNoReturn : c ≠ '\r' := fun hReturn => hSpaced.noReturn (hReturn ▸ hMem)
    simpa using hNoReturn
  rw [normalize, hKept]
  exact collapseGaps_of_single hSpaced.noTab hSpaced.single (by simp)

theorem normalize_of_clean {t : Text} (hClean : Clean t) : normalize t = t :=
  normalize_of_spaced hClean.toSpaced

theorem nonblank_of_all {t : Text} (hAll : (t.all fun c => !isBlank c) = true) :
    ∀ c ∈ t, isBlank c = false := by
  simpa using hAll

/-- A text without blanks is clean. -/
theorem clean_of_nonblank {t : Text} (hNone : ∀ c ∈ t, isBlank c = false) : Clean t where
  noReturn hMem := absurd (hNone '\r' hMem) (by decide)
  noTab hMem := absurd (hNone '\t' hMem) (by decide)
  single := by
    -- there is no space at all, and so no two of them
    refine List.Pairwise.isChain (List.pairwise_of_forall_mem_list fun x hMem y _ => Or.inl ?_)
    rintro rfl
    exact absurd (hNone ' ' hMem) (by decide)
  noBreak hMem := absurd (hNone '\n' hMem) (by decide)
  first := fun x hHead => hNone x (List.mem_of_mem_head? hHead)
  last := fun x hLast => hNone x (List.mem_of_mem_getLast? hLast)

/-- Clean texts may be put together, since they have no blank where they meet. -/
theorem Clean.append {s t : Text} (hFirst : Clean s) (hSecond : Clean t) : Clean (s ++ t) where
  toSpaced := by
    refine hFirst.toSpaced.append hSecond.toSpaced (Or.inl fun hSpace => ?_)
    exact absurd (hFirst.last ' ' hSpace) (by decide)
  noBreak := by simp [hFirst.noBreak, hSecond.noBreak]
  first := by
    intro x hHead
    -- the first character is that of the second text if the first one is empty
    cases s with
    | nil => exact hSecond.first x hHead
    | cons c s => exact hFirst.first x hHead
  last := by
    intro x hLast
    cases t with
    | nil => exact hFirst.last x (by rwa [List.append_nil] at hLast)
    | cons c t =>
      rw [List.getLast?_append_of_ne_nil _ (List.cons_ne_nil c t)] at hLast
      exact hSecond.last x hLast

/-- Between two clean texts that have characters one space may stand. -/
theorem Clean.append_space {s t : Text} (hFirst : Clean s) (hSecond : Clean t) (hSome : s ≠ [])
    (hSome' : t ≠ []) : Clean (s ++ ' ' :: t) where
  toSpaced := by
    have hNone : Spaced [] := by decide
    have hBehind := hSecond.spaced_cons_append_of_ne_nil hSome' hNone
    rw [List.append_nil] at hBehind
    refine hFirst.toSpaced.append hBehind (Or.inl fun hSpace => ?_)
    exact absurd (hFirst.last ' ' hSpace) (by decide)
  noBreak := by simp [hFirst.noBreak, hSecond.noBreak]
  first := by
    intro x hHead
    rw [List.head?_append_of_ne_nil _ hSome] at hHead
    exact hFirst.first x hHead
  last := by
    intro x hLast
    rw [List.getLast?_append_of_ne_nil _ (List.cons_ne_nil ' ' t),
      List.getLast?_cons_of_ne_nil hSome'] at hLast
    exact hSecond.last x hLast

/-- A character that is no blank makes a clean text. -/
theorem clean_singleton {c : Char} (hNone : isBlank c = false) : Clean [c] :=
  clean_of_nonblank (by simpa using hNone)

/-! ## Trimming -/

/-- Without a line feed all runs of blanks are written as they are. -/
theorem foldLines_of_no_break {run t : Text} (hRun : '\n' ∉ run) (hBreak : '\n' ∉ t) :
    foldLines run t = run.reverse ++ t := by
  -- along the text; the run that is open has no line feed either
  induction t generalizing run with
  | nil => simp [foldLines, closeRun, hRun]
  | cons c t ih =>
    rw [List.mem_cons, not_or] at hBreak
    rw [foldLines]
    split
    · rw [ih (by simp [hBreak.1, hRun]) hBreak.2]
      simp
    · rw [ih (by simp) hBreak.2, closeRun, if_neg hRun]
      simp

theorem dropWhile_of_head? {p : Char → Bool} {t : Text} (hFirst : ∀ x ∈ t.head?, p x = false) :
    t.dropWhile p = t := by
  cases t with
  | nil => rfl
  | cons c t => exact List.dropWhile_cons_of_neg (by simpa using hFirst c rfl)

/-- Nothing is stripped from a text with no blanks around it. -/
theorem strip_eq_self {t : Text} (hFirst : ∀ x ∈ t.head?, isBlank x = false)
    (hLast : ∀ x ∈ t.getLast?, isBlank x = false) : strip t = t := by
  have hEnd : t.reverse.dropWhile isBlank = t.reverse := by
    refine dropWhile_of_head? fun x hMem => hLast x ?_
    rwa [List.head?_reverse] at hMem
  rw [strip, stripStart, dropWhile_of_head? hFirst, stripEnd, hEnd, List.reverse_reverse]

/-- A text is trimmed if it has no blanks around it and no line feed in it. -/
theorem trim_eq_self {t : Text} (hFirst : ∀ x ∈ t.head?, isBlank x = false)
    (hLast : ∀ x ∈ t.getLast?, isBlank x = false) (hBreak : '\n' ∉ t) : trim t = t := by
  rw [trim, strip_eq_self hFirst hLast, foldLines_of_no_break (by simp) hBreak]
  rfl

/-- A clean text has no blanks around it. -/
theorem strip_of_clean {t : Text} (hClean : Clean t) : strip t = t :=
  strip_eq_self hClean.first hClean.last

/-- A clean text is trimmed. -/
theorem trim_of_clean {t : Text} (hClean : Clean t) : trim t = t :=
  trim_eq_self hClean.first hClean.last hClean.noBreak

/-- Characters that are all dropped may as well be missing. -/
theorem dropWhile_append_of_forall {p : Char → Bool} {s : Text} (hAll : ∀ x ∈ s, p x = true)
    (t : Text) : (s ++ t).dropWhile p = t.dropWhile p := by
  induction s with
  | nil => rfl
  | cons c s ih =>
    rw [List.cons_append, List.dropWhile_cons_of_pos (hAll c (List.mem_cons_self ..))]
    exact ih fun x hMem => hAll x (List.mem_cons_of_mem _ hMem)

/-- Blanks around a text are trimmed away. -/
theorem trim_around {before behind : Text} (hBefore : ∀ x ∈ before, isBlank x = true)
    (hBehind : ∀ x ∈ behind, isBlank x = true) (t : Text) :
    trim (before ++ t ++ behind) = trim t := by
  have hStrip : strip (before ++ t ++ behind) = strip t := by
    rw [strip, strip, stripStart, List.append_assoc, dropWhile_append_of_forall hBefore]
    by_cases hNone : t.dropWhile isBlank = []
    · -- nothing but blanks is left
      have hAll := List.dropWhile_eq_nil_iff.mp hNone
      rw [stripStart, hNone, dropWhile_append_of_forall hAll, List.dropWhile_eq_nil_iff.mpr hBehind]
    · -- the blanks behind are dropped first when the text is read from its end
      -- the blanks behind are dropped first when the text is read from its end
      rw [dropWhile_append_of_dropWhile hNone, stripStart, stripEnd, List.reverse_append,
        dropWhile_append_of_forall (fun x hMem => hBehind x (List.mem_reverse.mp hMem))]
      rfl
  rw [trim, hStrip, trim]

theorem isBlank_of_mem_space : ∀ x ∈ (" " : Text), isBlank x = true := by
  intro x hMem
  obtain rfl := List.mem_singleton.mp hMem
  decide

/-- A space before a text is trimmed away. -/
theorem trim_behind_space (t : Text) : trim (' ' :: t) = trim t := by
  have hNone : ∀ x ∈ ([] : Text), isBlank x = true := by simp
  have hTrim := trim_around isBlank_of_mem_space hNone t
  rwa [List.append_nil] at hTrim

/-- A space behind a text is trimmed away. -/
theorem trim_before_space (t : Text) : trim (t ++ " ") = trim t := by
  have hNone : ∀ x ∈ ([] : Text), isBlank x = true := by simp
  have hTrim := trim_around hNone isBlank_of_mem_space t
  rwa [List.nil_append] at hTrim

/-! ### What a trimmed text holds -/

/-- A closed run is one space or the run itself. -/
theorem mem_closeRun {x : Char} {run : Text} (hMem : x ∈ closeRun run) : x = ' ' ∨ x ∈ run := by
  unfold closeRun at hMem
  split at hMem
  · exact Or.inl (List.mem_singleton.mp hMem)
  · exact Or.inr (List.mem_reverse.mp hMem)

/-- Folding lines brings in no character but the space. -/
theorem mem_foldLines {x : Char} {run t : Text} (hMem : x ∈ foldLines run t) :
    x = ' ' ∨ x ∈ run ∨ x ∈ t := by
  induction t generalizing run with
  | nil => exact (mem_closeRun hMem).imp_right Or.inl
  | cons c t ih =>
    rw [foldLines] at hMem
    split at hMem
    · -- the blank has joined the run
      rcases ih hMem with hSpace | hRun | hRest
      · exact Or.inl hSpace
      · rcases List.mem_cons.mp hRun with rfl | hRun
        · exact Or.inr (Or.inr (List.mem_cons_self ..))
        · exact Or.inr (Or.inl hRun)
      · exact Or.inr (Or.inr (List.mem_cons_of_mem c hRest))
    · -- the run is closed before the character, and a new one starts behind it
      -- the run is closed before the character, and a new one starts behind it
      rcases List.mem_append.mp hMem with hClosed | hLater
      · exact (mem_closeRun hClosed).imp_right Or.inl
      · rcases List.mem_cons.mp hLater with rfl | hLater
        · exact Or.inr (Or.inr (List.mem_cons_self ..))
        · rcases ih hLater with hSpace | hNone | hRest
          · exact Or.inl hSpace
          · cases hNone
          · exact Or.inr (Or.inr (List.mem_cons_of_mem c hRest))

/-- Stripping brings in nothing. -/
theorem mem_strip {x : Char} {t : Text} (hMem : x ∈ strip t) : x ∈ t := by
  unfold strip stripEnd stripStart at hMem
  have hEnd := List.dropWhile_subset _ (List.mem_reverse.mp hMem)
  exact List.dropWhile_subset _ (List.mem_reverse.mp hEnd)

/-- Trimming brings in no character but the space. -/
theorem mem_trim {x : Char} {t : Text} (hMem : x ∈ trim t) : x = ' ' ∨ x ∈ t := by
  rcases mem_foldLines hMem with hSpace | hNone | hStrip
  · exact Or.inl hSpace
  · cases hNone
  · exact Or.inr (mem_strip hStrip)

/-! ### What a trimmed text keeps -/

/-- Folding lines loses blanks only. -/
theorem mem_foldLines_of_mem {x : Char} {run t : Text} (hBlank : isBlank x = false) (hMem : x ∈ t) :
    x ∈ foldLines run t := by
  induction t generalizing run with
  | nil => cases hMem
  | cons c t ih =>
    rw [foldLines]
    split
    · next hHere =>
      -- the blank is another character
      rcases List.mem_cons.mp hMem with rfl | hLater
      · rw [hBlank] at hHere
        cases hHere
      · exact ih hLater
    · refine List.mem_append_right _ ?_
      rcases List.mem_cons.mp hMem with rfl | hLater
      · exact List.mem_cons_self ..
      · exact List.mem_cons_of_mem c (ih hLater)

theorem mem_dropWhile_of_mem {x : Char} {t : Text} (hBlank : isBlank x = false) (hMem : x ∈ t) :
    x ∈ t.dropWhile isBlank := by
  rw [← List.takeWhile_append_dropWhile (p := isBlank) (l := t)] at hMem
  refine (List.mem_append.mp hMem).resolve_left fun hBefore => ?_
  have hAll := List.all_eq_true.mp List.all_takeWhile x hBefore
  rw [hBlank] at hAll
  cases hAll

/-- A character that is no blank stays where a text is trimmed. -/
theorem mem_trim_of_mem {x : Char} {t : Text} (hBlank : isBlank x = false) (hMem : x ∈ t) :
    x ∈ trim t := by
  refine mem_foldLines_of_mem hBlank ?_
  have hStart := mem_dropWhile_of_mem hBlank hMem
  unfold strip stripEnd stripStart
  rw [List.mem_reverse]
  exact mem_dropWhile_of_mem hBlank (List.mem_reverse.mpr hStart)

end SchemaScript.Text
