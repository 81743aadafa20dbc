import SchemaScript.Proofs.Text.Normal

/-!
# Line breaks in the place of spaces

`unbreak` writes a space for a line feed. Most of what is asked of a text has the same answer once
all its line feeds are spaces: which word, number or literal without a blank stands at its start,
and where a character that is no blank stands first.

What is left to differ is the layout of a piece, and trimming settles it if the blanks of the piece
are spaces and line feeds that stand alone (`trim_of_lone`).
-/

namespace SchemaScript.Text

/-- A character, with a space for a line feed. -/
def unbreak (x : Char) : Char := if x = '\n' then ' ' else x

/-- A space is written for spaces and line feeds alone. -/
theorem unbreak_eq_space_iff {x : Char} : unbreak x = ' ' ↔ x = ' ' ∨ x = '\n' := by
  unfold unbreak
  split <;> simp_all

/-- A character that is no blank stands for itself alone. -/
theorem unbreak_eq_iff {x y : Char} (hBlank : isBlank y = false) : unbreak x = y ↔ x = y := by
  have hSpace : ' ' ≠ y := by
    rintro rfl
    cases hBlank
  have hBreak : '\n' ≠ y := by
    rintro rfl
    cases hBlank
  unfold unbreak
  split <;> simp_all

/-- A function that does not tell a line feed from a space. -/
theorem apply_unbreak {α : Type} {f : Char → α} (hSame : f ' ' = f '\n') (x : Char) :
    f (unbreak x) = f x := by
  unfold unbreak
  split <;> simp_all

@[simp] theorem isBlank_unbreak (x : Char) : isBlank (unbreak x) = isBlank x :=
  apply_unbreak (by decide) x

@[simp] theorem isWord_unbreak (x : Char) : isWord (unbreak x) = isWord x :=
  apply_unbreak (by decide) x

@[simp] theorem isDecimal_unbreak (x : Char) : isDecimal (unbreak x) = isDecimal x :=
  apply_unbreak (by decide) x

/-! ## What does not depend on line breaks -/

section

variable {p : Char → Bool} {t : Text}

/-- A text without line feeds stays as it is. -/
theorem map_unbreak_of_not_mem (hBreak : '\n' ∉ t) : t.map unbreak = t := by
  have hSame : ∀ x ∈ t, unbreak x = id x := by
    intro x hMem
    exact if_neg (ne_of_mem_of_not_mem hMem hBreak)
  rw [List.map_congr_left hSame, List.map_id]

/-- A run that does not tell line feeds from spaces is the same run with spaces in it. -/
theorem takeWhile_map_unbreak (hSame : ∀ x, p (unbreak x) = p x) (t : Text) :
    (t.map unbreak).takeWhile p = (t.takeWhile p).map unbreak := by
  rw [List.takeWhile_map, show p ∘ unbreak = p from funext hSame]

theorem dropWhile_map_unbreak (hSame : ∀ x, p (unbreak x) = p x) (t : Text) :
    (t.map unbreak).dropWhile p = (t.dropWhile p).map unbreak := by
  rw [List.dropWhile_map, show p ∘ unbreak = p from funext hSame]

/-- A run of characters among which no line ends. -/
theorem takeWhile_map_unbreak_of_break (hSame : ∀ x, p (unbreak x) = p x) (hBreak : p '\n' = false)
    (t : Text) : (t.map unbreak).takeWhile p = t.takeWhile p := by
  rw [takeWhile_map_unbreak hSame]
  -- a line feed would have ended the run
  refine map_unbreak_of_not_mem fun hMem => ?_
  have := List.all_eq_true.mp List.all_takeWhile _ hMem
  rw [hBreak] at this
  cases this

/-- Words hold no blanks, so line breaks do not matter to them. -/
theorem word_map_unbreak (t : Text) : word (t.map unbreak) = word t :=
  takeWhile_map_unbreak_of_break isWord_unbreak (by decide) t

theorem startsWord_map_unbreak (t : Text) : startsWord (t.map unbreak) = startsWord t := by
  cases t with
  | nil => rfl
  | cons c t => exact isWord_unbreak c

/-- Numbers hold no blanks, neither before their point nor behind it. -/
theorem number_map_unbreak (t : Text) : number (t.map unbreak) = number t := by
  have hRun := takeWhile_map_unbreak_of_break isDecimal_unbreak (by decide)
  unfold number
  rw [hRun, dropWhile_map_unbreak isDecimal_unbreak]
  cases t.dropWhile isDecimal with
  | nil => rfl
  | cons c places =>
    -- only behind a point there is more to a number
    by_cases hPoint : c = '.'
    · subst hPoint
      have hUnbreak : unbreak '.' = '.' := rfl
      simp only [List.map_cons, hUnbreak, hRun]
    · have hUnbreak : unbreak c ≠ '.' := fun hEq => hPoint ((unbreak_eq_iff (by decide)).mp hEq)
      simp [hPoint, hUnbreak]

/-- A literal without blanks is found or missed alike, since each of its characters is. -/
theorem isPrefixOf_map_unbreak {literal : Text} (hBlank : ∀ x ∈ literal, isBlank x = false)
    (t : Text) : literal.isPrefixOf (t.map unbreak) = literal.isPrefixOf t := by
  induction literal generalizing t with
  | nil => simp
  | cons x literal ih =>
    cases t with
    | nil => rfl
    | cons c t =>
      have hHere := unbreak_eq_iff (x := c) (hBlank x (List.mem_cons_self ..))
      have hLater := ih (fun y hMem => hBlank y (List.mem_cons_of_mem x hMem)) t
      simp only [List.map_cons, List.isPrefixOf, hLater, Bool.beq_eq_decide_eq, eq_comm (a := x),
        hHere]

/-- A character that is no blank is found at the same place. -/
theorem before?_map_unbreak {x : Char} (hBlank : isBlank x = false) (t : Text) :
    before? [x] (t.map unbreak) = (before? [x] t).map (List.map unbreak) := by
  induction t with
  | nil => rfl
  | cons c t ih =>
    have hHere : ([x] : Text).isPrefixOf ((c :: t).map unbreak) = [x].isPrefixOf (c :: t) :=
      isPrefixOf_map_unbreak (by simpa using hBlank) (c :: t)
    rw [List.map_cons] at hHere
    rw [List.map_cons, before?, before?, hHere, ih]
    split
    · rfl
    · cases before? [x] t <;> rfl

end

/-! ## Blanks that stand alone -/

/-- Whether the only blanks of a text are spaces and line feeds, no two of them next to each other.
-/
structure Lone (t : Text) : Prop where
  known : ∀ x ∈ t, isBlank x = true → x = ' ' ∨ x = '\n'
  single : t.IsChain fun x y => isBlank x = false ∨ isBlank y = false

/-- What can be evaluated to see whether the blanks of a text stand alone. -/
theorem lone_iff {t : Text} :
    Lone t ↔ (t.all fun x => !isBlank x || x == ' ' || x == '\n') = true ∧
      t.IsChain fun x y => isBlank x = false ∨ isBlank y = false := by
  have hKnown : (t.all fun x => !isBlank x || x == ' ' || x == '\n') = true ↔
      ∀ x ∈ t, isBlank x = true → x = ' ' ∨ x = '\n' := by
    simp [List.all_eq_true, or_assoc, imp_iff_not_or]
  rw [hKnown]
  exact ⟨fun h => ⟨h.known, h.single⟩, fun h => ⟨h.1, h.2⟩⟩

instance (t : Text) : Decidable (Lone t) := decidable_of_iff' _ lone_iff

section

variable {s t : Text}

/-- The blanks of a part stand alone too. -/
theorem Lone.of_infix (hLone : Lone t) (hInfix : s <:+: t) : Lone s where
  known x hMem := hLone.known x (hInfix.mem hMem)
  single := hLone.single.infix hInfix

/-- A text whose blanks stand alone is normalized. -/
theorem Lone.spaced (hLone : Lone t) : Spaced t where
  noReturn hMem := by simpa using hLone.known _ hMem (by decide)
  noTab hMem := by simpa using hLone.known _ hMem (by decide)
  single := by
    have hNoSpace : ∀ x, isBlank x = false → x ≠ ' ' := by
      rintro x hBlank rfl
      cases hBlank
    exact hLone.single.imp fun x y hAlone => hAlone.imp (hNoSpace x) (hNoSpace y)

/-- Folding the lines of a text whose blanks stand alone writes spaces for its line feeds. At most
one blank stands before the text. -/
theorem foldLines_of_lone (t : Text) :
    (Lone t → foldLines [] t = t.map unbreak) ∧
      ∀ x, isBlank x = true → Lone (x :: t) → foldLines [x] t = (x :: t).map unbreak := by
  have hRun : ∀ x, x = ' ' ∨ x = '\n' → closeRun [x] = [unbreak x] := by
    rintro x (rfl | rfl) <;> rfl
  -- on the text, with at most one blank held back before it
  induction t with
  | nil =>
    refine ⟨fun _ => rfl, fun x hBlank hLone => ?_⟩
    exact hRun x (hLone.known x (List.mem_cons_self ..) hBlank)
  | cons c t ih =>
    have hLater : ∀ {x}, Lone (x :: t) → Lone t := fun hLone =>
      hLone.of_infix (List.suffix_cons _ t).isInfix
    -- a character that is no blank ends the run before it and stands for itself
    have hText : isBlank c = false → Lone (c :: t) →
        ∀ run, foldLines run (c :: t) = closeRun run ++ (c :: t).map unbreak := by
      intro hBlank hLone run
      have hSame : unbreak c = c := (unbreak_eq_iff hBlank).mpr rfl
      rw [foldLines, if_neg (by simp [hBlank]), ih.1 (hLater hLone), List.map_cons, hSame]
    refine ⟨fun hLone => ?_, fun x hBlank hLone => ?_⟩
    · by_cases hHere : isBlank c = true
      · rw [foldLines, if_pos hHere]
        exact ih.2 c hHere hLone
      · exact hText (by simpa using hHere) hLone []
    · have hAlone := (List.isChain_cons_cons.mp hLone.single).1
      have hHere : isBlank c = false := hAlone.resolve_left (by simp [hBlank])
      rw [hText hHere (hLone.of_infix (List.suffix_cons x _).isInfix),
        hRun x (hLone.known x (List.mem_cons_self ..) hBlank)]
      rfl

/-- The blanks at both ends vanish, whichever they are. -/
theorem strip_map_unbreak (t : Text) : strip (t.map unbreak) = (strip t).map unbreak := by
  unfold strip stripEnd stripStart
  rw [dropWhile_map_unbreak isBlank_unbreak, ← List.map_reverse,
    dropWhile_map_unbreak isBlank_unbreak, List.map_reverse]

/-- A piece whose blanks stand alone is trimmed to the same text whether they are spaces or line
feeds. -/
theorem trim_of_lone (hLone : Lone t) : trim t = strip (t.map unbreak) := by
  unfold trim
  rw [(foldLines_of_lone _).1 (hLone.of_infix (isInfix_strip t)), strip_map_unbreak]

end

end SchemaScript.Text
