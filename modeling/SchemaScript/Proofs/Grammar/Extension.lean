import SchemaScript.Proofs.Cursor.Carry
import SchemaScript.Proofs.Grammar.Ending
import SchemaScript.Proofs.Grammar.Progress

/-!
# More text behind what is read

Readers look ahead, so what they read may change if the text goes on. Three places of the grammar
look further than they take: a probe passes the blanks before its literal, a name looks for a point
and another word behind it, and free text is searched up to its delimiter, however far that is.

Behind a text that ends with a line none of these looks further than the line, except if a reader
is not `Settled` where it stops, or a delimiter was searched for and not found. Settled means that
something is left, and that a semicolon or a parenthesis was passed last or still lies ahead: no
name ends there that could go on behind the text.

`Composed.extend` says that in both directions. If a reader stops at a settled place of the text,
or if it does so once the text goes on, it reads the same with and without the text added.
-/

namespace SchemaScript

open Reader Cursor Text

/-! ## Settled places -/

/-- Something is left, and a semicolon or a parenthesis was passed last or lies ahead. -/
def Cursor.Settled (d : Cursor) : Prop :=
  d.rest ≠ [] ∧ ∃ x ∈ (";)" : Text), d.seen.head? = some x ∨ x ∈ d.rest

namespace Cursor

variable {c d : Cursor} {u : Text}

/-- Whatever comes before a settled place is settled. -/
theorem Settled.of_reaches (hSettled : d.Settled) (hReach : c.Reaches d) : c.Settled := by
  obtain ⟨hMore, x, hFirm, hPlace⟩ := hSettled
  have hLength := hReach.length_le
  have hPositive := List.length_pos_iff.mpr hMore
  refine ⟨List.length_pos_iff.mp (by omega), x, hFirm, ?_⟩
  obtain ⟨taken, hRest, hSeen⟩ := hReach
  rcases hPlace with hLast | hAhead
  · rcases List.eq_nil_or_concat taken with rfl | ⟨before, last, rfl⟩
    · exact Or.inl (by simpa [hSeen] using hLast)
    · -- the character was passed on the way
      have hSame : last = x := by simpa [hSeen] using hLast
      exact Or.inr (by simp [hRest, hSame])
  · exact Or.inr (by simp [hRest, hAhead])

/-- A semicolon or a parenthesis is no blank, no word character and no point. -/
theorem isBlank_of_firm {x : Char} (hFirm : x ∈ (";)" : Text)) :
    isBlank x = false ∧ isWord x = false ∧ x ≠ '.' := by
  have hCases : x = ';' ∨ x = ')' := by simpa using hFirm
  rcases hCases with rfl | rfl <;> decide

/-- A character that is no blank is still ahead once blanks are passed. -/
theorem mem_skipBlanks {x : Char} (hBlank : isBlank x = false) (hMem : x ∈ c.rest) :
    x ∈ c.skipBlanks.rest := by
  rw [rest_skipBlanks]
  rw [← List.takeWhile_append_dropWhile (p := isBlank) (l := c.rest)] at hMem
  rcases List.mem_append.mp hMem with hSkipped | hLeft
  · have := List.all_eq_true.mp List.all_takeWhile x hSkipped
    rw [hBlank] at this
    cases this
  · exact hLeft

/-- If only part of a text that ends with a line is blank, what stands next does not depend on the
text behind. -/
theorem agrees_extend (hMore : c.skipBlanks.rest ≠ []) (hLine : EndsLine c.rest) (u : Text) :
    Agrees (extend u) c := by
  have hNext : EndsLine c.skipBlanks.rest := (reaches_skipBlanks c).endsLine hLine hMore
  exact
    { skip := skipBlanks_extend hMore
      literal := fun literal hToken =>
        isPrefixOf_append_of_endsLine (Grammar.not_mem_dropLast_of_isToken hToken) hNext u
      keyword := fun word hToken => Grammar.keywordAhead_append_of_endsLine hToken hNext u
      word := word_append_of_endsLine hNext u
      number := number_append_of_endsLine hNext u
      startsWord := startsWord_append hMore u
      advance := fun n hWithin => advance_extend hWithin }

/-- The name behind a point is settled if a semicolon or a parenthesis lies ahead. -/
theorem wordAfterPoint?_extend {x : Char} (hFirm : x ∈ (";)" : Text)) (hMem : x ∈ c.rest)
    (hLine : EndsLine c.rest) (u : Text) :
    wordAfterPoint? (c.extend u) = (wordAfterPoint? c).map (Prod.map id (extend u)) := by
  obtain ⟨hBlank, -, hNoPoint⟩ := isBlank_of_firm hFirm
  -- the character is no blank, so it is still ahead behind the blanks
  have hNext : x ∈ c.skipBlanks.rest := mem_skipBlanks hBlank hMem
  have hAgrees := (agrees_extend (List.ne_nil_of_mem hNext) hLine u).onNames
  refine wordAfterPoint?_carry hAgrees fun hPoint => ?_
  -- the character lies behind the point, since it is none
  have hBehind : x ∈ (c.skipBlanks.advance 1).rest := by
    obtain ⟨behind, hRest⟩ := List.isPrefixOf_iff_prefix.mp hPoint
    rw [← hRest] at hNext
    rw [rest_advance, ← hRest]
    simpa [hNoPoint] using hNext
  have hReach : c.Reaches (c.skipBlanks.advance 1) :=
    (reaches_skipBlanks c).trans (reaches_advance 1 _)
  have hBehindLine := hReach.endsLine hLine (List.ne_nil_of_mem hBehind)
  exact (agrees_extend (List.ne_nil_of_mem (mem_skipBlanks hBlank hBehind)) hBehindLine u).onNames

/-! ## Free text -/

/-- A delimiter that lies in the text is found there. -/
theorem takeUntil?_extend_of_mem {x : Char} (hMem : x ∈ c.rest) (inclusive : Bool) (u : Text) :
    (c.extend u).takeUntil? [x] inclusive =
      (c.takeUntil? [x] inclusive).map (Prod.map id (extend u)) := by
  have hSame := before?_singleton_append hMem u
  cases hFound : before? [x] c.rest with
  | none => exact absurd hMem (before?_singleton_eq_none_iff.mp hFound)
  | some found =>
    obtain ⟨-, behind, hRest⟩ := before?_singleton_eq_some_iff.mp hFound
    -- what was found and the delimiter lie within the text
    have hWithin : found.length + (if inclusive && [x] != ['\n'] then 1 else 0) ≤
        c.rest.length := by
      rw [hRest, List.length_append, List.length_cons]
      split <;> omega
    rw [hFound] at hSame
    unfold takeUntil?
    rw [rest_extend, hSame, hFound]
    simp only [Option.map_some, List.length_singleton, advance_extend hWithin]
    rfl

/-- Nor is the rest taken, since the delimiter is there. -/
theorem takeUntilOrRest_extend_of_mem {x : Char} (hMem : x ∈ c.rest) (inclusive : Bool)
    (u : Text) :
    (c.extend u).takeUntilOrRest [x] inclusive =
      Prod.map id (extend u) (c.takeUntilOrRest [x] inclusive) := by
  unfold takeUntilOrRest
  rw [takeUntil?_extend_of_mem hMem]
  cases hFound : c.takeUntil? [x] inclusive with
  | none => exact absurd hMem (takeUntil?_eq_none_iff.mp hFound)
  | some found => rfl

/-- A delimiter that first lies in the added text is found there. -/
theorem length_le_of_takeUntil?_extend {x : Char} {found : Text} {inclusive : Bool}
    (hBreak : x ≠ '\n') (hMem : x ∉ c.rest)
    (hTake : (c.extend u).takeUntil? [x] inclusive = some (found, d)) :
    d.rest.length ≤ u.length := by
  -- what was taken starts in the text and goes up to the first delimiter of the added text
  have hAdded : x ∈ u := by
    by_contra hMissing
    have hNone : (c.extend u).takeUntil? [x] inclusive = none :=
      takeUntil?_eq_none_iff.mpr (by simp [hMem, hMissing])
    rw [hNone] at hTake
    cases hTake
  obtain ⟨before, behind, hSplit, hFirst⟩ := List.eq_append_cons_of_mem hAdded
  have hRest : (c.extend u).rest = (c.rest ++ before) ++ x :: behind := by
    rw [rest_extend, hSplit, List.append_assoc]
  have hNowhere : x ∉ c.rest ++ before := by simp [hMem, hFirst]
  rw [takeUntil?_of_eq hBreak hNowhere hRest inclusive] at hTake
  obtain ⟨-, rfl⟩ := Prod.mk.inj (Option.some.inj hTake)
  rw [rest_advance, List.length_drop, hRest, List.length_append, List.length_append, hSplit]
  simp only [List.length_append]
  omega

end Cursor

namespace Grammar

variable {book : Rulebook} {α β : Type} {c d m : Cursor} {u : Text}

/-! ## Reading within the text -/

/-- Whether a reader stops at a settled place of the text, without a search that came to nothing;
or does so once the text goes on, with or without such a search. -/
def StaysWithin (r : Reader α) (u : Text) (c : Cursor) : Prop :=
  ((stop r c).Settled ∧ ∀ m d t, r c = .error (.mismatch m) d → m.expected ≠ .delimiter t) ∨
    ∃ d : Cursor, d.Settled ∧ stop r (c.extend u) = d.extend u

/-- A reader that succeeds stays within the text if it stops at a settled place. -/
theorem StaysWithin.of_ok {r : Reader α} {x : α} (hRead : r c = .ok x d) (hSettled : d.Settled) :
    StaysWithin r u c := by
  refine Or.inl ⟨by rwa [stop_of_ok hRead], fun m d t hFail => ?_⟩
  rw [hRead] at hFail
  cases hFail

/-- So does one that fails there, but for a search. -/
theorem StaysWithin.of_mismatch {r : Reader α} {m : Mismatch}
    (hFail : r c = .error (.mismatch m) d) (hSettled : d.Settled)
    (hSearch : ∀ t, m.expected ≠ .delimiter t) : StaysWithin r u c := by
  refine Or.inl ⟨by rwa [stop_of_error hFail], fun m' d t hFail' => ?_⟩
  rw [hFail] at hFail'
  cases hFail'
  exact hSearch t

/-- Whether a reader that stays within a text reads the same if the text goes on. -/
def Extends (r : Reader α) : Prop :=
  ∀ c u, EndsLine c.rest → StaysWithin r u c → r (c.extend u) = carry (extend u) (r c)

/-- A reader that goes on where another one stopped stays within the text only if the first one
does. -/
theorem StaysWithin.first {r : Reader α} {whole : Reader β}
    (hReaches : ∀ c : Cursor, c.Reaches (stop r c))
    (hLater : ∀ c, (stop r c).Reaches (stop whole c))
    (hFail : ∀ c e d, r c = .error e d → whole c = .error e d)
    (hWithin : StaysWithin whole u c) : StaysWithin r u c := by
  rcases hWithin with ⟨hSettled, hSearch⟩ | ⟨d, hSettled, hStop⟩
  · refine Or.inl ⟨hSettled.of_reaches (hLater c), ?_⟩
    intro m d t hError
    exact hSearch m d t (hFail c _ d hError)
  · -- what is reached before the added text was reached in the text itself
    have hReach := hLater (c.extend u)
    rw [hStop] at hReach
    have hLength := hReach.length_le
    rw [rest_extend, List.length_append] at hLength
    obtain ⟨m, -, hSame⟩ := exists_eq_extend (hReaches (c.extend u)) (by omega)
    rw [hSame] at hReach
    exact Or.inr ⟨m, hSettled.of_reaches (reaches_of_extend hReach), hSame⟩

/-- Only the two results count, with and without the text added. -/
theorem StaysWithin.congr {r s : Reader α} (hHere : r c = s m)
    (hThere : r (c.extend u) = s (m.extend u)) (hWithin : StaysWithin r u c) :
    StaysWithin s u m := by
  unfold StaysWithin stop at *
  rwa [hHere, hThere] at hWithin

/-- A reader that stays within the text starts at a settled place. -/
theorem StaysWithin.settled {r : Reader α} (hReaches : ∀ c : Cursor, c.Reaches (stop r c))
    (hWithin : StaysWithin r u c) : c.Settled := by
  rcases hWithin with ⟨hSettled, -⟩ | ⟨d, hSettled, hStop⟩
  · exact hSettled.of_reaches (hReaches c)
  · have hReach := hReaches (c.extend u)
    rw [hStop] at hReach
    exact hSettled.of_reaches (reaches_of_extend hReach)

/-- A reader that passes the blanks first and stays within the text finds more than blanks. -/
theorem StaysWithin.rest_skipBlanks_ne_nil {r : Reader α}
    (hSkips : ∀ c : Cursor, c.skipBlanks.Reaches (stop r c)) (hWithin : StaysWithin r u c) :
    c.skipBlanks.rest ≠ [] := by
  intro hEnd
  rcases hWithin with ⟨⟨hMore, -⟩, -⟩ | ⟨d, ⟨hMore, -⟩, hStop⟩
  · have hLength := (hSkips c).length_le
    rw [hEnd, List.length_nil] at hLength
    exact hMore (List.length_eq_zero_iff.mp (by omega))
  · -- the blanks reach into the added text, and what is behind them even more so
    have hLength := (hSkips (c.extend u)).length_le
    have hSkipped := (reaches_skipBlanks (⟨c.text.reverse, u⟩ : Cursor)).length_le
    have hPositive := List.length_pos_iff.mpr hMore
    rw [hStop, skipBlanks_extend_of_eq_nil hEnd, rest_extend, List.length_append] at hLength
    dsimp only at hSkipped
    omega

/-! ## Names -/

/-- The last character that was passed is a word character. -/
def EndsWord (d : Cursor) : Prop := ∃ x, d.seen.head? = some x ∧ isWord x = true

/-- Behind a word the last character is one of the word. -/
theorem endsWord_advance (hFound : word c.rest ≠ []) :
    EndsWord (c.advance (word c.rest).length) := by
  have hTake : c.rest.take (word c.rest).length = word c.rest :=
    (List.prefix_iff_eq_take.mp (List.takeWhile_prefix isWord)).symm
  -- the characters that were passed last come first in what was seen
  refine ⟨(word c.rest).getLast hFound, ?_, isWord_of_mem_word (List.getLast_mem hFound)⟩
  rw [advance, hTake]
  simp [List.head?_append, List.getLast?_eq_some_getLast hFound]

/-- Reading a word ends in it. -/
theorem endsWord_of_identifier {found : Text} (hRead : identifier c = .ok found d) :
    EndsWord d := by
  rw [identifier_apply] at hRead
  split at hRead
  · cases hRead
  · next hFound =>
    cases hRead
    exact endsWord_advance hFound

/-- Reading a name ends in its last word. -/
theorem endsWord_of_qualifiedName {q : QualifiedName} (hRead : qualifiedName c = .ok q d) :
    EndsWord d := by
  cases hFirst : identifier c with
  | error e m =>
    rw [qualifiedName_of_error hFirst] at hRead
    cases hRead
  | ok first m =>
    rw [qualifiedName_of_ok hFirst, wordAfterPoint?_apply] at hRead
    -- the name ends with the word behind the point, or with the first one
    split at hRead
    · next second next hFound =>
      cases hRead
      split at hFound
      · split at hFound
        · cases hFound
        · next hSecond =>
          obtain ⟨-, rfl⟩ := Prod.mk.inj (Option.some.inj hFound)
          exact endsWord_advance hSecond
      · cases hFound
    · cases hRead
      exact endsWord_of_identifier hFirst

/-- Behind a name, a settled place has a semicolon or a parenthesis ahead. -/
theorem Settled.exists_mem (hSettled : d.Settled) (hWord : EndsWord d) :
    ∃ x ∈ (";)" : Text), x ∈ d.rest := by
  obtain ⟨-, x, hFirm, hLast | hAhead⟩ := hSettled
  · -- the last character is one of a word, and so it is no mark
    obtain ⟨y, hSeen, hIsWord⟩ := hWord
    rw [hLast] at hSeen
    cases hSeen
    rw [(isBlank_of_firm hFirm).2.1] at hIsWord
    cases hIsWord
  · exact ⟨x, hFirm, hAhead⟩

/-- A word that stands next is found whole, since the line ends behind it. -/
theorem extends_identifier : Extends identifier := by
  intro c u hLine hWithin
  have hMore := hWithin.rest_skipBlanks_ne_nil skips_identifier
  exact identifier_carry (agrees_extend hMore hLine u).onNames

/-- Once its first word is read, a name is read for certain. -/
theorem qualifiedName_eq_ok {first : Text} (hFirst : identifier c = .ok first d) :
    ∃ q, qualifiedName c = .ok q (stop qualifiedName c) := by
  have hRead := qualifiedName_of_ok hFirst
  cases hSecond : wordAfterPoint? d with
  | none =>
    rw [hSecond] at hRead
    exact ⟨_, by rw [stop_of_ok hRead]; exact hRead⟩
  | some found =>
    obtain ⟨second, next⟩ := found
    rw [hSecond] at hRead
    exact ⟨_, by rw [stop_of_ok hRead]; exact hRead⟩

/-- A name is read alike: whether a point follows it is settled by what still lies ahead. -/
theorem extends_qualifiedName : Extends qualifiedName := by
  intro c u hLine hWithin
  have hMore := hWithin.rest_skipBlanks_ne_nil skips_qualifiedName
  have hFirst := identifier_carry (agrees_extend hMore hLine u).onNames
  refine qualifiedName_carry hFirst fun first m hRead => ?_
  rw [hRead] at hFirst
  -- the name ends behind its first word, so the character that settles it lies behind that word
  have hAhead : ∃ x ∈ (";)" : Text), x ∈ m.rest := by
    rcases hWithin with ⟨hSettled, -⟩ | ⟨d, hSettled, hStop⟩
    · obtain ⟨q, hName⟩ := qualifiedName_eq_ok hRead
      obtain ⟨x, hFirm, hMem⟩ := Settled.exists_mem hSettled (endsWord_of_qualifiedName hName)
      exact ⟨x, hFirm, (reaches_stop_qualifiedName hRead).mem_of_mem hMem⟩
    · obtain ⟨q, hName⟩ := qualifiedName_eq_ok hFirst
      have hReach := reaches_stop_qualifiedName hFirst
      rw [hStop] at hName hReach
      have hWord : EndsWord (d.extend u) := endsWord_of_qualifiedName hName
      obtain ⟨x, hFirm, hMem⟩ := Settled.exists_mem hSettled hWord
      exact ⟨x, hFirm, (reaches_of_extend hReach).mem_of_mem hMem⟩
  obtain ⟨x, hFirm, hMem⟩ := hAhead
  have hReach : c.Reaches m := by
    have hSkips := skips_identifier c
    rw [stop_of_ok hRead] at hSkips
    exact (reaches_skipBlanks c).trans hSkips
  exact wordAfterPoint?_extend hFirm hMem (hReach.endsLine hLine (List.ne_nil_of_mem hMem)) u

/-! ## Free text and parameters -/

/-- A reader of free text that stays within the text finds its delimiter there, or finds none. -/
theorem StaysWithin.takeUntil?_extend {r : Reader α} {x : Char} {inclusive : Bool}
    (hBreak : x ≠ '\n')
    (hFound : ∀ c found d, c.takeUntil? [x] inclusive = some (found, d) → stop r c = d)
    (hNone : ∀ c, c.takeUntil? [x] inclusive = none →
      r c = .error (.mismatch (.atCursor (.delimiter [x]) c)) c)
    (hWithin : StaysWithin r u c) :
    (c.extend u).takeUntil? [x] inclusive =
      (c.takeUntil? [x] inclusive).map (Prod.map id (extend u)) := by
  by_cases hMem : x ∈ c.rest
  · exact takeUntil?_extend_of_mem hMem inclusive u
  have hHere : c.takeUntil? [x] inclusive = none := takeUntil?_eq_none_iff.mpr hMem
  rcases hWithin with ⟨-, hSearch⟩ | ⟨d, ⟨hMore, -⟩, hStop⟩
  · exact absurd rfl (hSearch _ c [x] (hNone c hHere))
  · cases hThere : (c.extend u).takeUntil? [x] inclusive with
    | none => rw [hHere, Option.map_none]
    | some result =>
      -- the delimiter lies in the added text, where the reader does not get to
      obtain ⟨found, d'⟩ := result
      have hShort := length_le_of_takeUntil?_extend hBreak hMem hThere
      have hPositive := List.length_pos_iff.mpr hMore
      rw [← hFound _ _ _ hThere, hStop, rest_extend, List.length_append] at hShort
      omega

/-- Free text ends at its delimiter within the text, or is not found at all. -/
theorem extends_takeUntil {x : Char} (hBreak : x ≠ '\n') (inclusive : Bool) :
    Extends (takeUntil [x] inclusive) := by
  intro c u _ hWithin
  refine takeUntil_carry (hWithin.takeUntil?_extend hBreak ?_ ?_)
  · intro c found d hFound
    have hRead := takeUntil_apply [x] inclusive c
    rw [hFound] at hRead
    exact stop_of_ok hRead
  · intro c hNone
    rw [takeUntil_apply, hNone]

/-- Parameters end at their terminator, and decoding does not look at the text behind. -/
theorem extends_parameters {rules : Parameters.Rules} (hTerminator : rules.terminator = ";") :
    Extends (parameters rules) := by
  intro c u _ hWithin
  refine parameters_carry ?_
  rw [hTerminator]
  refine hWithin.takeUntil?_extend (by decide) ?_ ?_
  · intro c found d hFound
    rw [stop, parameters_apply, hTerminator, show c.takeUntil? ";" true = _ from hFound]
    dsimp only
    -- decoding does not move the cursor, whether it succeeds or not
    cases Parameters.decode rules found <;> rfl
  · intro c hNone
    rw [parameters_apply, hTerminator, show c.takeUntil? ";" true = _ from hNone]
    rfl

/-! ## Sequences and repetitions -/

/-- A sequence reads alike if its parts do. -/
theorem Extends.bind {r : Reader α} {f : α → Reader β}
    (hReaches : ∀ c : Cursor, c.Reaches (stop r c))
    (hReachesThen : ∀ x, ∀ c : Cursor, c.Reaches (stop (f x) c))
    (hFirst : Extends r) (hThen : ∀ x, Extends (f x)) : Extends (r >>= f) := by
  intro c u hLine hWithin
  have hLater : ∀ c, (stop r c).Reaches (stop (r >>= f) c) := by
    intro c
    cases hRead : r c with
    | ok x m =>
      rw [stop_of_ok hRead, stop_bind_of_ok hRead]
      exact hReachesThen x m
    | error e m =>
      rw [stop_of_error hRead, stop_bind_of_error hRead]
      exact .refl m
  -- the first reader is the same, and the second one starts at the place it was carried to
  have hCarry := hFirst c u hLine
    (hWithin.first hReaches hLater fun c e d hFail => bind_of_error hFail)
  refine bind_carry hCarry fun x m hRead => ?_
  have hReach := hReaches c
  rw [stop_of_ok hRead] at hReach
  rw [hRead] at hCarry
  have hRest : StaysWithin (f x) u m := hWithin.congr (bind_of_ok hRead) (bind_of_ok hCarry)
  have hLineRest := hReach.endsLine hLine (hRest.settled (hReachesThen x)).1
  exact hThen x m u hLineRest hRest

/-- A repetition stops where its first item stops or further on. -/
theorem reaches_many_of_stop {item : Reader (Option α)}
    (hItem : ∀ c : Cursor, c.Reaches (stop item c)) (c : Cursor) :
    (stop item c).Reaches (stop (many item) c) := by
  cases hRead : item c with
  | error e d =>
    rw [stop_of_error hRead, stop_of_error (many_of_error hRead)]
    exact .refl d
  | ok found d =>
    rw [stop_of_ok hRead]
    cases found with
    | none =>
      rw [stop_of_ok (many_of_none hRead)]
      exact .refl d
    | some x =>
      -- a repetition goes on from the place behind its first item, or ends there
      by_cases hMoved : d.rest.length < c.rest.length
      · rw [stop, many_of_some hRead hMoved, ← stop, stop_map]
        exact reaches_stop_many hItem d
      · rw [stop_of_ok (many_of_stuck hRead hMoved)]
        exact .refl d

/-- A repetition reads alike if its item does. The induction is on the text that is left, and the
repetition behind an item stays within the text as the whole does. -/
theorem Extends.many {item : Reader (Option α)}
    (hReaches : ∀ c : Cursor, c.Reaches (stop item c)) (hItem : Extends item) :
    Extends (many item) := by
  intro c u hLine hWithin
  have hMany : ∀ c : Cursor, c.Reaches (stop (Reader.many item) c) := reaches_stop_many hReaches
  induction c using many_induction item with
  | again c ih =>
    have hCarry := hItem c u hLine
      (hWithin.first hReaches (reaches_many_of_stop hReaches) fun c e d hFail =>
        many_of_error hFail)
    have hSameLength : ∀ d : Cursor,
        (d.extend u).rest.length < (c.extend u).rest.length ↔ d.rest.length < c.rest.length := by
      intro d
      rw [rest_extend, rest_extend, List.length_append, List.length_append]
      omega
    refine many_carry hCarry (fun _ d _ => hSameLength d) fun x m hRead hMoved => ?_
    have hReach := hReaches c
    rw [stop_of_ok hRead] at hReach
    rw [hRead] at hCarry
    -- what is left of the repetition is the repetition behind the first item
    have hRest : StaysWithin (Reader.many item) u m := by
      have hAll := hWithin.congr (many_of_some hRead hMoved)
        (many_of_some hCarry ((hSameLength m).mpr hMoved))
      refine hAll.first hMany (fun c => ?_) fun c e d hFail => bind_of_error hFail
      rw [stop_map]
      exact .refl _
    have hLineRest := hReach.endsLine hLine (hRest.settled hMany).1
    exact ih x m hRead hMoved hLineRest hRest

/-- A name that is probed for is read behind the blanks, if a word stands there. -/
theorem extends_qualifiedName? : Extends qualifiedName? := by
  intro c u hLine hWithin
  have hMore := hWithin.rest_skipBlanks_ne_nil skips_qualifiedName?
  have hAgrees := agrees_extend hMore hLine u
  refine qualifiedName?_carry hAgrees.onNames fun hStarts => ?_
  -- only the name is left, and it stays within the text like the whole
  have hHere : qualifiedName? c = (qualifiedName >>= fun q => pure (some q)) c.skipBlanks := by
    rw [qualifiedName?_apply, if_pos hStarts]
  have hThere : qualifiedName? (c.extend u) =
      (qualifiedName >>= fun q => pure (some q)) (c.skipBlanks.extend u) := by
    rw [qualifiedName?_apply, hAgrees.skip, if_pos (hAgrees.startsWord.trans hStarts)]
  have hReaches : ∀ c : Cursor, c.Reaches (stop qualifiedName c) := fun c =>
    (reaches_skipBlanks c).trans (skips_qualifiedName c)
  have hName : StaysWithin qualifiedName u c.skipBlanks := by
    refine (hWithin.congr hHere hThere).first hReaches (fun c => ?_) fun c e d hFail =>
      bind_of_error hFail
    rw [stop_map]
    exact .refl _
  exact extends_qualifiedName c.skipBlanks u ((reaches_skipBlanks c).endsLine hLine hMore) hName

/-! ## The grammar -/

/-- **More text behind changes nothing that was settled.** -/
theorem Composed.extend (hTerminators : ∀ construct, (book construct).terminator = ";")
    {r : Reader α} (hComposed : Composed book r) : Extends r := by
  -- a part that passes the blanks first finds more than blanks, so what stands next is known
  induction hComposed with
  | pure x =>
    intro c u _ _
    rfl
  | bind hFirst hThen ihFirst ihThen =>
    exact .bind hFirst.reaches (fun x => (hThen x).reaches) ihFirst ihThen
  | fail _ =>
    intro c u _ _
    rfl
  | accept hToken =>
    intro c u hLine hWithin
    have hMore := hWithin.rest_skipBlanks_ne_nil (skips_accept _)
    exact accept_carry (agrees_extend hMore hLine u) hToken
  | expect hToken =>
    intro c u hLine hWithin
    have hMore := hWithin.rest_skipBlanks_ne_nil (skips_expect _)
    exact expect_carry (agrees_extend hMore hLine u) hToken
  | keyword hToken =>
    intro c u hLine hWithin
    have hMore := hWithin.rest_skipBlanks_ne_nil (skips_keyword _)
    exact keyword_carry (agrees_extend hMore hLine u) hToken
  | takeUntil inclusive hDelimiter =>
    have hMem := List.contains_iff_mem.mp hDelimiter
    exact extends_takeUntil (ne_of_mem_of_not_mem hMem (by decide)) inclusive
  | parameters construct => exact extends_parameters (hTerminators construct)
  | identifier => exact extends_identifier
  | number =>
    intro c u hLine hWithin
    have hMore := hWithin.rest_skipBlanks_ne_nil skips_number
    exact number_carry (agrees_extend hMore hLine u).onNames
  | qualifiedName => exact extends_qualifiedName
  | qualifiedName? => exact extends_qualifiedName?
  | many hItem ih => exact .many hItem.reaches ih

end Grammar

end SchemaScript
