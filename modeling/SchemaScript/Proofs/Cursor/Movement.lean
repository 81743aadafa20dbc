import SchemaScript.Grammar.Table
import SchemaScript.Proofs.Cursor.Reading

/-!
# How readers move

Each reader only moves forward. Those for literals, names and numbers pass the blanks first, so
that they stop behind the blanks or later; those for free text start where the cursor stands.

A probe that found its literal has moved.
-/

namespace SchemaScript

open Text

namespace Reader

variable {c d : Cursor}

/-! ## Behind the blanks -/

/-- A probe passes the blanks and then its literal, or nothing else. -/
theorem skips_accept (literal : Text) (c : Cursor) :
    c.skipBlanks.Reaches (stop (accept literal) c) := by
  rw [stop, accept_apply]
  by_cases hNext : literal.isPrefixOf c.skipBlanks.rest = true
  · rw [if_pos hNext]
    exact Cursor.reaches_advance _ _
  · rw [if_neg hNext]
    exact .refl _

/-- A literal that has to stand next is passed as by a probe, and missed where the probe stops. -/
theorem stop_expect (literal : Text) (c : Cursor) :
    stop (expect literal) c = stop (accept literal) c := by
  rw [stop, stop, expect_apply, accept_apply]
  cases literal.isPrefixOf c.skipBlanks.rest <;> rfl

/-- So its failure stays behind the blanks. -/
theorem skips_expect (literal : Text) (c : Cursor) :
    c.skipBlanks.Reaches (stop (expect literal) c) := by
  rw [stop_expect]
  exact skips_accept literal c

/-- A word is looked for behind the blanks. -/
theorem skips_identifier (c : Cursor) : c.skipBlanks.Reaches (stop identifier c) := by
  rw [stop, identifier_apply]
  by_cases hNone : word c.skipBlanks.rest = []
  · rw [if_pos hNone]
    exact .refl _
  · rw [if_neg hNone]
    exact Cursor.reaches_advance _ _

/-- So is a number. -/
theorem skips_number (c : Cursor) : c.skipBlanks.Reaches (stop number c) := by
  rw [stop, number_apply]
  by_cases hNone : Text.number c.skipBlanks.rest = []
  · rw [if_pos hNone]
    exact .refl _
  · rw [if_neg hNone]
    exact Cursor.reaches_advance _ _

/-- The word behind a point lies ahead, with the blanks on both sides of the point passed. -/
theorem reaches_of_wordAfterPoint? {second : Text} (hFound : wordAfterPoint? c = some (second, d)) :
    c.Reaches d := by
  unfold wordAfterPoint? at hFound
  split at hFound
  · dsimp only at hFound
    split at hFound
    · cases hFound
    · cases hFound
      have hPoint := (Cursor.reaches_skipBlanks c).trans (Cursor.reaches_advance 1 _)
      exact (hPoint.trans (Cursor.reaches_skipBlanks _)).trans (Cursor.reaches_advance _ _)
  · cases hFound

/-- A name goes on behind its first word, if at all. -/
theorem reaches_stop_qualifiedName {first : Text} (hFirst : identifier c = .ok first d) :
    d.Reaches (stop qualifiedName c) := by
  rw [stop, qualifiedName_of_ok hFirst]
  cases hFound : wordAfterPoint? d with
  | none => exact .refl d
  | some found => exact reaches_of_wordAfterPoint? hFound

/-- A name is looked for behind the blanks. -/
theorem skips_qualifiedName (c : Cursor) : c.skipBlanks.Reaches (stop qualifiedName c) := by
  have hSkips := skips_identifier c
  -- without a first word the name stops where the word was looked for
  cases hFirst : identifier c with
  | error e d =>
    rw [stop_of_error hFirst] at hSkips
    rwa [stop_of_error (qualifiedName_of_error hFirst)]
  | ok first d =>
    rw [stop_of_ok hFirst] at hSkips
    exact hSkips.trans (reaches_stop_qualifiedName hFirst)

/-- An optional name passes the blanks even where no name stands. -/
theorem skips_qualifiedName? (c : Cursor) : c.skipBlanks.Reaches (stop qualifiedName? c) := by
  by_cases hStarts : startsWord c.skipBlanks.rest = true
  · have hName := skips_qualifiedName c.skipBlanks
    rw [Cursor.skipBlanks_skipBlanks] at hName
    rw [stop, qualifiedName?_apply, if_pos hStarts, ← stop]
    cases hRead : qualifiedName c.skipBlanks with
    | ok q d =>
      rw [stop_bind_of_ok hRead]
      rwa [stop_of_ok hRead] at hName
    | error e d =>
      rw [stop_bind_of_error hRead]
      rwa [stop_of_error hRead] at hName
  · rw [stop, qualifiedName?_apply, if_neg hStarts]
    exact .refl _

/-! ## Free text -/

/-- A search that found its delimiter moves forward. -/
theorem reaches_of_takeUntil? {delimiter found : Text} {inclusive : Bool}
    (hFound : c.takeUntil? delimiter inclusive = some (found, d)) : c.Reaches d := by
  unfold Cursor.takeUntil? at hFound
  obtain ⟨before, -, hSame⟩ := Option.map_eq_some_iff.mp hFound
  cases hSame
  exact Cursor.reaches_advance _ _

/-- Free text moves forward up to its delimiter, or stays where no delimiter lies ahead. -/
theorem reaches_stop_takeUntil (delimiter : Text) (inclusive : Bool) (c : Cursor) :
    c.Reaches (stop (takeUntil delimiter inclusive) c) := by
  rw [stop, takeUntil_apply]
  cases hFound : c.takeUntil? delimiter inclusive with
  | none => exact .refl c
  | some found => exact reaches_of_takeUntil? hFound

theorem reaches_takeUntilOrRest (delimiter : Text) (inclusive : Bool) (c : Cursor) :
    c.Reaches (c.takeUntilOrRest delimiter inclusive).2 := by
  unfold Cursor.takeUntilOrRest
  cases hFound : c.takeUntil? delimiter inclusive with
  | none => exact Cursor.reaches_advance _ _
  | some found => exact reaches_of_takeUntil? hFound

/-- Parameters move forward to their terminator, whatever they stand for. -/
theorem reaches_stop_parameters (rules : Parameters.Rules) (c : Cursor) :
    c.Reaches (stop (parameters rules) c) := by
  rw [stop, parameters_apply]
  cases hFound : c.takeUntil? rules.terminator true with
  | none => exact .refl c
  | some found =>
    have hReach := reaches_of_takeUntil? hFound
    -- decoding does not touch the cursor
    cases hDecode : Parameters.decode rules found.1 with
    | ok p =>
      dsimp only
      rw [hDecode]
      exact hReach
    | error e =>
      dsimp only
      rw [hDecode]
      exact hReach

/-! ## Probes that found their literal -/

/-- A probe that found a literal with characters has moved. -/
theorem length_lt_of_accept {literal : Text} (hSome : literal ≠ [])
    (hRead : accept literal c = .ok true d) : d.rest.length < c.rest.length := by
  rw [accept_apply] at hRead
  split at hRead
  · next hNext =>
    cases hRead
    have hShort := (List.isPrefixOf_iff_prefix.mp hNext).length_le
    have hSkip := (Cursor.reaches_skipBlanks c).length_le
    -- the literal is a start of what is ahead, so that many characters can be passed
    have := List.length_pos_iff.mpr hSome
    rw [Cursor.rest_advance, List.length_drop]
    omega
  · cases hRead

theorem length_lt_of_identifier {found : Text} (hRead : identifier c = .ok found d) :
    d.rest.length < c.rest.length := by
  rw [identifier_apply] at hRead
  split at hRead
  · cases hRead
  · next hFound =>
    cases hRead
    have hShort := (List.takeWhile_prefix (l := c.skipBlanks.rest) isWord).length_le
    have hSkip := (Cursor.reaches_skipBlanks c).length_le
    have := List.length_pos_iff.mpr hFound
    rw [Cursor.rest_advance, List.length_drop]
    unfold word at *
    omega

end Reader

namespace Grammar

open Reader

variable {c d : Cursor}

theorem keyword_of_accept {word : Text} (hFound : accept (word ++ " ") c = .ok true d) :
    keyword word c = .ok true d := by
  unfold keyword
  rw [bind_of_ok hFound]
  rfl

/-- A keyword that no space follows may be followed by a line feed. -/
theorem keyword_of_accept_false {word : Text} (hMissed : accept (word ++ " ") c = .ok false d) :
    keyword word c = accept (word ++ "\n") d := by
  unfold keyword
  rw [bind_of_ok hMissed]
  rfl

/-- A probe for a literal answers; it never fails. -/
theorem accept_eq_ok (literal : Text) (c : Cursor) : ∃ b d, accept literal c = .ok b d := by
  rw [accept_apply]
  split
  · exact ⟨_, _, rfl⟩
  · exact ⟨_, _, rfl⟩

/-- A probe for a keyword answers; it never fails. -/
theorem keyword_eq_ok (word : Text) (c : Cursor) : ∃ b d, keyword word c = .ok b d := by
  obtain ⟨b, d, hSpace⟩ := accept_eq_ok (word ++ " ") c
  cases b with
  | true => exact ⟨true, d, keyword_of_accept hSpace⟩
  | false =>
    rw [keyword_of_accept_false hSpace]
    exact accept_eq_ok _ d

/-- A keyword is found if it stands behind the blanks, with a space or a line feed behind it. -/
theorem keyword_apply (word : Text) (c : Cursor) :
    keyword word c =
      if (word ++ " ").isPrefixOf c.skipBlanks.rest || (word ++ "\n").isPrefixOf c.skipBlanks.rest
      then .ok true (c.skipBlanks.advance (word.length + 1))
      else .ok false c.skipBlanks := by
  have hSpace := accept_apply (word ++ " ") c
  -- the second probe starts behind the blanks that the first one has passed
  by_cases hFound : (word ++ " ").isPrefixOf c.skipBlanks.rest = true
  · rw [if_pos hFound] at hSpace
    rw [keyword_of_accept hSpace, hFound, Bool.true_or, if_pos rfl, List.length_append]
    rfl
  · rw [if_neg hFound] at hSpace
    rw [Bool.not_eq_true] at hFound
    rw [keyword_of_accept_false hSpace, accept_apply, Cursor.skipBlanks_skipBlanks, hFound,
      Bool.false_or, List.length_append]
    rfl

/-- A keyword that was found stood there, and a space or a line feed behind it. -/
theorem exists_of_keyword {word : Text} (hRead : keyword word c = .ok true d) :
    ∃ x ∈ (" \n" : Text), word ++ [x] <+: c.skipBlanks.rest ∧
      d = c.skipBlanks.advance (word.length + 1) := by
  rw [keyword_apply] at hRead
  split at hRead
  · next hFound =>
    rw [Bool.or_eq_true, List.isPrefixOf_iff_prefix, List.isPrefixOf_iff_prefix] at hFound
    cases hRead
    rcases hFound with hSpace | hBreak
    · exact ⟨' ', by decide, hSpace, rfl⟩
    · exact ⟨'\n', by decide, hBreak, rfl⟩
  · cases hRead

/-- A probe that did not find its literal has passed the blanks and nothing else. -/
theorem eq_skipBlanks_of_accept {literal : Text} (hMissed : accept literal c = .ok false d) :
    d = c.skipBlanks := by
  rw [accept_apply] at hMissed
  split at hMissed
  · cases hMissed
  · cases hMissed
    rfl

/-- A probe that did not find its keyword has passed the blanks and nothing else. -/
theorem eq_skipBlanks_of_keyword {word : Text} (hMissed : keyword word c = .ok false d) :
    d = c.skipBlanks := by
  obtain ⟨b, m, hSpace⟩ := accept_eq_ok (word ++ " ") c
  cases b with
  | true =>
    rw [keyword_of_accept hSpace] at hMissed
    cases hMissed
  | false =>
    rw [keyword_of_accept_false hSpace] at hMissed
    rw [eq_skipBlanks_of_accept hMissed, eq_skipBlanks_of_accept hSpace,
      Cursor.skipBlanks_skipBlanks]

/-- The blanks before a keyword do not matter. -/
theorem keyword_skipBlanks (word : Text) (c : Cursor) :
    keyword word c.skipBlanks = keyword word c := by
  simp only [keyword, bind, EStateM.bind, accept_apply, Cursor.skipBlanks_skipBlanks]

/-- A choice by a keyword goes on behind the keyword, or behind the blanks if it is not there. -/
theorem keyword_choice {α : Type} (word : Text) (r s : Reader α) (c : Cursor) :
    (∃ m, keyword word c = .ok true m ∧ (do if ← keyword word then r else s) c = r m) ∨
    (keyword word c = .ok false c.skipBlanks ∧
      (do if ← keyword word then r else s) c = s c.skipBlanks) := by
  obtain ⟨b, m, hProbe⟩ := keyword_eq_ok word c
  cases b with
  | true => exact Or.inl ⟨m, hProbe, bind_of_ok hProbe⟩
  | false =>
    have hPlace := eq_skipBlanks_of_keyword hProbe
    subst hPlace
    exact Or.inr ⟨hProbe, bind_of_ok hProbe⟩

/-- A probe for a keyword passes the blanks and then the keyword, or nothing else. -/
theorem skips_keyword (word : Text) (c : Cursor) :
    c.skipBlanks.Reaches (stop (keyword word) c) := by
  have hSkips := skips_accept (word ++ " ") c
  obtain ⟨b, d, hSpace⟩ := accept_eq_ok (word ++ " ") c
  rw [stop_of_ok hSpace] at hSkips
  cases b with
  | true => rwa [stop_of_ok (keyword_of_accept hSpace)]
  | false =>
    have hBreak := skips_accept (word ++ "\n") d
    rw [stop, ← keyword_of_accept_false hSpace, ← stop] at hBreak
    exact (hSkips.trans (Cursor.reaches_skipBlanks d)).trans hBreak

/-- A keyword that was found was passed with the blank behind it. -/
theorem length_lt_of_keyword {word : Text} (hRead : keyword word c = .ok true d) :
    d.rest.length < c.rest.length := by
  obtain ⟨b, m, hSpace⟩ := accept_eq_ok (word ++ " ") c
  cases b with
  | true =>
    rw [keyword_of_accept hSpace] at hRead
    cases hRead
    exact length_lt_of_accept (by simp) hSpace
  | false =>
    rw [keyword_of_accept_false hSpace] at hRead
    have hLater := length_lt_of_accept (by simp) hRead
    have hSkip := (Cursor.reaches_skipBlanks c).length_le
    rw [eq_skipBlanks_of_accept hSpace] at hLater
    omega

end Grammar

end SchemaScript
