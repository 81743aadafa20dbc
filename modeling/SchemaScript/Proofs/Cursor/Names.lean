import SchemaScript.Proofs.Cursor.Reads
import SchemaScript.Proofs.Text.Layout

/-!
# Reading names

A name is read wherever a word stands next, behind blanks or not, and what is read is settled by the
text alone. The first word is the scope if a point and another word go on with it (`Text.GoesOn`),
and is the name otherwise, so that a point without a word behind it stays where it is. Either way
what was passed is the written name, but for blanks (`Cursor.NameBetween`).

So a name that is written is read again, and nothing behind it is touched, exactly if nothing goes
on with it (`Reader.qualifiedName_spells`).
-/

namespace SchemaScript

open Text

/-- What a name that was read tells of the two places around it. -/
structure Cursor.NameBetween (c : Cursor) (q : QualifiedName) (d : Cursor) : Prop where
  reaches : c.Reaches d
  /-- what was passed is the written name, but for blanks -/
  spelled : nonblanks (c.text.extract c.pos d.pos) = q.render
  proper : q.Proper
  ends : startsWord d.rest = false
  /-- the first word is the name unless the text behind it goes on -/
  unscoped : q.scope = none ↔ ¬ GoesOn ((c.rest.dropWhile isBlank).dropWhile isWord)

namespace Reader

variable {c d : Cursor}

/-! ## What is read -/

/-- What is read of the text behind the blanks is read of the whole text. -/
theorem exists_reaches_of_reads {left : Text} {q : QualifiedName}
    (hRead : Reads qualifiedName (c.rest.dropWhile isBlank) q left) :
    ∃ d, qualifiedName c = .ok q d ∧ c.Reaches d ∧ d.rest = left := by
  obtain ⟨seen, hOk⟩ := Reads.of_skipBlanks qualifiedName_skipBlanks hRead c.seen
  have hReach := skips_qualifiedName c
  rw [stop_of_ok hOk] at hReach
  exact ⟨_, hOk, (Cursor.reaches_skipBlanks c).trans hReach, rfl⟩

theorem nonblanks_extract (hReach : c.Reaches d) {passed : Text}
    (hNext : c.rest.dropWhile isBlank = passed ++ d.rest) :
    nonblanks (c.text.extract c.pos d.pos) = nonblanks passed := by
  have hSplit : c.rest = (c.rest.takeWhile isBlank ++ passed) ++ d.rest := by
    rw [List.append_assoc, ← hNext, List.takeWhile_append_dropWhile]
  rw [hReach.extract_eq hSplit, nonblanks_append,
    nonblanks_eq_nil fun x hMem => List.all_eq_true.mp List.all_takeWhile x hMem, List.nil_append]

/-- Where a word stands next, a name is read. -/
theorem exists_nameBetween (hStarts : startsWord (c.rest.dropWhile isBlank) = true) :
    ∃ q d, qualifiedName c = .ok q d ∧ c.NameBetween q d := by
  have hFirst : IsName (word (c.rest.dropWhile isBlank)) := by
    refine isName_word fun hNone => ?_
    rw [word_eq_nil_iff.mp hNone] at hStarts
    cases hStarts
  have hSplit := word_append_dropWhile (c.rest.dropWhile isBlank)
  have hEnd := startsWord_dropWhile_isWord (c.rest.dropWhile isBlank)
  have hSpelled : ∀ {t}, IsName t → nonblanks t = t := fun hName =>
    nonblanks_eq_self hName.isBlank_eq_false
  by_cases hGoesOn : GoesOn ((c.rest.dropWhile isBlank).dropWhile isWord)
  · -- the first word is a scope, and the second word ends the name
    obtain ⟨before, between, behind, hBehind, hBefore, hBetween, hSecond⟩ := id hGoesOn
    have hName : IsName (word behind) := by
      refine isName_word fun hNone => ?_
      rw [word_eq_nil_iff.mp hNone] at hSecond
      cases hSecond
    have hLeft := startsWord_dropWhile_isWord behind
    rw [hBehind, ← word_append_dropWhile behind] at hSplit
    have hRead := reads_qualifiedName_scoped hFirst hBefore hBetween hName hLeft
    rw [hSplit] at hRead
    obtain ⟨d, hOk, hReach, hRest⟩ := exists_reaches_of_reads hRead
    refine ⟨_, d, hOk, ⟨hReach, ?_, ⟨hName, ?_⟩, hRest ▸ hLeft, by simpa using hGoesOn⟩⟩
    · have hPassed : c.rest.dropWhile isBlank = (word (c.rest.dropWhile isBlank) ++
          (before ++ '.' :: (between ++ word behind))) ++ d.rest := by
        rw [hRest, List.append_assoc, List.append_assoc, List.cons_append, List.append_assoc]
        exact hSplit.symm
      rw [nonblanks_extract hReach hPassed, QualifiedName.render_of_scope hFirst.1,
        nonblanks_append, nonblanks_append, nonblanks_cons_of_nonblank (by decide),
        nonblanks_append, nonblanks_eq_nil hBefore, nonblanks_eq_nil hBetween, hSpelled hFirst,
        hSpelled hName]
      rfl
    · rintro t ⟨⟩
      exact hFirst
  · -- the first word is the name, and nothing behind it is touched
    have hRead := reads_qualifiedName_bare hFirst hEnd hGoesOn
    rw [hSplit] at hRead
    obtain ⟨d, hOk, hReach, hRest⟩ := exists_reaches_of_reads hRead
    refine ⟨_, d, hOk, ⟨hReach, ?_, hFirst.proper, hRest ▸ hEnd, by simpa using hGoesOn⟩⟩
    rw [nonblanks_extract hReach (hRest ▸ hSplit.symm), hSpelled hFirst]
    rfl

/-- Where no word stands next, only the blanks are passed. -/
theorem qualifiedName_of_not_startsWord (hStarts : startsWord (c.rest.dropWhile isBlank) = false) :
    qualifiedName c = .error (.mismatch (.atCursor .identifier c.skipBlanks)) c.skipBlanks := by
  refine qualifiedName_of_error ?_
  rw [identifier_apply, Cursor.rest_skipBlanks, if_pos (word_eq_nil_iff.mpr hStarts)]

/-- Whatever name is read stands between the two places. -/
theorem nameBetween_of_ok {q : QualifiedName} (hRead : qualifiedName c = .ok q d) :
    c.NameBetween q d := by
  cases hStarts : startsWord (c.rest.dropWhile isBlank) with
  | false =>
    rw [qualifiedName_of_not_startsWord hStarts] at hRead
    cases hRead
  | true =>
    obtain ⟨q', d', hOk, hBetween⟩ := exists_nameBetween hStarts
    rw [hRead] at hOk
    cases hOk
    exact hBetween

/-! ## What is read of a written name -/

/-- A written name is read again exactly if nothing goes on with it. -/
theorem qualifiedName_render_iff {q : QualifiedName} {left : Text} (hProper : q.Proper)
    (hEnd : startsWord left = false) (seen : Text) :
    qualifiedName ⟨seen, q.render ++ left⟩ = .ok q ⟨q.render.reverse ++ seen, left⟩ ↔
      (q.scope = none → ¬ GoesOn left) := by
  constructor
  · intro hRead hNone
    have hUnscoped := (nameBetween_of_ok hRead).unscoped.mp hNone
    obtain ⟨name, scope⟩ := q
    obtain rfl : scope = none := hNone
    have hFirst : (name ++ left).dropWhile isBlank = name ++ left :=
      dropWhile_of_head? (hProper.name.first left)
    have hBehind : (name ++ left).dropWhile isWord = left := by
      rw [dropWhile_append_of_forall hProper.name.2]
      exact dropWhile_of_head? fun x hHead => by
        obtain ⟨behind, rfl⟩ := List.head?_eq_some_iff.mp hHead
        exact hEnd
    rwa [QualifiedName.render, hFirst, hBehind] at hUnscoped
  · intro hEnds
    obtain ⟨seen', hRead⟩ := reads_qualifiedName_render hProper hEnd hEnds seen
    have hReach := (nameBetween_of_ok hRead).reaches
    -- what is left settles how far the cursor went
    have hPlace : (⟨seen', left⟩ : Cursor) = ⟨q.render.reverse ++ seen, left⟩ :=
      Cursor.eq_of_text_eq (by rw [hReach.text_eq]; simp [Cursor.text]) rfl
    rw [hRead, hPlace]

/-- **Names are read exactly.** At every place, a name is read if a word stands next behind the
blanks, and then it is the one that stands between the two places. Otherwise only the blanks are
passed and no identifier is found. So a written name is read again, and nothing behind it is
touched, exactly if nothing goes on with it. -/
theorem qualifiedName_spells :
    (∀ c : Cursor,
      if startsWord (c.rest.dropWhile isBlank) then
        ∃ q d, qualifiedName c = .ok q d ∧ c.NameBetween q d
      else
        qualifiedName c = .error (.mismatch (.atCursor .identifier c.skipBlanks)) c.skipBlanks) ∧
    ∀ (q : QualifiedName) (left seen : Text), q.Proper → startsWord left = false →
      (qualifiedName ⟨seen, q.render ++ left⟩ = .ok q ⟨q.render.reverse ++ seen, left⟩ ↔
        (q.scope = none → ¬ GoesOn left)) := by
  refine ⟨fun c => ?_, fun q left seen hProper hEnd => qualifiedName_render_iff hProper hEnd seen⟩
  split
  · next hStarts => exact exists_nameBetween hStarts
  · next hStarts => exact qualifiedName_of_not_startsWord (by simpa using hStarts)

/-- A name with a scope in front of another point and word, which stay where they are. -/
theorem qualifiedName_spells_threeParts :
    QualifiedName.Proper ⟨"B", some "A"⟩ ∧ startsWord ".C D" = false ∧
      qualifiedName ⟨"x", "A.B.C D"⟩ = .ok ⟨"B", some "A"⟩ ⟨"B.Ax", ".C D"⟩ := by
  have hProper : QualifiedName.Proper ⟨"B", some "A"⟩ := by decide +kernel
  have hEnd : startsWord ".C D" = false := by decide
  refine ⟨hProper, hEnd, ?_⟩
  exact (qualifiedName_spells.2 ⟨"B", some "A"⟩ ".C D" "x" hProper hEnd).mpr (by simp)

end Reader

end SchemaScript
