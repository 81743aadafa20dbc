import SchemaScript.Proofs.Text.Normal

/-!
# Laws of layout

Clean texts are the normal forms of layout. What is cut out of a normalized script becomes clean
when it is trimmed, and a clean text is left as it is by `normalize` and by `trim`. On texts of
every kind neither function does more when it is used again (`normalize_normalize`, `trim_trim`).

Trimming is about blanks alone: it keeps all the other characters, in their order
(`nonblanks_trim`). Normalizing goes line by line, so that scripts may be normalized before or after
they are put together (`normalize_append`).

All of this together is `layout_normalForm`.
-/

namespace SchemaScript.Text

/-! ## What trimming keeps -/

/-- The characters of a text that are no blanks, in their order. -/
def nonblanks (t : Text) : Text := t.filter fun c => !isBlank c

theorem nonblanks_append (s t : Text) : nonblanks (s ++ t) = nonblanks s ++ nonblanks t :=
  List.filter_append ..

/-- A character that is no blank is kept at the head. -/
theorem nonblanks_cons_of_nonblank {c : Char} (hBlank : isBlank c = false) (t : Text) :
    nonblanks (c :: t) = c :: nonblanks t :=
  List.filter_cons_of_pos (by simp [hBlank])

/-- Of a run of blanks nothing is kept. -/
theorem nonblanks_eq_nil {t : Text} (hBlank : ∀ c ∈ t, isBlank c = true) : nonblanks t = [] := by
  rw [nonblanks, List.filter_eq_nil_iff]
  intro c hMem
  simp [hBlank c hMem]

theorem nonblanks_eq_self {t : Text} (hNone : ∀ c ∈ t, isBlank c = false) : nonblanks t = t := by
  rw [nonblanks, List.filter_eq_self]
  intro c hMem
  simp [hNone c hMem]

theorem nonblanks_reverse (t : Text) : nonblanks t.reverse = (nonblanks t).reverse :=
  List.filter_reverse ..

/-- The blanks before a text do not count. -/
theorem nonblanks_dropWhile (t : Text) : nonblanks (t.dropWhile isBlank) = nonblanks t := by
  have hBefore : nonblanks (t.takeWhile isBlank) = [] :=
    nonblanks_eq_nil fun c hMem => List.all_eq_true.mp List.all_takeWhile c hMem
  -- the text is what was dropped and what is left, and only the latter counts
  have hSplit := nonblanks_append (t.takeWhile isBlank) (t.dropWhile isBlank)
  rw [List.takeWhile_append_dropWhile, hBefore, List.nil_append] at hSplit
  exact hSplit.symm

/-- Stripping takes blanks away at both ends, and nothing else. -/
theorem nonblanks_strip (t : Text) : nonblanks (strip t) = nonblanks t := by
  rw [strip, stripEnd, nonblanks_reverse, nonblanks_dropWhile, nonblanks_reverse,
    List.reverse_reverse, stripStart, nonblanks_dropWhile]

/-- A run of blanks is closed with blanks: with itself or with one space. -/
theorem nonblanks_closeRun {run : Text} (hRun : ∀ c ∈ run, isBlank c = true) :
    nonblanks (closeRun run) = [] := by
  refine nonblanks_eq_nil fun c hMem => ?_
  rcases mem_closeRun hMem with rfl | hThere
  · decide
  · exact hRun c hThere

/-- Folding lines works on the runs of blanks alone. The run that is open is blank, and stays so. -/
theorem nonblanks_foldLines {run : Text} (hRun : ∀ c ∈ run, isBlank c = true) (t : Text) :
    nonblanks (foldLines run t) = nonblanks t := by
  -- along the text; the open run goes along as an arbitrary run of blanks
  induction t generalizing run with
  | nil => exact nonblanks_closeRun hRun
  | cons c t ih =>
    rw [foldLines]
    split
    · next hBlank =>
      -- the blank has joined the run
      have hHere : nonblanks (c :: t) = nonblanks t :=
        List.filter_cons_of_neg (by simp [hBlank])
      rw [hHere]
      exact ih (List.forall_mem_cons.mpr ⟨hBlank, hRun⟩)
    · next hBlank =>
      -- the run ends here, is closed with blanks, and the next one starts empty
      rw [Bool.not_eq_true] at hBlank
      rw [nonblanks_append, nonblanks_closeRun hRun, List.nil_append,
        nonblanks_cons_of_nonblank hBlank, nonblanks_cons_of_nonblank hBlank, ih (by simp)]

/-- Trimming keeps all characters but blanks, in their order. -/
theorem nonblanks_trim (t : Text) : nonblanks (trim t) = nonblanks t := by
  rw [trim, nonblanks_foldLines (by simp), nonblanks_strip]

/-! ## Doing it again -/

/-- A normalized script is normalized. -/
theorem normalize_normalize (t : Text) : normalize (normalize t) = normalize t :=
  normalize_of_spaced (spaced_normalize t)

/-- A trimmed text is trimmed, also if it is not clean. -/
theorem trim_trim (t : Text) : trim (trim t) = trim t :=
  trim_eq_self (fun _ => isBlank_of_head?_trim) (fun _ => isBlank_of_getLast?_trim)
    (not_mem_break_foldLines [] (strip t))

/-! ## Normal forms -/

/-- **Layout has normal forms**, and they are the clean texts. Each piece of a normalized script is
clean once it is trimmed and has kept its characters but for blanks, a clean text is not changed any
more, and neither is any text by doing the same again. A script that ends its last line is
normalized apart from what follows it. -/
theorem layout_normalForm :
    (∀ script piece, piece <:+: normalize script →
      Clean (trim piece) ∧ nonblanks (trim piece) = nonblanks piece) ∧
    (∀ t, Clean t → normalize t = t ∧ trim t = t) ∧
    (∀ t, normalize (normalize t) = normalize t ∧ trim (trim t) = trim t) ∧
    ∀ a b, EndsLine a → normalize (a ++ b) = normalize a ++ normalize b := by
  refine ⟨fun script piece hInfix => ?_, fun t hClean => ?_, fun t => ?_, fun a b hLine => ?_⟩
  · -- a piece has no wider gaps than the script it is cut out of
    have hSpaced := Spaced.of_infix (spaced_normalize script) hInfix
    exact ⟨clean_trim hSpaced, nonblanks_trim piece⟩
  · exact ⟨normalize_of_clean hClean, trim_of_clean hClean⟩
  · exact ⟨normalize_normalize t, trim_trim t⟩
  · exact normalize_append hLine b

/-- A piece with a vertical tab before its line feed, a text with one space, and a line that ends in
a tab. -/
theorem layout_normalForm_mixed :
    ("a \u000b\n b" : Text) <:+: normalize "\ta \x0d\u000b\n\t b;" ∧
      (Clean (trim "a \u000b\n b") ∧ nonblanks (trim "a \u000b\n b") = nonblanks "a \u000b\n b") ∧
      Clean "a b" ∧ (normalize "a b" = "a b" ∧ trim "a b" = "a b") ∧
      EndsLine "a\t\n" ∧ normalize ("a\t\n" ++ "\tb") = normalize "a\t\n" ++ normalize "\tb" := by
  have hInfix : ("a \u000b\n b" : Text) <:+: normalize "\ta \x0d\u000b\n\t b;" := by
    decide +kernel
  have hClean : Clean "a b" := by decide +kernel
  obtain ⟨hPieces, hFixed, -, hLines⟩ := layout_normalForm
  exact ⟨hInfix, hPieces _ _ hInfix, hClean, hFixed _ hClean, rfl, hLines _ _ rfl⟩

end SchemaScript.Text
