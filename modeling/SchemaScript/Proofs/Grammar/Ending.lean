import SchemaScript.Proofs.Cursor.FreeText
import SchemaScript.Proofs.Grammar.Composed

/-!
# How statements end

A reader ends with one of some characters if that character is the last one it passed, whenever it
succeeds (`EndsWith`). What follows `CREATE` and `SET` ends with the semicolon, and the addition of
a constraint with the semicolon or the closing parenthesis, provided that parameters are terminated
by a semicolon.

The optional semicolon behind an alteration is the one place where a statement may also end with
blanks. `clause?` is a directive up to there (`directive?_eq`), and it ends with a character for
certain (`clause?_ends`).
-/

namespace SchemaScript.Grammar

open Reader

variable {α β : Type}

/-- The last character that was passed is one of these. -/
def Ends (ends : Text) (d : Cursor) : Prop := ∃ x ∈ ends, d.seen.head? = some x

/-- Whether a reader ends with one of these characters whenever it succeeds. -/
def EndsWith (ends : Text) (r : Reader α) : Prop := ∀ c x d, r c = .ok x d → Ends ends d

section

variable {ends : Text}

/-- A sequence ends as its last part does. -/
theorem EndsWith.bind {r : Reader α} {f : α → Reader β} (hThen : ∀ x, EndsWith ends (f x)) :
    EndsWith ends (r >>= f) := by
  intro c y d hRead
  obtain ⟨x, m, -, hLater⟩ := bind_eq_ok_iff.mp hRead
  exact hThen x m y d hLater

/-- What is made of the answer does not matter. -/
theorem EndsWith.map {r : Reader α} (hEnds : EndsWith ends r) (f : α → β) :
    EndsWith ends (do return f (← r)) := by
  intro c y d hRead
  obtain ⟨x, hLater, -⟩ := map_eq_ok_iff.mp hRead
  exact hEnds c x d hLater

/-- A reader that never succeeds ends with anything. -/
theorem EndsWith.fail (expected : Expectation) :
    EndsWith ends (Reader.fail expected : Reader α) := by
  intro c x d hRead
  cases hRead

/-- A choice ends with one of the characters if both its branches do. -/
theorem EndsWith.choice {probe : Reader Bool} {r s : Reader α} (hThen : EndsWith ends r)
    (hElse : EndsWith ends s) : EndsWith ends (do if ← probe then r else s) := by
  refine .bind fun found => ?_
  cases found with
  | true => exact hThen
  | false => exact hElse

theorem EndsWith.mono {r : Reader α} (hEnds : EndsWith ends r) (more : Text)
    (hMore : ends ⊆ more) : EndsWith more r := by
  intro c x d hRead
  obtain ⟨last, hMem, hHead⟩ := hEnds c x d hRead
  exact ⟨last, hMore hMem, hHead⟩

end

/-! ## Single characters -/

/-- Behind a text that was found and passed together with its delimiter stands the delimiter. -/
theorem ends_of_takeUntil? {x : Char} {c d : Cursor} {found : Text} (hBreak : x ≠ '\n')
    (hFound : c.takeUntil? [x] true = some (found, d)) : Ends [x] d := by
  have hMem : x ∈ c.rest := by
    by_contra hMissing
    rw [Cursor.takeUntil?_eq_none_iff.mpr hMissing] at hFound
    cases hFound
  -- the text passed ends with the delimiter, since that is no line feed
  obtain ⟨before, behind, -, hRest, hTake⟩ := Cursor.exists_takeUntil?_of_mem hBreak hMem true
  rw [hTake] at hFound
  obtain ⟨-, rfl⟩ := Prod.mk.inj (Option.some.inj hFound)
  refine ⟨x, List.mem_singleton_self x, ?_⟩
  show (c.advance (before.length + 1)).seen.head? = some x
  rw [Cursor.advance_of_eq hRest]
  rfl

theorem endsWith_takeUntil {x : Char} (hBreak : x ≠ '\n') :
    EndsWith [x] (takeUntil [x] true) := by
  intro c found d hRead
  rw [takeUntil_apply] at hRead
  split at hRead
  · next hFound =>
    cases hRead
    exact ends_of_takeUntil? hBreak hFound
  · cases hRead

/-- Parameters are passed with their terminator. -/
theorem endsWith_parameters {rules : Parameters.Rules} (hTerminator : rules.terminator = ";") :
    EndsWith ";" (parameters rules) := by
  intro c p d hRead
  rw [parameters_apply, hTerminator] at hRead
  -- the terminator is passed before the parameters are decoded
  split at hRead
  · cases hRead
  · next hFound =>
    split at hRead
    · cases hRead
      exact ends_of_takeUntil? (by decide) hFound
    · cases hRead

theorem endsWith_expect (x : Char) : EndsWith [x] (expect [x]) := by
  intro c found d hRead
  rw [expect_apply] at hRead
  split at hRead
  · next hNext =>
    cases hRead
    exact ⟨x, List.mem_singleton_self x,
      Cursor.head?_seen_advance_one (Text.isPrefixOf_singleton_iff.mp hNext)⟩
  · cases hRead

/-! ## Clauses -/

theorem endsWith_inParentheses : EndsWith ")" inParentheses := by
  refine .bind fun _ => .bind fun content => ?_
  exact (endsWith_expect ')').map _

section

variable {book : Rulebook} (hTerminators : ∀ construct, (book construct).terminator = ";")

include hTerminators

theorem endsWith_foreignKey (name : QualifiedName) : EndsWith ";" (foreignKey book name) := by
  refine .bind fun _ => .bind fun _ => .bind fun _ => .bind fun _ => ?_
  exact (endsWith_parameters (hTerminators .foreignKey)).map _

/-- A foreign key has parameters at its end, and the other kinds a closing parenthesis. -/
theorem endsWith_constraintKind (name : QualifiedName) :
    EndsWith ";)" (constraintKind book name) := by
  have hParentheses : EndsWith ";)" inParentheses := endsWith_inParentheses.mono _ (by decide)
  have hForeign := (endsWith_foreignKey hTerminators name).mono ";)" (by decide)
  exact .choice (hParentheses.map _)
    (.choice hForeign (.choice (hParentheses.map _) (.fail _)))

/-- Every creation ends with the terminator of its parameters, or with that of the query of a view.
-/
theorem endsWith_creation : EndsWith ";" (creation book) := by
  have hDatabase : EndsWith ";" (database book) :=
    .bind fun _ => (endsWith_parameters (hTerminators .database)).map _
  have hTablespace : EndsWith ";" (tablespace book) :=
    .bind fun _ => .bind fun _ => .bind fun _ =>
      (endsWith_parameters (hTerminators .tablespace)).map _
  have hTable : EndsWith ";" (table book) :=
    .bind fun _ => .bind fun _ => .bind fun _ => .bind fun _ => .bind fun _ => .bind fun _ =>
      (endsWith_parameters (hTerminators .table)).map _
  have hIndex : ∀ unique, EndsWith ";" (index book unique) := fun _ =>
    .bind fun _ => .bind fun _ => .bind fun _ => .bind fun _ =>
      (endsWith_parameters (hTerminators .index)).map _
  have hView : EndsWith ";" view :=
    .bind fun _ => .bind fun _ => (endsWith_takeUntil (by decide)).map _
  -- in the order in which the keywords are tried
  exact .choice hDatabase (.choice hTablespace (.choice hTable
    (.choice (.choice (hIndex true) (.fail _)) (.choice (hIndex false)
      (.choice hView (.fail _))))))

/-- An added constraint ends with the terminator of its parameters or with a parenthesis. -/
theorem endsWith_addition : EndsWith ";)" (addition book) := by
  refine .choice (.bind fun target => .choice ?_ (.fail _)) (.fail _)
  -- a table is followed by `constraint?`, which may have found none
  intro c added d hRead
  obtain ⟨found, m, hConstraint, hRest⟩ := bind_eq_ok_iff.mp hRead
  cases found with
  | none => cases hRest
  | some constraint =>
    -- nothing is read behind the constraint
    cases hRest
    unfold constraint? at hConstraint
    obtain ⟨isConstraint, m', -, hKind⟩ := bind_eq_ok_iff.mp hConstraint
    cases isConstraint with
    | true =>
      have hEnds : EndsWith ";)" (do
          return some (← constraintKind book (← Reader.qualifiedName))) :=
        .bind fun name => (endsWith_constraintKind hTerminators name).map some
      exact hEnds m' (some constraint) _ hKind
    | false => cases hKind

end

theorem endsWith_setting : EndsWith ";" setting :=
  .bind fun _ => .bind fun _ => (endsWith_takeUntil (by decide)).map _

/-! ## Directives up to the optional semicolon -/

/-- Takes a directive if one starts at the cursor, but for the semicolon that may stand behind an
alteration. The truth value tells whether one may. -/
def clause? (book : Rulebook) : Reader (Option (Statement × Bool)) := do
  if ← keyword "CREATE" then
    return some (← creation book, false)
  else if ← keyword "ALTER" then
    let added ← addition book
    return some (.addConstraint added.1 added.2, true)
  else if ← keyword "SET" then
    return some (← setting, false)
  else
    return none

/-- What is done behind a clause. -/
def closing : Option (Statement × Bool) → Reader (Option Statement)
  | some (s, true) => do
    let _ ← Reader.accept ";"
    return some s
  | some (s, false) => return some s
  | none => return none

theorem composed_clause? (book : Rulebook) : Composed book (clause? book) :=
  .choice (.keyword rfl) (.map composed_creation _)
    (.choice (.keyword rfl) (.bind composed_addition fun _ => .pure _)
      (.choice (.keyword rfl) (.map (composed_setting book) _) (.pure _)))

/-- A directive is a clause with what is done behind it. -/
theorem directive?_eq (book : Rulebook) : directive? book = clause? book >>= closing := by
  unfold directive? clause?
  rw [alteration_eq]
  simp only [bind_assoc, choice_bind, pure_bind]
  rfl

/-- A clause ends with a semicolon or a parenthesis. -/
theorem clause?_ends {book : Rulebook}
    (hTerminators : ∀ construct, (book construct).terminator = ";") {c d : Cursor}
    {clause : Statement × Bool} (hRead : clause? book c = .ok (some clause) d) : Ends ";)" d := by
  have hCreation := (endsWith_creation hTerminators).mono ";)" (by decide)
  have hSetting := endsWith_setting.mono ";)" (by decide)
  unfold clause? at hRead
  -- one case for each keyword; without any of them there is no clause
  obtain ⟨isCreation, m, -, hRead⟩ := bind_eq_ok_iff.mp hRead
  cases isCreation with
  | true => exact (hCreation.map fun s => some (s, false)) m _ d hRead
  | false =>
    obtain ⟨isAlteration, m, -, hRead⟩ := bind_eq_ok_iff.mp hRead
    cases isAlteration with
    | true =>
      exact ((endsWith_addition hTerminators).map fun added =>
        some (Statement.addConstraint added.1 added.2, true)) m _ d hRead
    | false =>
      obtain ⟨isSetting, m, -, hRead⟩ := bind_eq_ok_iff.mp hRead
      cases isSetting with
      | true => exact (hSetting.map fun s => some (s, false)) m _ d hRead
      | false => cases hRead

end SchemaScript.Grammar
