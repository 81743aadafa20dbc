import Mathlib.Data.List.Chain
import SchemaScript.Cursor.Request
import SchemaScript.Proofs.Grammar.Tokens

/-!
# Sessions with a cursor

A session puts one request after the other to a cursor, whatever the requests are and whether they
succeed. What each of them does to the cursor is told by `Request.Keeps`: the text stays, the cursor
only moves forward, and it does not move at all for a mere question. A request that does not find
what it asks for passes blanks at most, and its mismatch tells the place where it leaves the cursor.

`Reader.Cautious` says the same of readers, and every request is made of readers that are
(`Request.perform_cautious`). By induction, all outcomes of a session are told so
(`Request.session_disciplined`).
-/

namespace SchemaScript

open Text

/-! ## Readers that fail over blanks -/

namespace Reader

variable {α β : Type} {missed : α → Prop} {r : Reader α} {c d : Cursor}

/-- Whether a reader passes only blanks where it does not find what it looks for. What it gives in
that case, if it does not stop, is told by `missed`. -/
structure Cautious (missed : α → Prop) (r : Reader α) : Prop where
  forward : ∀ c : Cursor, c.Reaches (stop r c)
  missing : ∀ c x d, r c = .ok x d → missed x → c.PassesBlanks d
  failing : ∀ c m d, r c = .error (.mismatch m) d →
    c.PassesBlanks d ∧ m = .atCursor m.expected d ∧ (Grammar.isSearch m.expected = true → d = c)

/-- A reader is as cautious if what it gives is wrapped. -/
theorem Cautious.map {g : α → β} {missed' : β → Prop} (hCautious : Cautious missed r)
    (hMissed : ∀ x, missed' (g x) → missed x) :
    Cautious missed' (do return g (← r)) where
  forward c := by
    rw [stop_map]
    exact hCautious.forward c
  missing c y d hRead hMiss := by
    obtain ⟨x, hFirst, rfl⟩ := map_eq_ok_iff.mp hRead
    exact hCautious.missing c x d hFirst (hMissed x hMiss)
  failing c m d hFail := by
    cases hFirst : r c with
    | ok x d' =>
      rw [bind_of_ok hFirst] at hFail
      cases hFail
    | error e d' =>
      rw [bind_of_error hFirst] at hFail
      cases hFail
      exact hCautious.failing c m d hFirst

/-- A mismatch behind the blanks is told for the place where the cursor is left. -/
theorem failing_behind_blanks {expected : Expectation}
    (hPlace : Grammar.isSearch expected = false) (c : Cursor) :
    c.PassesBlanks c.skipBlanks ∧
      Mismatch.atCursor expected c.skipBlanks = .atCursor expected c.skipBlanks ∧
      (Grammar.isSearch expected = true → c.skipBlanks = c) := by
  refine ⟨Cursor.passesBlanks_skipBlanks c, rfl, fun hSearch => ?_⟩
  rw [hPlace] at hSearch
  cases hSearch

/-! ### Movements and questions -/

/-- A question does not move the cursor. -/
theorem cautious_look (f : Cursor → α) : Cautious missed (look f) where
  forward c := .refl c
  missing c x d hRead _ := by
    cases hRead
    exact .refl c
  failing c m d hFail := by cases hFail

/-- A movement that always succeeds needs only to go forward. -/
theorem cautious_take {f : Cursor → α × Cursor} (hForward : ∀ c : Cursor, c.Reaches (f c).2) :
    Cautious (fun _ => False) (take f) where
  forward := hForward
  missing c x d _ hMiss := hMiss.elim
  failing c m d hFail := by cases hFail

/-- Passing blanks passes blanks. -/
theorem cautious_skipBlanks (missed : Unit → Prop) : Cautious missed skipBlanks where
  forward := Cursor.reaches_skipBlanks
  missing c x d hRead _ := by
    cases hRead
    exact Cursor.passesBlanks_skipBlanks c
  failing c m d hFail := by cases hFail

/-- To see whether the end is reached, blanks are passed. -/
theorem cautious_atEnd (missed : Bool → Prop) : Cautious missed atEnd where
  forward := Cursor.reaches_skipBlanks
  missing c x d hRead _ := by
    cases hRead
    exact Cursor.passesBlanks_skipBlanks c
  failing c m d hFail := by cases hFail

/-! ### Literals and free text -/

/-- A literal that does not stand next is missed behind the blanks, and never a failure. -/
theorem cautious_accept (literal : Text) : Cautious (· = false) (accept literal) where
  forward c := (Cursor.reaches_skipBlanks c).trans (skips_accept literal c)
  missing c x d hRead hMiss := by
    subst hMiss
    -- a literal that was missed leaves the cursor behind the blanks
    rw [Grammar.eq_skipBlanks_of_accept hRead]
    exact Cursor.passesBlanks_skipBlanks c
  failing c m d hFail := by
    obtain ⟨b, d', hRead⟩ := Grammar.accept_eq_ok literal c
    rw [hRead] at hFail
    cases hFail

/-- A literal that is asked for is a mismatch behind the blanks. -/
theorem cautious_expect (literal : Text) : Cautious (fun _ => False) (expect literal) where
  forward c := (Cursor.reaches_skipBlanks c).trans (skips_expect literal c)
  missing c x d _ hMiss := hMiss.elim
  failing c m d hFail := by
    rw [expect_apply] at hFail
    split at hFail
    · cases hFail
    · cases hFail
      exact failing_behind_blanks rfl c

/-- A search that comes to nothing leaves the cursor where it was. -/
theorem cautious_takeUntil (delimiter : Text) (inclusive : Bool) :
    Cautious (fun _ => False) (takeUntil delimiter inclusive) where
  forward := reaches_stop_takeUntil delimiter inclusive
  missing c x d _ hMiss := hMiss.elim
  failing c m d hFail := by
    rw [takeUntil_apply] at hFail
    split at hFail
    · cases hFail
    · cases hFail
      exact ⟨.refl c, rfl, fun _ => rfl⟩

/-- Parameters fail by their search, or by rules with an empty separator. -/
theorem cautious_parameters (rules : Parameters.Rules) :
    Cautious (fun _ => False) (parameters rules) where
  forward := reaches_stop_parameters rules
  missing c x d _ hMiss := hMiss.elim
  failing c m d hFail := by
    rw [parameters_apply] at hFail
    split at hFail
    · cases hFail
      exact ⟨.refl c, rfl, fun _ => rfl⟩
    · -- decoding fails by the rules alone, which is no mismatch
      split at hFail <;> cases hFail

/-! ### Names and numbers -/

/-- A word is missed behind the blanks. -/
theorem cautious_identifier : Cautious (fun _ => False) identifier where
  forward c := (Cursor.reaches_skipBlanks c).trans (skips_identifier c)
  missing c x d _ hMiss := hMiss.elim
  failing c m d hFail := by
    rw [identifier_apply] at hFail
    split at hFail
    · cases hFail
      exact failing_behind_blanks rfl c
    · cases hFail

/-- A number is missed behind the blanks. -/
theorem cautious_number : Cautious (fun _ => False) number where
  forward c := (Cursor.reaches_skipBlanks c).trans (skips_number c)
  missing c x d _ hMiss := hMiss.elim
  failing c m d hFail := by
    rw [number_apply] at hFail
    split at hFail
    · cases hFail
      exact failing_behind_blanks rfl c
    · cases hFail

/-- A name is missed where its first word is. -/
theorem cautious_qualifiedName : Cautious (fun _ => False) qualifiedName where
  forward c := (Cursor.reaches_skipBlanks c).trans (skips_qualifiedName c)
  missing c x d _ hMiss := hMiss.elim
  failing c m d hFail := by
    cases hFirst : identifier c with
    | error e d' =>
      rw [qualifiedName_of_error hFirst] at hFail
      cases hFail
      exact cautious_identifier.failing c m d hFirst
    | ok first d' =>
      rw [qualifiedName_of_ok hFirst] at hFail
      split at hFail <;> cases hFail

/-- A probe for a name answers; it never fails. -/
theorem qualifiedName?_eq_ok (c : Cursor) : ∃ q d, qualifiedName? c = .ok q d := by
  rw [qualifiedName?_apply]
  split
  · next hStarts =>
    -- where a word starts, a name is read
    have hWord : word c.skipBlanks.skipBlanks.rest ≠ [] := by
      rw [Cursor.skipBlanks_skipBlanks, Ne, word_eq_nil_iff, hStarts]
      decide
    have hFirst := identifier_apply c.skipBlanks
    rw [if_neg hWord] at hFirst
    have hName := qualifiedName_of_ok hFirst
    split at hName <;> exact ⟨_, _, bind_of_ok hName⟩
  · exact ⟨none, _, rfl⟩

/-- A probe for a name that is declined has passed the blanks. -/
theorem cautious_qualifiedName? : Cautious (· = none) qualifiedName? where
  forward c := (Cursor.reaches_skipBlanks c).trans (skips_qualifiedName? c)
  missing c x d hRead hMiss := by
    subst hMiss
    rw [qualifiedName?_apply] at hRead
    split at hRead
    · exact absurd hRead map_some_ne_none
    · cases hRead
      exact Cursor.passesBlanks_skipBlanks c
  failing c m d hFail := by
    obtain ⟨q, d', hRead⟩ := qualifiedName?_eq_ok c
    rw [hRead] at hFail
    cases hFail

end Reader

/-! ## Requests -/

/-- Whether a reply tells that what was probed for does not stand next. -/
def Reply.Declines (reply : Reply) : Prop := reply = .flag false ∨ reply = .name? none

namespace Request

/-- Whether a request asks something of the cursor and nothing else. -/
def asks : Request → Bool
  | peek _ | remaining | context | describe => true
  | _ => false

/-- What a request does to a cursor, with its outcome and the cursor after it. -/
structure Keeps (request : Request) (c : Cursor) (outcome : Except Halt Reply) (d : Cursor) :
    Prop where
  text : d.text = c.text
  /-- the cursor does not move back -/
  forward : c.pos ≤ d.pos
  within : d.pos ≤ d.text.length
  /-- a question leaves the cursor where it is -/
  asked : request.asks = true → d = c
  /-- a probe that is declined passes blanks at most -/
  declined : ∀ reply, outcome = .ok reply → reply.Declines → c.PassesBlanks d
  /-- so does a request that fails, which then tells where the cursor is -/
  failed : ∀ m, outcome = .error (.mismatch m) →
    c.PassesBlanks d ∧ m.position = d.pos ∧ m.context = d.context
  /-- a search that fails leaves the cursor where it is -/
  unfound : ∀ m delimiter, outcome = .error (.mismatch m) → m.expected = .delimiter delimiter →
    d = c

/-- Whatever is requested, the cursor is moved by a cautious reader. -/
theorem perform_cautious (request : Request) :
    Reader.Cautious Reply.Declines request.perform := by
  cases request with
  | accept literal =>
    refine (Reader.cautious_accept literal).map fun b hMiss => ?_
    simpa [Reply.Declines] using hMiss
  | expect literal => exact (Reader.cautious_expect literal).map (by simp [Reply.Declines])
  | takeUntil delimiter inclusive =>
    exact (Reader.cautious_takeUntil delimiter inclusive).map (by simp [Reply.Declines])
  | takeRest =>
    have hForward : ∀ c : Cursor, c.Reaches c.takeRest.2 := fun c => Cursor.reaches_advance _ c
    exact (Reader.cautious_take hForward).map (by simp [Reply.Declines])
  | parameters rules => exact (Reader.cautious_parameters rules).map (by simp [Reply.Declines])
  | identifier => exact Reader.cautious_identifier.map (by simp [Reply.Declines])
  | qualifiedName => exact Reader.cautious_qualifiedName.map (by simp [Reply.Declines])
  | qualifiedName? =>
    refine Reader.cautious_qualifiedName?.map fun q hMiss => ?_
    simpa [Reply.Declines] using hMiss
  | number => exact Reader.cautious_number.map (by simp [Reply.Declines])
  -- the others pass blanks at most, whatever they reply
  | skipBlanks => exact (Reader.cautious_skipBlanks fun _ => True).map fun _ _ => trivial
  | atEnd => exact (Reader.cautious_atEnd fun _ => True).map fun _ _ => trivial
  | peek n => exact (Reader.cautious_look _).map fun _ _ => trivial
  | remaining => exact (Reader.cautious_look _).map fun _ _ => trivial
  | context => exact (Reader.cautious_look _).map fun _ _ => trivial
  | describe => exact (Reader.cautious_look _).map fun _ _ => trivial

/-- A question leaves the cursor where it is, whatever the cursor. -/
theorem outcome_of_asks {request : Request} (hAsks : request.asks = true) (c : Cursor) :
    (request.outcome c).2 = c := by
  cases request with
  | peek n | remaining | context | describe => rfl
  | _ => cases hAsks

/-- What every request does to every cursor. -/
theorem keeps (request : Request) (c : Cursor) :
    request.Keeps c (request.outcome c).1 (request.outcome c).2 := by
  have hCautious := perform_cautious request
  have hReach := hCautious.forward c
  have hAsked : request.asks = true → (request.outcome c).2 = c := fun hAsks =>
    outcome_of_asks hAsks c
  unfold outcome at hAsked ⊢
  -- a reply tells what was declined, a halt what was missed
  cases hRead : request.perform c with
  | ok reply d =>
    rw [Reader.stop_of_ok hRead] at hReach
    rw [hRead] at hAsked
    exact
      { text := hReach.text_eq
        forward := hReach.pos_le
        within := d.pos_le_length
        asked := hAsked
        declined := by
          rintro _ ⟨⟩ hDeclines
          exact hCautious.missing c reply d hRead hDeclines
        failed := by
          rintro m ⟨⟩
        unfound := by
          rintro m delimiter ⟨⟩ }
  | error e d =>
    rw [Reader.stop_of_error hRead] at hReach
    rw [hRead] at hAsked
    exact
      { text := hReach.text_eq
        forward := hReach.pos_le
        within := d.pos_le_length
        asked := hAsked
        declined := by
          rintro reply ⟨⟩
        failed := by
          rintro m ⟨⟩
          obtain ⟨hBlanks, hPlace, -⟩ := hCautious.failing c m d hRead
          exact ⟨hBlanks, congrArg Mismatch.position hPlace, congrArg Mismatch.context hPlace⟩
        unfound := by
          rintro m delimiter ⟨⟩ hSearch
          refine (hCautious.failing c m d hRead).2.2 ?_
          rw [hSearch]
          rfl }

/-! ## Sessions -/

/-- Whether outcomes are those of requests that are put to a cursor one after the other, each of
which does to the cursor what it may. -/
inductive Disciplined : List Request → Cursor → List (Except Halt Reply × Cursor) → Prop
  | done (c : Cursor) : Disciplined [] c []
  | next {request : Request} {requests : List Request} {c d : Cursor}
      {outcome : Except Halt Reply} {outcomes : List (Except Halt Reply × Cursor)}
      (hKeeps : request.Keeps c outcome d) (hLater : Disciplined requests d outcomes) :
      Disciplined (request :: requests) c ((outcome, d) :: outcomes)

/-- Every outcome of a session is that of a request, so each of them keeps what it must. -/
theorem disciplined_session (requests : List Request) (c : Cursor) :
    Disciplined requests c (session requests c) := by
  induction requests generalizing c with
  | nil => exact .done c
  | cons request requests ih => exact .next (request.keeps c) (ih _)

section

variable {requests : List Request} {c : Cursor} {outcomes : List (Except Halt Reply × Cursor)}

theorem Disciplined.length_eq (hDisciplined : Disciplined requests c outcomes) :
    outcomes.length = requests.length := by
  induction hDisciplined with
  | done c => rfl
  | next _ _ ih => rw [List.length_cons, List.length_cons, ih]

/-- The text stays, and the cursor stays within it. -/
theorem Disciplined.within (hDisciplined : Disciplined requests c outcomes) :
    ∀ o ∈ outcomes, o.2.text = c.text ∧ o.2.pos ≤ c.text.length := by
  induction hDisciplined with
  | done c => simp
  | next hKeeps _ ih =>
    have hHere := hKeeps.within
    -- the text of the next cursor is the same, so the bound is that of the first one
    rw [hKeeps.text] at hHere
    refine List.forall_mem_cons.mpr ⟨⟨hKeeps.text, hHere⟩, fun o hMem => ?_⟩
    rw [← hKeeps.text]
    exact ih o hMem

/-- The cursor never moves back. -/
theorem Disciplined.forward (hDisciplined : Disciplined requests c outcomes) :
    (c.pos :: outcomes.map fun o => o.2.pos).Pairwise (· ≤ ·) := by
  rw [← List.isChain_iff_pairwise]
  induction hDisciplined with
  | done c => exact List.isChain_singleton _
  | next hKeeps _ ih => exact List.isChain_cons_cons.mpr ⟨hKeeps.forward, ih⟩

end

/-- **A cursor is moved with care**, by whatever is requested of it. In every session over every
text, each request does to the cursor what it may and no more (`Keeps`), also behind requests that
failed. So the text never changes, and the places of the cursor lie within it and never go back. -/
theorem session_disciplined (script : Text) (requests : List Request) :
    Disciplined requests (.ofText script) (session requests (.ofText script)) ∧
      (session requests (.ofText script)).length = requests.length ∧
      (∀ o ∈ session requests (.ofText script),
        o.2.text = normalize script ∧ o.2.pos ≤ (normalize script).length) ∧
      (0 :: (session requests (.ofText script)).map fun o => o.2.pos).Pairwise (· ≤ ·) := by
  have hDisciplined := disciplined_session requests (.ofText script)
  exact ⟨hDisciplined, hDisciplined.length_eq, hDisciplined.within, hDisciplined.forward⟩

end Request

end SchemaScript
