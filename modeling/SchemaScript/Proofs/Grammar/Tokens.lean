import SchemaScript.Proofs.Grammar.Progress

/-!
# The tokens of a statement

What the grammar takes of a text are tokens, which are literals, keywords, words, numbers and free
texts. `Spells` is the judgment that a reader takes given tokens, with one rule for each part that
the grammar is composed of. A reader that succeeds takes some tokens (`Composed.exists_spells`), and
whichever they are, nothing but blanks stands between them (`Spells.laid`).

So what stands behind a token is known from the next one (`Laid.startsWord_iff`). A keyword is taken
only with a space or a line feed behind it (`Spells.stands`). A literal is taken wherever it stands,
so that a word may follow it without a gap.
-/

namespace SchemaScript

open Text Reader

/-! ## Blanks between two places -/

namespace Cursor

/-- Whether a cursor gets to another one by passing blanks. -/
def PassesBlanks (c d : Cursor) : Prop :=
  ∃ passed, (∀ x ∈ passed, isBlank x = true) ∧ c.rest = passed ++ d.rest ∧
    d.seen = passed.reverse ++ c.seen

variable {b c d : Cursor}

/-- No blanks at all are passed. -/
theorem PassesBlanks.refl (c : Cursor) : c.PassesBlanks c := ⟨[], by simp, rfl, rfl⟩

/-- Blanks behind blanks are blanks. -/
theorem PassesBlanks.trans (hFirst : b.PassesBlanks c) (hSecond : c.PassesBlanks d) :
    b.PassesBlanks d := by
  obtain ⟨first, hBlank, hRest, hSeen⟩ := hFirst
  obtain ⟨second, hBlank', hRest', hSeen'⟩ := hSecond
  refine ⟨first ++ second, ?_, ?_, ?_⟩
  · intro x hMem
    rcases List.mem_append.mp hMem with hBefore | hBehind
    · exact hBlank x hBefore
    · exact hBlank' x hBehind
  · rw [hRest, hRest', List.append_assoc]
  · rw [hSeen', hSeen, List.reverse_append, List.append_assoc]

/-- Skipping the blanks passes them. -/
theorem passesBlanks_skipBlanks (c : Cursor) : c.PassesBlanks c.skipBlanks := by
  refine ⟨c.rest.takeWhile isBlank, fun x hMem => List.all_eq_true.mp List.all_takeWhile x hMem,
    ?_, ?_⟩
  · rw [rest_skipBlanks, List.takeWhile_append_dropWhile]
  · have hTake : c.rest.take (c.rest.takeWhile isBlank).length = c.rest.takeWhile isBlank :=
      List.prefix_iff_eq_take.mp (List.takeWhile_prefix _) |>.symm
    rw [skipBlanks, advance, hTake]

/-- A word starts in front of blanks only if there are none. -/
theorem PassesBlanks.startsWord_iff (hPasses : c.PassesBlanks d) :
    startsWord c.rest = true ↔ c = d ∧ startsWord d.rest = true := by
  obtain ⟨passed, hBlank, hRest, hSeen⟩ := hPasses
  cases passed with
  | nil =>
    -- without blanks the two places are the same
    have hSame : c = d := by
      cases c
      cases d
      simp_all
    subst hSame
    simp
  | cons x passed =>
    -- the first blank is no word character, and the cursor has moved
    have hWord : isWord x = false := isWord_eq_false_of_isBlank (hBlank x (List.mem_cons_self ..))
    constructor
    · intro hStarts
      rw [hRest, show startsWord (x :: passed ++ d.rest) = isWord x from rfl, hWord] at hStarts
      cases hStarts
    · rintro ⟨rfl, -⟩
      have hLength := congrArg List.length hRest
      rw [List.length_append, List.length_cons] at hLength
      omega

end Cursor

/-! ## Tokens -/

namespace Grammar

/-- What a token is. -/
inductive TokenKind where
  /-- a literal, which is taken wherever it stands -/
  | literal (t : Text)
  /-- a keyword, which is taken with a space or a line feed behind it -/
  | keyword (word : Text)
  /-- a name, which may have a scope -/
  | word
  | number
  /-- a text up to a delimiter -/
  | text
  deriving DecidableEq

/-- A token of a text. The blank that a keyword needs behind it is not part of the keyword. -/
structure Token where
  kind : TokenKind
  start : Cursor
  stop : Cursor
  deriving DecidableEq

/-- Whether the text of a token is there. -/
def Token.Stands (t : Token) : Prop :=
  match t.kind with
  | .literal literal => t.start.rest = literal ++ t.stop.rest
  | .keyword word => t.start.rest = word ++ t.stop.rest ∧
      (t.stop.rest.head? = some ' ' ∨ t.stop.rest.head? = some '\n')
  | .word => startsWord t.start.rest = true
  | .number => True
  | .text => True

/-- Whether tokens stand one behind the other between two places, with nothing but blanks around
them. -/
def Laid : Cursor → List Token → Cursor → Prop
  | c, [], d => c.PassesBlanks d
  | c, t :: ts, d => c.PassesBlanks t.start ∧ t.start.Reaches t.stop ∧ Laid t.stop ts d

section

variable {b c m d : Cursor} {t u : Token} {ts us : List Token}

/-- Blanks may stand before the first token. -/
theorem Laid.behind_blanks (hPasses : b.PassesBlanks c) (hLaid : Laid c ts d) : Laid b ts d := by
  cases ts with
  | nil => exact hPasses.trans hLaid
  | cons t ts =>
    obtain ⟨hFirst, hLater⟩ := hLaid
    exact ⟨hPasses.trans hFirst, hLater⟩

/-- Tokens behind tokens stand one behind the other. -/
theorem Laid.append (hFirst : Laid c ts m) (hSecond : Laid m us d) : Laid c (ts ++ us) d := by
  induction ts generalizing c with
  | nil => exact hSecond.behind_blanks hFirst
  | cons t ts ih =>
    obtain ⟨hBefore, hTaken, hLater⟩ := hFirst
    exact ⟨hBefore, hTaken, ih hLater⟩

/-- A single token stands behind the blanks before it. -/
theorem laid_singleton (kind : TokenKind) (hBefore : b.PassesBlanks c) (hTaken : c.Reaches d) :
    Laid b [⟨kind, c, d⟩] d :=
  ⟨hBefore, hTaken, .refl d⟩

/-- Between two tokens that follow one another there are only blanks. -/
theorem Laid.passesBlanks (hLaid : Laid c (ts ++ t :: u :: us) d) :
    t.stop.PassesBlanks u.start := by
  induction ts generalizing c with
  | nil => exact hLaid.2.2.1
  | cons _ ts ih => exact ih hLaid.2.2

/-- A token has a word character behind it exactly if the next token starts there, and with a word
character. -/
theorem Laid.startsWord_iff (hLaid : Laid c (ts ++ t :: u :: us) d) :
    startsWord t.stop.rest = true ↔ t.stop = u.start ∧ startsWord u.start.rest = true :=
  hLaid.passesBlanks.startsWord_iff

end

/-! ## What a reader takes -/

/-- Whether a reader takes given tokens between two places, with one rule for each part of the
grammar. -/
inductive Spells (book : Rulebook) :
    {α : Type} → Reader α → Cursor → α → Cursor → List Token → Prop
  | pure {α : Type} (x : α) (c : Cursor) : Spells book (Pure.pure x : Reader α) c x c []
  | bind {α β : Type} {r : Reader α} {f : α → Reader β} {x : α} {y : β} {c m d : Cursor}
      {ts us : List Token} (hFirst : Spells book r c x m ts) (hThen : Spells book (f x) m y d us) :
      Spells book (r >>= f) c y d (ts ++ us)
  | accept {literal : Text} {c d : Cursor} (hRead : Reader.accept literal c = .ok true d) :
      Spells book (Reader.accept literal) c true d [⟨.literal literal, c.skipBlanks, d⟩]
  | acceptNone {literal : Text} {c d : Cursor} (hRead : Reader.accept literal c = .ok false d) :
      Spells book (Reader.accept literal) c false d []
  | expect {literal t : Text} {c d : Cursor} (hRead : Reader.expect literal c = .ok t d) :
      Spells book (Reader.expect literal) c t d [⟨.literal literal, c.skipBlanks, d⟩]
  | keyword {word : Text} {c d : Cursor} (hRead : Grammar.keyword word c = .ok true d) :
      Spells book (Grammar.keyword word) c true d
        [⟨.keyword word, c.skipBlanks, c.skipBlanks.advance word.length⟩]
  | keywordNone {word : Text} {c d : Cursor} (hRead : Grammar.keyword word c = .ok false d) :
      Spells book (Grammar.keyword word) c false d []
  | takeUntil {delimiter t : Text} {inclusive : Bool} {c d : Cursor}
      (hRead : Reader.takeUntil delimiter inclusive c = .ok t d) :
      Spells book (Reader.takeUntil delimiter inclusive) c t d [⟨.text, c, d⟩]
  | parameters {construct : Construct} {p : Parameters} {c d : Cursor}
      (hRead : Reader.parameters (book construct) c = .ok p d) :
      Spells book (Reader.parameters (book construct)) c p d [⟨.text, c, d⟩]
  | comment {s : Statement} {c d : Cursor} (hRead : Grammar.comment c = .ok s d) :
      Spells book Grammar.comment c s d [⟨.text, c, d⟩]
  | identifier {t : Text} {c d : Cursor} (hRead : Reader.identifier c = .ok t d) :
      Spells book Reader.identifier c t d [⟨.word, c.skipBlanks, d⟩]
  | number {t : Text} {c d : Cursor} (hRead : Reader.number c = .ok t d) :
      Spells book Reader.number c t d [⟨.number, c.skipBlanks, d⟩]
  | qualifiedName {q : QualifiedName} {c d : Cursor} (hRead : Reader.qualifiedName c = .ok q d) :
      Spells book Reader.qualifiedName c q d [⟨.word, c.skipBlanks, d⟩]
  | qualifiedName? {q : QualifiedName} {c d : Cursor}
      (hRead : Reader.qualifiedName? c = .ok (some q) d) :
      Spells book Reader.qualifiedName? c (some q) d [⟨.word, c.skipBlanks, d⟩]
  | qualifiedNameNone {c d : Cursor} (hRead : Reader.qualifiedName? c = .ok none d) :
      Spells book Reader.qualifiedName? c none d []
  | manyNil {α : Type} {item : Reader (Option α)} {c d : Cursor} {ts : List Token}
      (hItem : Spells book item c none d ts) : Spells book (many item) c [] d ts
  | manyCons {α : Type} {item : Reader (Option α)} {x : α} {xs : List α} {c m d : Cursor}
      {ts us : List Token} (hItem : Spells book item c (some x) m ts)
      (hMoved : m.rest.length < c.rest.length) (hLater : Spells book (many item) m xs d us) :
      Spells book (many item) c (x :: xs) d (ts ++ us)
  | manyStuck {α : Type} {item : Reader (Option α)} {x : α} {c d : Cursor} {ts : List Token}
      (hItem : Spells book item c (some x) d ts) (hStuck : ¬ d.rest.length < c.rest.length) :
      Spells book (many item) c [x] d ts

section

variable {book : Rulebook} {α : Type} {r : Reader α} {x : α} {c d : Cursor} {ts : List Token}

/-- A repetition takes the tokens of its items one behind the other. -/
theorem exists_spells_many {item : Reader (Option α)} {xs : List α}
    (hItem : ∀ (c d : Cursor) (o : Option α), item c = .ok o d → ∃ ts, Spells book item c o d ts)
    (hRead : many item c = .ok xs d) : ∃ ts, Spells book (many item) c xs d ts := by
  induction c using many_induction item generalizing xs with
  -- along the repetition, with the tokens of each item put before those of the later ones
  | again c ih =>
    cases hFirst : item c with
    | error e m =>
      rw [many_of_error hFirst] at hRead
      cases hRead
    | ok found m =>
      obtain ⟨ts, hSpells⟩ := hItem c m found hFirst
      cases found with
      | none =>
        rw [many_of_none hFirst] at hRead
        cases hRead
        exact ⟨ts, .manyNil hSpells⟩
      | some x =>
        by_cases hMoved : m.rest.length < c.rest.length
        · rw [many_of_some hFirst hMoved, map_eq_ok_iff] at hRead
          obtain ⟨later, hLater, rfl⟩ := hRead
          obtain ⟨us, hSpells'⟩ := ih x m hFirst hMoved hLater
          exact ⟨ts ++ us, .manyCons hSpells hMoved hSpells'⟩
        · rw [many_of_stuck hFirst hMoved] at hRead
          cases hRead
          exact ⟨ts, .manyStuck hSpells hMoved⟩

/-- What the grammar reads is made of tokens. -/
theorem Composed.exists_spells (hComposed : Composed book r) (hRead : r c = .ok x d) :
    ∃ ts, Spells book r c x d ts := by
  induction hComposed generalizing c d with
  | pure y =>
    cases hRead
    exact ⟨[], .pure y c⟩
  | bind _ _ ihFirst ihThen =>
    obtain ⟨y, m, hFirst, hThen⟩ := bind_eq_ok_iff.mp hRead
    obtain ⟨ts, hSpells⟩ := ihFirst hFirst
    obtain ⟨us, hSpells'⟩ := ihThen y hThen
    exact ⟨ts ++ us, .bind hSpells hSpells'⟩
  | fail _ => cases hRead
  -- an optional literal is a token only if it is there
  | @accept literal _ =>
    cases x with
    | true => exact ⟨_, .accept hRead⟩
    | false => exact ⟨_, .acceptNone hRead⟩
  | expect _ => exact ⟨_, .expect hRead⟩
  | keyword _ =>
    cases x with
    | true => exact ⟨_, .keyword hRead⟩
    | false => exact ⟨_, .keywordNone hRead⟩
  | takeUntil _ _ => exact ⟨_, .takeUntil hRead⟩
  | parameters _ => exact ⟨_, .parameters hRead⟩
  | identifier => exact ⟨_, .identifier hRead⟩
  | number => exact ⟨_, .number hRead⟩
  | qualifiedName => exact ⟨_, .qualifiedName hRead⟩
  | qualifiedName? =>
    cases x with
    | some q => exact ⟨_, .qualifiedName? hRead⟩
    | none => exact ⟨_, .qualifiedNameNone hRead⟩
  | many _ ih => exact exists_spells_many (fun c d o hItem => ih hItem) hRead

/-- A statement is made of tokens. -/
theorem exists_spells_statement? {s : Statement} (hRead : statement? book c = .ok (some s) d) :
    ∃ ts, Spells book (statement? book) c (some s) d ts := by
  rw [statement?_eq] at hRead ⊢
  obtain ⟨found, m, hProbe, hThen⟩ := bind_eq_ok_iff.mp hRead
  cases found with
  -- a comment is one token up to the end of its line
  | true =>
    obtain ⟨s', hComment, hSame⟩ := map_eq_ok_iff.mp hThen
    cases hSame
    exact ⟨_, .bind (.accept hProbe) (.bind (.comment hComment) (.pure _ d))⟩
  | false =>
    obtain ⟨ts, hSpells⟩ := composed_directive?.exists_spells hThen
    exact ⟨_, .bind (.acceptNone hProbe) hSpells⟩

/-! ### Where the tokens stand -/

/-- Where a reader stops behind the blanks, its token is taken behind them too. -/
theorem reaches_of_skips {r : Reader α} (hSkips : c.skipBlanks.Reaches (stop r c))
    (hRead : r c = .ok x d) : c.skipBlanks.Reaches d := by
  rwa [stop_of_ok hRead] at hSkips

/-- The text of a keyword, and the blank behind it that is passed as well. -/
theorem keyword_taken {word : Text} (hRead : keyword word c = .ok true d) :
    Laid c [⟨.keyword word, c.skipBlanks, c.skipBlanks.advance word.length⟩] d ∧
      Token.Stands ⟨.keyword word, c.skipBlanks, c.skipBlanks.advance word.length⟩ := by
  obtain ⟨y, hBlank, ⟨behind, hRest⟩, rfl⟩ := exists_of_keyword hRead
  rw [List.append_assoc, List.singleton_append] at hRest
  -- the blank is the first character behind the text of the keyword
  have hBehind : (c.skipBlanks.advance word.length).rest = y :: behind := by
    rw [Cursor.rest_advance, ← hRest, List.drop_left]
  have hEither : y = ' ' ∨ y = '\n' := by simpa using hBlank
  refine ⟨⟨Cursor.passesBlanks_skipBlanks c, Cursor.reaches_advance _ _, ?_⟩, ?_, ?_⟩
  · -- the blank is passed behind the keyword
    rw [← Cursor.advance_advance]
    refine ⟨[y], ?_, ?_, ?_⟩
    · intro z hMem
      obtain rfl := List.mem_singleton.mp hMem
      rcases hEither with rfl | rfl <;> decide
    · rw [Cursor.rest_advance 1, hBehind]
      rfl
    · rw [Cursor.advance, hBehind]
      rfl
  · show c.skipBlanks.rest = word ++ (c.skipBlanks.advance word.length).rest
    rw [hBehind, hRest]
  · show (c.skipBlanks.advance word.length).rest.head? = some ' ' ∨
      (c.skipBlanks.advance word.length).rest.head? = some '\n'
    rw [hBehind]
    exact hEither.imp (congrArg some) (congrArg some)

/-- Tokens stand one behind the other, from where a reader starts to where it stops. -/
theorem Spells.laid (hSpells : Spells book r c x d ts) : Laid c ts d := by
  induction hSpells with
  | pure x c => exact Cursor.PassesBlanks.refl c
  | bind _ _ ihFirst ihThen => exact ihFirst.append ihThen
  | @accept literal c d hRead =>
    exact laid_singleton _ (Cursor.passesBlanks_skipBlanks c)
      (reaches_of_skips (skips_accept literal c) hRead)
  | @acceptNone _ c _ hRead =>
    rw [eq_skipBlanks_of_accept hRead]
    exact Cursor.passesBlanks_skipBlanks c
  | @expect literal _ c _ hRead =>
    exact laid_singleton _ (Cursor.passesBlanks_skipBlanks c)
      (reaches_of_skips (skips_expect literal c) hRead)
  | keyword hRead => exact (keyword_taken hRead).1
  | @keywordNone _ c _ hRead =>
    rw [eq_skipBlanks_of_keyword hRead]
    exact Cursor.passesBlanks_skipBlanks c
  | @takeUntil delimiter _ inclusive c _ hRead =>
    have hReach := reaches_stop_takeUntil delimiter inclusive c
    rw [stop_of_ok hRead] at hReach
    exact laid_singleton _ (.refl c) hReach
  | @parameters construct _ c _ hRead =>
    have hReach := reaches_stop_parameters (book construct) c
    rw [stop_of_ok hRead] at hReach
    exact laid_singleton _ (.refl c) hReach
  | @comment _ c _ hRead =>
    cases hRead
    exact laid_singleton _ (.refl c) (reaches_takeUntilOrRest _ _ c)
  | @identifier _ c _ hRead =>
    exact laid_singleton _ (Cursor.passesBlanks_skipBlanks c)
      (reaches_of_skips (skips_identifier c) hRead)
  | @number _ c _ hRead =>
    exact laid_singleton _ (Cursor.passesBlanks_skipBlanks c)
      (reaches_of_skips (skips_number c) hRead)
  | @qualifiedName _ c _ hRead =>
    exact laid_singleton _ (Cursor.passesBlanks_skipBlanks c)
      (reaches_of_skips (skips_qualifiedName c) hRead)
  | @qualifiedName? _ c _ hRead =>
    exact laid_singleton _ (Cursor.passesBlanks_skipBlanks c)
      (reaches_of_skips (skips_qualifiedName? c) hRead)
  | @qualifiedNameNone c _ hRead =>
    rw [qualifiedName?_apply] at hRead
    split at hRead
    · exact absurd hRead map_some_ne_none
    · cases hRead
      exact Cursor.passesBlanks_skipBlanks c
  | manyNil _ ih => exact ih
  | manyCons _ _ _ ihItem ihLater => exact ihItem.append ihLater
  | manyStuck _ _ ih => exact ih

/-- An identifier is read where a word starts. -/
theorem startsWord_of_identifier {t : Text} (hRead : identifier c = .ok t d) :
    startsWord c.skipBlanks.rest = true := by
  rw [identifier_apply] at hRead
  split at hRead
  · cases hRead
  · next hSome =>
    rw [word_eq_nil_iff] at hSome
    simpa using hSome

/-- A name is read where a word starts. -/
theorem startsWord_of_qualifiedName {q : QualifiedName} (hRead : qualifiedName c = .ok q d) :
    startsWord c.skipBlanks.rest = true := by
  obtain ⟨first, m, hFirst, -⟩ := bind_eq_ok_iff.mp hRead
  exact startsWord_of_identifier hFirst

/-- The text of each token is there. -/
theorem Spells.stands (hSpells : Spells book r c x d ts) : ∀ t ∈ ts, t.Stands := by
  -- a literal that is a prefix stands between its two places
  have hLiteral : ∀ (literal : Text) (c : Cursor), literal.isPrefixOf c.rest = true →
      c.rest = literal ++ (c.advance literal.length).rest := by
    intro literal c hPrefix
    obtain ⟨behind, hRest⟩ := List.isPrefixOf_iff_prefix.mp hPrefix
    rw [Cursor.rest_advance, ← hRest, List.drop_left]
  induction hSpells with
  | pure _ _ | acceptNone _ | keywordNone _ | qualifiedNameNone _ => simp
  | takeUntil _ | parameters _ | comment _ | number _ => simp [Token.Stands]
  | bind _ _ ihFirst ihThen =>
    intro t hMem
    rcases List.mem_append.mp hMem with hBefore | hBehind
    · exact ihFirst t hBefore
    · exact ihThen t hBehind
  | manyCons _ _ _ ihItem ihLater =>
    intro t hMem
    rcases List.mem_append.mp hMem with hBefore | hBehind
    · exact ihItem t hBefore
    · exact ihLater t hBehind
  | manyNil _ ih | manyStuck _ _ ih => exact ih
  | @accept literal c d hRead =>
    rw [accept_apply] at hRead
    split at hRead
    · next hPrefix =>
      cases hRead
      exact List.forall_mem_singleton.mpr (hLiteral literal c.skipBlanks hPrefix)
    · cases hRead
  | @expect literal _ c d hRead =>
    rw [expect_apply] at hRead
    split at hRead
    · next hPrefix =>
      cases hRead
      exact List.forall_mem_singleton.mpr (hLiteral literal c.skipBlanks hPrefix)
    · cases hRead
  | keyword hRead => exact List.forall_mem_singleton.mpr (keyword_taken hRead).2
  | identifier hRead => exact List.forall_mem_singleton.mpr (startsWord_of_identifier hRead)
  | qualifiedName hRead => exact List.forall_mem_singleton.mpr (startsWord_of_qualifiedName hRead)
  | @qualifiedName? _ c _ hRead =>
    rw [qualifiedName?_apply] at hRead
    split at hRead
    · next hStarts => exact List.forall_mem_singleton.mpr hStarts
    · cases hRead

/-- No word character stands behind a keyword. -/
theorem Token.Stands.startsWord_stop {t : Token} {word : Text} (hStands : t.Stands)
    (hKind : t.kind = .keyword word) : startsWord t.stop.rest = false := by
  obtain ⟨kind, start, stop⟩ := t
  obtain rfl : kind = .keyword word := hKind
  rcases hStands.2 with hSpace | hBreak
  · obtain ⟨behind, hRest⟩ := List.head?_eq_some_iff.mp hSpace
    rw [show stop.rest = ' ' :: behind from hRest]
    exact (by decide : isWord ' ' = false)
  · obtain ⟨behind, hRest⟩ := List.head?_eq_some_iff.mp hBreak
    rw [show stop.rest = '\n' :: behind from hRest]
    exact (by decide : isWord '\n' = false)

end

end Grammar

end SchemaScript
