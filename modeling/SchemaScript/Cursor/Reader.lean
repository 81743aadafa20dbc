import SchemaScript.Cursor.Mismatch
import SchemaScript.Parameters.Decode
import SchemaScript.Statement.Basic
import SchemaScript.Text.Word

/-!
# Readers

A reader takes something from the text ahead of a cursor and moves the cursor on. It stops at the
first mismatch and then leaves the cursor where the mismatch was found; what was read up to there
stays read. Readers for literals, identifiers and numbers pass the blanks before them, even if
they then fail; readers of free text do not.

`many` repeats a reader until it finds nothing more. It goes on only if the reader moved the
cursor, so that it always ends.
-/

namespace SchemaScript

/-- Why reading stopped. -/
inductive Halt where
  /-- the text is not what was asked for -/
  | mismatch (m : Mismatch)
  /-- the rules for the parameters are at fault -/
  | rules (e : RulesError)
  deriving DecidableEq, Repr

/-- Takes something from the text ahead of a cursor. -/
abbrev Reader := EStateM Halt Cursor

namespace Reader

/-! ## Moving and failing -/

/-- Changes the cursor. -/
def move (f : Cursor → Cursor) : Reader Unit := fun c => .ok () (f c)

/-- Takes what a function on cursors takes. -/
def take {α : Type} (f : Cursor → α × Cursor) : Reader α := fun c => .ok (f c).1 (f c).2

/-- Takes what a function on cursors takes, if it takes something. -/
def attempt {α : Type} (f : Cursor → Option (α × Cursor)) : Reader (Option α) := fun c =>
  match f c with
  | some (x, next) => .ok (some x) next
  | none => .ok none c

/-- Asks something of the cursor. -/
def look {α : Type} (f : Cursor → α) : Reader α := fun c => .ok (f c) c

/-- Stops with a mismatch at the cursor. -/
def fail {α : Type} (expected : Expectation) : Reader α := fun c =>
  .error (.mismatch (.atCursor expected c)) c

/-- Passes the blanks. -/
def skipBlanks : Reader Unit := move Cursor.skipBlanks

/-- Whether only blanks were left; they are passed. -/
def atEnd : Reader Bool := do
  skipBlanks
  look fun c => c.rest.isEmpty

/-! ## Literals and free text -/

/-- Passes a literal if it stands next. -/
def accept (literal : Text) : Reader Bool := do
  skipBlanks
  if ← look fun c => literal.isPrefixOf c.rest then
    move (Cursor.advance literal.length)
    return true
  else
    return false

/-- Passes a literal, which has to stand next, and gives it without the blanks around it. -/
def expect (literal : Text) : Reader Text := do
  if ← accept literal then
    return Text.strip literal
  else
    fail (.literal literal)

/-- Takes the text up to a delimiter, which has to lie ahead. If `inclusive`, the delimiter is
passed too, unless it is a line feed. -/
def takeUntil (delimiter : Text) (inclusive : Bool) : Reader Text := do
  match ← attempt (Cursor.takeUntil? delimiter inclusive) with
  | some found => return found
  | none => fail (.delimiter delimiter)

/-! ## Names and numbers -/

/-- Takes a word. -/
def identifier : Reader Text := do
  skipBlanks
  let found ← look fun c => Text.word c.rest
  if found = [] then
    fail .identifier
  else
    move (Cursor.advance found.length)
    return found

/-- The word behind a point, with blanks allowed around the point, and the cursor behind the word.
-/
def wordAfterPoint? (c : Cursor) : Option (Text × Cursor) :=
  match c.skipBlanks.rest with
  | '.' :: _ =>
    let next := (c.skipBlanks.advance 1).skipBlanks
    let found := Text.word next.rest
    if found = [] then none else some (found, next.advance found.length)
  | _ => none

/-- Takes a name, with its scope before it if a point and another word follow the first word. A
point without a word behind it is not part of the name. -/
def qualifiedName : Reader QualifiedName := do
  let first ← identifier
  match ← attempt wordAfterPoint? with
  | some second => return ⟨second, some first⟩
  | none => return ⟨first, none⟩

/-- Takes a name if a word stands next. -/
def qualifiedName? : Reader (Option QualifiedName) := do
  skipBlanks
  if ← look fun c => Text.startsWord c.rest then
    return some (← qualifiedName)
  else
    return none

/-- Takes a decimal number, with or without places behind a point. -/
def number : Reader Text := do
  skipBlanks
  let found ← look fun c => Text.number c.rest
  if found = [] then
    fail .number
  else
    move (Cursor.advance found.length)
    return found

/-! ## Parameters -/

/-- Takes the text up to the terminator that the rules name and decodes it. -/
def parameters (rules : Parameters.Rules) : Reader Parameters := do
  let written ← takeUntil rules.terminator true
  match Parameters.decode rules written with
  | .ok p => return p
  | .error e => throw (.rules e)

/-! ## Repetition -/

/-- Takes as many items as there are. -/
def many {α : Type} (item : Reader (Option α)) : Reader (List α) := fun c =>
  match item c with
  | .error e stop => .error e stop
  | .ok none stop => .ok [] stop
  | .ok (some x) stop =>
    if stop.rest.length < c.rest.length then
      match many item stop with
      | .error e stop => .error e stop
      | .ok xs stop => .ok (x :: xs) stop
    else .ok [x] stop
termination_by c => c.rest.length

/-! ## What each reader does

Every reader is pinned down by its result at a cursor: what it takes, and where the cursor is
afterwards. Behind a sequence of readers stands the first failure, or the last result. -/

/-- Behind a reader that succeeds the next one goes on. -/
theorem bind_of_ok {α β : Type} {r : Reader α} {f : α → Reader β} {c d : Cursor} {x : α}
    (hRead : r c = .ok x d) : (r >>= f) c = f x d := by
  simp only [bind, EStateM.bind, hRead]

/-- Behind a reader that fails nothing else is read. -/
theorem bind_of_error {α β : Type} {r : Reader α} {f : α → Reader β} {c d : Cursor} {e : Halt}
    (hFail : r c = .error e d) : (r >>= f) c = .error e d := by
  simp only [bind, EStateM.bind, hFail]

/-- A literal is passed if it stands behind the blanks, and the blanks are passed in any case. -/
theorem accept_apply (literal : Text) (c : Cursor) :
    accept literal c =
      if literal.isPrefixOf c.skipBlanks.rest then
        .ok true (c.skipBlanks.advance literal.length)
      else .ok false c.skipBlanks := by
  have hLook : accept literal c =
      (if literal.isPrefixOf c.skipBlanks.rest then
        (do move (Cursor.advance literal.length); return true)
      else (return false : Reader Bool)) c.skipBlanks := rfl
  rw [hLook]
  split <;> rfl

/-- A literal that is missing is missed behind the blanks. -/
theorem expect_apply (literal : Text) (c : Cursor) :
    expect literal c =
      if literal.isPrefixOf c.skipBlanks.rest then
        .ok (Text.strip literal) (c.skipBlanks.advance literal.length)
      else .error (.mismatch (.atCursor (.literal literal) c.skipBlanks)) c.skipBlanks := by
  have hAccept := accept_apply literal c
  unfold expect
  by_cases hNext : literal.isPrefixOf c.skipBlanks.rest = true
  · rw [if_pos hNext] at hAccept ⊢
    rw [bind_of_ok hAccept]
    rfl
  · rw [if_neg hNext] at hAccept ⊢
    rw [bind_of_ok hAccept]
    rfl

/-- A delimiter that is missing is missed where the text would start. -/
theorem takeUntil_apply (delimiter : Text) (inclusive : Bool) (c : Cursor) :
    takeUntil delimiter inclusive c =
      match c.takeUntil? delimiter inclusive with
      | some (found, next) => .ok found next
      | none => .error (.mismatch (.atCursor (.delimiter delimiter) c)) c := by
  simp only [takeUntil, attempt, bind, EStateM.bind]
  cases c.takeUntil? delimiter inclusive <;> rfl

/-- A word is taken behind the blanks, up to its end. -/
theorem identifier_apply (c : Cursor) :
    identifier c =
      if Text.word c.skipBlanks.rest = [] then
        .error (.mismatch (.atCursor .identifier c.skipBlanks)) c.skipBlanks
      else
        .ok (Text.word c.skipBlanks.rest)
          (c.skipBlanks.advance (Text.word c.skipBlanks.rest).length) := by
  have hLook : identifier c =
      (if Text.word c.skipBlanks.rest = [] then fail .identifier
      else do
        move (Cursor.advance (Text.word c.skipBlanks.rest).length)
        return Text.word c.skipBlanks.rest) c.skipBlanks := rfl
  rw [hLook]
  split <;> rfl

/-- So is a number. -/
theorem number_apply (c : Cursor) :
    number c =
      if Text.number c.skipBlanks.rest = [] then
        .error (.mismatch (.atCursor .number c.skipBlanks)) c.skipBlanks
      else
        .ok (Text.number c.skipBlanks.rest)
          (c.skipBlanks.advance (Text.number c.skipBlanks.rest).length) := by
  have hLook : number c =
      (if Text.number c.skipBlanks.rest = [] then fail .number
      else do
        move (Cursor.advance (Text.number c.skipBlanks.rest).length)
        return Text.number c.skipBlanks.rest) c.skipBlanks := rfl
  rw [hLook]
  split <;> rfl

/-- Parameters are taken up to their terminator, and then decoded. -/
theorem parameters_apply (rules : Parameters.Rules) (c : Cursor) :
    parameters rules c =
      match c.takeUntil? rules.terminator true with
      | none => .error (.mismatch (.atCursor (.delimiter rules.terminator) c)) c
      | some (written, next) =>
        match Parameters.decode rules written with
        | .ok p => .ok p next
        | .error e => .error (.rules e) next := by
  have hTake := takeUntil_apply rules.terminator true c
  unfold parameters
  cases hFound : c.takeUntil? rules.terminator true with
  | none =>
    rw [hFound] at hTake
    rw [bind_of_error hTake]
  | some found =>
    obtain ⟨written, next⟩ := found
    rw [hFound] at hTake
    rw [bind_of_ok hTake]
    dsimp only
    -- only decoding is left, and it does not touch the cursor
    cases Parameters.decode rules written <;> rfl

/-! ## What repetition does -/

/-- Without an item the repetition ends. -/
theorem many_of_none {α : Type} {item : Reader (Option α)} {c stop : Cursor}
    (hItem : item c = .ok none stop) : many item c = .ok [] stop := by
  rw [many, hItem]

/-- An item that fails makes the repetition fail. -/
theorem many_of_error {α : Type} {item : Reader (Option α)} {c stop : Cursor} {e : Halt}
    (hItem : item c = .error e stop) : many item c = .error e stop := by
  rw [many, hItem]

/-- An item that moved the cursor stands before those behind it. -/
theorem many_of_some {α : Type} {item : Reader (Option α)} {c stop : Cursor} {x : α}
    (hItem : item c = .ok (some x) stop) (hMoved : stop.rest.length < c.rest.length) :
    many item c = (do return x :: (← many item) : Reader (List α)) stop := by
  rw [many, hItem]
  simp only [hMoved, if_true, bind, EStateM.bind, pure, EStateM.pure]
  cases many item stop <;> rfl

end Reader

end SchemaScript
