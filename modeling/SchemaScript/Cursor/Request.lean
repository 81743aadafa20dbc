import SchemaScript.Cursor.Reader

/-!
# Requests to a cursor

Everything that can be asked of a cursor, as data, with the reply to each request. A session puts
one request after the other to the same cursor; a request that fails does not end it, and leaves
the cursor where the failure was found.
-/

namespace SchemaScript

/-- A request to a cursor. -/
inductive Request where
  /-- passes a literal if it stands next -/
  | accept (literal : Text)
  /-- passes a literal -/
  | expect (literal : Text)
  /-- takes the text up to a delimiter, and passes it if `inclusive` -/
  | takeUntil (delimiter : Text) (inclusive : Bool)
  /-- takes all that is left -/
  | takeRest
  /-- takes parameters -/
  | parameters (rules : Parameters.Rules)
  | identifier
  | qualifiedName
  /-- takes a name if there is one -/
  | qualifiedName?
  | number
  | skipBlanks
  /-- asks whether only blanks are left -/
  | atEnd
  | peek (n : Int)
  | remaining
  | context
  | describe
  deriving DecidableEq, Repr

/-- What a request is answered with. -/
inductive Reply where
  | done
  | flag (b : Bool)
  | count (n : Nat)
  | text (t : Text)
  | name (q : QualifiedName)
  | name? (q : Option QualifiedName)
  | parameters (p : Parameters)
  deriving DecidableEq

namespace Request

/-- Carries out a request. -/
def perform : Request → Reader Reply
  | accept literal => return .flag (← Reader.accept literal)
  | expect literal => return .text (← Reader.expect literal)
  | takeUntil delimiter inclusive => return .text (← Reader.takeUntil delimiter inclusive)
  | takeRest => return .text (← Reader.take Cursor.takeRest)
  | parameters rules => return .parameters (← Reader.parameters rules)
  | identifier => return .text (← Reader.identifier)
  | qualifiedName => return .name (← Reader.qualifiedName)
  | qualifiedName? => return .name? (← Reader.qualifiedName?)
  | number => return .text (← Reader.number)
  | skipBlanks => do
    Reader.skipBlanks
    return .done
  | atEnd => return .flag (← Reader.atEnd)
  | peek n => return .text (← Reader.look (Cursor.peek n))
  | remaining => return .count (← Reader.look Cursor.remaining)
  | context => return .text (← Reader.look Cursor.context)
  | describe => return .text (← Reader.look Cursor.describe)

/-- The outcome of a request, and the cursor after it. -/
def outcome (request : Request) (c : Cursor) : Except Halt Reply × Cursor :=
  match request.perform c with
  | .ok reply next => (.ok reply, next)
  | .error e next => (.error e, next)

/-- The outcomes of requests put to one cursor, each with the cursor after it. -/
def session : List Request → Cursor → List (Except Halt Reply × Cursor)
  | [], _ => []
  | request :: requests, c => request.outcome c :: session requests (request.outcome c).2

end Request

end SchemaScript
