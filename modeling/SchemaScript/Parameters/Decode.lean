import SchemaScript.Parameters.Basic
import SchemaScript.Parameters.Rules
import SchemaScript.Text.Layout
import SchemaScript.Text.Search

/-!
# Decoding written parameters

Written parameters are decoded in two steps. First the shorthands are resolved, in a fixed order:
options have to see what the negations left, and units are joined last. Then the text is split at
the separator and the pieces are paired in turn into keys and values.
-/

namespace SchemaScript

/-! ## Shorthands

Parameters are pairs of a key and a value, and most are written that way. The others are
shorthands for such pairs, which are resolved before anything is paired:

* `USING STOGROUP` is one key, `USING_STOGROUP` (`Shorthand.mergedKeys`),
* `NOT LOGGED` stands for `LOGGED False` (`Shorthand.negations`),
* `WITH DEFAULT` stands for `DEFAULT True` (`Shorthand.presence`),
* `INCLUDE( A,B )` stands for `INCLUDE A,B` (`Shorthand.functions`),
* `CLUSTER` stands for `CLUSTER True` unless a truth value follows (`Shorthand.options`),
* `2 G` is one value, `2G` (`Shorthand.units`).

All but the first are patterns that look at a place of the text and are replaced from left to
right. A separator is always taken as it stands, whatever its characters.
-/

/-- A kind of shorthand. -/
inductive Shorthand where
  /-- the given keys of several words, each of which becomes one word -/
  | mergedKeys (keys : List Text) (separator merger : Text)
  /-- negation, in which `NOT` switches off the word behind it -/
  | negations (separator : Text)
  /-- presence, in which `WITH` switches on the word behind it -/
  | presence (separator : Text)
  /-- arguments in parentheses, which become values -/
  | functions (separator : Text)
  /-- the given options where they stand alone, which are switched on -/
  | options (keys : List Text) (separator : Text)
  /-- size units, which are joined to their numbers -/
  | units
  deriving DecidableEq, Repr

namespace Shorthand

open Text

/-- A keyword and the word behind it, which is then followed by a value. -/
def keywordPattern (keyword separator value : Text) : Pattern := fun afterWord t =>
  if atBoundary afterWord t && keyword.isPrefixOf t then
    let key := word (t.drop keyword.length)
    if key = [] then none
    else some ⟨keyword.length + key.length, key ++ separator ++ value⟩
  else none

/-- A word with one argument in parentheses, with or without blanks around the argument. The
argument has no blank and no closing parenthesis. -/
def functionPattern (separator : Text) : Pattern := fun _ t =>
  let name := word t
  match t.drop name.length with
  | '(' :: inner =>
    let lead := inner.takeWhile isBlank
    let argument := (inner.drop lead.length).takeWhile fun c => !isBlank c && c != ')'
    let tail := inner.drop (lead.length + argument.length)
    let trail := tail.takeWhile isBlank
    if name = [] ∨ argument = [] then none
    else if (tail.drop trail.length).head? == some ')' then
      some ⟨name.length + 1 + lead.length + argument.length + trail.length + 1,
        name ++ separator ++ argument⟩
    else none
  | _ => none

/-- Whether a separator with a truth value behind it stands at a place. -/
def valueFollows (separator t : Text) : Bool :=
  separator.isPrefixOf t &&
    (word (t.drop separator.length) == "True" || word (t.drop separator.length) == "False")

/-- An option between two boundaries that has no truth value yet. -/
def optionPattern (key separator : Text) : Pattern := fun afterWord t =>
  let behind := t.drop key.length
  let endsWord := (key.getLast?.map isWord).getD afterWord
  if atBoundary afterWord t && key.isPrefixOf t && atBoundary endsWord behind
      && !valueFollows separator behind then
    some ⟨key.length, key ++ separator ++ "True"⟩
  else none

/-- Whether a character is one of the size units. -/
def isUnit (c : Char) : Bool := c == 'K' || c == 'M' || c == 'G'

/-- Whether a blank or the end of the text stands at a place. -/
def blankFollows : Text → Bool
  | [] => true
  | c :: _ => isBlank c

/-- A whole number, one space, and a size unit that stands alone. -/
def sizedPattern : Pattern := fun afterWord t =>
  let digits := t.takeWhile isDecimal
  match t.drop digits.length with
  | ' ' :: unit :: behind =>
    if !afterWord && !digits.isEmpty && isUnit unit && blankFollows behind then
      some ⟨digits.length + 2, digits ++ [unit]⟩
    else none
  | _ => none

/-- The text with a kind of shorthand resolved. Keys are merged and options switched on one after
the other, each in the text that the one before left. -/
def resolve : Shorthand → Text → Text
  | mergedKeys keys separator merger, t =>
    keys.foldl (fun t key => replaceAll key (replaceAll separator merger key) t) t
  | negations separator, t => (keywordPattern "NOT " separator "False").replace t
  | presence separator, t => (keywordPattern "WITH " separator "True").replace t
  | functions separator, t => (functionPattern separator).replace t
  | options keys separator, t => keys.foldl (fun t key => (optionPattern key separator).replace t) t
  | units, t => sizedPattern.replace t

end Shorthand

example : (Shorthand.negations " ").resolve "A 1 NOT LOGGED KNOT B" =
    "A 1 LOGGED False KNOT B" := by
  decide +kernel
example : (Shorthand.functions ",").resolve "INCLUDE( A,B ) X(Y)" = "INCLUDE,A,B X,Y" := by
  decide +kernel
example : (Shorthand.options ["LOGGED"] " ").resolve "LOGGED LOGGED False" =
    "LOGGED True LOGGED False" := by
  decide +kernel
example : Shorthand.units.resolve "PRIQTY 2 G 3 Kb" = "PRIQTY 2G 3 Kb" := by decide +kernel

namespace Parameters

/-! ## Decoding -/

/-- The value that a written value stands for: `NO` and `YES` are truth values. -/
def readValue (written : Text) : Text :=
  if written = "NO" then "False" else if written = "YES" then "True" else written

/-- Pairs tokens in turn into keys and values. A last token without a partner is left out. -/
def pairUp : List Text → List (Text × Text)
  | key :: value :: tokens =>
    (Text.strip key, readValue (Text.strip value)) :: pairUp tokens
  | _ => []

/-- Splits a text at a separator and pairs the pieces. -/
def readPairs (separator t : Text) : Except RulesError Parameters :=
  if hSeparator : separator = [] then .error .emptySeparator
  else .ok (ofList (pairUp (Text.splitOn separator hSeparator t)))

/-- The shorthands that the rules admit, in the order in which they are resolved. -/
def Rules.shorthands (rules : Rules) : List Shorthand :=
  [.mergedKeys rules.mergeKeys rules.separator rules.merger,
   .negations rules.separator,
   .presence rules.separator,
   .functions rules.separator,
   .options rules.optionKeys rules.separator,
   .units]

/-- A text with all its shorthands resolved. -/
def resolveShorthands (rules : Rules) (t : Text) : Text :=
  rules.shorthands.foldl (fun t shorthand => shorthand.resolve t) t

/-- The parameters that a text stands for. -/
def decode (rules : Rules) (t : Text) : Except RulesError Parameters :=
  readPairs rules.separator (resolveShorthands rules t)

/-- Decoding fails for an empty separator only. -/
theorem decode_eq_error_iff {rules : Rules} {t : Text} {e : RulesError} :
    decode rules t = .error e ↔ rules.separator = [] ∧ e = .emptySeparator := by
  unfold decode readPairs
  split <;> simp_all [eq_comm]

example :
    (decode (Rulebook.standard .tablespace) "USING STOGROUP SG1 PRIQTY 2 G NOT LOGGED").toOption =
      some (ofList [("USING_STOGROUP", "SG1"), ("PRIQTY", "2G"), ("LOGGED", "False")]) := by
  decide +kernel

end Parameters

end SchemaScript
