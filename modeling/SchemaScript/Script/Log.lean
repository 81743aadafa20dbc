import SchemaScript.Script.Run

/-!
# The log of a run

The records of a log are written down as one line each, with its level in front: `DEBUG` for what
remained before a step, `WARNING` for what a step skipped.
-/

namespace SchemaScript

namespace LogRecord

/-- The wording of why a text was skipped. -/
def reason : Option Mismatch → Text
  | none => "no statement matched"
  | some m => m.message

/-- The line of a record, with its level in front. -/
def render : LogRecord → Text
  | progress remaining preview =>
    "DEBUG " ++ Text.ofNat remaining ++ " characters remaining: " ++ Text.quoted preview ++ " [...]"
  | skipped d =>
    "WARNING Skipped unrecognized statement at " ++ Text.ofNat d.position ++ ": "
      ++ Text.quoted d.skipped ++ " (" ++ reason d.cause ++ ")"

end LogRecord

/-- The lines of a run's log. -/
def Run.lines (r : Run) : List Text := r.log.map LogRecord.render

/-- Whether a line has the level of a record about what remains. -/
def Text.isProgress (line : Text) : Bool := ("DEBUG " : Text).isPrefixOf line

/-- Whether a line has the level of a warning. -/
def Text.isWarning (line : Text) : Bool := ("WARNING " : Text).isPrefixOf line

example :
    (Script.run Rulebook.standard "BOGUS;").toOption.map Run.lines =
      some ([
        "DEBUG 6 characters remaining: 'BOGUS;' [...]",
        "WARNING Skipped unrecognized statement at 0: 'BOGUS' (no statement matched)"
      ] : List Text) := by
  decide +kernel

end SchemaScript
