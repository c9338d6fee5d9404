import EcmaScript.Source

/-!
# Diagnostics

Every error and warning goes through a `Sink`, which lets each pair of place and message through
once.

## Contents

* `Severity`, `Diagnostic`: one reported problem and its one-line form.
* `Sink`: the reports about one source, first occurrences only, with counters.
-/

namespace EcmaScript

/-- Whether a problem takes the tree away in a run that stops on errors. -/
inductive Severity where
  | error
  | warning
  deriving DecidableEq, Repr, Inhabited

namespace Severity

/-- The word that stands for the severity in the one-line form. -/
def label : Severity → String
  | error => "ERROR"
  | warning => "WARNING"

end Severity

/-- One reported problem. -/
structure Diagnostic where
  sourceName : String
  line : Nat
  column : Nat
  message : String
  severity : Severity
  deriving DecidableEq, Repr, Inhabited

namespace Diagnostic

def isError (d : Diagnostic) : Bool := d.severity == .error

/-- The one-line form: source, line, column, severity and message. -/
def render (d : Diagnostic) : String :=
  d.sourceName ++ ":" ++ toString d.line ++ ":" ++ toString d.column ++ ": " ++
    d.severity.label ++ " - " ++ d.message

/-- What makes two reports about one source the same report; the severity does not count. -/
def key (d : Diagnostic) : Nat × Nat × String := (d.line, d.column, d.message)

/-- The messages of one severity, in report order. -/
def messages (ds : List Diagnostic) (severity : Severity) : List String :=
  (ds.filter (·.severity == severity)).map (·.message)

end Diagnostic

/-- Reports about one source. A report whose key was seen before is dropped. -/
structure Sink where
  /-- Name of the source the reports are about. -/
  sourceName : String
  /-- The reports let through, in order. -/
  reported : Array Diagnostic := #[]
  /-- Number of errors let through. -/
  errorCount : Nat := 0
  /-- Number of warnings let through. -/
  warningCount : Nat := 0
  deriving DecidableEq, Repr, Inhabited

namespace Sink

/-- A sink that has let nothing through. -/
def ofName (sourceName : String) : Sink := ⟨sourceName, #[], 0, 0⟩

/-- Whether a report with this key was let through. -/
def seen (s : Sink) (key : Nat × Nat × String) : Bool :=
  s.reported.any fun d => d.key == key

/-- Reports a problem unless one with the same line, column and message was reported before. -/
def emit (s : Sink) (position : Position) (message : String) (severity : Severity) : Sink :=
  if s.seen (position.line, position.column, message) then s
  else
    let d : Diagnostic := ⟨s.sourceName, position.line, position.column, message, severity⟩
    match severity with
    | .error =>
      ⟨s.sourceName, s.reported.push d, s.errorCount + 1, s.warningCount⟩
    | .warning =>
      ⟨s.sourceName, s.reported.push d, s.errorCount, s.warningCount + 1⟩

/-- Reports an error. -/
def error (s : Sink) (position : Position) (message : String) : Sink :=
  s.emit position message .error

/-- Reports a warning. -/
def warning (s : Sink) (position : Position) (message : String) : Sink :=
  s.emit position message .warning

end Sink

end EcmaScript
