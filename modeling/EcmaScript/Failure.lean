import EcmaScript.Source

/-!
# Failures of a parse

A grammar production that cannot be completed fails with a place and a message; a batch run that is
given up says after how many errors.
-/

namespace EcmaScript

/-- Why a parse or a part of it could not be completed. -/
inductive Failure where
  /-- The text at `position` does not continue the construct being read. -/
  | unexpected (message : String) (position : Position)
  /-- The run was given up after `errors` distinct errors. -/
  | aborted (errors : Nat)
  deriving DecidableEq, Repr, Inhabited

namespace Failure

/-- The failure that asks for the token or construct `what`. -/
def expected (what : String) (position : Position) : Failure :=
  unexpected ("'" ++ what ++ "' expected") position

/-- Where the failure happened, if it has a place. -/
def position? : Failure → Option Position
  | unexpected _ position => some position
  | aborted _ => none

/-- The message of the failure, if it has a place. -/
def message? : Failure → Option String
  | unexpected message _ => some message
  | aborted _ => none

/-- The one-line form. -/
def render : Failure → String
  | unexpected message position =>
    toString position.line ++ ":" ++ toString position.column ++ ": " ++ message
  | aborted errors => "parse aborted after " ++ toString errors ++ " error(s)"

end Failure

end EcmaScript
