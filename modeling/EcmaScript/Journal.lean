import EcmaScript.Diagnostic
import EcmaScript.Failure
import EcmaScript.Feature.Set
import EcmaScript.Lexer.Problem
import EcmaScript.Problem

/-!
# The journal of a parse

A `Journal` collects what is worth telling about one source: the features it uses and the
diagnostics about it. A feature that the configured edition lacks is noted like any other, and
objected to.

## Contents

* `Feature.objection?`: how a feature is objected to.
* `Journal`: features and diagnostics under one edition.
-/

namespace EcmaScript

/-- How a feature that the edition lacks is objected to. A trailing comma in a list of parameters
or arguments is objected to by the list itself. -/
def Feature.objection? : Feature → Option (String × Severity)
  | .trailingComma => some (Problem.trailingCommaInLiteral.message, .warning)
  | .keywordsAsProperties => some (Problem.keywordAsProperty.message, .warning)
  | .es3KeywordsAsIdentifiers => some (Problem.reservedIdentifier.message, .error)
  | .trailingCommaInParamList => none
  | f => some (f.unsupportedMessage, .warning)

/-- Features and diagnostics of one source. -/
structure Journal where
  /-- The edition that the source is written for. -/
  edition : Edition
  sink : Sink
  features : FeatureSet := .empty
  deriving Repr, Inhabited

namespace Journal

def error (j : Journal) (position : Position) (problem : Problem) : Journal :=
  { j with sink := j.sink.error position problem.message }

def warning (j : Journal) (position : Position) (problem : Problem) : Journal :=
  { j with sink := j.sink.warning position problem.message }

/-- Passes a problem of the lexer on. -/
def lexical (j : Journal) (d : LexicalDiagnostic) : Journal :=
  { j with sink := j.sink.emit d.position d.problem.message d.severity }

/-- Reports the failure of a production, if it has a place. -/
def failure (j : Journal) : Failure → Journal
  | .unexpected message position => { j with sink := j.sink.error position message }
  | .aborted _ => j

/-- Whether the edition has the feature. -/
def supports (j : Journal) (f : Feature) : Bool := decide (f.minimumEdition ≤ j.edition)

/-- Notes a feature, and objects to it unless the edition has it. -/
def record (j : Journal) (f : Feature) (position : Position) : Journal :=
  let noted := { j with features := j.features.insert f }
  if j.supports f then noted
  else match f.objection? with
    | some (message, severity) => { noted with sink := noted.sink.emit position message severity }
    | none => noted

end Journal

end EcmaScript
