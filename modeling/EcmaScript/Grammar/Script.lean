import EcmaScript.Grammar.Statement

/-!
# Statements of a script

A script is read one statement at a time, so that the static rules can be applied to a statement as
soon as it ends. What the lexer noted up to there goes to the journal first.

## Contents

* `State.ofText`: the cursor on the first token of a text.
* `flush`: from the notes of the lexer to the journal.
* `scriptStatement`: one statement, or a placeholder for one.
-/

namespace EcmaScript

namespace Grammar

/-- The start of a text, with its first token under the cursor. -/
def State.ofText (source : String) (options : Options) (journal : Journal) : State :=
  match (Lexer.ofText source options.isStrict).nextToken with
  | (first, lexer) =>
    { lexer, current := first, lastStop := 0, context := {}, journal, options }

/-- Moves the notes of the lexer to the journal: its problems, and then the features it met. -/
def flush : Production Unit := modify fun s =>
  match s.lexer.takeDiagnostics with
  | (problems, lexer) =>
    match lexer.takeFeatures with
    | (features, lexer) =>
      let noted := problems.foldl Journal.lexical s.journal
      let noted := features.foldl (fun j (feature, position) => j.record feature position) noted
      { s with lexer := lexer, journal := noted }

/-- Reports a failure and reads on to a likely start of a statement. When the parse is to stop at
the first failure there is nothing to go on with. -/
def recover (start : Position) (failure : Failure) : Production (Option Statement) := do
  flush
  note (·.failure failure)
  if (← get).options.keepGoing then
    synchronize true
    return some (.error (← spanFrom start))
  else return none

/-- One statement of a script. -/
def scriptStatement (read : Reader) : Production (Option Statement) := do
  let start ← position
  try
    let statement ← read (.statement .topLevel)
    flush
    return some statement
  catch failure => recover start failure

end Grammar

end EcmaScript
