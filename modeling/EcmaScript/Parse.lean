import EcmaScript.Comment.Attach
import EcmaScript.Comment.SourceMap
import EcmaScript.Grammar.Script
import EcmaScript.Lowering.Tree

/-!
# Parsing

`parse` reads a source, lowers it statement by statement, and attaches its comments to the tree.
Diagnostics come in the order in which statements end: what the lexer and the grammar say about a
statement, then what the static rules say about it.

## Contents

* `ParseResult`: what a parse gives.
* `Script`: a script that is being read.
* `parse`: the whole way from a text to its tree.
-/

namespace EcmaScript

/-- What a parse gives. -/
structure ParseResult where
  /-- The tree, which is missing when an error stopped the parse. -/
  root : Option Node
  /-- The features that the source uses. -/
  features : FeatureSet
  /-- The comments in the order of the text, if plain comments are asked for. -/
  comments : List Comment
  /-- The address of the source map. -/
  sourceMapUrl : Option String
  /-- What was reported about the source. -/
  sink : Sink

/-- A script of which some statements have been read and lowered. -/
structure Script where
  grammar : Grammar.State
  lowering : Lowering.State
  /-- The statements, last one first. -/
  reversed : List Node := []
  /-- Whether a failure ended the reading. -/
  stopped : Bool := false

namespace Script

/-- A script of which nothing has been read. -/
def ofText (name source : String) (options : Options) : Script :=
  let journal : Journal := { edition := options.edition, sink := .ofName name }
  { grammar := .ofText source options journal
    lowering := { journal, lineMap := .ofText source, strict := options.isStrict } }

/-- Runs a step of lowering, which writes on in the journal of the grammar. -/
def lower {α : Type} (s : Script) (step : Lowering α) : α × Script :=
  match step { s.lowering with journal := s.grammar.journal } with
  | (a, lowering) =>
    (a, { s with grammar := { s.grammar with journal := lowering.journal }, lowering := lowering })

/-- Reads and lowers one statement. -/
def step (depth : Nat) (s : Script) : Script :=
  match Grammar.scriptStatement (Grammar.read depth) s.grammar with
  | .ok (some statement) grammar =>
    match lower { s with grammar := grammar } (Lowering.statement statement) with
    | (node, s) => { s with reversed := node :: s.reversed }
  | .ok none grammar | .error _ grammar => { s with grammar := grammar, stopped := true }

/-- Reads statements up to the end of the text or to a failure, but at most `limit` of them. -/
def run (depth : Nat) : (limit : Nat) → Script → Script
  | 0, s => s
  | limit + 1, s =>
    if s.stopped || s.grammar.current.isEnd then s else run depth limit (step depth s)

/-- Passes on what the lexer noted behind the last statement. -/
def flush (s : Script) : Script :=
  match Grammar.flush s.grammar with
  | .ok _ grammar | .error _ grammar => { s with grammar := grammar }

/-- Reads all statements of a text of `length` characters. Each statement has a token of its own,
and there are at most as many tokens as characters and an end. Between two tokens the grammar nests
less than four times. -/
def readAll (length : Nat) (s : Script) : Script := (run (4 * (length + 4)) (length + 2) s).flush

/-- The tree of a script that was read. -/
def root? (s : Script) : Option Node × Script :=
  if s.stopped then (none, s)
  else
    let span := Span.between Position.start s.grammar.current.span.stop
    match s.lower (Lowering.script s.reversed.reverse span) with
    | (root, s) => (some root, s)

end Script

/-- Where the last part of a tree ends. -/
def Node.codeStop (root : Option Node) : Nat :=
  match root.bind (·.children.getLast?) with
  | some last => last.span.stop
  | none => 0

/-- Reads a source, gives its tree with the comments attached, and reports what is wrong with it.
When the options say to stop at errors, a source with errors has no tree. -/
def parse (name source : String) (options : Options) : ParseResult :=
  match ((Script.ofText name source options).readAll source.length).root? with
  | (root, s) =>
    let comments := s.grammar.lexer.comments.toList
    let journal := s.grammar.journal
    let (root, sink) : Option Node × Sink := match root with
      | some n =>
        match n.attachComments comments source.toList options journal.sink with
        | (n, sink) => (some n, sink)
      | none => (none, journal.sink)
    { root := if !options.keepGoing && 0 < sink.errorCount then none else root
      features := journal.features
      comments := if options.comments == .all then comments else []
      sourceMapUrl := sourceMapUrl? comments (Node.codeStop root)
      sink }

end EcmaScript
