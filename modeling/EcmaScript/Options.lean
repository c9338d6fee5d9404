import EcmaScript.Edition

/-!
# Options of a parse

## Contents

* `Strictness`, `CommentPolicy`, `ErrorPolicy`: the choices besides the edition.
* `Options`: all choices of one parse, with their defaults.
* `key`, `ofKey?`: the names that a configuration uses for each choice, and their readers.
-/

namespace EcmaScript

/-- Whether the rules of strict code apply. -/
inductive Strictness where
  | strict
  | sloppy
  deriving DecidableEq, Repr, Inhabited

namespace Strictness

def all : List Strictness := [.strict, .sloppy]

def key : Strictness → String
  | strict => "STRICT"
  | sloppy => "SLOPPY"

def ofKey? (key : String) : Option Strictness := all.find? fun s => s.key == key

end Strictness

/-- Which comments are kept and attached to the tree. -/
inductive CommentPolicy where
  /-- No comment. -/
  | none
  /-- Documentation comments only. -/
  | docOnly
  /-- Documentation comments and every plain comment. -/
  | all
  deriving DecidableEq, Repr, Inhabited

namespace CommentPolicy

def values : List CommentPolicy := [.none, .docOnly, .all]

def key : CommentPolicy → String
  | none => "NONE"
  | docOnly => "JS_DOC_ONLY"
  | all => "ALL"

def ofKey? (key : String) : Option CommentPolicy := values.find? fun c => c.key == key

end CommentPolicy

/-- What happens after an error. -/
inductive ErrorPolicy where
  /-- Report and give no tree. -/
  | stopOnError
  /-- Put placeholders into the tree and report everything. -/
  | keepGoing
  deriving DecidableEq, Repr, Inhabited

namespace ErrorPolicy

def all : List ErrorPolicy := [.stopOnError, .keepGoing]

def key : ErrorPolicy → String
  | stopOnError => "STOP_ON_ERROR"
  | keepGoing => "KEEP_GOING"

def ofKey? (key : String) : Option ErrorPolicy := all.find? fun p => p.key == key

end ErrorPolicy

/-- The choices of one parse. -/
structure Options where
  /-- Edition that the source is written for. -/
  edition : Edition := .unsupported
  strictness : Strictness := .strict
  comments : CommentPolicy := .docOnly
  onError : ErrorPolicy := .stopOnError
  /-- Whether documentation comments may mark code that is outside type checking. -/
  unawareCodeAllowed : Bool := false
  deriving DecidableEq, Repr, Inhabited

namespace Options

def isStrict (o : Options) : Bool := o.strictness == .strict

def keepGoing (o : Options) : Bool := o.onError == .keepGoing

end Options

end EcmaScript
