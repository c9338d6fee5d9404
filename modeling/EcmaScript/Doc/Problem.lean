import EcmaScript.Diagnostic

/-!
# Problems in documentation comments

All of them are warnings.
-/

namespace EcmaScript.Doc

/-- What is wrong with a type annotation. -/
inductive TypeFault where
  | notRecognized
  | braceNotClosed
  | parenNotClosed
  | angleNotClosed
  | parameterName
  deriving DecidableEq, Repr, Inhabited

/-- The text of a fault. -/
def TypeFault.reason : TypeFault → String
  | .notRecognized => "type not recognized due to syntax error."
  | .braceNotClosed => "expected closing \x7d"
  | .parenNotClosed => "missing closing )"
  | .angleNotClosed => "missing closing >"
  | .parameterName => "expecting a variable name in a @param tag."

/-- A problem in a documentation comment. -/
inductive Problem where
  | badType (fault : TypeFault)
  | extraType
  /-- A declared type beside a declared signature. -/
  | typeConflict
  | unawareNotAllowed
  | malformedSuppress
  | missingReference
  | missingAuthor
  | unknownTag (name : String)
  deriving DecidableEq, Repr, Inhabited

/-- The text of a problem. -/
def Problem.message : Problem → String
  | badType fault =>
    "Bad type annotation. " ++ fault.reason ++ " See https://github.com/google/closure-compiler/" ++
      "wiki/Annotating-JavaScript-for-the-Closure-Compiler for more information."
  | extraType => "extra @type tag"
  | typeConflict => "type annotation incompatible with other annotations"
  | unawareNotAllowed => "@closureUnaware annotation is not allowed in this compilation"
  | malformedSuppress => "malformed @suppress tag"
  | missingReference => "@see tag missing description"
  | missingAuthor => "@author tag missing author"
  | unknownTag name =>
    "illegal use of unknown JSDoc tag \"" ++ name ++ "\"; ignoring it. Place another character " ++
      "before the @ to stop JSCompiler from parsing it as an annotation."

/-- A problem at its place. -/
structure Warning where
  position : Position
  problem : Problem
  deriving DecidableEq, Repr, Inhabited

/-- Reports warnings in order. -/
def report (warnings : List Warning) (sink : Sink) : Sink :=
  warnings.foldl (fun s w => s.warning w.position w.problem.message) sink

end EcmaScript.Doc
