import EcmaScript.Doc.TypeExpr

/-!
# Documentation records

What one documentation comment says, and how the records of a whole file are merged.

## Contents

* `Info`: the content of a comment. Only what its tags mention is set.
* `Info.addSuppression`, `Info.addLicense`: the fields that accumulate.
* `Info.merge`: a further file-level record is folded into an earlier one.
-/

namespace EcmaScript.Doc

/-- Who may use a name. -/
inductive Visibility where
  /-- No tag says it. -/
  | inherited
  | publicName
  | protectedName
  | packageName
  | privateName
  deriving DecidableEq, Repr, Inhabited

/-- The documentation of one parameter. -/
structure Param where
  name : String
  /-- The declared type, if there is one and it could be read. -/
  type : Option TypeExpr
  /-- The text behind the name, where texts are kept. -/
  description : Option String
  deriving Inhabited

/-- The content of a documentation comment. -/
structure Info where
  /-- Text before the first tag. -/
  description : Option String := none
  /-- The declared type. -/
  type : Option TypeExpr := none
  /-- Whether the declared type is the whole comment. -/
  inlineType : Bool := false
  params : List Param := []
  result : Option TypeExpr := none
  defineType : Option TypeExpr := none
  enumType : Option TypeExpr := none
  typedefType : Option TypeExpr := none
  thisType : Option TypeExpr := none
  baseType : Option TypeExpr := none
  interfaces : List TypeExpr := []
  templateNames : List String := []
  isConst : Bool := false
  isConstructor : Bool := false
  isInterface : Bool := false
  isRecord : Bool := false
  isExport : Bool := false
  isOverride : Bool := false
  noSideEffects : Bool := false
  noCollapse : Bool := false
  /-- Whether the code is outside type checking. -/
  unaware : Bool := false
  /-- The reason for not using the name any more, empty when none is given. -/
  deprecated : Option String := none
  visibility : Visibility := .inherited
  fileOverview : Option String := none
  hasFileOverview : Bool := false
  isExterns : Bool := false
  isTypeSummary : Bool := false
  license : Option String := none
  /-- Suppressed warnings in the order they were first named. -/
  suppressions : List String := []
  seeReferences : List String := []
  authors : List String := []
  messageDescription : Option String := none
  deriving Inhabited

namespace Info

def hasType (i : Info) : Bool := i.type.isSome

/-- The type declared for the first parameter called `name`. -/
def paramType? (i : Info) (name : String) : Option TypeExpr :=
  (i.params.find? fun p => p.name == name).bind (·.type)

/-- Whether the record belongs to the file rather than to a part of it. -/
def isFileLevel (i : Info) : Bool :=
  i.hasFileOverview || i.isExterns || i.isTypeSummary || i.license.isSome

/-- Adds a suppression unless it is there. -/
def addSuppression (i : Info) (name : String) : Info :=
  if i.suppressions.contains name then i else { i with suppressions := i.suppressions ++ [name] }

/-- Adds text to the license. -/
def addLicense (i : Info) (text : String) : Info :=
  { i with license := some (i.license.getD "" ++ text) }

/-- Declares a type unless one is declared. -/
def orType (i : Info) (t : Option TypeExpr) : Info := { i with type := i.type.or t }

/-- Folds the file-level record `new` into an earlier one: the earlier one keeps its texts, while
suppressions, license and file markers accumulate. -/
def merge (earlier : Option Info) (new : Info) : Info :=
  match earlier with
  | none => new
  | some first =>
    let merged := new.suppressions.foldl addSuppression first
    let merged := new.license.elim merged merged.addLicense
    { merged with
      isExterns := merged.isExterns || new.isExterns
      isTypeSummary := merged.isTypeSummary || new.isTypeSummary
      hasFileOverview := merged.hasFileOverview || new.hasFileOverview }

end Info

end EcmaScript.Doc
