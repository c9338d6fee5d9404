/-!
# Type expressions

The types that documentation comments give to names, and their text.

## Contents

* `TypeExpr`: a type expression.
* `TypeExpr.chars`, `TypeExpr.render`: its text.
-/

namespace EcmaScript.Doc

/-- A type expression. -/
inductive TypeExpr where
  /-- A question mark on its own. -/
  | unknown
  /-- A star: any type. -/
  | all
  /-- A name, possibly with dots, and its arguments. -/
  | named (name : String) (args : List TypeExpr)
  /-- A type or null. -/
  | nullable (inner : TypeExpr)
  /-- A type without null. -/
  | nonNullable (inner : TypeExpr)
  /-- The type of a parameter that may be left out. -/
  | optional (inner : TypeExpr)
  /-- The type of any number of arguments. -/
  | varArgs (inner : TypeExpr)
  | union (alternatives : List TypeExpr)
  /-- Named fields; a field without a type has an unknown one. -/
  | record (fields : List (String × Option TypeExpr))
  | function (receiver constructs : Option TypeExpr) (params : List TypeExpr)
      (result : Option TypeExpr)
  /-- The type of a name. -/
  | typeOf (name : String)
  deriving Inhabited

namespace TypeExpr

/-- A name without arguments. -/
def ofName (name : String) : TypeExpr := named name []

def isOptional : TypeExpr → Bool
  | optional _ => true
  | _ => false

def isVarArgs : TypeExpr → Bool
  | varArgs _ => true
  | _ => false

/-- The name of a named type. -/
def name? : TypeExpr → Option String
  | named name _ => some name
  | _ => none

/-- The text of a list whose elements each stand behind a comma, without the first comma. -/
def commaFree : List Char → List Char
  | [] => []
  | _ :: text => text

mutual

/-- The text of a type. -/
def chars : TypeExpr → List Char
  | unknown => ['?']
  | all => ['*']
  | named name [] => name.toList
  | named name (t :: ts) => name.toList ++ '<' :: (chars t ++ tailChars ',' ts) ++ ['>']
  | nullable t => '?' :: chars t
  | nonNullable t => '!' :: chars t
  | optional t => chars t ++ ['=']
  | varArgs t => '.' :: '.' :: '.' :: chars t
  | union [] => ['(', ')']
  | union (t :: ts) => '(' :: (chars t ++ tailChars '|' ts) ++ [')']
  | record [] => ['\x7b', '\x7d']
  | record (f :: fs) => '\x7b' :: (fieldChars f ++ fieldTailChars fs) ++ ['\x7d']
  | function receiver constructs params result =>
    "function(".toList ++ commaFree (receiverChars receiver ++ constructsChars constructs ++
      tailChars ',' params) ++ ')' :: resultChars result
  | typeOf name => "typeof ".toList ++ name.toList

/-- The texts of several types, each behind the separator. -/
def tailChars (separator : Char) : List TypeExpr → List Char
  | [] => []
  | t :: ts => separator :: chars t ++ tailChars separator ts

/-- The text of a field. -/
def fieldChars : String × Option TypeExpr → List Char
  | (key, none) => key.toList
  | (key, some t) => key.toList ++ ':' :: ' ' :: chars t

/-- The texts of several fields, each behind a comma and a blank. -/
def fieldTailChars : List (String × Option TypeExpr) → List Char
  | [] => []
  | f :: fs => ',' :: ' ' :: fieldChars f ++ fieldTailChars fs

/-- The receiver of a function type, behind a comma. -/
def receiverChars : Option TypeExpr → List Char
  | none => []
  | some t => ",this:".toList ++ chars t

/-- What a function type constructs, behind a comma. -/
def constructsChars : Option TypeExpr → List Char
  | none => []
  | some t => ",new:".toList ++ chars t

/-- The result of a function type, behind a colon. -/
def resultChars : Option TypeExpr → List Char
  | none => []
  | some t => ':' :: chars t

end

/-- The text of a type. -/
def render (t : TypeExpr) : String := String.ofList t.chars

end TypeExpr

end EcmaScript.Doc
