/-!
# Reserved words

## Contents

* `Keyword`: the reserved words, with their spelling and its reader.
* `strictReservedWords`: words reserved in strict code only.
* `es3ReservedWords`: words that the third edition reserved and later ones released.
-/

namespace EcmaScript

/-- A reserved word. Each constructor is named for the word, with a suffix. -/
inductive Keyword where
  | breakWord
  | caseWord
  | catchWord
  | classWord
  | constWord
  | continueWord
  | debuggerWord
  | defaultWord
  | deleteWord
  | doWord
  | elseWord
  | enumWord
  | exportWord
  | extendsWord
  | falseWord
  | finallyWord
  | forWord
  | functionWord
  | ifWord
  | importWord
  | inWord
  | instanceofWord
  | newWord
  | nullWord
  | returnWord
  | superWord
  | switchWord
  | thisWord
  | throwWord
  | trueWord
  | tryWord
  | typeofWord
  | varWord
  | voidWord
  | whileWord
  | withWord
  deriving DecidableEq, Repr, Inhabited

namespace Keyword

/-- All reserved words in alphabetical order. -/
def all : List Keyword :=
  [.breakWord, .caseWord, .catchWord, .classWord, .constWord, .continueWord, .debuggerWord,
   .defaultWord, .deleteWord, .doWord, .elseWord, .enumWord, .exportWord, .extendsWord,
   .falseWord, .finallyWord, .forWord, .functionWord, .ifWord, .importWord, .inWord,
   .instanceofWord, .newWord, .nullWord, .returnWord, .superWord, .switchWord, .thisWord,
   .throwWord, .trueWord, .tryWord, .typeofWord, .varWord, .voidWord, .whileWord, .withWord]

/-- The word as it is written. -/
def spelling : Keyword → String
  | breakWord => "break"
  | caseWord => "case"
  | catchWord => "catch"
  | classWord => "class"
  | constWord => "const"
  | continueWord => "continue"
  | debuggerWord => "debugger"
  | defaultWord => "default"
  | deleteWord => "delete"
  | doWord => "do"
  | elseWord => "else"
  | enumWord => "enum"
  | exportWord => "export"
  | extendsWord => "extends"
  | falseWord => "false"
  | finallyWord => "finally"
  | forWord => "for"
  | functionWord => "function"
  | ifWord => "if"
  | importWord => "import"
  | inWord => "in"
  | instanceofWord => "instanceof"
  | newWord => "new"
  | nullWord => "null"
  | returnWord => "return"
  | superWord => "super"
  | switchWord => "switch"
  | thisWord => "this"
  | throwWord => "throw"
  | trueWord => "true"
  | tryWord => "try"
  | typeofWord => "typeof"
  | varWord => "var"
  | voidWord => "void"
  | whileWord => "while"
  | withWord => "with"

/-- The reserved word written as `name`. -/
def ofSpelling? (name : String) : Option Keyword := all.find? fun k => k.spelling == name

end Keyword

/-- Words reserved in strict code only. -/
def strictReservedWords : List String :=
  ["implements", "interface", "let", "package", "private", "protected", "public", "static",
   "yield"]

/-- Words that the third edition reserved and later editions released. -/
def es3ReservedWords : List String :=
  ["abstract", "boolean", "byte", "char", "double", "final", "float", "goto", "int", "long",
   "native", "short", "synchronized", "throws", "transient", "volatile", "implements", "interface",
   "package", "private", "protected", "public", "static", "const", "enum", "export", "import"]

end EcmaScript
