import EcmaScript.Lexer.Problem
import EcmaScript.Number.Double
import EcmaScript.Token.Keyword
import EcmaScript.Token.Punctuator

/-!
# Tokens and comments

Tokens make up the text that the grammar reads. Comments stand beside them.
-/

namespace EcmaScript

/-- A piece of a template literal, up to a substitution or to the end of the literal. -/
structure TemplatePart where
  /-- The text with its escapes decoded; absent when one of them is invalid. -/
  cooked : Option String
  /-- The text as written, with a line feed for every carriage return. -/
  raw : String
  /-- Whether the piece ends the literal. -/
  tail : Bool
  /-- Problems with escapes, which matter only in a template without a tag. -/
  problems : List LexicalDiagnostic
  deriving DecidableEq, Repr, Inhabited

/-- What a token is. -/
inductive TokenKind where
  /-- A name with its escapes decoded. -/
  | identifier (name : String)
  | keyword (word : Keyword)
  /-- A private name, without its number sign. -/
  | privateName (name : String)
  | punctuator (mark : Punctuator)
  | number (value : Double)
  | bigint (value : Nat)
  /-- A string with its escapes decoded. -/
  | string (value : String)
  | template (part : TemplatePart)
  | regexp (pattern flags : String)
  /-- The end of the text. -/
  | endOfText
  deriving DecidableEq, Repr, Inhabited

/-- A token at its place. -/
structure Token where
  kind : TokenKind
  span : Span
  /-- Whether a line break separates the token from the one before it. -/
  newlineBefore : Bool
  /-- Whether a name or reserved word was written with an escape. -/
  escaped : Bool
  deriving DecidableEq, Repr, Inhabited

namespace Token

/-- Whether the token is the punctuator `p`. -/
def isMark (t : Token) (p : Punctuator) : Bool :=
  match t.kind with
  | .punctuator q => q == p
  | _ => false

/-- Whether the token is the reserved word `k`. -/
def isWord (t : Token) (k : Keyword) : Bool :=
  match t.kind with
  | .keyword w => w == k
  | _ => false

/-- Whether the token is the name `name`. -/
def isName (t : Token) (name : String) : Bool :=
  match t.kind with
  | .identifier n => n == name
  | _ => false

def isEnd (t : Token) : Bool :=
  match t.kind with
  | .endOfText => true
  | _ => false

/-- The name or the spelling of the reserved word: what can name a property. -/
def propertyName? (t : Token) : Option String :=
  match t.kind with
  | .identifier name => some name
  | .keyword word => some word.spelling
  | _ => none

def start (t : Token) : Position := t.span.start

end Token

/-- Kinds of comments. -/
inductive CommentKind where
  /-- From two slashes to the end of the line. -/
  | line
  | block
  /-- A block that starts with two stars. -/
  | doc
  /-- A block that starts with an exclamation mark. -/
  | important
  /-- The interpreter line at the start of a text. -/
  | shebang
  /-- A line that starts with one of the marks of embedded scripts. -/
  | html
  deriving DecidableEq, Repr, Inhabited

/-- A comment with its text, delimiters included. -/
structure Comment where
  kind : CommentKind
  text : String
  span : Span
  deriving DecidableEq, Repr, Inhabited

end EcmaScript
