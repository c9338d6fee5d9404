import EcmaScript.Doc.Problem
import EcmaScript.Doc.Text
import EcmaScript.Doc.TypeExpr
import EcmaScript.Unicode

/-!
# Reading type expressions

A reader consumes a region from the front and fails with a fault and its place. Blanks may stand
before every sign. The readers of the grammar call each other under a bound on the depth of calls,
which `TypeReader.depth` takes large enough for every region: between two calls of one reader a
character is consumed.

## Contents

* `TypeReader`: readers of a region.
* `readParamType`, `readTopLevel`, `readTypeExpression`, `readBasic`: the levels of the grammar.
* `readBraced`: a type between braces.
-/

namespace EcmaScript.Doc

/-- A fault at its place. -/
structure TypeError where
  fault : TypeFault
  position : Position
  deriving DecidableEq, Repr, Inhabited

/-- A reader of a region: it gives a value and what is left, or fails. -/
abbrev TypeReader (α : Type) := StateT Region (Except TypeError) α

namespace TypeReader

/-- Fails at the present place. -/
def fail {α : Type} (fault : TypeFault) : TypeReader α := fun r => .error ⟨fault, r.position⟩

/-- The next character behind blanks, which are consumed. -/
def peek : TypeReader (Option Char) := fun r => .ok (r.skipBlank.head?, r.skipBlank)

/-- Consumes one character. -/
def skip : TypeReader Unit := fun r => .ok ((), r.tail)

/-- Consumes blanks and then the character `c`, if it follows. -/
def eat (c : Char) : TypeReader Bool := fun r =>
  if r.skipBlank.head? == some c then .ok (true, r.skipBlank.tail) else .ok (false, r.skipBlank)

/-- Consumes blanks and then `word`, if it follows. -/
def eatWord (word : List Char) : TypeReader Bool := fun r =>
  let s := r.skipBlank
  if word.isPrefixOf s.rawText then .ok (true, ⟨s.chars.drop word.length, s.stop⟩)
  else .ok (false, s)

/-- Whether the character may be part of a type name. -/
def isTypeNameChar (c : Char) : Bool :=
  Unicode.isAlphabetic c || Unicode.isNumeric c || c == '_' || c == '$' || c == '.'

/-- Reads a name behind blanks. A point before an angle bracket is not part of the name. -/
def name? : TypeReader (Option String) := fun r =>
  let s := r.skipBlank
  match s.takeWhile isTypeNameChar with
  | [] => .ok (none, s)
  | cs =>
    let t := s.dropWhile isTypeNameChar
    let cs := if cs.getLast? == some '.' && t.head? == some '<' then cs.dropLast else cs
    .ok (some (String.ofList cs), t)

/-- Reads the key of a field: a quoted text or a name. -/
def fieldKey : TypeReader String := do
  match ← peek with
  | some c =>
    if c == '\'' || c == '"' then
      fun r =>
        let s := r.tail
        .ok (String.ofList (s.takeWhile (· != c)), (s.dropWhile (· != c)).tail)
    else match ← name? with
      | some name => return name
      | none => fail .notRecognized
  | none => fail .notRecognized

mutual

/-- Reads a type in the place of a parameter: any number of arguments, an argument that may be left
out, or a plain type. -/
def readParamType : Nat → TypeReader TypeExpr
  | 0 => fail .notRecognized
  | depth + 1 => do
    if ← eatWord ['.', '.', '.'] then
      match ← peek with
      | none | some '\x7d' | some ')' | some ',' => return .varArgs .unknown
      | _ => return .varArgs (← readTopLevel depth)
    else
      let t ← readTopLevel depth
      if ← eat '=' then return .optional t else return t

/-- Reads a type or several ones with bars between them. -/
def readTopLevel : Nat → TypeReader TypeExpr
  | 0 => fail .notRecognized
  | depth + 1 => do
    let first ← readTypeExpression depth
    if ← eat '|' then return .union (first :: (← readAlternatives depth)) else return first

/-- Reads the alternatives behind a bar; a second bar is passed over. -/
def readAlternatives : Nat → TypeReader (List TypeExpr)
  | 0 => fail .notRecognized
  | depth + 1 => do
    let _ ← eat '|'
    let t ← readTypeExpression depth
    if ← eat '|' then return t :: (← readAlternatives depth) else return [t]

/-- Reads a type with a mark for null before or behind it. -/
def readTypeExpression : Nat → TypeReader TypeExpr
  | 0 => fail .notRecognized
  | depth + 1 => do
    match ← peek with
    | some '?' =>
      skip
      match ← peek with
      | none | some ',' | some '=' | some '\x7d' | some ')' | some '>' | some '|' | some ']'
      | some ':' => return .unknown
      | _ => return .nullable (← readBasic depth)
    | some '!' =>
      skip
      return .nonNullable (← readBasic depth)
    | _ =>
      let t ← readBasic depth
      if ← eat '?' then return .nullable t
      else if ← eat '!' then return .nonNullable t
      else return t

/-- Reads a star, a record, a type in parentheses, a function type, a type query or a name. -/
def readBasic : Nat → TypeReader TypeExpr
  | 0 => fail .notRecognized
  | depth + 1 => do
    match ← peek with
    | some '*' =>
      skip
      return .all
    | some '\x7b' =>
      skip
      readRecord depth
    | some '(' =>
      skip
      let t ← readTopLevel depth
      if ← eat ')' then return t else fail .parenNotClosed
    | some c =>
      if isTypeNameChar c then
        let start ← get
        let name := (← name?).getD ""
        if name == "function" && (← peek) == some '(' then
          skip
          readFunction depth
        else if name == "typeof" then
          match ← name? with
          | some target => return .typeOf target
          | none => fail .notRecognized
        else if name.startsWith "." then
          set start
          fail .notRecognized
        else if ← eat '<' then
          let args ← readArguments depth
          if ← eat '>' then return .named name args else fail .angleNotClosed
        else return .named name []
      else fail .notRecognized
    | none => fail .notRecognized

/-- Reads types with commas between them. -/
def readArguments : Nat → TypeReader (List TypeExpr)
  | 0 => fail .notRecognized
  | depth + 1 => do
    let t ← readTopLevel depth
    if ← eat ',' then return t :: (← readArguments depth) else return [t]

/-- Reads a record type behind its opening brace. -/
def readRecord : Nat → TypeReader TypeExpr
  | 0 => fail .notRecognized
  | depth + 1 => do
    if ← eat '\x7d' then return .record []
    else
      let fields ← readFields depth
      if ← eat '\x7d' then return .record fields else fail .braceNotClosed

/-- Reads fields with commas between them. -/
def readFields : Nat → TypeReader (List (String × Option TypeExpr))
  | 0 => fail .notRecognized
  | depth + 1 => do
    let key ← fieldKey
    let value ← if ← eat ':' then some <$> readTopLevel depth else pure none
    if ← eat ',' then return (key, value) :: (← readFields depth) else return [(key, value)]

/-- Reads a function type behind its opening parenthesis. -/
def readFunction : Nat → TypeReader TypeExpr
  | 0 => fail .notRecognized
  | depth + 1 => do
    let (receiver, constructs, params) ←
      if ← eat ')' then pure (none, none, [])
      else
        let parts ← readParameters depth none none []
        if ← eat ')' then pure parts else fail .parenNotClosed
    let result ← if ← eat ':' then some <$> readTypeExpression depth else pure none
    return .function receiver constructs params result

/-- Reads the parameters of a function type; receiver, constructed type and parameters, in reverse,
so far are given. -/
def readParameters : Nat → Option TypeExpr → Option TypeExpr → List TypeExpr →
    TypeReader (Option TypeExpr × Option TypeExpr × List TypeExpr)
  | 0, _, _, _ => fail .notRecognized
  | depth + 1, receiver, constructs, params => do
    let (receiver, constructs, params) ←
      if ← eatWord "this:".toList then
        let t ← readTopLevel depth
        pure (some t, constructs, params)
      else do
        if ← eatWord "new:".toList then
          let t ← readTopLevel depth
          pure (receiver, some t, params)
        else
          let t ← readParamType depth
          pure (receiver, constructs, t :: params)
    if ← eat ',' then readParameters depth receiver constructs params
    else return (receiver, constructs, params.reverse)

end

/-- A depth of calls that no region of this length exceeds. -/
def depth (r : Region) : Nat := 8 * r.chars.length + 8

/-- Reads a type between braces. -/
def readBraced (depth : Nat) : TypeReader TypeExpr := do
  if ← eat '\x7b' then
    let t ← readParamType depth
    if ← eat '\x7d' then return t else fail .braceNotClosed
  else fail .notRecognized

/-- Reads a type that fills the whole region. -/
def readAll (depth : Nat) : TypeReader TypeExpr := do
  let t ← readParamType depth
  match ← peek with
  | none => return t
  | some _ => fail .notRecognized

end TypeReader

/-- The region behind the brace that closes the first open one; empty when none does. -/
def skipBraced (nesting : Nat) : List (Char × Position) → List (Char × Position)
  | [] => []
  | (c, _) :: rest =>
    if c == '\x7b' then skipBraced (nesting + 1) rest
    else if c == '\x7d' then if nesting ≤ 1 then rest else skipBraced (nesting - 1) rest
    else skipBraced nesting rest

end EcmaScript.Doc
