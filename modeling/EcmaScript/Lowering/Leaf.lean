import EcmaScript.Lowering.Target
import EcmaScript.Number.PropertyName
import EcmaScript.Token.Keyword

/-!
# Names, keys and operands

The nodes that hold no other expression, and the rules about a single operand.
-/

namespace EcmaScript

namespace Lowering

/-! ## Names and literals -/

/-- A name that is used or bound. -/
def identifier (name : Identifier) : Lowering Node := do
  if es3ReservedWords.contains name.name then record .es3KeywordsAsIdentifiers name.span.start
  return .name name.name name.span

def numberNode (value : Double) (span : Span) : Node :=
  { kind := .number, payload := .number value, span }

def bigintNode (value : Nat) (span : Span) : Lowering Node := do
  record .bigint span.start
  return { kind := .bigint, payload := .bigint value, span }

def stringNode (literal : StringLiteral) : Node := .text .string literal.value literal.span

/-- The feature of a flag of a regular expression. -/
def flagFeature? : Char → Option Feature
  | 'u' => some .regexpFlagU
  | 'y' => some .regexpFlagY
  | 's' => some .regexpFlagS
  | 'd' => some .regexpFlagD
  | 'v' => some .regexpFlagV
  | _ => none

/-- Checks the flags of a regular expression one by one; `seen` are those accepted before. -/
def checkFlags (position : Position) (seen : List Char) : List Char → Lowering Unit
  | [] => return
  | c :: rest => do
    if !"gimsuydv".toList.contains c || seen.contains c then
      error position (.invalidRegExpFlag c)
      checkFlags position seen rest
    else
      if let some feature := flagFeature? c then record feature position
      checkFlags position (c :: seen) rest

def regexpNode (pattern flags : String) (span : Span) : Lowering Node := do
  checkFlags span.start [] flags.toList
  let body := Node.text .string pattern span
  return .branch .regexp span (if flags.isEmpty then [body] else [body, .text .string flags span])

/-- A piece of the text of a template. Its problems matter unless a tag receives the raw text. -/
def templateText (tagged : Bool) (text : TemplateText) : Lowering Node := do
  unless tagged do text.problems.forM lexical
  return { kind := .templateText, payload := .template text.cooked text.raw, span := text.span }

/-! ## Property keys -/

/-- A key that is known without evaluation. -/
structure KeyName where
  name : String
  span : Span
  /-- Whether the key is written in quotes. -/
  quoted : Bool := false

/-- Records a reserved word as the name of a property. -/
def recordPropertyName (name : Identifier) : Lowering Unit := do
  if (Keyword.ofSpelling? name.name).isSome then record .keywordsAsProperties name.span.start

/-- The name that a key stands for; a computed key has none. -/
def keyName : PropertyKey → Lowering KeyName
  | .name name => do
    recordPropertyName name
    return { name := name.name, span := name.span }
  | .hidden name => return { name := "#" ++ name.name, span := name.span }
  | .string literal => return { name := literal.value, span := literal.span, quoted := true }
  | .number value span => return { name := value.propertyName, span }
  | .bigint value span => do
    record .bigint span.start
    return { name := toString value, span }
  | .computed _ span => return { name := "", span }

/-- A key with its value. -/
def KeyName.node (key : KeyName) (kind : NodeKind) (value : Node) : Node :=
  { kind, payload := .text key.name, children := [value], span := key.span,
    flags := { quoted := key.quoted } }

/-- Whether a shorthand cannot have this name, since it names a binding too. Before shorthands
existed, the words of strict code were reserved in all code. -/
def isReservedShorthand (name : String) : Lowering Bool := do
  let s ← get
  return (Keyword.ofSpelling? name).isSome ||
    ((s.strict || !s.journal.supports .extendedObjectLiterals) &&
      strictReservedWords.contains name)

/-- The node of a shorthand property whose value is `value`. -/
def shorthandNode (name : Identifier) (value : Node) : Node :=
  { kind := .stringKey, payload := .text name.name, children := [value], span := name.span,
    flags := { shorthand := true } }

/-! ## Private names -/

/-- Objects to a private name that no class around it declares. -/
def checkPrivate (name : Identifier) (undeclared : Problem) : Lowering Unit := do
  record .privateClassProperties name.span.start
  let s ← scopes
  if !s.inClass then error name.span.start .privateNameMisplaced
  else if !s.declaresPrivate name.name then error name.span.start undeclared

def privateNode (name : Identifier) : Node := .text .identifier ("#" ++ name.name) name.span

/-- A private name on the left of the membership test. -/
def privateOperand (name : Identifier) : Lowering Node := do
  checkPrivate name .privateFieldUndeclared
  return privateNode name

/-- A private name anywhere else. -/
def misplacedPrivateName (name : Identifier) : Lowering Node := do
  error name.span.start .privateNameMisplaced
  return privateNode name

/-! ## Accesses and calls -/

/-- How an access or call stands in an optional chain. -/
structure ChainPlace where
  inChain : Bool
  startsChain : Bool

/-- The place in a chain of a link behind `receiver`. -/
def chainPlace (receiver : Expression) (optional : Bool) : ChainPlace :=
  ⟨optional || receiver.isOptionalChain, optional && !receiver.isOptionalChain⟩

/-- An access by name to a receiver that has been lowered. -/
def memberNode (place : ChainPlace) (receiver : Node) (property : MemberName) (isCallee : Bool)
    (span : Span) : Lowering Node := do
  let name ← match property with
    | .plain name => do
      recordPropertyName name
      pure name.name
    | .hidden name => do
      checkPrivate name (if isCallee then .privateMethodUndeclared else .privateFieldUndeclared)
      pure ("#" ++ name.name)
  return {
    kind := if place.inChain then .optionalProperty else .property
    payload := .text name
    children := [receiver]
    span
    flags := { chainStart := place.startsChain } }

/-- An access by a computed key. -/
def elementNode (place : ChainPlace) (receiver key : Node) (span : Span) : Node :=
  { kind := if place.inChain then .optionalElement else .element, children := [receiver, key], span,
    flags := { chainStart := place.startsChain } }

def isIdentifier : Expression → Bool
  | .identifier _ => true
  | _ => false

/-! ## Operators -/

/-- Objects to the operand of a unary operator. -/
def checkOperand (operator : UnaryOperator) (argument : Expression) (span : Span) :
    Lowering Unit := do
  match operator with
  | .plus =>
    match argument with
    | .bigint _ _ => error span.start .bigintToNumber
    | _ => return
  | .delete =>
    match argument.stripParens with
    | .member _ (.hidden _) _ _ => error span.start .privateFieldDeleted
    | .member .. | .computedMember .. | .identifier _ => return
    | _ => error argument.start .invalidDelete
  | _ => return

/-- Objects to the operand of an increment or decrement. -/
def checkUpdate (increment afterOperand : Bool) (argument : Expression) : Lowering Unit := do
  unless argument.isSimpleTarget do
    error argument.start (.invalidUpdateOperand increment afterOperand)

/-- Records the feature that an assignment operator needs. -/
def recordAssignment (operator : AssignmentOperator) (span : Span) : Lowering Unit := do
  match operator with
  | .exponent => record .exponentOp span.start
  | .and | .or | .coalesce => record .logicalAssignment span.start
  | _ => return

/-- Records the feature that a binary operator needs. -/
def recordBinary (operator : BinaryOperator) (span : Span) : Lowering Unit := do
  match operator with
  | .exponent => record .exponentOp span.start
  | .coalesce => record .nullCoalesceOp span.start
  | _ => return

/-- Nodes joined by commas, grouped from the left. -/
def commaNode : List Node → Node
  | [] => default
  | first :: others =>
    others.foldl (fun left right => .branch .comma (left.span.extendTo right.span) [left, right]) first

end Lowering

end EcmaScript
