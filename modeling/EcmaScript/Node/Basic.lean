import EcmaScript.Doc.Info
import EcmaScript.Node.Kind
import EcmaScript.Number.Decimal
import EcmaScript.Source

/-!
# The tree

All constructs have one shape: a kind, a literal value, children, a region of the text and a set of
independent marks. Documentation and plain comments are attached at the side.

## Contents

* `Payload`, `NodeFlags`, `AttachedComment`, `Node`: the tree.
* `Node.leaf`, `Node.branch`, `Node.text`: the ways to build it.
* `Node.descendants`, `Node.outline`: all nodes in pre-order, found with a stack.
* `Node.preorder`: the same by recursion.
* `Node.render`: the tree as indented lines.
-/

namespace EcmaScript

/-- The literal value of a node. -/
inductive Payload where
  | none
  /-- A name, a string, the name of a property or a label. -/
  | text (value : String)
  | number (value : Double)
  | bigint (value : Nat)
  /-- The text of a template; `cooked` is missing after an invalid escape. -/
  | template (cooked : Option String) (raw : String)
  deriving DecidableEq, Repr, Inhabited

/-- The value behind a blank, as listings show it. -/
def Payload.suffix : Payload → String
  | .none => ""
  | .text value => " " ++ value
  | .number value => " " ++ value.render
  | .bigint value => " " ++ toString value ++ "n"
  | .template _ raw => " " ++ raw

/-- Independent marks of a node. -/
structure NodeFlags where
  parenthesized : Bool := false
  trailingComma : Bool := false
  isStatic : Bool := false
  /-- The link of an optional chain at which the chain can end. -/
  chainStart : Bool := false
  /-- A call of a plain name. -/
  freeCall : Bool := false
  isGenerator : Bool := false
  isAsync : Bool := false
  isArrow : Bool := false
  /-- A `yield` of all values of its operand. -/
  delegates : Bool := false
  shorthand : Bool := false
  quoted : Bool := false
  /-- An increment or decrement behind its operand. -/
  afterOperand : Bool := false
  exportDefault : Bool := false
  exportAll : Bool := false
  isGetter : Bool := false
  isSetter : Bool := false
  deriving DecidableEq, Repr, Inhabited

/-- Plain comments that were merged and attached to a node. -/
structure AttachedComment where
  text : String
  /-- Whether the comment shares its line with the code it belongs to. -/
  isInline : Bool
  /-- Whether the last comment ends with its line. -/
  endsLine : Bool
  span : Span
  deriving DecidableEq, Repr, Inhabited

/-- A node of the tree. -/
structure Node where
  kind : NodeKind
  payload : Payload := .none
  /-- The children in the order of the text. -/
  children : List Node := []
  span : Span
  flags : NodeFlags := {}
  /-- The documentation comment that belongs to the node. -/
  doc : Option Doc.Info := none
  /-- The plain comment before the node. -/
  leading : Option AttachedComment := none
  /-- The plain comment behind the node. -/
  trailing : Option AttachedComment := none

namespace Node

instance : Inhabited Node := ⟨{ kind := .empty, span := default }⟩

/-! ## Building -/

/-- A node without children and value. -/
def leaf (kind : NodeKind) (span : Span) : Node := { kind, span }

/-- A node with children. -/
def branch (kind : NodeKind) (span : Span) (children : List Node) : Node :=
  { kind, children, span }

/-- A node with a text as its value. -/
def text (kind : NodeKind) (value : String) (span : Span) : Node :=
  { kind, payload := .text value, span }

/-- A name. -/
def name (value : String) (span : Span) : Node := text .identifier value span

/-- The node that stands where nothing is written. -/
def empty (span : Span) : Node := leaf .empty span

/-- The node with its marks changed. -/
def mark (n : Node) (change : NodeFlags → NodeFlags) : Node := { n with flags := change n.flags }

/-- The node with one more child. -/
def append (n : Node) (child : Node) : Node := { n with children := n.children ++ [child] }

/-! ## Looking -/

/-- The text of the node, if its value is one. -/
def text? (n : Node) : Option String :=
  match n.payload with
  | .text value => some value
  | _ => none

def number? (n : Node) : Option Double :=
  match n.payload with
  | .number value => some value
  | _ => none

def bigint? (n : Node) : Option Nat :=
  match n.payload with
  | .bigint value => some value
  | _ => none

/-- The node that is reached by going down to the child of each index in turn. -/
def descend? (n : Node) : List Nat → Option Node
  | [] => some n
  | index :: path =>
    match n.children[index]? with
    | some child => child.descend? path
    | none => none

/-! ## Traversal -/

mutual

/-- The node and all below it: a node comes before its children, and these from left to right. -/
def preorder : Node → List Node
  | ⟨kind, payload, children, span, flags, doc, leading, trailing⟩ =>
    ⟨kind, payload, children, span, flags, doc, leading, trailing⟩ :: preorderAll children

def preorderAll : List Node → List Node
  | [] => []
  | n :: rest => preorder n ++ preorderAll rest

end

theorem preorder_eq (n : Node) : n.preorder = n :: preorderAll n.children := by
  cases n
  rw [preorder]

mutual

/-- The number of nodes of a tree. -/
def size : Node → Nat
  | ⟨_, _, children, _, _, _, _, _⟩ => sizeAll children + 1

def sizeAll : List Node → Nat
  | [] => 0
  | n :: rest => size n + sizeAll rest

end

theorem size_eq (n : Node) : n.size = sizeAll n.children + 1 := by
  cases n
  rw [size]

theorem sizeAll_append (xs ys : List Node) : sizeAll (xs ++ ys) = sizeAll xs + sizeAll ys := by
  induction xs with
  | nil => simp [sizeAll]
  | cons x xs ih => simp [sizeAll, ih, Nat.add_assoc]

/-- The nodes of a list, all at one depth. -/
def atDepth (depth : Nat) (nodes : List Node) : List (Nat × Node) := nodes.map (depth, ·)

/-- The size of a stack of nodes. -/
def stackSize (stack : List (Nat × Node)) : Nat := sizeAll (stack.map (·.2))

theorem stackSize_atDepth_lt (depth depth0 : Nat) (n : Node) (rest : List (Nat × Node)) :
    stackSize (atDepth depth n.children ++ rest) < stackSize ((depth0, n) :: rest) := by
  simp [stackSize, atDepth, sizeAll, sizeAll_append, size_eq, Function.comp_def]

/-- The nodes on a stack and all below them with their depths, in pre-order, behind those found
before. -/
def outlineFrom (stack : List (Nat × Node)) (found : Array (Nat × Node)) : Array (Nat × Node) :=
  match stack with
  | [] => found
  | (depth, n) :: rest =>
    outlineFrom (atDepth (depth + 1) n.children ++ rest) (found.push (depth, n))
termination_by stackSize stack
decreasing_by exact stackSize_atDepth_lt _ _ _ _

/-- All nodes with their depths in pre-order. -/
def outline (n : Node) : List (Nat × Node) := (outlineFrom [(0, n)] #[]).toList

/-- All nodes in pre-order. -/
def descendants (n : Node) : List Node := n.outline.map (·.2)

/-- The first node in pre-order that satisfies `p`. -/
def find? (n : Node) (p : Node → Bool) : Option Node := n.descendants.find? p

/-! ## Listing -/

/-- The line of a node at a depth: two blanks for each level, its kind and its value. -/
def line (depth : Nat) (n : Node) : String :=
  String.ofList (List.replicate (2 * depth) ' ') ++ n.kind.name ++ n.payload.suffix ++ "\n"

/-- The tree as one line for each node. -/
def render (n : Node) : String := String.join (n.outline.map fun (depth, m) => m.line depth)

end Node

end EcmaScript
