import EcmaScript.Comment.Pending
import EcmaScript.Comment.Run
import EcmaScript.Node.Basic

/-!
# Attaching comments to nodes

A walk over the tree consumes the comments in the order of the source. A node claims the comments
that end before it starts when the walk enters it; what is left over is settled when the walk leaves
a statement, a block or the root.

## Contents

* `DocPolicy`, `docPolicy`, `takesPlain`: which comments a node claims.
* `Attaching.claim`: the comments before a node.
* `Attaching.leave`: the comments inside and behind a node that was left.
* `Attaching.node`: the walk.
* `Node.attachComments`: a tree with its comments.
-/

namespace EcmaScript

/-- What a node does with a documentation comment before it. -/
inductive DocPolicy where
  | accept
  /-- Leave it for the first child. -/
  | defer
  | discard
  deriving DecidableEq, Repr, Inhabited

/-- Where a node stands. -/
structure NodePlace where
  /-- The kind of the parent; the root has none. -/
  parent : Option NodeKind := none
  /-- The number of siblings before it. -/
  index : Nat := 0
  /-- Whether a documentation comment without tags is a type here. -/
  typed : Bool := false
  deriving DecidableEq, Repr, Inhabited

namespace NodePlace

/-- Whether a comment without tags is a type in front of a child. -/
def typedChild (place : NodePlace) (kind : NodeKind) (index : Nat) : Bool :=
  match kind with
  | .varDeclaration | .letDeclaration | .constDeclaration | .paramList | .arrayPattern
  | .objectPattern => true
  | .function | .destructuringTarget => index == 0
  | .defaultValue => index == 0 && place.typed
  | .iterRest | .objectRest => place.typed
  | .stringKey => place.parent == some .objectPattern
  | .computedProp => index == 1 && place.parent == some .objectPattern
  | _ => false

/-- The place of a child of a node of the given kind. -/
def child (place : NodePlace) (kind : NodeKind) (index : Nat) : NodePlace :=
  ⟨some kind, index, place.typedChild kind index⟩

/-- Whether the node is a statement or class member, which keeps its comments to itself. -/
def isStatement (place : NodePlace) (kind : NodeKind) : Bool :=
  kind != .moduleBody &&
    (match place.parent with
    | some .script | some .moduleBody | some .block | some .classMembers => true
    | _ => false)

/-- Whether the node is a parameter or an argument. -/
def isListItem (place : NodePlace) : Bool :=
  match place.parent with
  | some .paramList => true
  | some .call | some .new | some .optionalCall => 0 < place.index
  | _ => false

end NodePlace

namespace Node

/-- Whether the node is located at the name of an access, behind its receiver. -/
def startsAfterChildren (n : Node) : Bool :=
  (n.kind == .property || n.kind == .optionalProperty) && !n.flags.parenthesized

/-- What the node does with a documentation comment before it. -/
def docPolicy (n : Node) (place : NodePlace) : DocPolicy :=
  if n.span.length = 0 then .defer
  else match n.kind with
    | .script | .moduleBody | .exprResult | .label | .labelName | .exportDeclaration
    | .defaultValue => .defer
    | .stringKey =>
      if place.parent == some .objectPattern then
        if n.flags.shorthand then .defer else .discard
      else .accept
    | _ => .accept

/-- Whether the first child is a default value. -/
def startsWithDefault (n : Node) : Bool :=
  match n.children with
  | child :: _ => child.kind == .defaultValue
  | [] => false

/-- Whether the node claims a plain comment before it. -/
def takesPlain (n : Node) (place : NodePlace) : Bool :=
  if n.span.length = 0 then false
  else match n.kind with
    | .script | .moduleBody | .defaultValue => false
    | .stringKey =>
      !(place.parent == some .objectPattern && n.flags.shorthand && n.startsWithDefault)
    | _ => true

end Node

namespace Attaching

/-- What the walk carries along. -/
structure State where
  /-- The comments that have not been consumed, next one first. -/
  queue : List PendingComment
  sink : Sink

end Attaching

/-- A step of the walk. -/
abbrev Attaching (α : Type) := StateM Attaching.State α

namespace Attaching

/-! ## The source between two offsets -/

/-- The characters from `start` to `stop`. -/
def slice (source : Array Char) (start stop : Nat) : Array Char := source.extract start stop

/-- Whether a line ends between two offsets. -/
def hasLineBreak (source : Array Char) (start stop : Nat) : Bool :=
  (slice source start stop).any isLineTerminator

/-- Whether only blanks, commas and semicolons of one line stand between two offsets. -/
def onlySeparators (source : Array Char) (start stop : Nat) : Bool :=
  (slice source start stop).all fun c =>
    c == ',' || c == ';' || (Unicode.isWhiteSpace c && !isLineTerminator c)

/-! ## Comments before a node -/

/-- What a node has claimed. -/
structure Claim where
  doc : Option Doc.Info := none
  leading : Option CommentRun := none

/-- The record of a documentation comment at a place: the type that it is, or what its tags say. -/
def readDoc (place : NodePlace) (p : PendingComment) (sink : Sink) : Option Doc.Info × Sink :=
  if place.typed then
    match Doc.parseInlineType p.comment.text p.comment.span.start with
    | (info, warnings) => (info.or p.info, Doc.report warnings sink)
  else (p.info, sink)

/-- Merges a plain comment into those before a node. -/
def addLeading (leading : Option CommentRun) (c : Comment) (isInline : Bool) : CommentRun :=
  match leading with
  | some run => { run.push c with isInline }
  | none => .ofComment c isInline

/-- Claims the comments that end before the start of a node. -/
def claimFrom (source : Array Char) (n : Node) (place : NodePlace) (claimed : Claim) :
    List PendingComment → Sink → Claim × State
  | [], sink => (claimed, ⟨[], sink⟩)
  | p :: rest, sink =>
    if n.span.offset < p.stop then (claimed, ⟨p :: rest, sink⟩)
    else match p.info with
      | some _ =>
        match n.docPolicy place with
        | .defer => (claimed, ⟨p :: rest, sink⟩)
        | .discard => claimFrom source n place claimed rest sink
        | .accept =>
          match readDoc place p sink with
          | (doc, sink) => claimFrom source n place { claimed with doc } rest sink
      | none =>
        if n.takesPlain place then
          let isInline := !hasLineBreak source p.stop n.span.offset
          let leading := some (addLeading claimed.leading p.comment isInline)
          claimFrom source n place { claimed with leading } rest sink
        else (claimed, ⟨p :: rest, sink⟩)

def claim (source : Array Char) (n : Node) (place : NodePlace) : Attaching Claim := fun s =>
  claimFrom source n place {} s.queue s.sink

/-! ## Comments behind a node -/

/-- Consumes comments while they satisfy `p`. -/
def takeWhile (p : PendingComment → Bool) : Attaching (List PendingComment) := fun s =>
  (s.queue.takeWhile p, { s with queue := s.queue.dropWhile p })

/-- Merges a plain comment into those behind a node. -/
def addTrailing (isInline : Bool) (trailing : Option CommentRun) (p : PendingComment) :
    Option CommentRun :=
  match trailing with
  | some run => some (run.push p.comment)
  | none => some (.ofComment p.comment isInline)

/-- Merges a comment at the end of a block into those behind its last statement, on a new line. -/
def addBlockTrailing (trailing : Option AttachedComment) (p : PendingComment) :
    Option AttachedComment :=
  match trailing with
  | some c =>
    some { c with
      text := c.text ++ "\n" ++ p.comment.trimmed
      endsLine := p.comment.endsLine
      span := c.span.withStop p.stop }
  | none =>
    let run := CommentRun.ofComment p.comment false
    some { run.attached with text := "\n" ++ run.text }

/-- Attaches plain comments to the last node of a list. -/
def attachToLast (comments : List PendingComment) : List Node → List Node
  | [] => []
  | [n] => [{ n with trailing := comments.foldl addBlockTrailing n.trailing }]
  | n :: rest => n :: attachToLast comments rest

/-- Settles the comments that are left inside a block: plain ones belong to its last statement. A
block without statements leaves them alone. -/
def leaveBlock (stop : Nat) (children : List Node) : Attaching (List Node) := do
  if children.isEmpty then return children
  else
    let inside ← takeWhile fun p => p.stop ≤ stop
    return attachToLast (inside.filter (·.isPlain)) children

/-- Settles all comments that are left: plain ones belong to the root. -/
def leaveScript : Attaching (Option CommentRun) := do
  let left ← takeWhile fun _ => true
  return (left.filter (·.isPlain)).foldl (addTrailing false) none

/-- The plain comments that are left inside a statement. -/
def leaveStatement (stop : Nat) (trailing : Option CommentRun) : Attaching (Option CommentRun) := do
  let inside ← takeWhile fun p => p.isPlain && p.stop ≤ stop
  return inside.foldl (addTrailing true) trailing

/-- The plain comment behind a node on its line, with nothing but separators between. -/
def sameLine (source : Array Char) (stop : Nat) (trailing : Option CommentRun) :
    Attaching (Option CommentRun) := do
  match (← get).queue with
  | [] => return trailing
  | p :: rest =>
    if p.isPlain && stop ≤ p.comment.span.offset &&
        onlySeparators source stop p.comment.span.offset then
      modify ({ · with queue := rest })
      return addTrailing true trailing p
    else return trailing

/-- Settles the comments inside and behind a node that the walk leaves: the children with what was
attached to the last one, and the comment behind the node. -/
def leave (source : Array Char) (place : NodePlace) (kind : NodeKind) (stop : Nat)
    (children : List Node) : Attaching (List Node × Option CommentRun) := do
  let children ← if kind == .block then leaveBlock stop children else pure children
  let trailing ← if kind == .script then leaveScript else pure none
  let isStatement := place.isStatement kind
  let trailing ← if isStatement then leaveStatement stop trailing else pure trailing
  let _ ← takeWhile fun p => !p.isPlain && p.stop ≤ stop
  let trailing ←
    if isStatement || place.isListItem then sameLine source stop trailing else pure trailing
  return (children, trailing)

/-! ## The walk -/

mutual

/-- Attaches comments to a node and all below it. -/
def node (source : Array Char) (place : NodePlace) : Node → Attaching Node
  | ⟨kind, payload, children, span, flags, doc, leading, trailing⟩ => do
    let n : Node := ⟨kind, payload, children, span, flags, doc, leading, trailing⟩
    let early ← if n.startsAfterChildren then pure {} else claim source n place
    let below ← nodes source place kind 0 children
    let claimed ← if n.startsAfterChildren then claim source n place else pure early
    let (below, behind) ← leave source place kind span.stop below
    return ⟨kind, payload, below, span, flags, claimed.doc, claimed.leading.map (·.attached),
      behind.map (·.attached)⟩

/-- Attaches comments to the children of a node of the given kind, of which `index` come before. -/
def nodes (source : Array Char) (place : NodePlace) (kind : NodeKind) (index : Nat) :
    List Node → Attaching (List Node)
  | [] => return []
  | n :: rest => do
    let first ← node source (place.child kind index) n
    return first :: (← nodes source place kind (index + 1) rest)

end

end Attaching

/-- What is read of documentation comments under the options of a parse. -/
def Options.doc (o : Options) : Doc.Options :=
  ⟨o.comments == .all, o.unawareCodeAllowed⟩

/-- The tree with its comments, as far as the options ask for them. -/
def Node.attachComments (root : Node) (comments : List Comment) (source : List Char)
    (options : Options) (sink : Sink) : Node × Sink :=
  if options.comments == .none then (root, sink)
  else match Backlog.ofComments options.doc comments sink with
    | (backlog, sink) =>
      match Attaching.node source.toArray {} root ⟨backlog.reversed.reverse, sink⟩ with
      | (root, s) => ({ root with doc := backlog.fileInfo.or root.doc }, s.sink)

end EcmaScript
