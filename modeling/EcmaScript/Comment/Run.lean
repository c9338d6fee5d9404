import EcmaScript.LineMap
import EcmaScript.Node.Basic
import EcmaScript.Token.Basic
import EcmaScript.Unicode

/-!
# Runs of plain comments

Plain comments that belong to one side of one node are merged into one text, in the order of the
source.

## Contents

* `Comment.lastLine`: the line on which a comment ends.
* `CommentRun`: merged comments; `CommentRun.push` keeps line breaks, `CommentRun.pushLine` makes one.
-/

namespace EcmaScript

namespace Comment

/-- The line on which the comment ends. -/
def lastLine (c : Comment) : Nat := c.span.line + (LineMap.breakEnds 0 c.text.toList).length

/-- The text of the comment without white space at its end. -/
def trimmed (c : Comment) : String := String.ofList (Unicode.trimEnd c.text.toList)

def endsLine (c : Comment) : Bool := c.kind == .line

end Comment

/-- Plain comments merged into one text. -/
structure CommentRun where
  text : String
  start : Position
  /-- Where the last comment ends. -/
  stop : Nat
  /-- The line on which the last comment ends. -/
  lastLine : Nat
  isInline : Bool
  /-- Whether the last comment ends with its line. -/
  endsLine : Bool
  deriving DecidableEq, Repr, Inhabited

namespace CommentRun

/-- The run of a single comment. -/
def ofComment (c : Comment) (isInline : Bool) : CommentRun :=
  ⟨c.trimmed, c.span.start, c.span.stop, c.lastLine, isInline, c.endsLine⟩

/-- Appends a comment behind a separator. -/
def append (r : CommentRun) (separator : String) (c : Comment) : CommentRun :=
  { r with
    text := r.text ++ separator ++ c.trimmed
    stop := c.span.stop
    lastLine := c.lastLine
    endsLine := c.endsLine }

/-- Appends a comment with a line break for every line between, or directly on the same line. -/
def push (r : CommentRun) (c : Comment) : CommentRun :=
  r.append (String.ofList (List.replicate (c.span.line - r.lastLine) '\n')) c

/-- Appends a comment on a new line; blank lines are dropped. -/
def pushLine (r : CommentRun) (c : Comment) : CommentRun := r.append "\n" c

/-- The run as it is attached to a node. -/
def attached (r : CommentRun) : AttachedComment :=
  ⟨r.text, r.isInline, r.endsLine, .between r.start r.stop⟩

end CommentRun

end EcmaScript
