import EcmaScript.Doc.Parser
import EcmaScript.Options
import EcmaScript.Token.Basic

/-!
# Comments that wait for a node

Documentation comments are read before they are attached. Those about the whole file are merged and
belong to the root; important comments are licenses and belong there too.

## Contents

* `PendingComment`: a comment that waits for its node.
* `Backlog`: all of them in the order of the source, and the record of the file.
* `Backlog.ofComments`: the backlog of a source.
-/

namespace EcmaScript

/-- A comment that waits for its node, with its record if it is a documentation comment. -/
structure PendingComment where
  comment : Comment
  info : Option Doc.Info

namespace PendingComment

def stop (p : PendingComment) : Nat := p.comment.span.stop

/-- Whether the comment is a plain one. -/
def isPlain (p : PendingComment) : Bool := p.info.isNone

end PendingComment

/-- The text between the delimiters of an important comment. -/
def importantText (text : List Char) : List Char :=
  let body := if "/*!".toList.isPrefixOf text then text.drop 3 else text
  if "*/".toList.isSuffixOf body then body.take (body.length - 2) else body

/-- Comments that wait for their nodes, and what is said about the file. -/
structure Backlog where
  /-- The comments, last one first. -/
  reversed : List PendingComment := []
  fileInfo : Option Doc.Info := none

namespace Backlog

/-- Adds one further comment; the warnings about it go to the sink. -/
def add (options : Doc.Options) (b : Backlog) (sink : Sink) (c : Comment) : Backlog × Sink :=
  match c.kind with
  | .doc =>
    match Doc.parse options c.text c.span.start with
    | (none, warnings) => (b, Doc.report warnings sink)
    | (some info, warnings) =>
      let b :=
        if info.isFileLevel then { b with fileInfo := some (.merge b.fileInfo info) }
        else { b with reversed := ⟨c, some info⟩ :: b.reversed }
      (b, Doc.report warnings sink)
  | .important =>
    let license := String.ofList (importantText c.text.toList)
    ({ b with fileInfo := some (.merge b.fileInfo { license := some license }) }, sink)
  | .line | .block =>
    if options.documentation then ({ b with reversed := ⟨c, none⟩ :: b.reversed }, sink)
    else (b, sink)
  | .shebang | .html => (b, sink)

/-- The backlog of all comments of a source. -/
def ofComments (options : Doc.Options) (comments : List Comment) (sink : Sink) : Backlog × Sink :=
  comments.foldl (fun (b, sink) c => b.add options sink c) ({}, sink)

end Backlog

end EcmaScript
