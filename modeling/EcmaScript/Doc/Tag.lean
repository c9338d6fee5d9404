import EcmaScript.Doc.Text

/-!
# Tags

A tag is an at sign at the start of a word and the letters behind it. Tags cut the text of a comment
into a preamble and one region for each tag.
-/

namespace EcmaScript.Doc

/-- A tag with its place and the text up to the next tag. -/
structure Tag where
  name : String
  position : Position
  body : Region
  deriving DecidableEq, Repr, Inhabited

namespace Tag

/-- Whether a tag starts with `c`, where `blankBefore` says whether white space or nothing stands
before it and `rest` follows. -/
def startsAt (blankBefore : Bool) (c : Char) (rest : List (Char × Position)) : Bool :=
  c == '@' && blankBefore && rest.head?.any (·.1.isAlpha)

/-- Cuts a text at its tags. The first piece is the preamble; each further one starts with the at sign
of a tag. -/
def cut (blankBefore : Bool) : List (Char × Position) →
    List (Char × Position) × List (List (Char × Position))
  | [] => ([], [])
  | x :: rest =>
    match cut (Unicode.isWhiteSpace x.1) rest with
    | (piece, pieces) =>
      if startsAt blankBefore x.1 rest then ([], (x :: piece) :: pieces) else (x :: piece, pieces)

/-- The tag of a piece, which `stop` follows. -/
def ofPiece (piece : List (Char × Position)) (stop : Position) : Tag :=
  let r : Region := ⟨piece, stop⟩
  ⟨String.ofList (r.tail.takeWhile Char.isAlphanum), r.position, r.tail.dropWhile Char.isAlphanum⟩

/-- The tags of pieces; each piece ends where the next one starts. -/
def ofPieces (stop : Position) : List (List (Char × Position)) → List Tag
  | [] => []
  | [piece] => [ofPiece piece stop]
  | piece :: next :: rest =>
    ofPiece piece (Region.position ⟨next, stop⟩) :: ofPieces stop (next :: rest)

/-- Preamble and tags of a text. -/
def split (text : Region) : Region × List Tag :=
  match cut true text.chars with
  | (preamble, pieces) =>
    let stop := match pieces with
      | [] => text.stop
      | piece :: _ => Region.position ⟨piece, text.stop⟩
    (⟨preamble, stop⟩, ofPieces text.stop pieces)

end Tag

end EcmaScript.Doc
