import EcmaScript.Token.Basic
import EcmaScript.Unicode

/-!
# The address of a source map
-/

namespace EcmaScript

/-- What a line comment with the address of a source map starts with. -/
def sourceMapMark : List Char := "//# sourceMappingURL=".toList

/-- The address that a line comment gives: behind the mark, without white space in it, and with
nothing but white space behind it. -/
def sourceMapAddress? (text : List Char) : Option String :=
  if sourceMapMark.isPrefixOf text then
    let rest := text.drop sourceMapMark.length
    let address := rest.takeWhile fun c => !Unicode.isWhiteSpace c
    let behind := rest.dropWhile fun c => !Unicode.isWhiteSpace c
    if address.isEmpty || !behind.all Unicode.isWhiteSpace then none
    else some (String.ofList address)
  else none

/-- The address of the source map, which only the last comment can give, and only when no code
follows it: the code ends at `codeStop`. -/
def sourceMapUrl? (comments : List Comment) (codeStop : Nat) : Option String :=
  match comments.getLast? with
  | some c =>
    if c.kind == .line && codeStop ≤ c.span.offset then sourceMapAddress? c.text.toList else none
  | none => none

end EcmaScript
