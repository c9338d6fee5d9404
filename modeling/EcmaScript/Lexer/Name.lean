import EcmaScript.Lexer.Escape

/-!
# Names

Names and reserved words, raw or with Unicode escapes. A name with a bad escape is read to its end
and stands for its raw text, so that one fault is reported once.
-/

namespace EcmaScript

namespace Lexer

/-- Reads the rest of a name whose first characters are `read`, in reverse, and says whether an escape
was among them. Gives none behind a bad escape. -/
def nameRest (s : Lexer) (read : List Char) (escaped : Bool) :
    Option (List Char × Bool) × Lexer :=
  match _h : s.rest with
  | [] => (some (read, escaped), s)
  | c :: _ =>
    if isNamePart c then nameRest s.advance (c :: read) escaped
    else if c == '\\' then
      if s.advance.nextIs (· == 'u') then
        match _h' : s.advance.advance.unicodeEscapeOrReport .invalidEscape with
        | (some d, t) =>
          if isNamePart d then nameRest t (d :: read) true
          else (none, t.error t.position .invalidEscape)
        | (none, t) => (none, t)
      else (none, s.advance.error s.advance.position .invalidEscape)
    else (some (read, escaped), s)
termination_by s.rest.length
decreasing_by
  · simp only [length_rest_advance, _h, List.length_cons]; omega
  · have h := s.advance.advance.length_rest_unicodeEscapeOrReport_le .invalidEscape
    simp only [_h', length_rest_advance, _h, List.length_cons] at h ⊢
    omega

/-- The reserved word or the name with the given characters. -/
def classifyName (name : String) : TokenKind :=
  match Keyword.ofSpelling? name with
  | some word => .keyword word
  | none => .identifier name

/-- Reads the rest of a word with a bad escape; the raw text since `start` is its name. -/
def recoverName (s : Lexer) (start : Position) : TokenKind × Lexer :=
  match (s.skipWhile fun c => isNamePart c || c == '\\').cutSince start with
  | (text, t) => (.identifier (String.ofList text), t)

/-- Reads a name whose first character is `first`; says whether it holds an escape. -/
def nameFrom (s : Lexer) (first : Char) (escaped : Bool) (start : Position) :
    (TokenKind × Bool) × Lexer :=
  match s.nameRest [first] escaped with
  | (some (read, escaped), t) => ((classifyName (String.ofList read.reverse), escaped), t)
  | (none, t) =>
    match t.recoverName start with
    | (kind, u) => ((kind, true), u)

/-- Reads a name that starts with an escape, behind its backslash at `start`. -/
def escapedName (s : Lexer) (start : Position) : (TokenKind × Bool) × Lexer :=
  let recover (t : Lexer) : (TokenKind × Bool) × Lexer :=
    match t.recoverName start with
    | (kind, u) => ((kind, true), u)
  if s.nextIs (· == 'u') then
    match s.advance.unicodeEscapeOrReport .invalidEscape with
    | (some first, t) =>
      if isNameStart first then t.nameFrom first true start
      else recover (t.error start (.badStart first))
    | (none, t) => recover t
  else recover (s.error s.position .invalidEscape)

/-- Reads a name that starts with the character `c` at `start`, behind it. -/
def nameToken (s : Lexer) (c : Char) (start : Position) : (TokenKind × Bool) × Lexer :=
  if c == '\\' then s.escapedName start else s.nameFrom c false start

/-- Reads the name of a private member, behind the number sign. -/
def privateName (s : Lexer) : (TokenKind × Bool) × Lexer :=
  match s.rest with
  | [] => ((.privateName "", false), s)
  | c :: _ =>
    match s.advance.nameToken c s.position with
    | ((kind, escaped), t) =>
      let name := match kind with
        | .keyword word => word.spelling
        | .identifier name => name
        | _ => ""
      ((.privateName name, escaped), t)

end Lexer

end EcmaScript
