import EcmaScript.Doc.Info
import EcmaScript.Doc.Tag
import EcmaScript.Doc.TypeReader

/-!
# Reading documentation comments

Every problem is a warning: a bad tag leaves its part of the record unset and the other tags are read
as usual.

## Contents

* `Options`: what is kept and what is allowed.
* `Tag.apply`: the effect of one tag on the record.
* `parse`: the record of a comment.
* `parseInlineType`: a comment that is a bare type.
-/

namespace EcmaScript.Doc

/-- What is kept of a comment and what it may say. -/
structure Options where
  /-- Whether descriptions are kept and missing ones reported. -/
  documentation : Bool := false
  /-- Whether a comment may mark code that is outside type checking. -/
  unawareCodeAllowed : Bool := false
  deriving DecidableEq, Repr, Inhabited

/-- Tags without an effect. -/
def ignoredTags : List String :=
  ["abstract", "alternateMessageId", "consistentIdGenerator", "dict", "example", "expose", "hidden",
   "idGenerator", "implicitCast", "inheritDoc", "lends", "meaning", "modifies", "mods", "ngInject",
   "noalias", "nocompile", "noinline", "pureOrBreakMyCode", "polymer", "polymerBehavior",
   "provideGoog", "since", "struct", "throws", "unrestricted", "version"]

/-- A value together with warnings. -/
abbrev Noted (α : Type) := α × List Warning

/-! ## Types behind a tag -/

/-- Whether the first sign of the region is an opening brace. -/
def Region.startsWithBrace (r : Region) : Bool := r.skipBlank.head? == some '\x7b'

/-- The type in braces at the start of a region, and the region behind the braces. -/
def bracedType (r : Region) : Noted (Option TypeExpr × Region) :=
  match TypeReader.readBraced (TypeReader.depth r) r with
  | .ok (t, rest) => ((some t, rest), [])
  | .error e =>
    ((none, ⟨skipBraced 0 r.skipBlank.chars, r.stop⟩), [⟨e.position, .badType e.fault⟩])

/-- The type at the start of the body of a tag, with or without braces. -/
def anyType (tag : Tag) : Noted (Option TypeExpr) :=
  if tag.body.startsWithBrace then
    match bracedType tag.body with
    | ((t, _), warnings) => (t, warnings)
  else if tag.body.isBlank then (none, [⟨tag.position, .badType .notRecognized⟩])
  else match TypeReader.readTopLevel (TypeReader.depth tag.body) tag.body with
    | .ok (t, _) => (some t, [])
    | .error e => (none, [⟨e.position, .badType e.fault⟩])

/-- The type in braces behind a tag, if there are braces. -/
def optionalType (tag : Tag) : Noted (Option TypeExpr) :=
  if tag.body.startsWithBrace then
    match bracedType tag.body with
    | ((t, _), warnings) => (t, warnings)
  else (none, [])

/-! ## Tags with a list or a name -/

/-- The pieces of a text between separators. -/
def pieces (separator : Char → Bool) : List Char → List (List Char)
  | [] => [[]]
  | c :: rest =>
    if separator c then [] :: pieces separator rest
    else match pieces separator rest with
      | [] => [[c]]
      | piece :: further => (c :: piece) :: further

/-- The pieces of a text between separators, trimmed; empty ones are left out. -/
def splitTrimmed (separator : Char → Bool) (text : List Char) : List String :=
  (((pieces separator text).map Unicode.trim).filter (!·.isEmpty)).map String.ofList

/-- The names behind a template tag: those of the first line. -/
def templateTag (tag : Tag) : Noted (List String) :=
  let (names, warnings) :=
    if tag.body.startsWithBrace then
      match bracedType tag.body with
      | ((_, rest), warnings) => (rest.text, warnings)
    else (tag.body.text, [])
  (splitTrimmed (· == ',') (names.takeWhile (· != '\n')), warnings)

/-- Whether a declared type and a declared signature meet. -/
def conflictWarning (tag : Tag) (conflict : Bool) : List Warning :=
  if conflict then [⟨tag.position, .typeConflict⟩] else []

/-- Whether a tag that belongs to a signature meets a declared type. -/
def Info.conflictsWithSignature (i : Info) : Bool := i.type.isSome && !i.inlineType

/-- Whether a tag that declares a type meets a signature. -/
def Info.conflictsWithType (i : Info) : Bool := !i.params.isEmpty || i.result.isSome

/-- The effect of a parameter tag. Brackets around the name make its type optional. -/
def paramTag (options : Options) (tag : Tag) (info : Info) : Noted Info :=
  let conflict := conflictWarning tag info.conflictsWithSignature
  let ((type, rest), warnings) :=
    if tag.body.startsWithBrace then bracedType tag.body else ((none, tag.body), [])
  let rest := rest.skipBlank
  let bracketed := rest.head? == some '['
  let rest := if bracketed then rest.tail else rest
  let name := rest.takeWhile TypeReader.isTypeNameChar
  let rest := rest.dropWhile TypeReader.isTypeNameChar
  let rest := if bracketed then (rest.dropWhile (· != ']')).tail else rest
  if name.isEmpty then (info, conflict ++ warnings ++ [⟨tag.position, .badType .parameterName⟩])
  else
    let type := type.map fun t => if bracketed && !t.isOptional then .optional t else t
    let description := if options.documentation then rest.text? else none
    ({ info with params := info.params ++ [⟨String.ofList name, type, description⟩] },
      conflict ++ warnings)

/-- The effect of a suppression tag: names in braces with commas or bars between them. -/
def suppressTag (tag : Tag) (info : Info) : Noted Info :=
  let malformed : Noted Info := (info, [⟨tag.position, .malformedSuppress⟩])
  if tag.body.startsWithBrace then
    let inside := tag.body.skipBlank.tail
    match (inside.dropWhile (· != '\x7d')).head? with
    | none => malformed
    | some _ =>
      let names := splitTrimmed (fun c => c == ',' || c == '|') (inside.takeWhile (· != '\x7d'))
      (names.foldl Info.addSuppression info, [])
  else malformed

/-! ## The effect of a tag -/

/-- The effect of one tag on the record. -/
def Tag.apply (options : Options) (tag : Tag) (info : Info) : Noted Info :=
  let withType (f : Option TypeExpr → Info) : Noted Info :=
    match anyType tag with
    | (t, warnings) => (f t, warnings)
  let withOptionalType (f : Option TypeExpr → Info) : Noted Info :=
    match optionalType tag with
    | (t, warnings) => (f t, warnings)
  let silent (i : Info) : Noted Info := (i, [])
  match tag.name with
  | "type" =>
    if info.type.isSome then (info, [⟨tag.position, .extraType⟩])
    else match anyType tag with
      | (t, warnings) =>
        ({ info with type := t }, conflictWarning tag info.conflictsWithType ++ warnings)
  | "param" => paramTag options tag info
  | "return" | "returns" =>
    match optionalType tag with
    | (t, warnings) =>
      ({ info with result := t }, conflictWarning tag info.conflictsWithSignature ++ warnings)
  | "define" => withType fun t => { info with defineType := t, isConst := true }
  | "enum" => withOptionalType fun t => { info with enumType := some (t.getD (.ofName "number")) }
  | "typedef" => withType fun t => { info with typedefType := t }
  | "this" => withType fun t => { info with thisType := t }
  | "extends" | "augments" => withType fun t => { info with baseType := t }
  | "implements" => withType fun t => { info with interfaces := info.interfaces ++ t.toList }
  | "template" =>
    match templateTag tag with
    | (names, warnings) => ({ info with templateNames := info.templateNames ++ names }, warnings)
  | "const" | "final" => withOptionalType fun t => ({ info with isConst := true }).orType t
  | "constructor" => silent { info with isConstructor := true }
  | "interface" => silent { info with isInterface := true }
  | "record" => silent { info with isRecord := true }
  | "export" => withOptionalType fun t => ({ info with isExport := true }).orType t
  | "private" => withOptionalType fun t => ({ info with visibility := .privateName }).orType t
  | "protected" => withOptionalType fun t => ({ info with visibility := .protectedName }).orType t
  | "public" => withOptionalType fun t => ({ info with visibility := .publicName }).orType t
  | "package" => withOptionalType fun t => ({ info with visibility := .packageName }).orType t
  | "deprecated" => silent { info with deprecated := some (tag.body.text?.getD "") }
  | "override" => silent { info with isOverride := true }
  | "nosideeffects" => silent { info with noSideEffects := true }
  | "nocollapse" => silent { info with noCollapse := true }
  | "closureUnaware" =>
    ({ info with unaware := true },
      if options.unawareCodeAllowed then [] else [⟨tag.position, .unawareNotAllowed⟩])
  | "suppress" => suppressTag tag info
  | "fileoverview" => silent { info with hasFileOverview := true, fileOverview := tag.body.text? }
  | "externs" => silent { info with isExterns := true }
  | "typeSummary" => silent { info with isTypeSummary := true }
  | "license" | "preserve" => silent (info.addLicense (String.ofList tag.body.rawText))
  | "see" =>
    match tag.body.text? with
    | some text => silent { info with seeReferences := info.seeReferences ++ [text] }
    | none => (info, if options.documentation then [⟨tag.position, .missingReference⟩] else [])
  | "author" =>
    match tag.body.text? with
    | some text => silent { info with authors := info.authors ++ [text] }
    | none => (info, if options.documentation then [⟨tag.position, .missingAuthor⟩] else [])
  | "desc" => silent { info with messageDescription := tag.body.text? }
  | name => (info, if ignoredTags.contains name then [] else [⟨tag.position, .unknownTag name⟩])

/-- The effect of several tags in order. -/
def applyTags (options : Options) : List Tag → Info → Noted Info
  | [], info => (info, [])
  | tag :: tags, info =>
    match tag.apply options info with
    | (info, warnings) =>
      match applyTags options tags info with
      | (info, further) => (info, warnings ++ further)

/-! ## Comments -/

/-- The record of a comment that starts at `start`, unless the comment is blank. -/
def parse (options : Options) (comment : String) (start : Position) : Noted (Option Info) :=
  let text := Region.ofComment comment start
  if text.isBlank then (none, [])
  else match Tag.split text with
    | (preamble, tags) =>
      match applyTags options tags { description := preamble.text? } with
      | (info, warnings) => (some info, warnings)

/-- The record of a comment that is a bare type. There is none for a blank comment or one with
tags. -/
def parseInlineType (comment : String) (start : Position) : Noted (Option Info) :=
  let text := Region.ofComment comment start
  if text.isBlank then (none, [])
  else match Tag.split text with
    | (_, _ :: _) => (none, [])
    | (_, []) =>
      match TypeReader.readAll (TypeReader.depth text) text with
      | .ok (t, _) => (some { type := some t, inlineType := true }, [])
      | .error e => (some {}, [⟨e.position, .badType e.fault⟩])

end EcmaScript.Doc
