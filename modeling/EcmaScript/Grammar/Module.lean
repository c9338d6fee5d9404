import EcmaScript.Grammar.Expression

/-!
# Imports and exports
-/

namespace EcmaScript

namespace Grammar

/-- The name of a module in quotes. -/
def moduleSpecifier : Production StringLiteral := do
  let token ← current
  match token.kind with
  | .string value =>
    skip
    return ⟨value, token.span⟩
  | _ => fail .stringExpected token.start

/-- A name or a string in an import or export clause. -/
def moduleName : Production ModuleName := do
  let token ← current
  match token.kind with
  | .string value =>
    skip
    return .string ⟨value, token.span⟩
  | _ => .identifier <$> identifierName

/-! ## Imports -/

/-- The default binding of an import; a reserved word is named in the failure. -/
def importDefault : Production Identifier := do
  match (← current).kind with
  | .keyword word => failHere (.keywordNotAllowed word.spelling)
  | _ => bindingIdentifier

/-- Refuses an imported name that cannot be bound as it is. -/
def checkImportedName (imported : ModuleName) : Production Unit := do
  match imported with
  | .identifier name =>
    if (Keyword.ofSpelling? name.name).isSome ||
        ((← isStrict) && strictReservedWords.contains name.name) then
      fail (.keywordNotAllowed name.name) name.span.start
  | .string _ => return

def importSpecifier : Production ImportSpecifier := do
  let start ← position
  let imported ← moduleName
  let «local» ←
    if ← eatName "as" then some <$> bindingIdentifier
    else
      checkImportedName imported
      pure none
  return ⟨imported, «local», ← spanFrom start⟩

/-- The part of `specifiers` that has `limit` entries left. -/
def specifiersFrom {α : Type} (specifier : Production α) : Nat → List α → Production (List α)
  | 0, items => return items.reverse
  | limit + 1, items => do
    if ← atMark .rightBrace then return items.reverse
    else
      let items := (← specifier) :: items
      if ← eatMark .comma then specifiersFrom specifier limit items else return items.reverse

/-- Entries in braces, separated by commas, and the region with the braces. -/
def specifiers {α : Type} (specifier : Production α) : Production (List α × Span) := do
  let start ← position
  skip
  let items ← specifiersFrom specifier ((← get).lexer.rest.length + 2) []
  let _ ← expectMark .rightBrace
  return (items, ← spanFrom start)

/-- The bindings of an import besides the default. -/
def importBindings : Production ImportBindings := do
  let token ← current
  if token.isMark .star then
    skip
    let _ ← expectName "as"
    let name ← bindingIdentifier
    return .star name (← spanFrom token.start)
  else if token.isMark .leftBrace then
    let (items, span) ← specifiers importSpecifier
    return .named items span
  else failHere (.expected "\x7b")

/-- Everything between the word `import` and the word `from`. -/
def importClause : Production (Option Identifier × ImportBindings) := do
  if (← atMark .star) || (← atMark .leftBrace) then return (none, ← importBindings)
  else
    let name ← importDefault
    if ← eatMark .comma then return (some name, ← importBindings) else return (some name, .none)

def isString (token : Token) : Bool :=
  match token.kind with
  | .string _ => true
  | _ => false

def importDeclaration : Production Statement := do
  let start ← position
  skip
  let (defaultName, bindings) ←
    if isString (← current) then pure (none, ImportBindings.none)
    else
      let clause ← importClause
      let _ ← expectName "from"
      pure clause
  let source ← moduleSpecifier
  endStatement
  return .import ⟨defaultName, bindings, source, ← spanFrom start⟩

/-! ## Exports -/

def exportSpecifier : Production ExportSpecifier := do
  let start ← position
  let «local» ← moduleName
  let exported ← if ← eatName "as" then some <$> moduleName else pure none
  return ⟨«local», exported, ← spanFrom start⟩

/-- Refuses a local name that cannot be bound, which only a re-export can have. -/
def checkExportedLocal (specifier : ExportSpecifier) : Production Unit := do
  match specifier.local with
  | .string literal => fail .identifierExpected literal.span.start
  | .identifier name =>
    if (Keyword.ofSpelling? name.name).isSome || strictReservedWords.contains name.name then
      fail (.keywordNotAllowed name.name) name.span.start

/-- What follows `export default`. -/
def exportedDefault (read : Reader) : Production Statement := do
  let start ← position
  if ← atWord .functionWord then .function <$> functionDeclaration read false start true
  else if (← atName "async") && (← peek).isWord .functionWord then
    skip
    .function <$> functionDeclaration read true start true
  else if ← atWord .classWord then .classDeclaration <$> classDefinition read true
  else
    let value ← read .assignment
    endStatement
    return .expression value (← spanFrom start)

/-- An export of a whole module; the star stands under the cursor. -/
def exportAll (start : Position) : Production Statement := do
  skip
  let exportedName ← if ← eatName "as" then some <$> moduleName else pure none
  let _ ← expectName "from"
  let source ← moduleSpecifier
  endStatement
  return .exportAll exportedName source (← spanFrom start)

/-- An export of listed names; the brace stands under the cursor. -/
def exportNamed (start : Position) : Production Statement := do
  let (items, span) ← specifiers exportSpecifier
  let source ← if ← eatName "from" then some <$> moduleSpecifier else pure none
  if source.isNone then items.forM checkExportedLocal
  endStatement
  return .exportNamed items span source (← spanFrom start)

/-- Whether a token starts a declaration that can be exported. -/
def startsExportable (token : Token) : Bool :=
  match token.kind with
  | .keyword word =>
    [Keyword.varWord, .constWord, .functionWord, .classWord].contains word
  | .identifier name => name == "let" || name == "async"
  | _ => false

def exportDeclaration (read : Reader) : Production Statement := do
  let start ← position
  skip
  if ← eatWord .defaultWord then
    let value ← exportedDefault read
    return .exportDefault value (← spanFrom start)
  else if ← atMark .star then exportAll start
  else if ← atMark .leftBrace then exportNamed start
  else if startsExportable (← current) then
    let declaration ← read (.statement .list)
    return .exportDeclaration declaration (← spanFrom start)
  else failHere (.expected "\x7b")

end Grammar

end EcmaScript
