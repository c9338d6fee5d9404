import EcmaScript.Lowering.Leaf

/-!
# Imports and exports
-/

namespace EcmaScript

namespace Lowering

def moduleNameNode : ModuleName → Node
  | .identifier name => .name name.name name.span
  | .string literal => stringNode literal

/-! ## Imports -/

/-- One imported name with its local name. -/
def importSpecNode (specifier : ImportSpecifier) : Lowering Node := do
  let «local» ← match specifier.local with
    | some name => identifier name
    | none => pure (.name specifier.imported.text specifier.imported.span)
  return {
    kind := .importSpec
    children := [moduleNameNode specifier.imported, «local»]
    span := specifier.span
    flags := { shorthand := specifier.local.isNone } }

/-- An import: the default binding, the other bindings and the module. -/
def importNode (declaration : ImportDeclaration) : Lowering Node := do
  markModule declaration.span.start
  let default ← match declaration.defaultName with
    | some name => identifier name
    | none => pure (.empty (.emptyAt declaration.span.start))
  let bindings ← match declaration.bindings with
    | .star name span => pure (.text .importStar name.name span)
    | .named specifiers span => do
      let specs ← specifiers.mapM importSpecNode
      pure (.branch .importSpecs span specs)
    | .none => pure (.empty (.emptyAt declaration.source.span.start))
  return .branch .importDeclaration declaration.span
    [default, bindings, stringNode declaration.source]

/-! ## Exports -/

/-- One exported name with its local name. -/
def exportSpecNode (specifier : ExportSpecifier) : Node :=
  { kind := .exportSpec,
    children := [moduleNameNode specifier.local,
      moduleNameNode (specifier.exported.getD specifier.local)],
    span := specifier.span, flags := { shorthand := specifier.exported.isNone } }

/-- An export of listed names. -/
def exportNamedNode (specifiers : List ExportSpecifier) (specifiersSpan : Span)
    (source : Option StringLiteral) (span : Span) : Node :=
  .branch .exportDeclaration span
    (.branch .exportSpecs specifiersSpan (specifiers.map exportSpecNode) ::
      source.toList.map stringNode)

/-- An export of a whole module. -/
def exportAllNode (exportedName : Option ModuleName) (source : StringLiteral) (span : Span) :
    Node :=
  let name := match exportedName with
    | some name => moduleNameNode name
    | none => .empty (.emptyAt span.start)
  { kind := .exportDeclaration, children := [name, stringNode source], span,
    flags := { exportAll := true } }

end Lowering

end EcmaScript
