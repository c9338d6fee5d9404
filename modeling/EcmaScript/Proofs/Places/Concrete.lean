import EcmaScript.Grammar.Expression
import EcmaScript.Proofs.LexerReads
import EcmaScript.Proofs.Places.Ascending

/-!
# Places in concrete trees

Every construct of a concrete tree carries regions of the text. A table for each type of construct says
what it is made of, regions and constructs (`Part.parts`), and a construct is located in a text if all that
can be reached in this way is, and if the statements of each list stand in it one behind the other. Over a
hundred productions put constructs together, so the property is carried along by type classes: `InText text
a` is closed under the tables, under the ways to get one region from another, and under lists and pairs.

## Contents

* `Part`, `Part.parts`, `Part.Located`: what constructs are made of, and that all of it is in the text.
* `HasPlaces`, `InText`, `TextValue`: values with places, and those with places of one text.
* `inText_iff`: a construct is in the text if and only if its parts are.
* Instances of `InText` for regions, constructs, lists and pairs.
-/

namespace EcmaScript

/-! ## What constructs are made of -/

/-- A part of a concrete tree. -/
inductive Part where
  | position (p : Position)
  | span (s : Span)
  | templateText (t : TemplateText)
  | importSpecifier (s : ImportSpecifier)
  | importBindings (b : ImportBindings)
  | importDeclaration (d : ImportDeclaration)
  | exportSpecifier (s : ExportSpecifier)
  | expression (e : Expression)
  | element (e : ArrayElement)
  | property (p : Property)
  | key (k : PropertyKey)
  | function (f : Function)
  | functionBody (b : FunctionBody)
  | classDefinition (c : ClassDefinition)
  | classMember (m : ClassMember)
  | block (b : Block)
  | declarator (d : Declarator)
  | declaration (d : Declaration)
  | loopHead (h : LoopHead)
  | switchCase (c : SwitchCase)
  | catchClause (c : CatchClause)
  | statement (s : Statement)

/-- Values that can be parts of a concrete tree. -/
class IsPart (α : Type) where
  part : α → Part

open IsPart (part)

instance : IsPart Position := ⟨.position⟩
instance : IsPart Span := ⟨.span⟩
instance : IsPart LexicalDiagnostic := ⟨fun d => .position d.position⟩
instance : IsPart Identifier := ⟨fun name => .span name.span⟩
instance : IsPart StringLiteral := ⟨fun literal => .span literal.span⟩
instance : IsPart MemberName := ⟨fun name => .span name.identifier.span⟩
instance : IsPart ModuleName := ⟨fun name => .span name.span⟩
instance : IsPart TemplateText := ⟨.templateText⟩
instance : IsPart ImportSpecifier := ⟨.importSpecifier⟩
instance : IsPart ImportBindings := ⟨.importBindings⟩
instance : IsPart ImportDeclaration := ⟨.importDeclaration⟩
instance : IsPart ExportSpecifier := ⟨.exportSpecifier⟩
instance : IsPart Expression := ⟨.expression⟩
instance : IsPart ArrayElement := ⟨.element⟩
instance : IsPart Property := ⟨.property⟩
instance : IsPart PropertyKey := ⟨.key⟩
instance : IsPart Function := ⟨.function⟩
instance : IsPart FunctionBody := ⟨.functionBody⟩
instance : IsPart ClassDefinition := ⟨.classDefinition⟩
instance : IsPart ClassMember := ⟨.classMember⟩
instance : IsPart Block := ⟨.block⟩
instance : IsPart Declarator := ⟨.declarator⟩
instance : IsPart Declaration := ⟨.declaration⟩
instance : IsPart LoopHead := ⟨.loopHead⟩
instance : IsPart SwitchCase := ⟨.switchCase⟩
instance : IsPart CatchClause := ⟨.catchClause⟩
instance : IsPart Statement := ⟨.statement⟩

@[reducible] def TemplateText.parts (t : TemplateText) : List Part :=
  part t.span :: t.problems.map part

@[reducible] def ImportSpecifier.parts (s : ImportSpecifier) : List Part :=
  part s.span :: part s.imported :: s.local.toList.map part

@[reducible] def ImportBindings.parts : ImportBindings → List Part
  | .none => []
  | .star _ s => [part s]
  | .named specifiers s => part s :: specifiers.map part

@[reducible] def ImportDeclaration.parts (d : ImportDeclaration) : List Part :=
  part d.span :: part d.source :: part d.bindings :: d.defaultName.toList.map part

@[reducible] def ExportSpecifier.parts (s : ExportSpecifier) : List Part :=
  part s.span :: part s.local :: s.exported.toList.map part

/-- What an expression is made of. An empty sequence, which is never read, would stand nowhere. -/
@[reducible] def Expression.parts : Expression → List Part
  | .identifier name | .privateName name => [part name]
  | .string literal => [part literal]
  | .this s | .super s | .null s | .boolean _ s | .number _ s | .bigint _ s | .regexp _ _ s
  | .newTarget s | .importMeta s => [part s]
  | .template texts es s => part s :: (texts.map part ++ es.map part)
  | .taggedTemplate e texts es templateSpan s =>
    part s :: part templateSpan :: part e :: (texts.map part ++ es.map part)
  | .array elements _ s => part s :: elements.map part
  | .object properties _ s => part s :: properties.map part
  | .function f => [part f]
  | .classExpression c => [part c]
  | .unary _ e s | .update _ _ e s | .spread e s | .await e s | .dynamicImport e s | .paren e s =>
    [part s, part e]
  | .binary _ l r s | .assignment _ l r s | .computedMember l r _ s => [part s, part l, part r]
  | .conditional test consequent alternate s => [part s, part test, part consequent, part alternate]
  | .sequence [] s => [part s, part (default : Span)]
  | .sequence (e :: es) s => part s :: part e :: es.map part
  | .member e name _ s => [part s, part e, part name]
  | .call e es _ _ s | .construction e es _ s => part s :: part e :: es.map part
  | .yield e _ s => part s :: e.toList.map part

@[reducible] def ArrayElement.parts : ArrayElement → List Part
  | .hole s => [part s]
  | .item e => [part e]
  | .spread e s => [part s, part e]

@[reducible] def Property.parts : Property → List Part
  | .keyValue key e s => [part s, part key, part e]
  | .shorthand name default s => part s :: part name :: default.toList.map part
  | .method key f s => [part s, part key, part f]
  | .spread e s => [part s, part e]

@[reducible] def PropertyKey.parts : PropertyKey → List Part
  | .name n | .hidden n => [part n]
  | .string literal => [part literal]
  | .number _ s | .bigint _ s => [part s]
  | .computed e s => [part s, part e]

@[reducible] def Function.parts : Function → List Part
  | .mk name items _ parametersSpan body _ _ _ s =>
    part s :: part parametersSpan :: part body :: (name.toList.map part ++ items.map part)

@[reducible] def FunctionBody.parts : FunctionBody → List Part
  | .block b => [part b]
  | .expression e => [part e]

@[reducible] def ClassDefinition.parts : ClassDefinition → List Part
  | .mk name heritage members bodySpan s =>
    part s :: part bodySpan ::
      (name.toList.map part ++ (heritage.toList.map part ++ members.map part))

@[reducible] def ClassMember.parts : ClassMember → List Part
  | .method key f _ s => [part s, part key, part f]
  | .field key value _ s => part s :: part key :: value.toList.map part
  | .staticBlock b => [part b]

@[reducible] def Block.parts : Block → List Part
  | .mk statements s => part s :: statements.map part

@[reducible] def Declarator.parts : Declarator → List Part
  | .mk target value s => part s :: part target :: value.toList.map part

@[reducible] def Declaration.parts : Declaration → List Part
  | .mk _ declarators s => part s :: declarators.map part

@[reducible] def LoopHead.parts : LoopHead → List Part
  | .declaration d => [part d]
  | .expression e => [part e]

@[reducible] def SwitchCase.parts : SwitchCase → List Part
  | .mk test statements s => part s :: (test.toList.map part ++ statements.map part)

@[reducible] def CatchClause.parts : CatchClause → List Part
  | .mk binding gap body s => part s :: part gap :: part body :: binding.toList.map part

@[reducible] def Statement.parts : Statement → List Part
  | .block body => [part body]
  | .variable d => [part d]
  | .function f => [part f]
  | .classDeclaration c => [part c]
  | .import d => [part d]
  | .empty s | .debugger s | .error s => [part s]
  | .expression e s | .throw e s => [part s, part e]
  | .conditional test consequent alternate s =>
    part s :: part test :: part consequent :: alternate.toList.map part
  | .doWhile body test s | .while test body s | .with test body s => [part s, part test, part body]
  | .for head test update body s =>
    part s :: part body ::
      (head.toList.map part ++ (test.toList.map part ++ update.toList.map part))
  | .forIn head e body s | .forOf head e body _ s => [part s, part head, part e, part body]
  | .continue label s | .break label s => part s :: label.toList.map part
  | .return e s => part s :: e.toList.map part
  | .switch e cases s => part s :: part e :: cases.map part
  | .labeled label body s => [part s, part label, part body]
  | .try body handler finalizer s =>
    part s :: part body :: (handler.toList.map part ++ finalizer.toList.map part)
  | .exportDeclaration declaration s | .exportDefault declaration s => [part s, part declaration]
  | .exportNamed specifiers specifiersSpan source s =>
    part s :: part specifiersSpan :: (specifiers.map part ++ source.toList.map part)
  | .exportAll name source s => part s :: part source :: name.toList.map part

namespace Part

/-- The parts of a part, one level down. -/
@[reducible] def parts : Part → List Part
  | position _ | span _ => []
  | templateText t => t.parts
  | importSpecifier s => s.parts
  | importBindings b => b.parts
  | importDeclaration d => d.parts
  | exportSpecifier s => s.parts
  | expression e => e.parts
  | element e => e.parts
  | property p => p.parts
  | key k => k.parts
  | function f => f.parts
  | functionBody b => b.parts
  | classDefinition c => c.parts
  | classMember m => m.parts
  | block b => b.parts
  | declarator d => d.parts
  | declaration d => d.parts
  | loopHead h => h.parts
  | switchCase c => c.parts
  | catchClause c => c.parts
  | statement s => s.parts

/-- What a part says of the text by itself: places and regions are in the text, and the statements of a
list stand in order. -/
def Own (text : List Char) : Part → Prop
  | position p => p.Located text
  | span s => s.Located text
  | block (.mk statements s) => s.Arranges (statements.map Statement.span)
  | switchCase (.mk _ statements s) => s.Arranges (statements.map Statement.span)
  | _ => True

/-- The part, its parts, their parts and so on are in the text. -/
inductive Located (text : List Char) : Part → Prop
  | mk {p : Part} (own : p.Own text) (inner : ∀ q ∈ p.parts, Located text q) : Located text p

namespace Located

variable {text : List Char} {p : Part}

theorem own (h : p.Located text) : p.Own text := by
  cases h with
  | mk own _ => exact own

theorem inner (h : p.Located text) : ∀ q ∈ p.parts, q.Located text := by
  cases h with
  | mk _ inner => exact inner

end Located

end Part

/-! ## Values with places -/

/-- Values that hold places of a text. -/
class HasPlaces (α : Type) where
  /-- All places of a value are places of the text. -/
  located : List Char → α → Prop

/-- All places of the value are places of the text. -/
class InText (text : List Char) {α : Type} [HasPlaces α] (a : α) : Prop where
  located : HasPlaces.located text a

/-- A value whose places are places of the text. -/
structure TextValue (text : List Char) (α : Type) [HasPlaces α] where
  val : α
  inText : InText text val

attribute [instance] TextValue.inText

/-- Values without places. -/
abbrev HasPlaces.trivial (α : Type) : HasPlaces α := ⟨fun _ _ => True⟩

instance : HasPlaces Part := ⟨Part.Located⟩

instance {α : Type} [IsPart α] : HasPlaces α := ⟨fun text a => (part a).Located text⟩

instance : HasPlaces Token := ⟨Token.Located⟩

instance : HasPlaces Bool := .trivial _

instance : HasPlaces Unit := .trivial _

section Containers

variable {α β : Type} [HasPlaces α] [HasPlaces β]

instance : HasPlaces (List α) := ⟨fun text xs => ∀ x ∈ xs, HasPlaces.located text x⟩

instance : HasPlaces (Option α) := ⟨fun text x => ∀ a ∈ x, HasPlaces.located text a⟩

instance : HasPlaces (α × β) := ⟨fun text x => HasPlaces.located text x.1 ∧ HasPlaces.located text x.2⟩

end Containers

/-! ## Closure under parts and containers -/

namespace InText

variable {text : List Char}

section Containers

variable {α β : Type} [HasPlaces α] [HasPlaces β] {a : α} {b : β} {x : Option α} {xs ys : List α}

@[simp] theorem nil : InText text ([] : List α) := ⟨nofun⟩

@[simp] theorem cons_iff : InText text (a :: xs) ↔ InText text a ∧ InText text xs :=
  ⟨fun h => ⟨⟨h.located a List.mem_cons_self⟩, ⟨fun b hb => h.located b (List.mem_cons_of_mem a hb)⟩⟩,
    fun h => ⟨List.forall_mem_cons.mpr ⟨h.1.located, h.2.located⟩⟩⟩

@[simp] theorem append_iff : InText text (xs ++ ys) ↔ InText text xs ∧ InText text ys :=
  ⟨fun h => ⟨⟨fun b hb => h.located b (List.mem_append_left _ hb)⟩,
    ⟨fun b hb => h.located b (List.mem_append_right _ hb)⟩⟩,
    fun h => ⟨List.forall_mem_append.mpr ⟨h.1.located, h.2.located⟩⟩⟩

@[simp] theorem toList_iff : InText text x.toList ↔ InText text x :=
  ⟨fun h => ⟨fun a ha => h.located a (Option.mem_toList.mpr ha)⟩,
    fun h => ⟨fun a ha => h.located a (Option.mem_toList.mp ha)⟩⟩

@[simp] theorem none : InText text (none : Option α) := ⟨nofun⟩

@[simp] theorem some_iff : InText text (some a) ↔ InText text a :=
  ⟨fun h => ⟨h.located a rfl⟩, fun h => ⟨fun _ hm => Option.mem_some.mp hm ▸ h.located⟩⟩

attribute [instance] nil none

instance [ha : InText text a] [hx : InText text xs] : InText text (a :: xs) := cons_iff.mpr ⟨ha, hx⟩

instance [hx : InText text xs] [hy : InText text ys] : InText text (xs ++ ys) :=
  append_iff.mpr ⟨hx, hy⟩

instance [h : InText text x] : InText text x.toList := toList_iff.mpr h

instance [h : InText text a] : InText text (some a) := some_iff.mpr h

instance [hx : InText text xs] : InText text xs.reverse :=
  ⟨fun x hm => hx.located x (List.mem_reverse.mp hm)⟩

instance [ha : InText text a] [hb : InText text b] : InText text (a, b) := ⟨ha.located, hb.located⟩

instance {x : α × β} [h : InText text x] : InText text x.1 := ⟨h.located.1⟩

instance {x : α × β} [h : InText text x] : InText text x.2 := ⟨h.located.2⟩

instance {xs : List (α × β)} [h : InText text xs] : InText text (xs.map (·.1)) :=
  ⟨fun _ hm => have ⟨_, hx, e⟩ := List.mem_map.mp hm; e ▸ (h.located _ hx).1⟩

instance {xs : List (Option α)} [h : InText text xs] : InText text (xs.filterMap id) :=
  ⟨fun _ hm => have ⟨_, hx, e⟩ := List.mem_filterMap.mp hm; h.located _ hx _ e⟩

/-- What is made of the values of a list, each of them in the text. -/
theorem map {f : α → β} (hf : ∀ a : TextValue text α, InText text (f a.val)) (h : InText text xs) :
    InText text (xs.map f) := by
  refine ⟨fun b hb => ?_⟩
  obtain ⟨a, ha, rfl⟩ := List.mem_map.mp hb
  exact (hf ⟨a, ⟨h.located a ha⟩⟩).located

instance (b : Bool) : InText text b := ⟨True.intro⟩

instance (u : Unit) : InText text u := ⟨True.intro⟩

end Containers

section Parts

variable {α : Type} [IsPart α] {a : α} {xs : List α}

@[simp] theorem part_iff : InText text (part a) ↔ InText text a :=
  ⟨fun h => ⟨h.located⟩, fun h => ⟨h.located⟩⟩

@[simp] theorem map_part_iff : InText text (xs.map part) ↔ InText text xs := by
  constructor
  · intro h
    exact ⟨fun a ha => h.located _ (List.mem_map_of_mem ha)⟩
  · intro h
    refine ⟨fun q hq => ?_⟩
    obtain ⟨a, ha, rfl⟩ := List.mem_map.mp hq
    exact h.located a ha

instance [h : InText text a] : InText text (part a) := part_iff.mpr h

instance [h : InText text xs] : InText text (xs.map part) := map_part_iff.mpr h

end Parts

/-- A construct is in the text if its parts are. -/
theorem of_parts {p : Part} (own : p.Own text) (h : InText text p.parts) : InText text p :=
  ⟨.mk own h.located⟩

/-- What is in the text has its parts there. -/
theorem inner {α : Type} [IsPart α] {a : α} (h : InText text a) : InText text (part a).parts :=
  ⟨h.located.inner⟩

section Constructs

variable {templateText : TemplateText} {importSpecifier : ImportSpecifier}
  {bindings : ImportBindings} {importDeclaration : ImportDeclaration}
  {exportSpecifier : ExportSpecifier} {e : Expression} {element : ArrayElement} {property : Property}
  {key : PropertyKey} {f : Function} {body : FunctionBody} {c : ClassDefinition} {member : ClassMember}
  {declarator : Declarator} {d : Declaration} {head : LoopHead} {clause : CatchClause} {s : Statement}

-- The table of a construct is looked up only if nothing else is known of it.
instance (priority := low) [h : InText text templateText.parts] : InText text templateText :=
  part_iff.mp (of_parts trivial h)
instance (priority := low) [h : InText text importSpecifier.parts] : InText text importSpecifier :=
  part_iff.mp (of_parts trivial h)
instance (priority := low) [h : InText text bindings.parts] : InText text bindings :=
  part_iff.mp (of_parts trivial h)
instance (priority := low) [h : InText text importDeclaration.parts] : InText text importDeclaration :=
  part_iff.mp (of_parts trivial h)
instance (priority := low) [h : InText text exportSpecifier.parts] : InText text exportSpecifier :=
  part_iff.mp (of_parts trivial h)
instance (priority := low) [h : InText text e.parts] : InText text e :=
  part_iff.mp (of_parts trivial h)
instance (priority := low) [h : InText text element.parts] : InText text element :=
  part_iff.mp (of_parts trivial h)
instance (priority := low) [h : InText text property.parts] : InText text property :=
  part_iff.mp (of_parts trivial h)
instance (priority := low) [h : InText text key.parts] : InText text key :=
  part_iff.mp (of_parts trivial h)
instance (priority := low) [h : InText text f.parts] : InText text f :=
  part_iff.mp (of_parts trivial h)
instance (priority := low) [h : InText text body.parts] : InText text body :=
  part_iff.mp (of_parts trivial h)
instance (priority := low) [h : InText text c.parts] : InText text c :=
  part_iff.mp (of_parts trivial h)
instance (priority := low) [h : InText text member.parts] : InText text member :=
  part_iff.mp (of_parts trivial h)
instance (priority := low) [h : InText text declarator.parts] : InText text declarator :=
  part_iff.mp (of_parts trivial h)
instance (priority := low) [h : InText text d.parts] : InText text d :=
  part_iff.mp (of_parts trivial h)
instance (priority := low) [h : InText text head.parts] : InText text head :=
  part_iff.mp (of_parts trivial h)
instance (priority := low) [h : InText text clause.parts] : InText text clause :=
  part_iff.mp (of_parts trivial h)
instance (priority := low) [h : InText text s.parts] : InText text s :=
  part_iff.mp (of_parts trivial h)

variable {test : Option Expression} {statements : List Statement} {whole : Span}

/-- A block holds its statements one behind the other. -/
theorem block_iff : InText text (Block.mk statements whole) ↔ InText text whole ∧
    InText text statements ∧ whole.Arranges (statements.map Statement.span) := by
  constructor
  · intro h
    have hp : InText text (Block.mk statements whole).parts := h.inner
    obtain ⟨hw, hs⟩ : InText text whole ∧ InText text statements := by simpa using hp
    exact ⟨hw, hs, h.located.own⟩
  · intro ⟨hw, hs, ho⟩
    exact part_iff.mp (of_parts ho (inferInstanceAs (InText text (Block.mk statements whole).parts)))

/-- A case holds its statements one behind the other. -/
theorem switchCase_iff : InText text (SwitchCase.mk test statements whole) ↔ InText text whole ∧
    InText text test ∧ InText text statements ∧ whole.Arranges (statements.map Statement.span) := by
  constructor
  · intro h
    have hp : InText text (SwitchCase.mk test statements whole).parts := h.inner
    obtain ⟨hw, ht, hs⟩ : InText text whole ∧ InText text test ∧ InText text statements := by
      simpa using hp
    exact ⟨hw, ht, hs, h.located.own⟩
  · intro ⟨hw, ht, hs, ho⟩
    exact part_iff.mp (of_parts ho (inferInstanceAs (InText text (SwitchCase.mk test statements whole).parts)))

end Constructs

/-! ## Places and regions -/

section Regions

variable {p : Position} {s t : Span} {token : Token} {name : Identifier} {literal : StringLiteral}
  {member : MemberName} {imported : ModuleName} {word : String} {n : Nat}

theorem position_iff : InText text p ↔ p.Located text :=
  ⟨fun h => h.located.own, fun h => ⟨.mk h nofun⟩⟩

theorem span_iff : InText text s ↔ s.Located text :=
  ⟨fun h => h.located.own, fun h => ⟨.mk h nofun⟩⟩

theorem stop_le (h : InText text s) : s.stop ≤ text.length := (span_iff.mp h).2

theorem between (hp : InText text p) (hn : n ≤ text.length) : InText text (Span.between p n) :=
  span_iff.mpr (Span.located_between (position_iff.mp hp) hn)

instance : InText text Position.start := position_iff.mpr (Position.located_start text)

instance [h : InText text s] : InText text s.start := position_iff.mpr (span_iff.mp h).1

instance [h : InText text p] : InText text (Span.emptyAt p) :=
  span_iff.mpr (Span.located_emptyAt (position_iff.mp h))

instance [hp : InText text p] [hs : InText text s] : InText text (Span.between p s.stop) :=
  between hp hs.stop_le

instance [hp : InText text p] [hs : InText text s] : InText text (Span.between p s.offset) :=
  between hp (span_iff.mp hs).1.offset_le

instance [hs : InText text s] [ht : InText text t] : InText text (s.extendTo t) :=
  span_iff.mpr ((span_iff.mp hs).extendTo ht.stop_le)

instance [h : InText text token] : InText text token.span := span_iff.mpr h.located.span

instance [h : InText text token] : InText text token.start := position_iff.mpr h.located.span.1

instance [h : InText text name] : InText text name.span := ⟨h.located⟩

instance [h : InText text literal] : InText text literal.span := ⟨h.located⟩

instance [h : InText text imported] : InText text imported.span := ⟨h.located⟩

instance [h : InText text member] : InText text member.identifier := ⟨h.located⟩

instance [h : InText text s] : InText text (Identifier.mk word s) := ⟨h.located⟩

instance [h : InText text s] : InText text (StringLiteral.mk word s) := ⟨h.located⟩

instance [h : InText text name] : InText text (MemberName.plain name) := ⟨h.located⟩

instance [h : InText text name] : InText text (MemberName.hidden name) := ⟨h.located⟩

instance [h : InText text name] : InText text (ModuleName.identifier name) := ⟨h.located⟩

instance [h : InText text literal] : InText text (ModuleName.string literal) := ⟨h.located⟩

end Regions

/-! ## What a construct covers -/

section Cover

variable {f : Function} {c : ClassDefinition} {b : Block} {declarator : Declarator} {d : Declaration}
  {e : Expression} {s : Statement}

/-- The first part of a construct. -/
theorem first {α : Type} [IsPart α] {a : α} {q : Part} {rest : List Part} (h : InText text a)
    (hq : (part a).parts = q :: rest) : InText text q := (cons_iff.mp (hq ▸ h.inner)).1

instance function_span [h : InText text f] : InText text f.span := by
  cases f
  exact part_iff.mp (h.first rfl)

instance class_span [h : InText text c] : InText text c.span := by
  cases c
  exact part_iff.mp (h.first rfl)

instance block_span [h : InText text b] : InText text b.span := by
  cases b
  exact part_iff.mp (h.first rfl)

instance declarator_span [h : InText text declarator] : InText text declarator.span := by
  cases declarator
  exact part_iff.mp (h.first rfl)

instance declaration_span [h : InText text d] : InText text d.span := by
  cases d
  exact part_iff.mp (h.first rfl)

/-- All constructs carry what they cover but a property access, which covers its receiver too. -/
theorem expression_span : (e : Expression) → InText text e → InText text e.span
  | .member receiver name optional s, h => by
      have hp : InText text (Expression.member receiver name optional s).parts := h.inner
      obtain ⟨hs, hr, _⟩ : InText text s ∧ InText text receiver ∧ InText text name := by
        simpa using hp
      have := expression_span receiver hr
      exact inferInstanceAs (InText text (receiver.span.extendTo s))
  | .function f, h => by
      have : InText text f := part_iff.mp (h.first rfl)
      exact inferInstanceAs (InText text f.span)
  | .classExpression c, h => by
      have : InText text c := part_iff.mp (h.first rfl)
      exact inferInstanceAs (InText text c.span)
  | .identifier _, h | .privateName _, h | .string _, h => ⟨(h.first rfl).located⟩
  | .sequence [] _, h | .sequence (_ :: _) _, h => part_iff.mp (h.first rfl)
  | .this _, h | .super _, h | .null _, h | .boolean _ _, h | .number _ _, h | .bigint _ _, h
  | .regexp _ _ _, h | .newTarget _, h | .importMeta _, h | .template _ _ _, h
  | .taggedTemplate _ _ _ _ _, h | .array _ _ _, h | .object _ _ _, h | .unary _ _ _, h
  | .update _ _ _ _, h | .binary _ _ _ _, h | .assignment _ _ _ _, h | .conditional _ _ _ _, h
  | .computedMember _ _ _ _, h | .call _ _ _ _ _, h | .construction _ _ _ _, h | .spread _ _, h
  | .yield _ _ _, h | .await _ _, h | .dynamicImport _ _, h | .paren _ _, h =>
      part_iff.mp (h.first rfl)

instance [h : InText text e] : InText text e.span := expression_span e h

instance [h : InText text e] : InText text e.start := inferInstanceAs (InText text e.span.start)

instance statement_span [h : InText text s] : InText text s.span := by
  cases s with
  | block b =>
      have : InText text b := part_iff.mp (h.first rfl)
      exact inferInstanceAs (InText text b.span)
  | «variable» d =>
      have : InText text d := part_iff.mp (h.first rfl)
      exact inferInstanceAs (InText text d.span)
  | function f =>
      have : InText text f := part_iff.mp (h.first rfl)
      exact inferInstanceAs (InText text f.span)
  | classDeclaration c =>
      have : InText text c := part_iff.mp (h.first rfl)
      exact inferInstanceAs (InText text c.span)
  | «import» d =>
      have : InText text d := part_iff.mp (h.first rfl)
      exact part_iff.mp (this.first rfl)
  | _ => exact part_iff.mp (h.first rfl)

end Cover

end InText

end EcmaScript
