import EcmaScript.Proofs.Places.Concrete

/-!
# Concrete trees in the order of the text

What a construct is made of stands in its region one behind the other. A table for each type of construct
says in which order (`Part.pieces`): regions with what is inside them, and constructs with tables of their
own. `Laid lo pieces hi` says that pieces stand in this order between two offsets. A region with nothing in
it would be a place between two tokens; where this can be, there is a gap instead.

## Contents

* `Piece`, `Part.pieces`: what constructs are made of, in the order of the text.
* `Laid`: pieces one behind the other.
* `Laid.append`, `Laid.of_append`: lists of pieces.
* `Laid.expression`, `Laid.statement`, `Laid.statements`: constructs fill their own regions.
-/

namespace EcmaScript

open IsPart (part)

/-! ## What constructs are made of, in order -/

/-- A piece of what stands in the text. -/
inductive Piece where
  /-- A region of at least one token, with what is inside. -/
  | region (s : Span) (inner : List Piece)
  /-- A region of which nothing is said but where it is. -/
  | gap (s : Span)
  | part (p : Part)

namespace Piece

/-- A region in which nothing else is told apart. -/
abbrev leaf (s : Span) : Piece := .region s []

/-- The first character of a region, which belongs to a word of its own. -/
abbrev word (s : Span) : Piece := leaf (.ofStart s.start 1)

/-- A construct as a piece. -/
abbrev of {α : Type} [IsPart α] (a : α) : List Piece := [.part (IsPart.part a)]

/-- Constructs one behind the other. -/
abbrev each {α : Type} [IsPart α] (xs : List α) : List Piece := xs.flatMap of

/-- The pieces of a value that may be missing. -/
abbrev maybe {α : Type} (pieces : α → List Piece) : Option α → List Piece
  | some a => pieces a
  | none => []

/-- A name. -/
abbrev identifier (i : Identifier) : List Piece := [leaf i.span]

/-- A string literal. -/
abbrev string (literal : StringLiteral) : List Piece := [leaf literal.span]

/-- A name of an import or export. -/
abbrev moduleName (n : ModuleName) : List Piece := [leaf n.span]

/-- The texts and the substitutions of a template, in turn. -/
def template : List TemplateText → List Expression → List Piece
  | texts, [] => texts.map (leaf ·.span)
  | [], _ :: _ => []
  | text :: texts, e :: es => leaf text.span :: .part (IsPart.part e) :: template texts es

end Piece

open Piece

def ImportSpecifier.pieces (s : ImportSpecifier) : List Piece :=
  [.region s.span (Piece.moduleName s.imported ++ maybe Piece.identifier s.local)]

def ImportBindings.pieces : ImportBindings → List Piece
  | .none => []
  | .star _ s => [leaf s]
  | .named specifiers s => [.region s (each specifiers)]

def ImportDeclaration.pieces (d : ImportDeclaration) : List Piece :=
  [.region d.span (maybe Piece.identifier d.defaultName ++ d.bindings.pieces ++ Piece.string d.source)]

def ExportSpecifier.pieces (s : ExportSpecifier) : List Piece :=
  [.region s.span (Piece.moduleName s.local ++ maybe Piece.moduleName s.exported)]

/-- An empty sequence, which is never read, would stand nowhere. -/
def Expression.pieces : Expression → List Piece
  | .identifier i | .privateName i => Piece.identifier i
  | .string literal => Piece.string literal
  | .this s | .super s | .null s | .boolean _ s | .number _ s | .bigint _ s | .regexp _ _ s
  | .newTarget s | .importMeta s => [leaf s]
  | .template texts es s => [.region s (Piece.template texts es)]
  | .taggedTemplate e texts es templateSpan s =>
    [.region s (of e ++ [.region templateSpan (Piece.template texts es)])]
  | .array elements _ s => [.region s (each elements)]
  | .object properties _ s => [.region s (each properties)]
  | .function f => of f
  | .classExpression c => of c
  | .unary _ e s | .update _ _ e s | .spread e s | .dynamicImport e s | .paren e s => [.region s (of e)]
  | .await e s => [.region s (word s :: of e)]
  | .binary _ l r s | .assignment _ l r s | .computedMember l r _ s => [.region s (of l ++ of r)]
  | .conditional test consequent alternate s =>
    [.region s (of test ++ of consequent ++ of alternate)]
  | .sequence [] _ => [leaf default]
  | .sequence (e :: es) s => [.region s (of e ++ each es)]
  | .member e _ _ s => of e ++ [leaf s]
  | .call e es _ _ s | .construction e es _ s => [.region s (of e ++ each es)]
  | .yield e _ s => [.region s (maybe of e)]

def ArrayElement.pieces : ArrayElement → List Piece
  | .hole s => [.gap s]
  | .item e => of e
  | .spread e s => [.region s (of e)]

def Property.pieces : Property → List Piece
  | .keyValue key e s => [.region s (of key ++ of e)]
  | .shorthand i default s => [.region s (Piece.identifier i ++ maybe of default)]
  | .method key f s => [.region s (of key ++ of f)]
  | .spread e s => [.region s (of e)]

def PropertyKey.pieces : PropertyKey → List Piece
  | .name i | .hidden i => Piece.identifier i
  | .string literal => Piece.string literal
  | .number _ s | .bigint _ s => [leaf s]
  | .computed e s => [.region s (of e)]

def FunctionBody.pieces : FunctionBody → List Piece
  | .block b => of b
  | .expression e => of e

def Function.pieces : Function → List Piece
  | .mk i items _ parametersSpan body _ _ _ s =>
    [.region s (maybe Piece.identifier i ++ [.region parametersSpan (each items)] ++ body.pieces)]

def ClassDefinition.pieces : ClassDefinition → List Piece
  | .mk i heritage members bodySpan s =>
    [.region s (maybe Piece.identifier i ++ maybe of heritage ++ [.region bodySpan (each members)])]

def ClassMember.pieces : ClassMember → List Piece
  | .method key f _ s => [.region s (of key ++ of f)]
  | .field key value _ s => [.region s (of key ++ maybe of value)]
  | .staticBlock b => of b

def Block.pieces : Block → List Piece
  | .mk statements s => [.region s (each statements)]

def Declarator.pieces : Declarator → List Piece
  | .mk target value s => [.region s (of target ++ maybe of value)]

def Declaration.pieces : Declaration → List Piece
  | .mk _ declarators s => [.region s (each declarators)]

def LoopHead.pieces : LoopHead → List Piece
  | .declaration d => of d
  | .expression e => of e

def SwitchCase.pieces : SwitchCase → List Piece
  | .mk test statements s => [.region s (maybe of test ++ each statements)]

def CatchClause.pieces : CatchClause → List Piece
  | .mk binding between body s => [.region s ([.gap between] ++ maybe of binding ++ of body)]

def Statement.pieces : Statement → List Piece
  | .block b => of b
  | .variable d => of d
  | .function f => of f
  | .classDeclaration c => of c
  | .import d => of d
  | .empty s | .debugger s => [leaf s]
  | .error s => [.gap s]
  | .expression e s | .throw e s => [.region s (of e)]
  | .conditional test consequent alternate s =>
    [.region s (of test ++ of consequent ++ maybe of alternate)]
  | .doWhile body e s => [.region s (of body ++ of e)]
  | .while e body s | .with e body s => [.region s (of e ++ of body)]
  | .for head test update body s =>
    [.region s (word s :: (maybe of head ++ maybe of test ++ maybe of update ++ of body))]
  | .forIn head e body s | .forOf head e body _ s => [.region s (word s :: (of head ++ of e ++ of body))]
  | .continue label s | .break label s => [.region s (maybe Piece.identifier label)]
  | .return e s => [.region s (maybe of e)]
  | .switch e cases s => [.region s (of e ++ each cases)]
  | .labeled label body s => [.region s (Piece.identifier label ++ of body)]
  | .try body handler finalizer s => [.region s (of body ++ maybe of handler ++ maybe of finalizer)]
  | .exportDeclaration declaration s | .exportDefault declaration s => [.region s (of declaration)]
  | .exportNamed specifiers specifiersSpan source s =>
    [.region s ([.region specifiersSpan (each specifiers)] ++ maybe Piece.string source)]
  | .exportAll n source s => [.region s (maybe Piece.moduleName n ++ Piece.string source)]

/-- What a part is made of, in the order of the text. -/
def Part.pieces : Part → List Piece
  | position _ => []
  | span s => [leaf s]
  | templateText t => [leaf t.span]
  | importSpecifier s => s.pieces
  | importBindings b => b.pieces
  | importDeclaration d => d.pieces
  | exportSpecifier s => s.pieces
  | expression e => e.pieces
  | element e => e.pieces
  | property p => p.pieces
  | key k => k.pieces
  | function f => f.pieces
  | functionBody b => b.pieces
  | classDefinition c => c.pieces
  | classMember m => m.pieces
  | block b => b.pieces
  | declarator d => d.pieces
  | declaration d => d.pieces
  | loopHead h => h.pieces
  | switchCase c => c.pieces
  | catchClause c => c.pieces
  | statement s => s.pieces

/-- What items stand for that are joined by commas. -/
def Expression.joined (first : Expression) (others : List Expression) : Expression :=
  match others.getLast? with
  | none => first
  | some last => .sequence (first :: others) (.between first.start last.span.stop)

/-! ## Pieces one behind the other -/

/-- The pieces stand between the two offsets, in this order and none of them reaching into the next. -/
inductive Laid : Nat → List Piece → Nat → Prop
  | nil {lo hi : Nat} : Laid lo [] hi
  | region {lo hi : Nat} {s : Span} {inner rest : List Piece} :
      lo ≤ s.offset → 0 < s.length → Laid s.offset inner s.stop → s.stop ≤ hi → Laid s.stop rest hi →
      Laid lo (.region s inner :: rest) hi
  | gap {lo hi : Nat} {s : Span} {rest : List Piece} :
      lo ≤ s.offset → s.stop ≤ hi → Laid s.stop rest hi → Laid lo (.gap s :: rest) hi
  | part {lo mid hi : Nat} {p : Part} {rest : List Piece} :
      lo ≤ mid → Laid lo p.pieces mid → mid ≤ hi → Laid mid rest hi → Laid lo (.part p :: rest) hi

namespace Laid

variable {lo lo' mid hi hi' : Nat} {s : Span} {p : Part} {inner ps qs rest : List Piece}

theorem region_iff : Laid lo (.region s inner :: rest) hi ↔
    lo ≤ s.offset ∧ 0 < s.length ∧ Laid s.offset inner s.stop ∧ s.stop ≤ hi ∧ Laid s.stop rest hi :=
  ⟨fun h => by cases h with | region hlo hlen hin hhi hrest => exact ⟨hlo, hlen, hin, hhi, hrest⟩,
    fun ⟨hlo, hlen, hin, hhi, hrest⟩ => .region hlo hlen hin hhi hrest⟩

theorem gap_iff : Laid lo (.gap s :: rest) hi ↔ lo ≤ s.offset ∧ s.stop ≤ hi ∧ Laid s.stop rest hi :=
  ⟨fun h => by cases h with | gap hlo hhi hrest => exact ⟨hlo, hhi, hrest⟩,
    fun ⟨hlo, hhi, hrest⟩ => .gap hlo hhi hrest⟩

theorem part_iff : Laid lo (.part p :: rest) hi ↔
    ∃ mid, lo ≤ mid ∧ Laid lo p.pieces mid ∧ mid ≤ hi ∧ Laid mid rest hi :=
  ⟨fun h => by cases h with | part hlo hp hhi hrest => exact ⟨_, hlo, hp, hhi, hrest⟩,
    fun ⟨_, hlo, hp, hhi, hrest⟩ => .part hlo hp hhi hrest⟩

/-- One region by itself. -/
theorem region_alone : Laid lo [.region s inner] hi ↔
    lo ≤ s.offset ∧ 0 < s.length ∧ Laid s.offset inner s.stop ∧ s.stop ≤ hi := by
  rw [region_iff]
  exact ⟨fun ⟨hlo, hlen, hin, hhi, _⟩ => ⟨hlo, hlen, hin, hhi⟩,
    fun ⟨hlo, hlen, hin, hhi⟩ => ⟨hlo, hlen, hin, hhi, .nil⟩⟩

theorem leaf_iff : Laid lo [leaf s] hi ↔ lo ≤ s.offset ∧ 0 < s.length ∧ s.stop ≤ hi := by
  rw [region_alone]
  exact ⟨fun ⟨hlo, hlen, _, hhi⟩ => ⟨hlo, hlen, hhi⟩, fun ⟨hlo, hlen, hhi⟩ => ⟨hlo, hlen, .nil, hhi⟩⟩

theorem mono (h : Laid lo ps hi) (hlo : lo' ≤ lo) (hhi : hi ≤ hi') : Laid lo' ps hi' := by
  induction h generalizing lo' hi' with
  | nil => exact .nil
  | region hs hlen hin hstop _ _ ih =>
      exact .region (Nat.le_trans hlo hs) hlen hin (Nat.le_trans hstop hhi) (ih (Nat.le_refl _) hhi)
  | gap hs hstop _ ih =>
      exact .gap (Nat.le_trans hlo hs) (Nat.le_trans hstop hhi) (ih (Nat.le_refl _) hhi)
  | part hle _ hstop _ ihp ih =>
      exact .part (Nat.le_trans hlo hle) (ihp hlo (Nat.le_refl _)) (Nat.le_trans hstop hhi)
        (ih (Nat.le_refl _) hhi)

/-- A token has a first character. -/
theorem first (h : Laid lo [leaf s] hi) : Laid lo [word s] hi := by
  obtain ⟨hlo, hlen, hstop⟩ := leaf_iff.mp h
  exact leaf_iff.mpr ⟨hlo, Nat.one_pos, Nat.le_trans (Nat.add_le_add_left hlen _) hstop⟩

/-- Pieces stand between the offsets in this order, if there are any. -/
theorem le (h : Laid lo ps hi) (hne : ps ≠ []) : lo ≤ hi := by
  cases h with
  | nil => exact absurd rfl hne
  | region hs _ _ hstop _ => exact Nat.le_trans hs (Nat.le_trans (Span.offset_le_stop _) hstop)
  | gap hs hstop _ => exact Nat.le_trans hs (Nat.le_trans (Span.offset_le_stop _) hstop)
  | part hle _ hstop _ => exact Nat.le_trans hle hstop

/-- A construct stands where its pieces do. -/
theorem single (h : Laid lo p.pieces hi) (hle : lo ≤ hi) : Laid lo [.part p] hi :=
  .part hle h (Nat.le_refl _) .nil

/-! ## Lists of pieces -/

theorem append {next : Nat} (h : Laid lo ps mid) (h' : Laid next qs hi) (hlo : lo ≤ next)
    (hnext : mid ≤ next) (hmid : mid ≤ hi) : Laid lo (ps ++ qs) hi := by
  induction h with
  | nil => exact h'.mono hlo (Nat.le_refl _)
  | region hs hlen hin hstop _ _ ih =>
      exact .region hs hlen hin (Nat.le_trans hstop hmid) (ih (Nat.le_trans hstop hnext) hnext hmid)
  | gap hs hstop _ ih =>
      exact .gap hs (Nat.le_trans hstop hmid) (ih (Nat.le_trans hstop hnext) hnext hmid)
  | part hle hp hstop _ _ ih =>
      exact .part hle hp (Nat.le_trans hstop hmid) (ih (Nat.le_trans hstop hnext) hnext hmid)

theorem of_append (h : Laid lo (ps ++ qs) hi) (hle : lo ≤ hi) :
    ∃ mid, lo ≤ mid ∧ mid ≤ hi ∧ Laid lo ps mid ∧ Laid mid qs hi := by
  induction ps generalizing lo with
  | nil => exact ⟨lo, Nat.le_refl _, hle, .nil, h⟩
  | cons q ps ih =>
      cases h with
      | @region _ _ s _ _ hs hlen hin hstop hrest =>
          obtain ⟨mid, hlo, hhi, hps, hqs⟩ := ih hrest hstop
          exact ⟨mid, Nat.le_trans hs (Nat.le_trans s.offset_le_stop hlo), hhi,
            .region hs hlen hin hlo hps, hqs⟩
      | @gap _ _ s _ hs hstop hrest =>
          obtain ⟨mid, hlo, hhi, hps, hqs⟩ := ih hrest hstop
          exact ⟨mid, Nat.le_trans hs (Nat.le_trans s.offset_le_stop hlo), hhi, .gap hs hlo hps, hqs⟩
      | part hlo hp hstop hrest =>
          obtain ⟨mid, hmid, hhi, hps, hqs⟩ := ih hrest hstop
          exact ⟨mid, Nat.le_trans hlo hmid, hhi, .part hlo hp hmid hps, hqs⟩

/-- What is inside a region stands where the region does. -/
theorem opened (h : Laid lo (.region s inner :: rest) hi) : Laid lo (inner ++ rest) hi := by
  obtain ⟨hlo, -, hin, hstop, hrest⟩ := region_iff.mp h
  exact (hin.mono hlo (Nat.le_refl _)).append hrest (Nat.le_trans hlo s.offset_le_stop) (Nat.le_refl _)
    hstop

/-- Something else may be seen behind the first pieces. -/
theorem replace (h : Laid lo (ps ++ qs) hi) (hle : lo ≤ hi)
    (hqs : ∀ {lo : Nat}, Laid lo qs hi → Laid lo rest hi) : Laid lo (ps ++ rest) hi := by
  obtain ⟨mid, hlo, hmid, hps, hq⟩ := h.of_append hle
  exact hps.append (hqs hq) hlo (Nat.le_refl _) hmid

/-- The pieces of a construct stand where the construct does. -/
theorem unwrap (h : Laid lo (.part p :: rest) hi) : Laid lo (p.pieces ++ rest) hi := by
  obtain ⟨mid, hlo, hin, hmid, hrest⟩ := part_iff.mp h
  exact hin.append hrest hlo (Nat.le_refl _) hmid

/-! ## Constructs fill their regions -/

/-- The pieces are all that stands in the region. -/
structure Fills (lo : Nat) (ps : List Piece) (s : Span) (hi : Nat) : Prop where
  start : lo ≤ s.offset
  pos : 0 < s.length
  stop : s.stop ≤ hi
  laid : Laid s.offset ps s.stop

theorem fills_region (h : Laid lo [.region s inner] hi) : Fills lo [.region s inner] s hi := by
  obtain ⟨hlo, hlen, hin, hhi⟩ := region_alone.mp h
  exact ⟨hlo, hlen, hhi, region_alone.mpr ⟨Nat.le_refl _, hlen, hin, Nat.le_refl _⟩⟩

theorem fills_part (h : Laid lo [.part p] hi)
    (hp : ∀ {hi : Nat}, Laid lo p.pieces hi → Fills lo p.pieces s hi) : Fills lo [.part p] s hi := by
  obtain ⟨mid, -, hin, hmid, -⟩ := part_iff.mp h
  obtain ⟨hlo, hlen, hhi, hfill⟩ := hp hin
  exact ⟨hlo, hlen, Nat.le_trans hhi hmid, hfill.single s.offset_le_stop⟩

theorem function {f : Function} (h : Laid lo f.pieces hi) : Fills lo f.pieces f.span hi := by
  cases f
  exact fills_region h

theorem classDefinition {c : ClassDefinition} (h : Laid lo c.pieces hi) :
    Fills lo c.pieces c.span hi := by
  cases c
  exact fills_region h

theorem block {b : Block} (h : Laid lo b.pieces hi) : Fills lo b.pieces b.span hi := by
  cases b
  exact fills_region h

theorem declaration {d : Declaration} (h : Laid lo d.pieces hi) : Fills lo d.pieces d.span hi := by
  cases d
  exact fills_region h

/-- **An expression fills its region.** -/
theorem expression {lo hi : Nat} : (e : Expression) → Laid lo e.pieces hi →
    Fills lo e.pieces e.span hi
  | .member receiver name optional s, h => by
      obtain ⟨mid, -, hreceiver, hmid, hname⟩ := part_iff.mp h
      obtain ⟨hlo, hlen, hstop, hin⟩ := expression receiver hreceiver
      obtain ⟨hbehind, hlong, hhi⟩ := leaf_iff.mp hname
      have hle : receiver.span.stop ≤ s.stop :=
        Nat.le_trans hstop (Nat.le_trans hbehind s.offset_le_stop)
      have hext : (receiver.span.extendTo s).stop = s.stop :=
        (Span.stop_extendTo _ _).trans (Nat.max_eq_right hle)
      have hpos : receiver.span.offset < (receiver.span.extendTo s).stop := by
        rw [hext]
        exact Nat.lt_of_lt_of_le (Nat.lt_add_of_pos_right hlen) hle
      refine ⟨hlo, Nat.pos_of_lt_add_right hpos, hext ▸ hhi, hext ▸ ?_⟩
      exact .part receiver.span.offset_le_stop hin hle
        (leaf_iff.mpr ⟨Nat.le_trans hstop hbehind, hlong, Nat.le_refl _⟩)
  | .function f, h => fills_part h function
  | .classExpression c, h => fills_part h classDefinition
  | .sequence [] _, h => by
      obtain ⟨-, hlen, -⟩ := leaf_iff.mp h
      cases hlen
  | .sequence (_ :: _) _, h | .identifier _, h | .privateName _, h | .string _, h | .this _, h
  | .super _, h | .null _, h | .boolean _ _, h | .number _ _, h | .bigint _ _, h | .regexp _ _ _, h
  | .newTarget _, h | .importMeta _, h | .template _ _ _, h | .taggedTemplate _ _ _ _ _, h
  | .array _ _ _, h | .object _ _ _, h | .unary _ _ _, h | .update _ _ _ _, h | .binary _ _ _ _, h
  | .assignment _ _ _ _, h | .conditional _ _ _ _, h | .computedMember _ _ _ _, h
  | .call _ _ _ _ _, h | .construction _ _ _ _, h | .spread _ _, h | .yield _ _ _, h | .await _ _, h
  | .dynamicImport _ _, h | .paren _ _, h => fills_region h

/-! ## Larger regions -/

/-- The region from a place on encloses all that stands behind it. -/
theorem between {start : Position} (hlt : start.offset < hi) (h : Laid start.offset ps hi) :
    Laid start.offset [.region (.between start hi) ps] hi := by
  have hstop := Span.stop_between (Nat.le_of_lt hlt)
  exact region_alone.mpr ⟨Nat.le_refl _, Nat.sub_pos_of_lt hlt, hstop.symm ▸ h, Nat.le_of_eq hstop⟩

theorem lt_of_expression {e : Expression} (h : Laid lo (of e ++ qs) hi) :
    lo ≤ e.span.offset ∧ e.span.offset < hi := by
  obtain ⟨mid, -, he, hmid, -⟩ := part_iff.mp h
  obtain ⟨hlo, hlen, hstop, -⟩ := expression e he
  exact ⟨hlo, Nat.lt_of_lt_of_le (Nat.lt_add_of_pos_right hlen) (Nat.le_trans hstop hmid)⟩

theorem lt_of_alone {e : Expression} (h : Laid lo (of e) hi) : lo < hi := by
  obtain ⟨hlo, hlt⟩ := @lt_of_expression _ _ [] _ h
  exact Nat.lt_of_le_of_lt hlo hlt

/-- The region from the start of an expression on encloses the expression and what stands behind it. -/
theorem from_expression {e : Expression} (h : Laid lo (of e ++ qs) hi) :
    Laid lo [.region (.between e.start hi) (of e ++ qs)] hi := by
  obtain ⟨hlo, hlt⟩ := lt_of_expression h
  obtain ⟨mid, -, he, hmid, hqs⟩ := part_iff.mp h
  obtain ⟨-, -, hstop, hin⟩ := expression e he
  have hstart : Laid e.start.offset (of e ++ qs) hi :=
    .part (Nat.le_trans e.span.offset_le_stop hstop) (hin.mono (Nat.le_refl _) hstop) hmid hqs
  exact (between hlt hstart).mono hlo (Nat.le_refl _)

/-- What ends with an expression ends where the expression does. -/
theorem to_expression {e : Expression} (h : Laid lo (ps ++ of e) hi) (hle : lo ≤ hi) :
    Laid lo (ps ++ of e) e.span.stop ∧ e.span.stop ≤ hi := by
  obtain ⟨mid, hlo, hmid, hps, he⟩ := h.of_append hle
  obtain ⟨next, -, hin, hnext, -⟩ := part_iff.mp he
  obtain ⟨hstart, -, hstop, hfill⟩ := expression e hin
  have hfill := hfill.mono hstart (Nat.le_refl _)
  have hmid := Nat.le_trans hstart e.span.offset_le_stop
  exact ⟨hps.append (hfill.single hmid) hlo (Nat.le_refl _) hmid, Nat.le_trans hstop hnext⟩

/-- What items stand for that are joined by commas stands where the items do. -/
theorem joined {first : Expression} {others : List Expression} (h : Laid lo (each (first :: others)) hi)
    (hle : lo ≤ hi) : Laid lo (of (Expression.joined first others)) hi := by
  unfold Expression.joined
  split
  next hlast => rwa [List.getLast?_eq_none_iff.mp hlast] at h
  next last hlast =>
    obtain ⟨between, rfl⟩ := List.getLast?_eq_some_iff.mp hlast
    have hitems : each (first :: (between ++ [last])) = of first ++ each between ++ of last := by
      simp [each]
    rw [hitems] at h
    obtain ⟨hlaid, hstop⟩ := h.to_expression hle
    rw [List.append_assoc] at hlaid
    have hwhole := hlaid.from_expression
    have hall : of first ++ (each between ++ of last) = of first ++ each (between ++ [last]) := by
      simp [each]
    rw [hall] at hwhole
    exact (hwhole.mono (Nat.le_refl _) hstop).single hle

/-- **A statement fills its region**, be it a placeholder. -/
theorem statement (s : Statement) (h : Laid lo s.pieces hi) :
    lo ≤ s.span.offset ∧ s.span.stop ≤ hi ∧ Laid s.span.offset s.pieces s.span.stop := by
  have filled {ps : List Piece} {r : Span} (h : Fills lo ps r hi) :
      lo ≤ r.offset ∧ r.stop ≤ hi ∧ Laid r.offset ps r.stop := ⟨h.start, h.stop, h.laid⟩
  cases s with
  | error r =>
      obtain ⟨hlo, hhi, -⟩ := gap_iff.mp h
      exact ⟨hlo, hhi, gap_iff.mpr ⟨Nat.le_refl _, Nat.le_refl _, .nil⟩⟩
  | block b => exact filled (fills_part h block)
  | «variable» d => exact filled (fills_part h declaration)
  | function f => exact filled (fills_part h function)
  | classDeclaration c => exact filled (fills_part h classDefinition)
  | «import» d => exact filled (fills_part h fills_region)
  | _ => exact filled (fills_region h)

/-- Statements one behind the other fill the region from the first to the last. -/
theorem statements {first last : Statement} {others : List Statement}
    (h : Laid lo (each (first :: others)) hi) (hl : (first :: others).getLast? = some last) :
    lo ≤ first.span.offset ∧ first.span.stop ≤ last.span.stop ∧ last.span.stop ≤ hi ∧
      Laid first.span.offset (each (first :: others)) last.span.stop := by
  induction others generalizing first lo with
  | nil =>
      cases hl
      obtain ⟨mid, -, hin, hmid, -⟩ := part_iff.mp h
      obtain ⟨hlo, hhi, hfill⟩ := statement first hin
      exact ⟨hlo, Nat.le_refl _, Nat.le_trans hhi hmid, hfill.single first.span.offset_le_stop⟩
  | cons second others ih =>
      obtain ⟨mid, -, hin, -, hothers⟩ := part_iff.mp h
      obtain ⟨hlo, hmid, hfill⟩ := statement first hin
      obtain ⟨hsecond, hlast, hhi, hothers⟩ := ih hothers (List.getLast?_cons_cons ▸ hl)
      have hstop := Nat.le_trans second.span.offset_le_stop hlast
      have hnext := Nat.le_trans hmid hsecond
      exact ⟨hlo, Nat.le_trans hnext hstop, hhi, .part first.span.offset_le_stop hfill
        (Nat.le_trans hnext hstop) (hothers.mono hnext (Nat.le_refl _))⟩

end Laid

end EcmaScript
