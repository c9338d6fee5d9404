import EcmaScript.Proofs.Lowering.Spans
import EcmaScript.Proofs.Places.Node

/-!
# Rules of lowering at places of the text

A step of lowering that works on constructs of the text gives nodes of the text and makes sound remarks;
the line table, which it asks for the place of an offset, is that of the text, and the objections that it
puts off are about places of the text. `Sound` is the class of these steps. It has instances for the
combinators and for every rule that looks at one thing, with the lowering of what stands below it, if it
needs that, as a hypothesis.

## Contents

* `State.Sound`, `Leads`, `Sound`: states, the way from one to the next, and the class of steps.
* Its closure under binds, branches, notes and scopes.
* The rules for targets, leaves, modules, parameters, classes and statements.
-/

namespace EcmaScript

namespace Lowering

-- An instance for a rule is as large as the rule.
set_option synthInstance.maxSize 20000

/-- The line table is that of the text, and what was put off is about places of it. -/
structure State.Sound (text : List Char) (s : State) : Prop where
  lineMap : s.lineMap = .ofChars text
  pendingAwaits : InText text s.pendingAwaits

/-- Sound remarks lead from `s` to the sound state `t`. -/
structure Leads (text : List Char) (s t : State) : Prop where
  sound : t.Sound text
  journal : s.journal.Adds text t.journal

/-- The steps of lowering that stay in the text. -/
class Sound (text : List Char) {α : Type} [HasPlaces α] (p : Lowering α) : Prop where
  run : ∀ {s : State}, s.Sound text → InText text (p s).1 ∧ Leads text s (p s).2

instance : HasPlaces Scopes := .trivial _

instance : HasPlaces State := .trivial _

instance : HasPlaces KeyName := ⟨fun text key => key.span.Located text⟩

section Values

variable {text : List Char}

instance (s : Scopes) : InText text s := ⟨True.intro⟩

instance (o : BinaryOperator) : InText text (NodeKind.ofBinary o) := ⟨by cases o <;> rfl⟩

instance (o : UnaryOperator) : InText text (NodeKind.ofUnary o) := ⟨by cases o <;> rfl⟩

instance (o : AssignmentOperator) : InText text (NodeKind.ofAssignment o) := ⟨by cases o <;> rfl⟩

instance (kind : FunctionKind) : InText text (methodKind kind) := ⟨by cases kind <;> rfl⟩

instance {name : String} {s : Span} {quoted : Bool} [h : InText text s] :
    InText text (KeyName.mk name s quoted) := ⟨InText.span_iff.mp h⟩

instance {key : KeyName} [h : InText text key] : InText text key.span := InText.span_iff.mpr h.located

end Values

section Leads

variable {text : List Char} {s t u : State}

theorem Leads.refl (h : s.Sound text) : Leads text s s := ⟨h, .refl _⟩

theorem Leads.trans (h : Leads text s t) (h' : Leads text t u) : Leads text s u :=
  ⟨h'.sound, h.journal.trans h'.journal⟩

end Leads

namespace Sound

variable {text : List Char} {α β : Type} [HasPlaces α] [HasPlaces β] {p : Lowering α}

/-! ## Combinators -/

/-- What is known of the result of a step whatever the state, the steps behind it may count on. -/
theorem bind_gives (P : α → Prop) {f : α → Lowering β} (hp : Sound text p) (hP : ∀ s, P (p s).1)
    (hf : ∀ a : TextValue text α, P a.val → Sound text (f a.val)) : Sound text (p >>= f) := by
  constructor
  intro s hs
  obtain ⟨ha, ht⟩ := hp.run hs
  obtain ⟨hb, hu⟩ := (hf ⟨(p s).1, ha⟩ (hP s)).run ht.sound
  exact ⟨hb, ht.trans hu⟩

theorem bind {f : α → Lowering β} (hp : Sound text p)
    (hf : ∀ a : TextValue text α, Sound text (f a.val)) : Sound text (p >>= f) :=
  bind_gives (fun _ => True) hp (fun _ => True.intro) fun a _ => hf a

instance instBind {f : α → Lowering β} [hp : Sound text p]
    [hf : ∀ a : TextValue text α, Sound text (f a.val)] : Sound text (p >>= f) := bind hp hf

instance instPure {a : α} [ha : InText text a] : Sound text (pure a : Lowering α) :=
  ⟨fun hs => ⟨ha, .refl hs⟩⟩

instance instMap {f : α → β} [Sound text p] [∀ a : TextValue text α, InText text (f a.val)] :
    Sound text (f <$> p) := inferInstanceAs (Sound text (p >>= fun a => pure (f a)))

instance instIte {c : Prop} [Decidable c] {q : Lowering α} [hp : Sound text p] [hq : Sound text q] :
    Sound text (if c then p else q) := by
  split
  · exact hp
  · exact hq

theorem forM {f : β → Lowering PUnit} {bs : List β}
    (hf : ∀ b : TextValue text β, Sound text (f b.val)) (h : InText text bs) :
    Sound text (bs.forM f) := by
  induction bs with
  | nil => exact instPure
  | cons b bs ih =>
      obtain ⟨hb, hbs⟩ := InText.cons_iff.mp h
      exact bind (hf ⟨b, hb⟩) fun _ => ih hbs

theorem mapM {f : β → Lowering α} {bs : List β}
    (hf : ∀ b : TextValue text β, Sound text (f b.val)) (h : InText text bs) :
    Sound text (bs.mapM f) := by
  induction bs with
  | nil => exact instPure
  | cons b bs ih =>
      obtain ⟨hb, hbs⟩ := InText.cons_iff.mp h
      have := hf ⟨b, hb⟩
      have := ih hbs
      rw [List.mapM_cons]
      infer_instance

/-! ## Notes and scopes -/

theorem note {f : Journal → Journal} (h : ∀ j : Journal, j.Adds text (f j)) : Sound text (note f) :=
  ⟨fun hs => ⟨inferInstance, ⟨hs.lineMap, hs.pendingAwaits⟩, h _⟩⟩

/-- Looks at the state. -/
theorem look {f : State → α} (h : ∀ s, s.Sound text → InText text (f s)) :
    Sound text (fun s => (f s, s) : Lowering α) := ⟨fun hs => ⟨h _ hs, .refl hs⟩⟩

instance (f : Feature) [hf : InText text f] (position : Position) [h : InText text position] :
    Sound text (record f position) :=
  note fun j => .record (.refl j) hf.located (InText.position_iff.mp h)

instance (position : Position) (q : Problem) [h : InText text position] [hq : InText text q] :
    Sound text (error position q) :=
  note fun j => .error (.refl j) (InText.position_iff.mp h) hq.located

instance (d : LexicalDiagnostic) [h : InText text d] : Sound text (lexical d) :=
  note fun j => .lexical (.refl j) h.located.own

instance (position : Position) (name : String) [h : InText text position] :
    Sound text (warning position (.duplicateParameter name)) :=
  note fun j => .remark (r := .duplicate position name) (.refl j) ⟨InText.position_iff.mp h, nofun, nofun⟩

instance : Sound text scopes := look fun _ _ => inferInstance

instance (name : String) : Sound text (isReservedShorthand name) := look fun _ _ => inferInstance

instance (offset : Nat) : Sound text (emptySpanAt offset) := by
  refine look fun s hs => ?_
  have : InText text (s.lineMap.position offset) := by
    rw [hs.lineMap]
    exact InText.position_iff.mpr (Position.located_position text offset)
  infer_instance

instance : Sound text (modify fun s : State => { s with isModule := true }) :=
  ⟨fun hs => ⟨inferInstance, ⟨hs.lineMap, hs.pendingAwaits⟩, .refl _⟩⟩

instance (position : Position) (q : Problem) [h : InText text position] [hq : InText text q] :
    Sound text (modify fun s : State => { s with pendingAwaits := (position, q) :: s.pendingAwaits }) :=
  ⟨fun hs => ⟨inferInstance, ⟨hs.lineMap, InText.cons_iff.mpr ⟨inferInstance, hs.pendingAwaits⟩⟩,
    .refl _⟩⟩

instance (position : Position) [InText text position] : Sound text (markModule position) := by
  unfold markModule
  infer_instance

instance (position : Position) (q : Problem) [InText text position] [InText text q] :
    Sound text (checkAwait position q) := by
  unfold checkAwait
  refine bind inferInstance fun s => ?_
  split <;> infer_instance

instance (enter exit : Scopes → Scopes) [h : Sound text p] : Sound text (between enter exit p) := by
  constructor
  intro s hs
  obtain ⟨ha, ht⟩ := h.run (s := { s with scopes := enter s.scopes })
    ⟨hs.lineMap, hs.pendingAwaits⟩
  exact ⟨ha, ⟨ht.sound.lineMap, ht.sound.pendingAwaits⟩, ht.journal⟩

instance (boundary : Boundary) (isGenerator isAsync : Bool) [Sound text p] :
    Sound text (insideFunction boundary isGenerator isAsync p) := by
  unfold insideFunction
  infer_instance

instance (names : List String) [Sound text p] : Sound text (insideClass names p) := by
  unfold insideClass
  infer_instance

instance [Sound text p] : Sound text (insideLoop p) := by
  unfold insideLoop
  infer_instance

instance [Sound text p] : Sound text (insideSwitch p) := by
  unfold insideSwitch
  infer_instance

instance (label : Identifier) [InText text label] (isLoop : Bool) [Sound text p] :
    Sound text (insideLabel label isLoop p) := by
  unfold insideLabel
  refine bind inferInstance fun s => ?_
  split <;> infer_instance

/-! ## Targets and leaves -/

instance (kind : TargetKind) (e : Expression) [InText text e] :
    Sound text (Role.checkTarget kind e) := by
  unfold Role.checkTarget
  infer_instance

instance (role : Role) (e : Expression) [h : InText text e] : Sound text (role.check e) := by
  unfold Role.check
  split
  case h_6 | h_7 =>
    -- the region of the assignment
    have := InText.part_iff.mp (h.first rfl)
    infer_instance
  all_goals infer_instance

instance (e : Expression) [InText text e] : Sound text (checkSimpleTarget e) := by
  unfold checkSimpleTarget
  infer_instance

instance (isLast trailingComma : Bool) (span : Span) [InText text span] :
    Sound text (checkRest isLast trailingComma span) := by
  unfold checkRest
  infer_instance

instance (argument : Expression) [h : InText text argument] : Sound text (checkObjectRest argument) := by
  unfold checkObjectRest
  split
  case h_1 | h_2 =>
    have := InText.part_iff.mp (h.first rfl)
    infer_instance
  all_goals infer_instance

section Leaves

variable (name : Identifier) [InText text name] (span : Span) [InText text span]

instance : Sound text (identifier name) := by
  unfold identifier
  infer_instance

instance (value : Double) : InText text (numberNode value span) := by
  unfold numberNode
  infer_instance

instance (value : Nat) : Sound text (bigintNode value span) := by
  unfold bigintNode
  infer_instance

instance (literal : StringLiteral) [InText text literal] : InText text (stringNode literal) := by
  unfold stringNode
  infer_instance

theorem flagFeature (c : Char) : InText text (flagFeature? c) := by
  unfold flagFeature?
  split <;> infer_instance

instance (position : Position) [InText text position] (seen flags : List Char) :
    Sound text (checkFlags position seen flags) := by
  induction flags generalizing seen with
  | nil => exact instPure
  | cons c rest ih =>
      unfold checkFlags
      split
      · infer_instance
      · dsimp only
        split
        next feature hf =>
          have : InText text (some feature) := hf ▸ flagFeature c
          have : InText text feature := InText.some_iff.mp this
          infer_instance
        next => infer_instance

instance {c : Prop} [Decidable c] {a b : α} [ha : InText text a] [hb : InText text b] :
    InText text (if c then a else b) := by
  split
  · exact ha
  · exact hb

instance (pattern flags : String) : Sound text (regexpNode pattern flags span) := by
  unfold regexpNode
  infer_instance

instance (tagged : Bool) (t : TemplateText) [h : InText text t] : Sound text (templateText tagged t) := by
  obtain ⟨cooked, raw, problems, span⟩ := t
  have hp : InText text (TemplateText.mk cooked raw problems span).parts := h.inner
  obtain ⟨hs, hd⟩ : InText text span ∧ InText text problems := by simpa using hp
  have : Sound text (problems.forM lexical) := forM (fun _ => inferInstance) hd
  unfold templateText
  infer_instance

instance : Sound text (recordPropertyName name) := by
  unfold recordPropertyName
  infer_instance

instance (key : KeyName) [InText text key] (kind : NodeKind) [InText text kind] (value : Node)
    [InText text value] : InText text (key.node kind value) := by
  unfold KeyName.node
  infer_instance

instance (value : Node) [InText text value] : InText text (shorthandNode name value) := by
  unfold shorthandNode
  infer_instance

instance (key : PropertyKey) [h : InText text key] : Sound text (keyName key) := by
  unfold keyName
  split
  all_goals
    have hfirst := InText.part_iff.mp (h.first rfl)
    infer_instance

instance (undeclared : Problem) [InText text undeclared] : Sound text (checkPrivate name undeclared) := by
  unfold checkPrivate
  infer_instance

instance : InText text (privateNode name) := by
  unfold privateNode
  infer_instance

instance : Sound text (privateOperand name) := by
  unfold privateOperand
  infer_instance

instance : Sound text (misplacedPrivateName name) := by
  unfold misplacedPrivateName
  infer_instance

instance (place : ChainPlace) (receiver : Node) [InText text receiver] (property : MemberName)
    [h : InText text property] (isCallee : Bool) :
    Sound text (memberNode place receiver property isCallee span) := by
  unfold memberNode
  dsimp only
  cases property with
  | plain name =>
      have : InText text name := ⟨h.located⟩
      infer_instance
  | hidden name =>
      have : InText text name := ⟨h.located⟩
      infer_instance

instance (place : ChainPlace) (receiver key : Node) [InText text receiver] [InText text key] :
    InText text (elementNode place receiver key span) := by
  unfold elementNode
  infer_instance

instance (operator : UnaryOperator) (argument : Expression) [InText text argument] :
    Sound text (checkOperand operator argument span) := by
  unfold checkOperand
  split
  · split <;> infer_instance
  · split <;> infer_instance
  · infer_instance

instance (increment afterOperand : Bool) (argument : Expression) [InText text argument] :
    Sound text (checkUpdate increment afterOperand argument) := by
  unfold checkUpdate
  infer_instance

instance (operator : AssignmentOperator) : Sound text (recordAssignment operator span) := by
  unfold recordAssignment
  split <;> infer_instance

instance (operator : BinaryOperator) : Sound text (recordBinary operator span) := by
  unfold recordBinary
  split <;> infer_instance

theorem commaNode (first : Node) (others : List Node) [InText text first] (ho : InText text others) :
    InText text (Lowering.commaNode (first :: others)) := by
  unfold Lowering.commaNode
  dsimp only
  induction others generalizing first with
  | nil => assumption
  | cons n others ih =>
      obtain ⟨hn, ho⟩ := InText.cons_iff.mp ho
      -- the node over the first two takes the place of the first
      exact ih (.branch .comma (first.span.extendTo n.span) [first, n]) ho

end Leaves

/-! ## Imports, parameters and classes -/

instance (name : ModuleName) [h : InText text name] : InText text (moduleNameNode name) := by
  unfold moduleNameNode
  cases name with
  | identifier name =>
      have : InText text name := ⟨h.located⟩
      infer_instance
  | string literal =>
      have : InText text literal := ⟨h.located⟩
      infer_instance

instance (specifier : ImportSpecifier) [h : InText text specifier] :
    Sound text (importSpecNode specifier) := by
  obtain ⟨imported, name?, span⟩ := specifier
  have hp : InText text (ImportSpecifier.mk imported name? span).parts := h.inner
  obtain ⟨hs, hi, hn⟩ : InText text span ∧ InText text imported ∧ InText text name? := by simpa using hp
  unfold importSpecNode
  cases name? with
  | some name =>
      have := InText.some_iff.mp hn
      infer_instance
  | none => infer_instance

instance (specifiers : List ImportSpecifier) [h : InText text specifiers] :
    Sound text (specifiers.mapM importSpecNode) := mapM (fun _ => inferInstance) h

instance (declaration : ImportDeclaration) [h : InText text declaration] :
    Sound text (importNode declaration) := by
  obtain ⟨name?, bindings, source, span⟩ := declaration
  have hp : InText text (ImportDeclaration.mk name? bindings source span).parts := h.inner
  obtain ⟨hs, hl, hb, hn⟩ : InText text span ∧ InText text source ∧ InText text bindings ∧
      InText text name? := by simpa using hp
  have hname (name : Identifier) (hm : name? = some name) : InText text name := ⟨hn.located name hm⟩
  unfold importNode
  dsimp only
  cases bindings with
  | none =>
      split
      next name => exact have := hname name rfl; inferInstance
      next => infer_instance
  | star _ s =>
      have : InText text s := InText.part_iff.mp (hb.first rfl)
      split
      next name => exact have := hname name rfl; inferInstance
      next => infer_instance
  | named specifiers s =>
      have hp : InText text (ImportBindings.named specifiers s).parts := hb.inner
      obtain ⟨_, _⟩ : InText text s ∧ InText text specifiers := by simpa using hp
      split
      next name => exact have := hname name rfl; inferInstance
      next => infer_instance

instance (specifier : ExportSpecifier) [h : InText text specifier] :
    InText text (exportSpecNode specifier) := by
  obtain ⟨name, exported, span⟩ := specifier
  have hp : InText text (ExportSpecifier.mk name exported span).parts := h.inner
  obtain ⟨hs, hn, he⟩ : InText text span ∧ InText text name ∧ InText text exported := by simpa using hp
  have : InText text (exported.getD name) := by
    cases exported with
    | some other => exact InText.some_iff.mp he
    | none => exact hn
  unfold exportSpecNode
  infer_instance

instance (specifiers : List ExportSpecifier) [hi : InText text specifiers] (specifiersSpan : Span)
    [InText text specifiersSpan] (source : Option StringLiteral) [hl : InText text source] (span : Span)
    [InText text span] : InText text (exportNamedNode specifiers specifiersSpan source span) := by
  have : InText text (specifiers.map exportSpecNode) := .map (fun _ => inferInstance) hi
  have : InText text (source.toList.map stringNode) :=
    .map (fun _ => inferInstance) (InText.toList_iff.mpr hl)
  unfold exportNamedNode
  infer_instance

instance (name? : Option ModuleName) [h : InText text name?] (source : StringLiteral)
    [InText text source] (span : Span) [InText text span] :
    InText text (exportAllNode name? source span) := by
  unfold exportAllNode
  cases name? with
  | some name =>
      have := InText.some_iff.mp h
      infer_instance
  | none => infer_instance

instance (kind : FunctionKind) (items : List Expression) (span : Span) [InText text span] :
    Sound text (checkAccessor kind items span) := by
  have hproblem {q : Problem} (hq : accessorProblem? kind items = some q) : InText text q := by
    unfold accessorProblem? at hq
    split at hq
    · split at hq <;> cases hq
      infer_instance
    · split at hq
      · cases hq
        infer_instance
      · split at hq <;> cases hq
        infer_instance
    · cases hq
  unfold checkAccessor
  split
  next q hq => exact have := hproblem hq; inferInstance
  next => infer_instance

theorem checkDuplicates (seen : List String) (names : List (String × Span)) (h : InText text names) :
    Sound text (Lowering.checkDuplicates seen names) := by
  induction names generalizing seen with
  | nil => exact instPure
  | cons named rest ih =>
      obtain ⟨name, span⟩ := named
      obtain ⟨hn, hrest⟩ := InText.cons_iff.mp h
      have : InText text span := ⟨hn.located.2⟩
      have hr (seen : List String) := ih seen hrest
      unfold Lowering.checkDuplicates
      infer_instance

instance (default : Node) [h : InText text default] : Sound text (checkDefault default) := by
  unfold checkDefault
  -- what is objected to was found in the value, and so stands in the text with it
  exact forM (fun _ => inferInstance) (Node.inText_suspensions h)

theorem checkConstructors (seen : Bool) (members : List (Identifier × Function))
    (h : ∀ m ∈ members, InText text m.1) : Sound text (Lowering.checkConstructors seen members) := by
  induction members generalizing seen with
  | nil => exact instPure
  | cons member rest ih =>
      obtain ⟨name, function⟩ := member
      obtain ⟨hn, hrest⟩ := List.forall_mem_cons.mp h
      have hr (seen : Bool) := ih seen hrest
      unfold Lowering.checkConstructors
      infer_instance

/-- The constructors of a class are named in the text. -/
theorem constructors {members : List ClassMember} (h : InText text members) :
    ∀ m ∈ members.filterMap constructor?, InText text m.1 := by
  intro m hm
  obtain ⟨member, hmem, hc⟩ := List.mem_filterMap.mp hm
  have hmember : InText text member := ⟨h.located member hmem⟩
  unfold constructor? at hc
  split at hc
  next name function span =>
    split at hc <;> cases hc
    have hp : InText text (ClassMember.method (.name name) function false span).parts := hmember.inner
    obtain ⟨_, hk, _⟩ : InText text span ∧ InText text (PropertyKey.name name) ∧
      InText text function := by simpa using hp
    exact InText.part_iff.mp (hk.first rfl)
  next => cases hc

/-! ## Statements and members, without what they contain -/

/-- The lowerings that wait for their left operand stay in the text. -/
def Pending (text : List Char) (pending : List PendingOperator) : Prop :=
  ∀ q ∈ pending, Sound text q.right ∧ InText text q.span

theorem pending_nil : Pending text [] := nofun

theorem pending_cons {q : PendingOperator} {pending : List PendingOperator} (hq : Sound text q.right)
    (hs : InText text q.span) (h : Pending text pending) : Pending text (q :: pending) :=
  List.forall_mem_cons.mpr ⟨⟨hq, hs⟩, h⟩

theorem applyPending {pending : List PendingOperator} (h : Pending text pending) (left : Node)
    [InText text left] : Sound text (Lowering.applyPending pending left) := by
  -- on the operators, for whatever has become of the left operand
  induction pending generalizing left with
  | nil => exact instPure
  | cons q rest ih =>
      obtain ⟨⟨hq, hs⟩, hrest⟩ := List.forall_mem_cons.mp h
      have hr (left : Node) [InText text left] := ih hrest left
      unfold Lowering.applyPending
      infer_instance

instance (s : Statement) [h : InText text s] : Sound text (recordBlockFunction s) := by
  unfold recordBlockFunction
  split
  next f =>
    have : InText text f := InText.part_iff.mp (h.first rfl)
    infer_instance
  next => infer_instance

/-- A body that is no block stands in one of its own. -/
instance (s : Statement) [InText text s] [h : Sound text (Lowering.statement s)] :
    Sound text (bodyNode s (Lowering.statement s)) := by
  unfold bodyNode
  refine bind inferInstance fun _ => bind_gives (·.span = s.span) h (fun t => (standsFor_statement s t).span) fun node hn => ?_
  rw [← hn]
  have : InText text (Node.branch .block node.val.span [node.val]) := .alone
  split <;> infer_instance

/-- The nodes of a list stand as its statements do. -/
theorem bind_statements {nested : Bool} {items : List Statement} {f : List Node → Lowering α}
    (h : Sound text (Lowering.statements nested items))
    (hf : ∀ ns : TextValue text (List Node),
      (∀ whole : Span, whole.Arranges (items.map Statement.span) →
        whole.Arranges (ns.val.map (·.span))) → Sound text (f ns.val)) :
    Sound text (Lowering.statements nested items >>= f) :=
  bind_gives (fun ns => ns.map (·.span) = items.map Statement.span) h (spans_statements nested items)
    fun ns hns => hf ns fun _ ho => hns ▸ ho

instance (statements : List Statement) [h : InText text statements] (span : Span) :
    Sound text (caseSpan statements span) := by
  unfold caseSpan
  split
  next first last hf hl =>
    have : InText text first := ⟨h.located first (List.mem_of_mem_head? hf)⟩
    have : InText text last := ⟨h.located last (List.mem_of_getLast? hl)⟩
    infer_instance
  next => infer_instance

section Spans

variable (span : Span) [InText text span]

instance (kind : VariableKind) : Sound text (declarationKind kind span) := by
  unfold declarationKind
  split <;> infer_instance

instance (kind : VariableKind) (loop : Option String) (target : Expression) (hasValue : Bool) :
    Sound text (checkInitializer kind loop target hasValue span) := by
  unfold checkInitializer
  split <;> infer_instance

/-- The node of a name takes the value in, and no name is a list of statements. -/
theorem declaratorNode {isName : Bool} (target : Node) [InText text target]
    (hk : isName = true → InText text target.kind) (value : List Node) [InText text value] :
    InText text (Lowering.declaratorNode isName target value span) := by
  unfold Lowering.declaratorNode
  split
  next h =>
    have := hk h
    infer_instance
  next => infer_instance

instance (loop : String) (declaration : Declaration) [h : InText text declaration] :
    Sound text (checkLoopDeclaration loop declaration) := by
  obtain ⟨kind, declarators, s⟩ := declaration
  have hp : InText text (Declaration.mk kind declarators s).parts := h.inner
  obtain ⟨_, hd⟩ : InText text s ∧ InText text declarators := by simpa using hp
  unfold checkLoopDeclaration Declaration.declarators
  dsimp only
  split
  next first extra rest =>
    have : InText text extra := (InText.cons_iff.mp (InText.cons_iff.mp hd).2).1
    infer_instance
  next => infer_instance

instance (isAwait : Bool) : Sound text (valueLoopKind isAwait span) := by
  unfold valueLoopKind
  infer_instance

instance (label : Identifier) [InText text label] : InText text (labelNode label) := by
  unfold labelNode
  infer_instance

instance (label : Option Identifier) [h : InText text label] : Sound text (continueNode label span) := by
  unfold continueNode
  refine bind inferInstance fun s => ?_
  cases label with
  | some label =>
      have := InText.some_iff.mp h
      dsimp only
      split <;> infer_instance
  | none => infer_instance

instance (label : Option Identifier) [h : InText text label] : Sound text (breakNode label span) := by
  unfold breakNode
  refine bind inferInstance fun s => ?_
  cases label with
  | some label =>
      have := InText.some_iff.mp h
      infer_instance
  | none => infer_instance

instance (kind : FunctionKind) (isAsync isGenerator : Bool) :
    Sound text (recordFunction kind isAsync isGenerator span) := by
  unfold recordFunction
  dsimp only
  cases isAsync <;> cases isGenerator <;> infer_instance

instance (name : Option Identifier) [h : InText text name] : Sound text (functionName name span) := by
  unfold functionName
  cases name with
  | some name =>
      have := InText.some_iff.mp h
      infer_instance
  | none => infer_instance

instance (items : List Node) [h : InText text items] (trailingComma : Bool) :
    Sound text (parametersNode items trailingComma span) := by
  have := checkDuplicates [] _ (Node.inText_boundNamesAll fun n hn =>
    Node.inText_boundNames ⟨h.located n hn⟩)
  unfold parametersNode
  infer_instance

instance (kind : FunctionKind) (key function : Node) [InText text key] [InText text function] :
    InText text (computedMethodNode kind key function span) := by
  unfold computedMethodNode
  infer_instance

instance (kind : FunctionKind) : InText text (methodFeature kind) := by
  unfold methodFeature
  split <;> infer_instance

/-- The node of a function may be put over another region, since it is no list of statements. -/
theorem bind_function {lowered : Lowering Node} [hl : Sound text lowered]
    (hk : ∀ s, (lowered s).1.kind = .function) {f : Node → Lowering α}
    (hf : ∀ n : TextValue text Node, InText text n.val.kind → Sound text (f n.val)) :
    Sound text (lowered >>= f) :=
  bind_gives (·.kind = .function) hl hk fun n hn =>
    hf n (hn ▸ inferInstanceAs (InText text NodeKind.function))

/-- A key is lowered only if it is computed. -/
def LowersKey (text : List Char) (key : PropertyKey) (lowered : Lowering Node) : Prop :=
  ∀ e s, key = .computed e s → Sound text lowered

section Members

variable {key : PropertyKey} [h : InText text key] {kind : FunctionKind}
  {loweredKey loweredFunction : Lowering Node} (hk : LowersKey text key loweredKey)
  [Sound text loweredFunction] (hf : ∀ s, (loweredFunction s).1.kind = .function)
include hk hf

omit [Sound text loweredFunction] hf in
theorem classKeyNode : Sound text (Lowering.classKeyNode key loweredKey) := by
  unfold Lowering.classKeyNode
  split
  case h_1 e s =>
    have := hk e s rfl
    have : InText text s := InText.part_iff.mp (h.first rfl)
    infer_instance
  all_goals
    have := InText.part_iff.mp (h.first rfl)
    infer_instance

theorem objectMethodNode :
    Sound text (Lowering.objectMethodNode key kind span loweredKey loweredFunction) := by
  unfold Lowering.objectMethodNode
  refine bind inferInstance fun _ => ?_
  split
  case h_1 e s =>
    have := hk e s rfl
    infer_instance
  case h_2 => exact bind inferInstance fun _ => bind_function hf fun _ _ => inferInstance

theorem classMethodNode :
    Sound text (Lowering.classMethodNode key kind span loweredKey loweredFunction) := by
  have := classKeyNode hk
  unfold Lowering.classMethodNode
  refine bind inferInstance fun _ => ?_
  split
  case h_2 name =>
    have : InText text name := InText.part_iff.mp (h.first rfl)
    refine bind inferInstance fun _ => bind inferInstance fun _ => ?_
    exact bind_function hf fun _ _ => inferInstance
  all_goals exact bind inferInstance fun _ => bind_function hf fun _ _ => inferInstance

omit [Sound text loweredFunction] hf in
theorem classFieldNode : Sound text (Lowering.classFieldNode key span loweredKey) := by
  have := classKeyNode hk
  unfold Lowering.classFieldNode
  split <;> infer_instance

end Members

end Spans

end Sound

end Lowering

end EcmaScript
