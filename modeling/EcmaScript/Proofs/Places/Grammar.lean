import EcmaScript.Proofs.Grammar.Covers
import EcmaScript.Proofs.Places.Production

/-!
# The whole grammar stays in the text

One instance for each production, in the order of the grammar, as in the proof that the productions are
composed. What a production is given, a receiver or the start of a construct, has to be in the text. Three
productions need more than the classes give: a slash or a brace is read again only where it was seen
(`regExpLiteral`, `substitution`), and the gap of a catch clause starts on the line of its first word
(`catchClause`).
-/

namespace EcmaScript

namespace Grammar

-- An instance for a production is as large as the production.
set_option synthInstance.maxSize 20000

instance : HasPlaces FunctionKind := .trivial _

instance : HasPlaces MethodModifiers := .trivial _

instance : HasPlaces ItemList := ⟨fun text list =>
  HasPlaces.located text list.reversed ∧ HasPlaces.located text list.trailingComma⟩

instance : HasPlaces Parameters := ⟨fun text params =>
  HasPlaces.located text params.items ∧ HasPlaces.located text params.span⟩

instance : HasPlaces WaitingOperator := ⟨fun text w =>
  HasPlaces.located text w.left ∧ HasPlaces.located text w.position⟩

instance : HasPlaces OperatorStack := ⟨fun text stack =>
  HasPlaces.located text stack.top ∧ HasPlaces.located text stack.waiting⟩

section Values

variable {text : List Char}

instance (kind : FunctionKind) : InText text kind := ⟨True.intro⟩

instance (m : MethodModifiers) : InText text m := ⟨True.intro⟩

section Lists

variable {items : List Expression} {comma : Option Position} {list : ItemList} {b : Bool} {s : Span}
  {params : Parameters}

instance [hi : InText text items] [hc : InText text comma] : InText text (ItemList.mk items comma) :=
  ⟨hi.located, hc.located⟩

instance [h : InText text list] : InText text list.reversed := ⟨h.located.1⟩

instance [h : InText text list] : InText text list.trailingComma := ⟨h.located.2⟩

instance [hi : InText text items] [hs : InText text s] : InText text (Parameters.mk items b s) :=
  ⟨hi.located, hs.located⟩

instance [h : InText text params] : InText text params.items := ⟨h.located.1⟩

instance [h : InText text params] : InText text params.span := ⟨h.located.2⟩

end Lists

section Operators

variable {e : Expression} {o : BinaryOperator} {p : Position} {w : WaitingOperator}
  {ws : List WaitingOperator} {stack : OperatorStack}

instance [he : InText text e] [hp : InText text p] : InText text (WaitingOperator.mk e o p) :=
  ⟨he.located, hp.located⟩

instance [h : InText text w] : InText text w.left := ⟨h.located.1⟩

instance [h : InText text w] : InText text w.position := ⟨h.located.2⟩

instance [he : InText text e] [hw : InText text ws] : InText text (OperatorStack.mk e ws) :=
  ⟨he.located, hw.located⟩

instance [h : InText text stack] : InText text stack.top := ⟨h.located.1⟩

instance [h : InText text stack] : InText text stack.waiting := ⟨h.located.2⟩

end Operators

end Values

/-- All nonterminals of a reader stay in the text, and statements cover the tokens that they read. -/
class Reader.Sound (text : List Char) (read : Reader) : Prop where
  consumes : read.Consumes text
  covers : read.Covers
  statement (place : Place) : Grammar.Sound text (read (.statement place))
  assignment : Grammar.Sound text (read .assignment)
  unary : Grammar.Sound text (read .unary)
  leftHandSide : Grammar.Sound text (read .leftHandSide)
  construction : Grammar.Sound text (read .construction)
  binding : Grammar.Sound text (read .binding)

attribute [instance] Reader.Sound.statement Reader.Sound.assignment Reader.Sound.unary
  Reader.Sound.leftHandSide Reader.Sound.construction Reader.Sound.binding

namespace Sound

variable {text : List Char} {α : Type} [HasPlaces α]

/-! ## Loops, recovery and blocks -/

theorem collectFrom {step : Production (Option α)} [Sound text step] (limit : Nat) (items : List α)
    [InText text items] : Sound text (Grammar.collectFrom step limit items) := by
  -- on the bound, for whatever was collected before
  induction limit generalizing items with
  | zero => exact instPure
  | succ limit ih =>
      refine bind inferInstance fun ⟨found, hf⟩ => ?_
      cases found with
      | some item =>
          have := InText.some_iff.mp hf
          exact ih _
      | none => exact instPure

instance {step : Production (Option α)} [Sound text step] : Sound text (collect step) :=
  bind inferInstance fun _ => collectFrom _ _

theorem synchronizeFrom (topLevel : Bool) (start limit : Nat) :
    Sound text (Grammar.synchronizeFrom topLevel start limit) := by
  induction limit with
  | zero => exact instPure
  | succ limit ih =>
      unfold Grammar.synchronizeFrom
      infer_instance

instance (topLevel : Bool) : Sound text (synchronize topLevel) :=
  bind inferInstance fun _ => synchronizeFrom _ _ _

variable {read : Reader} [hr : Reader.Sound text read]

instance : Sound text (commaAssignment read) := by
  unfold commaAssignment
  infer_instance

instance : Sound text (expression read) := by
  unfold expression
  infer_instance

instance : Sound text (condition read) := by
  unfold condition
  infer_instance

instance : Sound text (listStatement read) := by
  have (start : TextValue text Position) : Sound text (Composed.placeholder start.val) := by
    unfold Composed.placeholder
    infer_instance
  rw [Composed.listStatement_eq]
  refine bind inferInstance fun token => ?_
  split
  · exact instPure
  · exact reporting inferInstance (this ⟨token.val.start, inferInstance⟩)

instance : Sound text (statementList read) := by
  unfold statementList
  infer_instance

/-- The statements of a list, in the words of the states before and behind them. -/
theorem yields_statementList {β : Type} [HasPlaces β] {f : List Statement → Production β} {s : State}
    (hs : s.Sound text)
    (hf : ∀ items t, InText text items → t.Sound text →
      Ascending s.current.span.offset (items.map Statement.span) t.lastStop → Yields text t (f items)) :
    Yields text s (statementList read >>= f) :=
  yields_then (run hs) fun items t h hi ht =>
    hf items t hi ht (ascending_statementList hr.consumes hr.covers hs.toStanding h)

instance : Sound text (block read) := by
  constructor
  intro s hs
  have hstart : InText text s.current.start := InText.position_iff.mpr hs.current.span.1
  refine yields_behind (show position s = .ok s.current.start s from rfl) (.refl hs) ?_
  refine yields_then (run hs) fun _ t ht _ hsound => ?_
  obtain ⟨_, hopen⟩ := Composed.forward_of_ok inferInstance hs.toStanding ht
  refine yields_statementList hsound fun items u hi hu ha => ?_
  refine yields_then (run hu) fun _ v hv _ hlast => ?_
  obtain ⟨_, hclose⟩ := Composed.forward_of_ok inferInstance hu.toStanding hv
  refine ⟨InText.block_iff.mpr ⟨hstart.between hlast.lastStop, hi, ?_⟩, .refl hlast⟩
  exact ha.mono hopen.le (Nat.le_trans hclose.lastStop (Span.le_stop_between _ _))

/-! ## Literals -/

instance : Sound text templateText := by
  unfold templateText
  refine bind inferInstance fun ⟨token, ht⟩ => ?_
  dsimp only
  split
  next part hk =>
    -- the problems of the piece are those of the token
    have hp : TokenKind.Located text (.template part) := hk ▸ ht.located.kind
    have : InText text part.problems := ⟨fun d hd => (InText.position_iff.mpr (hp d hd)).located⟩
    infer_instance
  next => infer_instance

theorem atMark_eq (mark : Punctuator) (s : State) :
    atMark mark s = .ok (s.current.isMark mark) s := rfl

theorem atWord_eq (word : Keyword) (s : State) :
    atWord word s = .ok (s.current.isWord word) s := rfl

/-- What follows a successful test of the token under the cursor may count on it. -/
theorem branch (test : Token → Bool) {p : Production Bool} (hp : ∀ s, p s = .ok (test s.current) s)
    {f g : Production α}
    (hf : ∀ {s : State}, s.Sound text → test s.current = true → Yields text s f)
    (hg : Sound text g) : Sound text (p >>= fun b => if b = true then f else g) := by
  constructor
  intro s hs
  refine yields_behind (hp s) (.refl hs) ?_
  cases h : test s.current with
  | true => exact hf hs h
  | false => exact hg.run hs

instance : Sound text (substitution read) := by
  unfold substitution
  -- the brace is read again as a piece of the template, so it has to be the token under the cursor
  refine bind inferInstance fun value => branch (·.isMark .rightBrace) (atMark_eq _) ?_ inferInstance
  intro s hs hm
  exact yields_bind (yields_rescan (r := .template) hs hm) fun _ => inferInstance

theorem templateRest (limit : Nat) (texts : List TemplateText) (values : List Expression)
    [InText text texts] [InText text values] :
    Sound text (Grammar.templateRest read limit texts values) := by
  -- on the bound, for the pieces and substitutions that were read before
  induction limit generalizing texts values with
  | zero => exact instPure
  | succ limit ih =>
      unfold Grammar.templateRest
      infer_instance

instance : Sound text (template read) := by
  have hs := @templateRest text read _
  unfold template
  infer_instance

instance : Sound text (spreadable read) := by
  unfold spreadable
  infer_instance

theorem separatedItems {item : Production Expression} [Sound text item] (limit : Nat) (list : ItemList)
    [InText text list] : Sound text (Grammar.separatedItems item limit list) := by
  -- on the bound, for the items and the comma that were read before
  induction limit generalizing list with
  | zero => exact instPure
  | succ limit ih =>
      unfold Grammar.separatedItems
      infer_instance

instance : Sound text (parenthesizedItems read) := by
  have hs := @separatedItems text (spreadable read) _
  unfold parenthesizedItems
  infer_instance

instance : Sound text (arguments read) := by
  have hs := @separatedItems text (spreadable read) _
  unfold arguments
  refine bind inferInstance fun start => bind inferInstance fun _ => bind inferInstance fun _ => ?_
  refine bind inferInstance fun ⟨⟨items, comma?⟩, hl⟩ => ?_
  have hi : InText text items := ⟨hl.located.1⟩
  have hc : InText text comma? := ⟨hl.located.2⟩
  cases comma? with
  | some comma =>
      have := InText.some_iff.mp hc
      infer_instance
  | none => infer_instance

instance : Sound text (arrayEntry read) := by
  unfold arrayEntry
  infer_instance

instance : Sound text (arrayLiteral read) := by
  unfold arrayLiteral
  infer_instance

instance : Sound text (propertyKey read) := by
  unfold propertyKey
  refine bind inferInstance fun token => ?_
  split <;> infer_instance

instance : Sound text accessorKind := by
  unfold accessorKind
  infer_instance

instance : Sound text methodModifiers := by
  unfold methodModifiers
  infer_instance

/-! ## Functions, objects and classes -/

section Start

variable (start : Position) [InText text start]

instance : Sound text (restParameter read start) := by
  unfold restParameter
  infer_instance

instance : Sound text (plainParameter read start) := by
  unfold plainParameter
  infer_instance

end Start

theorem parameterItems (limit : Nat) (list : ItemList) [InText text list] :
    Sound text (Grammar.parameterItems read limit list) := by
  induction limit generalizing list with
  | zero => exact instPure
  | succ limit ih =>
      unfold Grammar.parameterItems
      infer_instance

instance (isAsync isGenerator : Bool) : Sound text (parameters read isAsync isGenerator) := by
  have hs := @parameterItems text read _
  unfold parameters
  infer_instance

instance (isAsync isGenerator : Bool) : Sound text (functionBody read isAsync isGenerator) := by
  unfold functionBody
  infer_instance

section Start

variable (start : Position) [InText text start]

instance (name : Option Identifier) [InText text name] (kind : FunctionKind)
    (isAsync isGenerator : Bool) :
    Sound text (functionRest read name kind isAsync isGenerator start) := by
  unfold functionRest
  infer_instance

instance (isAsync anonymousAllowed : Bool) :
    Sound text (functionDeclaration read isAsync start anonymousAllowed) := by
  unfold functionDeclaration
  infer_instance

instance (isAsync : Bool) : Sound text (functionExpression read isAsync start) := by
  unfold functionExpression
  infer_instance

instance (params : Parameters) [InText text params] (isAsync : Bool) :
    Sound text (arrowBody read params isAsync start) := by
  unfold arrowBody
  infer_instance

end Start

instance (modifiers : MethodModifiers) : Sound text (method read modifiers) := by
  unfold method
  infer_instance

instance : Sound text (objectProperty read) := by
  unfold objectProperty
  refine bind inferInstance fun start => bind inferInstance fun hasEllipsis => ?_
  split
  · infer_instance
  · refine bind inferInstance fun modifiers => bind inferInstance fun ⟨key, hk⟩ => ?_
    cases key with
    | name name =>
        have : InText text name := InText.part_iff.mp (hk.first rfl)
        infer_instance
    | hidden name =>
        have : InText text name := InText.part_iff.mp (hk.first rfl)
        infer_instance
    | _ => infer_instance

instance : Sound text (objectEntry read) := by
  unfold objectEntry
  infer_instance

instance : Sound text (objectLiteral read) := by
  unfold objectLiteral
  infer_instance

instance : Sound text (bindingTarget read) := by
  unfold bindingTarget
  infer_instance

instance (isStatic : Bool) (start : Position) [InText text start] :
    Sound text (classElement read isStatic start) := by
  unfold classElement
  infer_instance

instance : Sound text (classMember read) := by
  unfold classMember
  infer_instance

instance : Sound text (classEntry read) := by
  unfold classEntry
  infer_instance

instance (anonymousAllowed : Bool) : Sound text (className anonymousAllowed) := by
  unfold className
  refine bind inferInstance fun token => ?_
  split <;> infer_instance

instance (anonymousAllowed : Bool) : Sound text (classDefinition read anonymousAllowed) := by
  unfold classDefinition
  infer_instance

/-! ## Primary expressions -/

section Start

variable (start : Position) [InText text start] (token : Token) [InText text token]

instance (params : Parameters) [InText text params] (isAsync : Bool) :
    Sound text (arrowOnLine read params isAsync start) := by
  unfold arrowOnLine
  infer_instance

instance (name : Identifier) [InText text name] : InText text (Parameters.single name) :=
  inferInstanceAs (InText text (Parameters.mk [.identifier name] false name.span))

instance (name : String) : Sound text (reference read name token) := by
  unfold reference
  infer_instance

instance : Sound text (asyncArrow read start) := by
  unfold asyncArrow
  infer_instance

instance (asyncSpan : Span) [InText text asyncSpan] : Sound text (asyncCallOrArrow read asyncSpan) := by
  unfold asyncCallOrArrow
  infer_instance

instance (name : String) : Sound text (identifierExpression read name) := by
  unfold identifierExpression
  refine bind inferInstance fun token => ?_
  split
  · refine bind inferInstance fun next => ?_
    split
    · infer_instance
    · split
      · infer_instance
      · split <;> infer_instance
  · infer_instance

/-- What a list in parentheses stands for is in the text with its items. -/
theorem parenthesized {items : List Expression} {e : Expression} [h : InText text items]
    (he : parenthesized? items = some e) : InText text e := by
  unfold parenthesized? at he
  cases items with
  | nil => cases he
  | cons first others =>
      obtain ⟨hf, ho⟩ := InText.cons_iff.mp h
      dsimp only at he
      split at he
      · cases he
      · split at he
        · cases he
          exact hf
        next last hlast =>
          cases he
          have hl : InText text last := ⟨ho.located last (List.mem_of_getLast? hlast)⟩
          infer_instance

instance : Sound text (parenthesizedOrArrow read) := by
  unfold parenthesizedOrArrow
  refine bind inferInstance fun start => bind inferInstance fun ⟨(items, comma?, span), h⟩ => ?_
  have hi : InText text items := ⟨h.located.1⟩
  have hc : InText text comma? := ⟨h.located.2.1⟩
  have hs : InText text span := ⟨h.located.2.2⟩
  refine bind inferInstance fun isArrow => ?_
  split
  · cases comma? with
    | some comma =>
        have := InText.some_iff.mp hc
        infer_instance
    | none => infer_instance
  · split
    next inner he =>
      have : InText text inner := parenthesized he
      infer_instance
    next => infer_instance

instance : Sound text (importExpression read start) := by
  unfold importExpression
  infer_instance

instance : Sound text superReference := by
  unfold superReference
  infer_instance

instance (word : Keyword) : Sound text (keywordExpression read word token) := by
  unfold keywordExpression
  split <;> infer_instance

instance (name : String) : Sound text (privateOperand name token) := by
  unfold privateOperand
  infer_instance

end Start

/-- A slash under the cursor is read again as the start of a regular expression. -/
theorem yields_regExpLiteral {s : State} (hs : s.Sound text)
    (hr : Rereading.regExp.applies s.current = true) : Yields text s regExpLiteral := by
  have : InText text s.current := ⟨hs.current⟩
  unfold regExpLiteral
  refine yields_behind (show position s = .ok s.current.start s from rfl) (.refl hs) ?_
  refine yields_bind (yields_rescan hs hr) fun _ => bind inferInstance fun token => ?_
  split <;> infer_instance

instance : Sound text (primary read) := by
  constructor
  intro s hs
  have : InText text s.current := ⟨hs.current⟩
  unfold primary
  -- only the two slashes look at the token again, and for these it is not the end
  refine yields_behind (show current s = .ok s.current s from rfl) (.refl hs) ?_
  split
  case h_6 hk | h_7 hk =>
    refine yields_regExpLiteral hs ?_
    simp [Rereading.applies, Token.isMark, hk]
  all_goals exact run hs

/-! ## Operators -/

instance : Sound text memberName := by
  unfold memberName
  refine bind inferInstance fun token => ?_
  split <;> infer_instance

section Suffixes

variable (receiver : Expression) [InText text receiver] (optional callsAllowed : Bool)

instance : Sound text (namedAccess receiver optional) := by
  unfold namedAccess
  infer_instance

instance : Sound text (computedAccess read receiver optional) := by
  unfold computedAccess
  infer_instance

instance : Sound text (callOf read receiver optional) := by
  unfold callOf
  infer_instance

instance : Sound text (optionalSuffix read receiver) := by
  unfold optionalSuffix
  refine bind inferInstance fun token => ?_
  split <;> infer_instance

instance : Sound text (suffix? read callsAllowed receiver) := by
  unfold suffix?
  refine bind inferInstance fun token => ?_
  split <;> infer_instance

theorem suffixesFrom (limit : Nat) : Sound text (Grammar.suffixesFrom read callsAllowed limit receiver) := by
  induction limit generalizing receiver with
  | zero => exact instPure
  | succ limit ih =>
      refine bind inferInstance fun ⟨found, hf⟩ => ?_
      cases found with
      | some next =>
          have := InText.some_iff.mp hf
          exact ih next
      | none => exact instPure

instance : Sound text (suffixes read callsAllowed receiver) :=
  bind inferInstance fun _ => suffixesFrom _ _ _

end Suffixes

instance : Sound text (construction read) := by
  unfold construction
  infer_instance

instance : Sound text (leftHandSide read) := by
  unfold leftHandSide
  infer_instance

instance : Sound text atAwaitOperator := by
  unfold atAwaitOperator
  infer_instance

instance : Sound text (updatable read) := by
  unfold updatable
  refine bind inferInstance fun start => bind inferInstance fun operand => ?_
  refine bind inferInstance fun token => ?_
  split <;> infer_instance

instance : Sound text (unary read) := by
  unfold unary
  refine bind inferInstance fun token => ?_
  split
  · infer_instance
  · split <;> infer_instance

/-- A result of the operator stack: a value of the text, or a failure at a place of the text. -/
def Settled (text : List Char) {β : Type} [HasPlaces β] : Except Failure β → Prop
  | .ok b => InText text b
  | .error e => e.Sound text

section Stack

variable {β γ : Type} [HasPlaces β] [HasPlaces γ]

theorem settled_bind {x : Except Failure β} {f : β → Except Failure γ} (hx : Settled text x)
    (hf : ∀ b : TextValue text β, Settled text (f b.val)) : Settled text (x >>= f) := by
  cases x with
  | ok b => exact hf ⟨b, hx⟩
  | error e => exact hx

theorem settled_error (p : Problem) (position : Position) [hp : p.EndsProduction]
    [hl : InText text position] :
    Settled text (.error (.unexpected p.message position) : Except Failure β) :=
  ⟨p, position, hp, InText.position_iff.mp hl, rfl⟩

theorem settled_apply (w : WaitingOperator) (right : Expression) [InText text w]
    [InText text right] : Settled text (w.apply right) := by
  unfold WaitingOperator.apply
  split
  · exact settled_error .mixedCoalesce _
  · exact inferInstanceAs (InText text (Expression.binary _ _ _ _))

theorem settled_reduce (ready : BinaryOperator → Bool) (waiting : List WaitingOperator)
    (top : Expression) (hw : InText text waiting) [InText text top] :
    Settled text (OperatorStack.reduce ready waiting top) := by
  -- on the operators that wait, for whatever stands on their right
  induction waiting generalizing top with
  | nil => exact inferInstanceAs (InText text (OperatorStack.mk top []))
  | cons w rest ih =>
      obtain ⟨hw, hrest⟩ := InText.cons_iff.mp hw
      unfold OperatorStack.reduce
      split
      · exact settled_bind (settled_apply w top) fun next => ih next.val hrest
      · exact inferInstanceAs (InText text (OperatorStack.mk top (w :: rest)))

theorem settled_checkExponentBase (base : Expression) [InText text base] :
    Settled text (checkExponentBase base) := by
  unfold checkExponentBase
  split
  · exact settled_error (.unaryBeforeExponent _) _
  · exact settled_error (.unaryBeforeExponent _) _
  · exact inferInstanceAs (InText text ())

theorem settled_meet (stack : OperatorStack) (next : BinaryOperator) [InText text stack] :
    Settled text (stack.meet next) := by
  refine settled_bind (settled_reduce _ _ _ inferInstance) fun reduced => ?_
  split
  · exact settled_bind (settled_checkExponentBase _) fun _ => reduced.inText
  · exact reduced.inText

theorem settled_finish (stack : OperatorStack) [InText text stack] : Settled text stack.finish := by
  have h : Settled text (OperatorStack.reduce (fun _ => true) stack.waiting stack.top) :=
    settled_reduce _ _ _ inferInstance
  unfold OperatorStack.finish
  cases hx : OperatorStack.reduce (fun _ => true) stack.waiting stack.top with
  | ok reduced =>
      rw [hx] at h
      have : InText text reduced := h
      exact inferInstanceAs (InText text reduced.top)
  | error e =>
      rw [hx] at h
      exact h

theorem liftStack {x : Except Failure β} (h : Settled text x) : Sound text (Grammar.liftStack x) := by
  cases x with
  | ok b =>
      have : InText text b := h
      exact inferInstanceAs (Sound text (pure b))
  | error e => exact ⟨fun hs => ⟨h, .refl hs⟩⟩

end Stack

theorem binaryFrom (limit : Nat) (stack : OperatorStack) [InText text stack] :
    Sound text (Grammar.binaryFrom read limit stack) := by
  induction limit generalizing stack with
  | zero => exact liftStack (settled_finish stack)
  | succ limit ih =>
      unfold Grammar.binaryFrom
      refine bind inferInstance fun token => bind inferInstance fun context => ?_
      split
      · exact liftStack (settled_finish stack)
      · exact bind (liftStack (settled_meet stack _)) fun reduced => inferInstance

instance : Sound text (binary read) := by
  have hs := @binaryFrom text read _
  unfold binary
  infer_instance

instance : Sound text (conditional read) := by
  unfold conditional
  infer_instance

instance : Sound text (yieldOperand read) := by
  unfold yieldOperand
  infer_instance

instance : Sound text (yieldExpression read) := by
  unfold yieldExpression
  infer_instance

instance : Sound text (assignment read) := by
  unfold assignment
  refine bind inferInstance fun context => bind inferInstance fun atYield => ?_
  split
  · infer_instance
  · refine bind inferInstance fun start => bind inferInstance fun left => ?_
    split
    · exact instPure
    · refine bind inferInstance fun token => ?_
      split <;> infer_instance

/-! ## Imports and exports -/

instance : Sound text moduleSpecifier := by
  unfold moduleSpecifier
  refine bind inferInstance fun token => ?_
  split <;> infer_instance

instance : Sound text moduleName := by
  unfold moduleName
  refine bind inferInstance fun token => ?_
  split <;> infer_instance

instance : Sound text importDefault := by
  unfold importDefault
  refine bind inferInstance fun token => ?_
  split <;> infer_instance

instance (imported : ModuleName) [h : InText text imported] :
    Sound text (checkImportedName imported) := by
  unfold checkImportedName
  cases imported with
  | identifier name =>
      have : InText text name := ⟨h.located⟩
      infer_instance
  | string literal => infer_instance

instance : Sound text importSpecifier := by
  unfold importSpecifier
  infer_instance

theorem specifiersFrom {specifier : Production α} [Sound text specifier] (limit : Nat)
    (items : List α) [InText text items] : Sound text (Grammar.specifiersFrom specifier limit items) := by
  induction limit generalizing items with
  | zero => exact instPure
  | succ limit ih =>
      unfold Grammar.specifiersFrom
      infer_instance

instance {specifier : Production α} [Sound text specifier] : Sound text (specifiers specifier) := by
  have hs := @specifiersFrom text _ _ specifier _
  unfold specifiers
  infer_instance

instance : Sound text importBindings := by
  unfold importBindings
  infer_instance

instance : Sound text importClause := by
  unfold importClause
  infer_instance

instance : Sound text importDeclaration := by
  unfold importDeclaration
  infer_instance

instance : Sound text exportSpecifier := by
  unfold exportSpecifier
  infer_instance

theorem checkExportedLocal (specifier : ExportSpecifier) [h : InText text specifier] :
    Sound text (Grammar.checkExportedLocal specifier) := by
  obtain ⟨name, exported, span⟩ := specifier
  have hp : InText text (ExportSpecifier.mk name exported span).parts := h.inner
  obtain ⟨_, hn, _⟩ : InText text span ∧ InText text name ∧ InText text exported := by simpa using hp
  unfold Grammar.checkExportedLocal
  cases name with
  | identifier name =>
      have : InText text name := ⟨hn.located⟩
      infer_instance
  | string literal =>
      have : InText text literal := ⟨hn.located⟩
      infer_instance

instance (items : List ExportSpecifier) [h : InText text items] :
    Sound text (items.forM Grammar.checkExportedLocal) := forM (fun b => checkExportedLocal b.val) h

instance : Sound text (exportedDefault read) := by
  unfold exportedDefault
  infer_instance

section Start

variable (start : Position) [InText text start]

instance : Sound text (exportAll start) := by
  unfold exportAll
  infer_instance

instance : Sound text (exportNamed start) := by
  unfold exportNamed
  infer_instance

end Start

instance : Sound text (exportDeclaration read) := by
  unfold exportDeclaration
  infer_instance

/-! ## Statements -/

instance : Sound text (declarator read) := by
  unfold declarator
  infer_instance

instance : Sound text (commaDeclarator read) := by
  unfold commaDeclarator
  infer_instance

instance (kind : VariableKind) : Sound text (declaration read kind) := by
  unfold declaration
  infer_instance

instance (d : Declaration) (span : Span) [h : InText text d] [InText text span] :
    InText text (d.withSpan span) := by
  obtain ⟨kind, declarators, s⟩ := d
  have hp : InText text (Declaration.mk kind declarators s).parts := h.inner
  obtain ⟨_, hd⟩ : InText text s ∧ InText text declarators := by simpa using hp
  exact inferInstanceAs (InText text (Declaration.mk kind declarators span))

instance (kind : VariableKind) : Sound text (declarationStatement read kind) := by
  unfold declarationStatement
  infer_instance

instance (place : Place) : Sound text (checkPlace place) := by
  unfold checkPlace
  infer_instance

instance : Sound text (loopHead read) := by
  unfold loopHead
  infer_instance

section Loops

variable (start : Position) [InText text start]

instance (head : Option LoopHead) [InText text head] : Sound text (countingLoop read head start) := by
  unfold countingLoop
  infer_instance

instance (head : LoopHead) [InText text head] : Sound text (keyLoop read head start) := by
  unfold keyLoop
  infer_instance

instance (head : LoopHead) [InText text head] (isAwait : Bool) :
    Sound text (valueLoop read head isAwait start) := by
  unfold valueLoop
  infer_instance

end Loops

instance : Sound text (forStatement read) := by
  unfold forStatement
  refine bind inferInstance fun start => bind inferInstance fun _ => ?_
  refine bind inferInstance fun isAwait => bind inferInstance fun _ => ?_
  refine bind inferInstance fun ⟨head, hh⟩ => ?_
  cases head with
  | some first =>
      have := InText.some_iff.mp hh
      infer_instance
  | none => infer_instance

instance : Sound text (whileStatement read) := by
  unfold whileStatement
  infer_instance

instance : Sound text (doStatement read) := by
  unfold doStatement
  infer_instance

instance : Sound text (ifStatement read) := by
  unfold ifStatement
  infer_instance

instance : Sound text (caseTest read) := by
  unfold caseTest
  infer_instance

instance : Sound text (switchCase read) := by
  constructor
  intro s hs
  have hstart : InText text s.current.start := InText.position_iff.mpr hs.current.span.1
  refine yields_behind (show position s = .ok s.current.start s from rfl) (.refl hs) ?_
  refine yields_behind (atMark_eq .rightBrace s) (.refl hs) ?_
  split
  · exact run hs
  · refine yields_then (run hs) fun test t ht hin hsound => ?_
    have hc : Alike read read (caseTest read) (caseTest read) := inferInstance
    obtain ⟨_, htest⟩ := (hc.composed hr.consumes.composed).forward_of_ok hs.toStanding ht
    refine yields_then (run hsound) fun _ u hu _ hcolon => ?_
    obtain ⟨_, hopen⟩ := Composed.forward_of_ok inferInstance hsound.toStanding hu
    refine yields_statementList hcolon fun items v hi hlast ha => ?_
    have ho := ha.mono (Nat.le_trans htest.le hopen.le) (Span.le_stop_between s.current.start _)
    have hcase := InText.switchCase_iff.mpr ⟨hstart.between hlast.lastStop, hin, hi, ho⟩
    exact ⟨InText.some_iff.mpr hcase, .refl hlast⟩

instance : Sound text (switchStatement read) := by
  unfold switchStatement
  infer_instance

/-- The gap of a catch clause starts right behind its first word, on the line of that word. -/
theorem yields_catchClause {s : State} (hs : s.Sound text)
    (hw : s.current.isWord .catchWord = true) : Yields text s (catchClause read) := by
  have hcurrent : InText text s.current := ⟨hs.current⟩
  have hgap : InText text (Position.mk s.current.span.line
      (s.current.span.column + s.current.span.length) s.current.span.stop) := by
    unfold Token.isWord at hw
    split at hw
    next word hk => exact InText.position_iff.mpr (hs.current.level word hk)
    next => cases hw
  have hadvance : Ends text s (advance s) := run hs
  unfold catchClause
  refine yields_behind (show advance s = .ok s.current _ from rfl) hadvance.2 ?_
  exact run hadvance.2.sound

instance : Sound text (tryStatement read) := by
  unfold tryStatement
  refine bind inferInstance fun start => bind inferInstance fun _ => bind inferInstance fun body => ?_
  refine branch (·.isWord .catchWord) (atWord_eq _) ?_ inferInstance
  intro s hs hw
  exact yields_bind (yields_map (yields_catchClause hs hw) fun _ => inferInstance) fun _ => inferInstance

instance : Sound text jumpLabel := by
  unfold jumpLabel
  refine bind inferInstance fun token => ?_
  split
  · exact instPure
  · split <;> infer_instance

theorem jump {make : Option Identifier → Span → Statement}
    (h : ∀ (label : TextValue text (Option Identifier)) (s : TextValue text Span),
      InText text (make label.val s.val)) : Sound text (Grammar.jump make) := by
  unfold Grammar.jump
  infer_instance

instance : Sound text (returnStatement read) := by
  unfold returnStatement
  infer_instance

instance : Sound text (throwStatement read) := by
  unfold throwStatement
  infer_instance

instance : Sound text (withStatement read) := by
  unfold withStatement
  infer_instance

instance : Sound text debuggerStatement := by
  unfold debuggerStatement
  infer_instance

instance : Sound text emptyStatement := by
  unfold emptyStatement
  infer_instance

instance : Sound text (expressionStatement read) := by
  unfold expressionStatement
  infer_instance

instance : Sound text (labeledStatement read) := by
  unfold labeledStatement
  infer_instance

instance (place : Place) (name : String) : Sound text (identifierStatement read place name) := by
  unfold identifierStatement
  infer_instance

instance (place : Place) (word : Keyword) : Sound text (keywordStatement read place word) := by
  have hcontinue : Sound text (Grammar.jump .continue) := jump fun _ _ => inferInstance
  have hbreak : Sound text (Grammar.jump .break) := jump fun _ _ => inferInstance
  unfold keywordStatement
  split <;> infer_instance

instance (place : Place) : Sound text (statement read place) := by
  unfold statement
  refine bind inferInstance fun token => ?_
  split <;> infer_instance

end Sound

/-! ## The whole grammar -/

/-- **Every nonterminal stays in the text**, whatever the depth. -/
instance sound_read {text : List Char} (depth : Nat) : Reader.Sound text (read depth) := by
  induction depth with
  | zero =>
      have (n : Nonterminal) [HasPlaces n.Result] : Sound text (read 0 n) :=
        inferInstanceAs (Sound text (failHere .primaryExpressionExpected))
      exact ⟨consumes_read 0, covers_read 0, fun _ => this _, this _, this _, this _, this _, this _⟩
  | succ depth ih =>
      exact ⟨consumes_read _, covers_read _, fun place => inferInstanceAs (Sound text (statement (read depth) place)),
        inferInstanceAs (Sound text (assignment (read depth))),
        inferInstanceAs (Sound text (unary (read depth))),
        inferInstanceAs (Sound text (leftHandSide (read depth))),
        inferInstanceAs (Sound text (construction (read depth))),
        inferInstanceAs (Sound text (bindingTarget (read depth)))⟩

end Grammar

end EcmaScript
