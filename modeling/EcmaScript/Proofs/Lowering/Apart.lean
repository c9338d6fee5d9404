import EcmaScript.Proofs.Lowering.Composed

/-!
# Steps of lowering that leave problems of a kind alone

Most rules have no say about a given kind of problem: they object to something else, if they object at all. A
test `K` tells the kind, and `Apart K` is the class of the steps that are put together from remarks which fail
it. Such steps neither note that the source is a module nor put an objection to `await` off, so they leave the
state as it is, up to the journal (`Apart.trace`).

A rule that looks at one thing has an instance for every kind that the problems it can find are not of.

## Contents

* `Remark.concerns`: remarks of a kind.
* `Apart`: the class, its closure under the combinators, and what it says.
* One instance for each rule that looks at one thing.
-/

namespace EcmaScript

/-- The remark is a problem of the kind. -/
def Remark.concerns (K : Problem → Bool) : Remark → Bool
  | .problem _ p => K p
  | _ => false

/-- The value is false. As a class it finds out by itself that a problem is not of a kind. -/
class IsFalse (b : Bool) : Prop where
  eq_false : b = false

instance : IsFalse false := ⟨rfl⟩

namespace Lowering

-- An instance for a rule is as large as the rule.
set_option synthInstance.maxSize 2000

/-- The steps that are put together from remarks which are no problems of the kind. -/
class inductive Apart (K : Problem → Bool) : {α : Type} → Lowering α → Prop where
  | pure {α : Type} (a : α) : Apart K (pure a : Lowering α)
  | bind {α β : Type} {p : Lowering α} {f : α → Lowering β} :
      Apart K p → (∀ a, Apart K (f a)) → Apart K (p >>= f)
  | look {α : Type} (f : View → α) : Apart K (look f)
  | remark (r : Remark) : r.concerns K = false → Apart K (remark r)

namespace Apart

attribute [instance] Apart.pure Apart.look

variable {K : Problem → Bool} {α β : Type} {p : Lowering α}

/-- **A step that leaves a kind of problem alone only writes into the journal**, and no problem of the kind. -/
theorem trace (h : Apart K p) (s : State) : ∃ rs : List Remark, (∀ r ∈ rs, r.concerns K = false) ∧
    ∀ j, p { s with journal := j } = ((p s).1, { s with journal := j.notes rs }) := by
  induction h generalizing s with
  | pure a => exact ⟨[], nofun, fun _ => rfl⟩
  | look f => exact ⟨[], nofun, fun _ => rfl⟩
  | remark r hr => exact ⟨[r], fun q hq => List.mem_singleton.mp hq ▸ hr, fun _ => rfl⟩
  | @bind α β p f _ _ ihp ihf =>
      obtain ⟨rs, hapart, hp⟩ := ihp s
      obtain ⟨qs, hapart', hf⟩ := ihf (p s).1 s
      -- behind the first part the state differs by its journal only, which no step looks at
      have hs : (p s).2 = { s with journal := s.journal.notes rs } := congrArg Prod.snd (hp s.journal)
      refine ⟨rs ++ qs, fun r hr => (List.mem_append.mp hr).elim (hapart r) (hapart' r), fun j => ?_⟩
      have hvalue : ((p >>= f) s).1 = (f (p s).1 s).1 := by
        show (f (p s).1 (p s).2).1 = _
        rw [hs, hf]
      show f (p { s with journal := j }).1 (p { s with journal := j }).2 = _
      rw [hp j, hf, Journal.notes_notes, hvalue]

/-! ## Combinators -/

instance instBind {f : α → Lowering β} [hp : Apart K p] [hf : ∀ a, Apart K (f a)] : Apart K (p >>= f) :=
  bind hp hf

instance instMap {f : α → β} [h : Apart K p] : Apart K (f <$> p) :=
  inferInstanceAs (Apart K (p >>= fun a => Pure.pure (f a)))

instance instIte {c : Prop} [Decidable c] {q : Lowering α} [hp : Apart K p] [hq : Apart K q] :
    Apart K (if c then p else q) := by
  split
  · exact hp
  · exact hq

theorem forM {f : β → Lowering PUnit} (bs : List β) (hf : ∀ b ∈ bs, Apart K (f b)) : Apart K (bs.forM f) := by
  induction bs with
  | nil => exact pure _
  | cons b bs ih => exact bind (hf b List.mem_cons_self) fun _ => ih fun b hb => hf b (List.mem_cons_of_mem _ hb)

instance instForM {f : β → Lowering PUnit} [hf : ∀ b, Apart K (f b)] (bs : List β) : Apart K (bs.forM f) :=
  forM bs fun b _ => hf b

instance instMapM {f : β → Lowering α} [hf : ∀ b, Apart K (f b)] (bs : List β) : Apart K (bs.mapM f) := by
  induction bs with
  | nil => exact pure _
  | cons b bs ih =>
      rw [List.mapM_cons]
      infer_instance

/-! ## Remarks -/

instance (f : Feature) (position : Position) : Apart K (record f position) := by
  rw [record_eq_remark]
  exact remark _ rfl

instance (position : Position) (q : Problem) [h : IsFalse (K q)] : Apart K (Lowering.error position q) :=
  remark (.problem position q) h.eq_false

instance (d : LexicalDiagnostic) : Apart K (lexical d) := remark (.lexical d) rfl

instance (position : Position) (name : String) : Apart K (warning position (.duplicateParameter name)) :=
  remark (.duplicate position name) rfl

instance : Apart K scopes := look (·.scopes)

instance (offset : Nat) : Apart K (emptySpanAt offset) :=
  look fun v => Span.emptyAt (v.lineMap.position offset)

/-- Whether a shorthand may have its name is one remark. -/
theorem shorthand (place : ShorthandPlace) {position : Position} {name : String} {next : Lowering α}
    (h : Apart K next) :
    Apart K (do
      if ← isReservedShorthand name then error position (place.problem name)
      next) := by
  rw [Composed.shorthand_eq]
  exact bind (look _) fun _ => bind (remark _ rfl) fun _ => h

/-! ## Targets and leaves -/

section Targets

variable [IsFalse (K .invalidAssignmentTarget)]

instance (kind : TargetKind) (e : Expression) : Apart K (Role.checkTarget kind e) := by
  unfold Role.checkTarget
  infer_instance

instance (role : Role) (e : Expression) [IsFalse (K .defaultAfterRest)] : Apart K (role.check e) := by
  unfold Role.check
  split <;> infer_instance

instance (e : Expression) : Apart K (checkSimpleTarget e) := by
  unfold checkSimpleTarget
  infer_instance

instance (argument : Expression) : Apart K (checkObjectRest argument) := by
  unfold checkObjectRest
  split <;> infer_instance

end Targets

instance (isLast trailingComma : Bool) (span : Span) [IsFalse (K .restNotLast)] [IsFalse (K .commaAfterRest)] :
    Apart K (checkRest isLast trailingComma span) := by
  unfold checkRest
  infer_instance

instance (name : Identifier) : Apart K (identifier name) := by
  unfold identifier
  infer_instance

instance (value : Nat) (span : Span) : Apart K (bigintNode value span) := by
  unfold bigintNode
  infer_instance

section Flags

variable [∀ flag, IsFalse (K (.invalidRegExpFlag flag))]

instance (position : Position) (seen flags : List Char) : Apart K (checkFlags position seen flags) := by
  induction flags generalizing seen with
  | nil => exact .pure _
  | cons c rest ih =>
      unfold checkFlags
      split
      · infer_instance
      · dsimp only
        split <;> infer_instance

instance (pattern flags : String) (span : Span) : Apart K (regexpNode pattern flags span) := by
  unfold regexpNode
  infer_instance

end Flags

instance (tagged : Bool) (text : TemplateText) : Apart K (templateText tagged text) := by
  unfold templateText
  infer_instance

instance (name : Identifier) : Apart K (recordPropertyName name) := by
  unfold recordPropertyName
  infer_instance

instance (key : PropertyKey) : Apart K (keyName key) := by
  unfold keyName
  split <;> infer_instance

section PrivateNames

variable [IsFalse (K .privateNameMisplaced)]

instance (name : Identifier) (undeclared : Problem) [IsFalse (K undeclared)] :
    Apart K (checkPrivate name undeclared) := by
  unfold checkPrivate
  infer_instance

instance (name : Identifier) : Apart K (misplacedPrivateName name) := by
  unfold misplacedPrivateName
  infer_instance

variable [IsFalse (K .privateFieldUndeclared)]

instance (name : Identifier) : Apart K (privateOperand name) := by
  unfold privateOperand
  infer_instance

instance (place : ChainPlace) (receiver : Node) (property : MemberName) (isCallee : Bool) (span : Span)
    [IsFalse (K .privateMethodUndeclared)] : Apart K (memberNode place receiver property isCallee span) := by
  have hundeclared : IsFalse (K (if isCallee then .privateMethodUndeclared else .privateFieldUndeclared)) := by
    split <;> infer_instance
  unfold memberNode
  dsimp only
  split <;> infer_instance

end PrivateNames

instance (operator : UnaryOperator) (argument : Expression) (span : Span) [IsFalse (K .bigintToNumber)]
    [IsFalse (K .privateFieldDeleted)] [IsFalse (K .invalidDelete)] :
    Apart K (checkOperand operator argument span) := by
  unfold checkOperand
  split
  · split <;> infer_instance
  · split <;> infer_instance
  · infer_instance

instance (increment afterOperand : Bool) (argument : Expression)
    [IsFalse (K (.invalidUpdateOperand increment afterOperand))] :
    Apart K (checkUpdate increment afterOperand argument) := by
  unfold checkUpdate
  infer_instance

instance (operator : AssignmentOperator) (span : Span) : Apart K (recordAssignment operator span) := by
  unfold recordAssignment
  split <;> infer_instance

instance (operator : BinaryOperator) (span : Span) : Apart K (recordBinary operator span) := by
  unfold recordBinary
  split <;> infer_instance

instance (node : Node) : Apart K (applyPending [] node) := pure node

/-! ## Imports, parameters and classes -/

instance (specifier : ImportSpecifier) : Apart K (importSpecNode specifier) := by
  unfold importSpecNode
  dsimp only
  split <;> infer_instance

instance (kind : FunctionKind) (items : List Expression) (span : Span)
    [∀ count, IsFalse (K (.getterParameters count))] [∀ count, IsFalse (K (.setterParameters count))]
    [IsFalse (K .setterRest)] : Apart K (checkAccessor kind items span) := by
  unfold checkAccessor accessorProblem?
  cases kind with
  | getter =>
      cases items.isEmpty <;> simp only [Bool.false_eq_true, if_false, if_true] <;> infer_instance
  | setter =>
      by_cases hl : items.length ≠ 1
      · simp only [if_pos hl]
        infer_instance
      · simp only [if_neg hl]
        cases startsWithRest items <;> simp only [Bool.false_eq_true, if_false, if_true] <;> infer_instance
  | _ => infer_instance

instance (seen : List String) (names : List (String × Span)) : Apart K (checkDuplicates seen names) := by
  induction names generalizing seen with
  | nil => exact .pure _
  | cons named rest ih =>
      obtain ⟨name, span⟩ := named
      unfold checkDuplicates
      infer_instance

mutual

theorem problem_of_suspensions : (n : Node) → ∀ x ∈ n.suspensions,
    x.2 = .yieldInParameterDefault ∨ x.2 = .awaitInParameterDefault
  | ⟨kind, payload, children, span, _, _, _, _⟩ => by
      have hc := problem_of_suspensionsAll children
      rw [Node.suspensions.eq_def]
      dsimp only
      split
      · nofun
      · nofun
      · exact List.forall_mem_cons.mpr ⟨.inl rfl, hc⟩
      · exact List.forall_mem_cons.mpr ⟨.inr rfl, hc⟩
      · exact hc

theorem problem_of_suspensionsAll : (ns : List Node) → ∀ x ∈ Node.suspensionsAll ns,
    x.2 = .yieldInParameterDefault ∨ x.2 = .awaitInParameterDefault
  | [] => nofun
  | n :: rest => by
      rw [Node.suspensionsAll]
      exact List.forall_mem_append.mpr ⟨problem_of_suspensions n, problem_of_suspensionsAll rest⟩

end

instance (default : Node) [hy : IsFalse (K .yieldInParameterDefault)] [ha : IsFalse (K .awaitInParameterDefault)] :
    Apart K (checkDefault default) := by
  refine forM _ fun x hx => remark (.problem x.1.start x.2) ?_
  show K x.2 = false
  rcases problem_of_suspensions default x hx with h | h <;> rw [h]
  · exact hy.eq_false
  · exact ha.eq_false

instance (seen : Bool) (members : List (Identifier × Function)) [IsFalse (K .constructorModifiers)]
    [IsFalse (K .duplicateConstructor)] : Apart K (checkConstructors seen members) := by
  induction members generalizing seen with
  | nil => exact .pure _
  | cons member rest ih =>
      obtain ⟨name, function⟩ := member
      unfold checkConstructors
      infer_instance

/-! ## Statements and members -/

instance (s : Statement) : Apart K (recordBlockFunction s) := by
  unfold recordBlockFunction
  split <;> infer_instance

instance (statements : List Statement) (span : Span) : Apart K (caseSpan statements span) := by
  unfold caseSpan
  split <;> infer_instance

instance (kind : VariableKind) (span : Span) : Apart K (declarationKind kind span) := by
  unfold declarationKind
  split <;> infer_instance

instance (kind : VariableKind) (loop : Option String) (target : Expression) (hasValue : Bool) (span : Span)
    [∀ name, IsFalse (K (.initializerInLoopHead name))] [IsFalse (K .constWithoutInitializer)]
    [IsFalse (K .destructuringWithoutInitializer)] :
    Apart K (checkInitializer kind loop target hasValue span) := by
  unfold checkInitializer
  split <;> infer_instance

instance (loop : String) (declaration : Declaration) [IsFalse (K (.severalDeclarationsInLoopHead loop))] :
    Apart K (checkLoopDeclaration loop declaration) := by
  unfold checkLoopDeclaration
  split <;> infer_instance

section Jumps

variable [∀ name, IsFalse (K (.undefinedLabel name))]

instance (label : Option Identifier) (span : Span) [IsFalse (K .continueLabelNotLoop)]
    [IsFalse (K .continueOutsideLoop)] : Apart K (continueNode label span) := by
  unfold continueNode
  refine bind inferInstance fun s => ?_
  split
  · dsimp only
    split <;> infer_instance
  · infer_instance

instance (label : Option Identifier) (span : Span) [IsFalse (K .breakOutsideLoop)] :
    Apart K (breakNode label span) := by
  unfold breakNode
  refine bind inferInstance fun s => ?_
  split <;> infer_instance

end Jumps

instance (kind : FunctionKind) (isAsync isGenerator : Bool) (span : Span) :
    Apart K (recordFunction kind isAsync isGenerator span) := by
  unfold recordFunction
  dsimp only
  cases isAsync <;> cases isGenerator <;> infer_instance

instance (name : Option Identifier) (parametersSpan : Span) : Apart K (functionName name parametersSpan) := by
  unfold functionName
  split <;> infer_instance

instance (items : List Node) (trailingComma : Bool) (span : Span) :
    Apart K (parametersNode items trailingComma span) := by
  unfold parametersNode
  infer_instance

end Apart

end Lowering

end EcmaScript
