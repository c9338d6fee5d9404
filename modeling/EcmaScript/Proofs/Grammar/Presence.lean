import EcmaScript.Proofs.Grammar.Opens

/-!
# The end of the text is not read

A production reads a token only where it has seen that one is there. The end of the text is seen, by every
test of the token under the cursor, but it is never read. So the place where the last token ends, which
regions are closed at, is always the end of a token of the text (`ReadsTo`).

Most productions test a token before they read it. Those that do not count on their caller: `Heeds` has a
flag for this, as `Opens` has.

## Contents

* `lastStop`, `ReadsTo`: the tokens that were read, the last of which ends where the state says.
* `Stays`: productions that read nothing.
* `Heeds`: the class of productions, and its closure under the combinators.
* One instance for each production that reads tokens.
* `heeds_read`, `heedsAt_scriptStatement`: all nonterminals, and a statement of the script.
-/

namespace EcmaScript

namespace Grammar

-- An instance for a production is as large as the production.
set_option synthInstance.maxSize 2000

/-! ## The tokens that were read -/

/-- Where the last of the tokens ends; without one, where the token before them ended. -/
def lastStop (before : Nat) (tokens : List Token) : Nat :=
  tokens.foldl (fun _ token => token.span.stop) before

theorem lastStop_append (before : Nat) (xs ys : List Token) :
    lastStop before (xs ++ ys) = lastStop (lastStop before xs) ys := List.foldl_append

/-- Where the tokens end is the end of one of them. -/
theorem exists_mem_of_ne_nil {tokens : List Token} (h : tokens ≠ []) (before : Nat) :
    ∃ token ∈ tokens, token.span.stop = lastStop before tokens := by
  induction tokens generalizing before with
  | nil => exact absurd rfl h
  | cons token rest ih =>
      cases rest with
      | nil => exact ⟨token, List.mem_singleton_self token, rfl⟩
      | cons next others =>
          obtain ⟨last, hm, he⟩ := ih (List.cons_ne_nil next others) token.span.stop
          exact ⟨last, List.mem_cons_of_mem token hm, he⟩

/-- The tokens were read on the way from `s` to `t`, and nothing but them: the last token that was read is
the last of them. -/
structure ReadsTo (s : State) (tokens : List Token) (t : State) : Prop where
  reads : Reads s tokens t
  lastStop : t.lastStop = Grammar.lastStop s.lastStop tokens

namespace ReadsTo

variable {s t u : State} {xs ys : List Token}

theorem refl (s : State) : ReadsTo s [] s := ⟨.stay s, rfl⟩

theorem trans (h : ReadsTo s xs t) (h' : ReadsTo t ys u) : ReadsTo s (xs ++ ys) u :=
  ⟨h.reads.trans h'.reads, by rw [h'.lastStop, h.lastStop, lastStop_append]⟩

theorem of_idle (h : s.Idle t) : ReadsTo s [] t := ⟨.of_idle h, h.lastStop⟩

/-- A token that is there is read. -/
theorem advanced (h : s.current.isEnd = false) : ReadsTo s [s.current] s.advanced := by
  have hr : Reads s (s.taken ++ []) s.advanced := .advance (.stay _)
  rw [State.taken, h, if_neg Bool.false_ne_true] at hr
  exact ⟨hr, rfl⟩

/-- The token under the cursor is read again. -/
theorem readAgain (s : State) (r : Rereading) : ReadsTo s [] (s.readAgain r) :=
  ⟨.again r (.stay _), s.lastStop_readAgain r⟩

end ReadsTo

/-! ## Productions that read nothing -/

/-- A production that leaves the state as it is, with a result or a failure. -/
class Stays {α : Type} (p : Production α) : Prop where
  stays : ∀ s, stateOf (p s) = s

namespace Stays

variable {α β : Type} {p q : Production α}

instance (priority := low) instLooks [h : Looks p] : Stays p := by
  obtain ⟨f, hf⟩ := h.looks
  exact ⟨fun s => by rw [hf]; rfl⟩

instance : Stays (get : Production State) := ⟨fun _ => rfl⟩

instance (a : α) : Stays (pure a : Production α) := ⟨fun _ => rfl⟩

instance (start : Position) : Stays (spanFrom start) := ⟨fun _ => rfl⟩

instance (problem : Problem) (position : Position) : Stays (fail problem position : Production α) :=
  ⟨fun _ => rfl⟩

instance (problem : Problem) : Stays (failHere problem : Production α) := ⟨fun _ => rfl⟩

instance [hp : Stays p] {f : α → Production β} [hf : ∀ a, Stays (f a)] : Stays (p >>= f) := by
  refine ⟨fun s => stateOf_bind (P := (· = s)) (hp.stays s) fun a t ht => ?_⟩
  have hs := hp.stays s
  rw [ht] at hs
  exact ((hf a).stays t).trans hs

instance {c : Prop} [Decidable c] [hp : Stays p] [hq : Stays q] : Stays (if c then p else q) := by
  split
  · exact hp
  · exact hq

instance (x : Except Failure α) : Stays (liftStack x) := by
  cases x <;> exact ⟨fun _ => rfl⟩

instance (place : Place) : Stays (checkPlace place) := by
  unfold checkPlace
  infer_instance

instance (imported : ModuleName) : Stays (checkImportedName imported) := by
  unfold checkImportedName
  split <;> infer_instance

instance (specifier : ExportSpecifier) : Stays (checkExportedLocal specifier) := by
  unfold checkExportedLocal
  split <;> infer_instance

theorem forM {f : β → Production PUnit} (hf : ∀ b, Stays (f b)) (bs : List β) : Stays (bs.forM f) := by
  induction bs with
  | nil => exact ⟨fun _ => rfl⟩
  | cons b bs ih =>
      have := hf b
      exact inferInstanceAs (Stays (f b >>= fun _ => bs.forM f))

end Stays

/-! ## The class -/

/-- From this state the production reads tokens, and not the end of the text. -/
def HeedsAt (s : State) {α : Type} (p : Production α) : Prop :=
  ∃ tokens, ReadsTo s tokens (stateOf (p s))

theorem HeedsAt.look {s : State} {α β : Type} {p : Production β} {b : β} {f : β → Production α}
    (hp : p s = .ok b s) (h : HeedsAt s (f b)) : HeedsAt s (p >>= f) := by
  unfold HeedsAt
  rw [bind_ok hp]
  exact h

/-- The production does not read the end of the text. With `present`, a token is supposed to be there. -/
class Heeds (text : List Char) (present : Bool) {α : Type} (p : Production α) : Prop where
  run : ∀ {s : State}, s.Standing text → (present = true → s.current.isEnd = false) → HeedsAt s p

/-- None of the nonterminals reads the end of the text; what `new` starts counts on that word. -/
class Reader.Heeds (text : List Char) (read : Reader) : Prop where
  statement : ∀ place, @Grammar.Heeds text false Statement (read (.statement place))
  assignment : @Grammar.Heeds text false Expression (read .assignment)
  unary : @Grammar.Heeds text false Expression (read .unary)
  leftHandSide : @Grammar.Heeds text false Expression (read .leftHandSide)
  construction : @Grammar.Heeds text true Expression (read .construction)
  binding : @Grammar.Heeds text false Expression (read .binding)

namespace Heeds

variable {text : List Char} {present : Bool} {read : Reader} {α β : Type} {p q : Production α}

theorem of_false (h : Heeds text false p) : Heeds text present p :=
  ⟨fun hs _ => h.run hs fun hf => absurd hf Bool.false_ne_true⟩

/-- It does no harm if a token is there. -/
theorem of_present (h : Heeds text present p) : Heeds text true p :=
  ⟨fun hs he => h.run hs fun _ => he rfl⟩

theorem heedsAt {s : State} (h : Heeds text false p) (hs : s.Standing text) : HeedsAt s p :=
  h.run hs fun hf => absurd hf Bool.false_ne_true

/-! ## Combinators -/

instance (priority := low) instStays [h : Stays p] : Heeds text present p :=
  ⟨fun {s} _ _ => ⟨[], (h.stays s).symm ▸ .refl s⟩⟩

/-- One production behind another. -/
theorem bind {f : α → Production β} (hp : Heeds text present p) (hf : ∀ a, Heeds text false (f a)) :
    Heeds text present (p >>= f) := by
  constructor
  intro s hs hpr
  obtain ⟨xs, hx⟩ := hp.run hs hpr
  refine stateOf_bind (P := fun t => ∃ tokens, ReadsTo s tokens t) ⟨xs, hx⟩ fun a t ht => ?_
  rw [ht] at hx
  obtain ⟨ys, hy⟩ := (hf a).heedsAt (hx.reads.forward hs).standing
  exact ⟨xs ++ ys, hx.trans hy⟩

instance instBind {f : α → Production β} [hp : Heeds text present p]
    [hf : ∀ a, Heeds text false (f a)] : Heeds text present (p >>= f) := bind hp hf

/-- Behind a production that reads nothing the token is still there. -/
theorem stays_bind {f : α → Production β} [hp : Stays p] (hf : ∀ a, Heeds text present (f a)) :
    Heeds text present (p >>= f) := by
  constructor
  intro s hs hpr
  have hstay := hp.stays s
  refine stateOf_bind (P := fun t => ∃ tokens, ReadsTo s tokens t) ⟨[], hstay.symm ▸ .refl s⟩
    fun a t ht => ?_
  rw [ht] at hstay
  cases hstay
  exact (hf a).run hs hpr

instance (priority := high) instStaysBind {f : α → Production β} [Stays p]
    [hf : ∀ a, Heeds text present (f a)] : Heeds text present (p >>= f) := stays_bind hf

instance instMap {f : α → β} [h : Heeds text present p] : Heeds text present (f <$> p) := by
  constructor
  intro s hs hpr
  have he : stateOf ((f <$> p) s) = stateOf (p s) := by
    show stateOf (EStateM.map f p s) = _
    unfold EStateM.map
    cases p s <;> rfl
  unfold HeedsAt
  rw [he]
  exact h.run hs hpr

instance instMapConst {b : β} [Heeds text present p] : Heeds text present (Functor.mapConst b p) :=
  instMap (f := Function.const α b)

instance instIte {c : Prop} [Decidable c] [hp : Heeds text present p] [hq : Heeds text present q] :
    Heeds text present (if c then p else q) := by
  split
  · exact hp
  · exact hq

instance instWithin (change : Context → Context) [h : Heeds text present p] :
    Heeds text present (within change p) := by
  constructor
  intro s hs hpr
  obtain ⟨xs, hx⟩ := h.run (hs.idle (s.idle_context (change s.context))) hpr
  have hin : ReadsTo s ([] ++ xs) (stateOf (p { s with context := change s.context })) :=
    (ReadsTo.of_idle (s.idle_context (change s.context))).trans hx
  refine ⟨[] ++ xs ++ [], hin.trans (.of_idle ?_)⟩
  unfold within
  cases p { s with context := change s.context } <;> exact State.idle_context _ _

instance [Heeds text present p] : Heeds text present (allowingIn p) := by
  unfold allowingIn
  infer_instance

instance (isAsync isGenerator : Bool) [Heeds text present p] :
    Heeds text present (insideFunction isAsync isGenerator p) := by
  unfold insideFunction
  infer_instance

theorem reporting {handler : Production α} (hp : Heeds text present p)
    (hh : Heeds text false handler) : Heeds text present (reporting p handler) := by
  constructor
  intro s hs hpr
  obtain ⟨xs, hx⟩ := hp.run hs hpr
  unfold HeedsAt Grammar.reporting
  cases h : p s with
  | ok a t =>
      rw [h] at hx
      exact ⟨xs, hx⟩
  | error e t =>
      rw [h] at hx
      dsimp only
      split
      · have hn := hx.trans (.of_idle (t.idle_journal (t.journal.failure e)))
        obtain ⟨ys, hy⟩ := hh.heedsAt (hn.reads.forward hs).standing
        exact ⟨_, hn.trans hy⟩
      · exact ⟨xs, hx⟩

/-! ## Reading a token -/

instance : Heeds text true advance := ⟨fun _ he => ⟨_, .advanced (he rfl)⟩⟩

instance : Heeds text true skip := by
  unfold skip discard
  infer_instance

instance (r : Rereading) : Heeds text true (reread r) :=
  ⟨fun {s} hs he => ⟨_, (ReadsTo.readAgain s r).trans (.advanced ((hs.isEnd_readAgain r).trans (he rfl)))⟩⟩

/-- Where the test succeeds, a token is there. -/
theorem test_bind {test : Production Bool} {f : Bool → Production α} [ht : Tests test]
    (hp : Heeds text true (f true)) (hq : Heeds text present (f false)) :
    Heeds text present (test >>= f) := by
  obtain ⟨g, hg, hend⟩ := ht.tests
  constructor
  intro s hs hpr
  refine .look (hg s) ?_
  cases hgs : g s with
  | true => exact hp.run hs fun _ => hend s hgs
  | false => exact hq.run hs hpr

instance (priority := 10001) instTest {test : Production Bool} [Tests test]
    [hp : Heeds text true p] [hq : Heeds text present q] :
    Heeds text present (test >>= fun b => if b = true then p else q) := test_bind hp hq

/-- A test with a further condition behind it. -/
instance (priority := 10001) instTestAnd {test : Production Bool} {look : Production β} {g : β → Bool}
    [Tests test] [Stays look] [hp : Heeds text true p] [hq : Heeds text present q] :
    Heeds text present
      (test >>= fun b => look >>= fun c => if (b && g c) = true then p else q) := by
  refine test_bind (stays_bind fun c => ?_) (stays_bind fun c => ?_)
  · have := hq.of_present
    exact instIte
  · rw [Bool.false_and, if_neg Bool.false_ne_true]
    exact hq

/-- A condition with a test behind it. -/
instance (priority := 10001) instAndTest {test : Production Bool} {c : Bool} [Tests test]
    [hp : Heeds text true p] [hq : Heeds text present q] :
    Heeds text present (test >>= fun b => if (c && b) = true then p else q) := by
  refine test_bind ?_ ?_
  · have := hq.of_present
    exact instIte
  · rw [Bool.and_false, if_neg Bool.false_ne_true]
    exact hq

instance instEats {eat : Production Bool} [h : Eats eat] : Heeds text present eat := by
  obtain ⟨f, hf, hend⟩ := h.eats
  constructor
  intro s hs _
  unfold HeedsAt
  rw [hf]
  split
  next hs' => exact ⟨_, .advanced (hend s hs')⟩
  next => exact ⟨[], .refl s⟩

/-- The token under the cursor is looked at: at the end of the text, and where one is there. -/
theorem current_bind {f : Token → Production α}
    (hend : ∀ token : Token, token.isEnd = true → Heeds text present (f token))
    (h : ∀ token : Token, token.isEnd = false → Heeds text true (f token)) :
    Heeds text present (current >>= f) := by
  constructor
  intro s hs hpr
  refine .look (show current s = .ok s.current s from rfl) ?_
  cases he : s.current.isEnd with
  | true => exact (hend s.current he).run hs hpr
  | false => exact (h s.current he).run hs fun _ => he

/-! ## Tokens -/

section Tokens

variable (mark : Punctuator) (word : Keyword) (name : String)

instance : Heeds text present (expectMark mark) := by
  unfold expectMark
  infer_instance

instance : Heeds text present (expectWord word) := by
  unfold expectWord
  infer_instance

instance : Heeds text present (expectName name) := by
  unfold expectName
  infer_instance

instance : Heeds text present endStatement := by
  unfold endStatement
  infer_instance

instance (token : Token) : Heeds text present (failName token : Production α) := by
  unfold failName
  split <;> infer_instance

instance : Heeds text present bindingIdentifier := by
  unfold bindingIdentifier
  refine current_bind (fun token he => ?_) fun token _ => ?_
  · rw [Opens.kind_of_isEnd he]
    infer_instance
  · split <;> infer_instance

instance : Heeds text present identifierName := by
  unfold identifierName
  refine current_bind (fun token he => ?_) fun token _ => ?_
  · unfold Token.propertyName?
    rw [Opens.kind_of_isEnd he]
    infer_instance
  · split <;> infer_instance

end Tokens

theorem isMark_of_isEnd {token : Token} (h : token.isEnd = true) (mark : Punctuator) :
    token.isMark mark = false := by
  unfold Token.isMark
  rw [Opens.kind_of_isEnd h]

/-! ## Loops and blocks -/

theorem synchronizeFrom (topLevel : Bool) (start limit : Nat) :
    Heeds text false (Grammar.synchronizeFrom topLevel start limit) := by
  induction limit with
  | zero => exact inferInstanceAs (Heeds text false (pure ()))
  | succ limit ih =>
      unfold Grammar.synchronizeFrom
      refine current_bind (fun token he => ?_) fun token he => ?_
      · rw [if_pos he]
        infer_instance
      · infer_instance

instance (topLevel : Bool) : Heeds text present (synchronize topLevel) :=
  stays_bind fun _ => (synchronizeFrom _ _ _).of_false

theorem collectFrom {step : Production (Option α)} [Heeds text false step] (limit : Nat)
    (items : List α) : Heeds text false (Grammar.collectFrom step limit items) := by
  induction limit generalizing items with
  | zero => exact inferInstanceAs (Heeds text false (pure items.reverse))
  | succ limit ih =>
      refine bind inferInstance fun found => ?_
      split
      · exact ih _
      · infer_instance

instance {step : Production (Option α)} [Heeds text false step] : Heeds text present (collect step) :=
  stays_bind fun _ => (collectFrom _ _).of_false

variable [reads : Reader.Heeds text read]

instance (place : Place) : @Heeds text present Statement (read (.statement place)) :=
  (reads.statement place).of_false

instance : @Heeds text present Expression (read .assignment) := reads.assignment.of_false

instance : @Heeds text present Expression (read .unary) := reads.unary.of_false

instance : @Heeds text present Expression (read .leftHandSide) := reads.leftHandSide.of_false

instance : @Heeds text true Expression (read .construction) := reads.construction

instance : @Heeds text present Expression (read .binding) := reads.binding.of_false

instance : Heeds text present (commaAssignment read) := by
  unfold commaAssignment
  infer_instance

instance : Heeds text present (expression read) := by
  unfold expression
  infer_instance

instance : Heeds text present (condition read) := by
  unfold condition
  infer_instance

instance (start : Position) : Heeds text present (Composed.placeholder start) := by
  unfold Composed.placeholder
  infer_instance

instance : Heeds text present (listStatement read) := by
  rw [Composed.listStatement_eq]
  refine stays_bind fun token => ?_
  split
  · infer_instance
  · exact reporting inferInstance inferInstance

instance : Heeds text present (statementList read) := by
  unfold statementList
  infer_instance

instance : Heeds text present (block read) := by
  unfold block
  infer_instance

/-! ## Literals -/

instance (token : Token) : Stays (Alike.textOf token) := by
  unfold Alike.textOf
  split <;> infer_instance

instance : Heeds text true templateText :=
  inferInstanceAs (Heeds text true (advance >>= Alike.textOf))

instance (value : Expression) : Heeds text present (Alike.textBehind value) := by
  unfold Alike.textBehind
  infer_instance

instance : Heeds text present (substitution read) := by
  rw [Alike.substitution_eq]
  infer_instance

theorem templateRest (limit : Nat) (texts : List TemplateText) (values : List Expression) :
    Heeds text false (Grammar.templateRest read limit texts values) := by
  induction limit generalizing texts values with
  | zero => exact inferInstanceAs (Heeds text false (pure (texts.reverse, values.reverse)))
  | succ limit ih =>
      unfold Grammar.templateRest
      infer_instance

instance : Heeds text true (template read) := by
  have := @templateRest text read _
  unfold template
  infer_instance

instance : Heeds text present (spreadable read) := by
  unfold spreadable
  infer_instance

theorem separatedItems {item : Production Expression} [Heeds text false item] (limit : Nat)
    (list : ItemList) : Heeds text false (Grammar.separatedItems item limit list) := by
  induction limit generalizing list with
  | zero => exact inferInstanceAs (Heeds text false (pure list))
  | succ limit ih =>
      unfold Grammar.separatedItems
      infer_instance

instance : Heeds text present (parenthesizedItems read) := by
  have := @separatedItems text (spreadable read) _
  unfold parenthesizedItems
  infer_instance

theorem trailingComma (comma : Position) (problem : Problem) :
    Heeds text present (noteTrailingComma comma problem) := by
  constructor
  intro s _ _
  refine ⟨[], .of_idle ?_⟩
  unfold noteTrailingComma
  refine stateOf_bind (P := s.Idle) (s.idle_journal _) fun _ t ht => ?_
  cases ht
  show s.Idle (stateOf ((if _ then _ else _ : Production Unit) _))
  split <;> exact s.idle_journal _

instance (comma : Position) (problem : Problem) : Heeds text present (noteTrailingComma comma problem) :=
  trailingComma comma problem

instance (start : Position) (list : ItemList) : Heeds text present (Alike.closeArguments start list) := by
  unfold Alike.closeArguments
  split <;> infer_instance

instance : Heeds text present (arguments read) := by
  have := @separatedItems text (spreadable read) _
  rw [Alike.arguments_eq]
  infer_instance

instance : Heeds text present (arrayEntry read) := by
  unfold arrayEntry
  refine current_bind (fun token he => ?_) fun token _ => ?_
  · rw [isMark_of_isEnd he, isMark_of_isEnd he, if_neg Bool.false_ne_true, if_neg Bool.false_ne_true]
    infer_instance
  · infer_instance

instance : Heeds text true (arrayLiteral read) := by
  unfold arrayLiteral
  infer_instance

instance : Heeds text present (propertyKey read) := by
  unfold propertyKey
  refine current_bind (fun token he => ?_) fun token _ => ?_
  · rw [Opens.kind_of_isEnd he]
    infer_instance
  · split <;> infer_instance

instance : Heeds text present accessorKind := by
  unfold accessorKind
  refine test_bind (stays_bind fun _ => inferInstance) (test_bind inferInstance ?_)
  exact inferInstanceAs (Heeds text present (pure FunctionKind.method))

instance : Heeds text present methodModifiers := by
  unfold methodModifiers
  infer_instance

/-! ## Functions, objects and classes -/

instance (start : Position) : Heeds text present (restParameter read start) := by
  unfold restParameter
  infer_instance

instance (start : Position) : Heeds text present (plainParameter read start) := by
  unfold plainParameter
  infer_instance

theorem parameterItems (limit : Nat) (list : ItemList) :
    Heeds text false (Grammar.parameterItems read limit list) := by
  induction limit generalizing list with
  | zero => exact inferInstanceAs (Heeds text false (pure list))
  | succ limit ih =>
      unfold Grammar.parameterItems
      infer_instance

instance (isAsync isGenerator : Bool) : Heeds text present (parameters read isAsync isGenerator) := by
  have := @parameterItems text read _
  unfold parameters
  infer_instance

instance (isAsync isGenerator : Bool) : Heeds text present (functionBody read isAsync isGenerator) := by
  unfold functionBody
  infer_instance

instance (name : Option Identifier) (kind : FunctionKind) (isAsync isGenerator : Bool)
    (start : Position) :
    Heeds text present (functionRest read name kind isAsync isGenerator start) := by
  unfold functionRest
  infer_instance

instance (isAsync : Bool) (start : Position) (anonymousAllowed : Bool) :
    Heeds text present (functionDeclaration read isAsync start anonymousAllowed) := by
  unfold functionDeclaration
  infer_instance

instance (isAsync : Bool) (start : Position) :
    Heeds text present (functionExpression read isAsync start) := by
  unfold functionExpression
  infer_instance

instance (modifiers : MethodModifiers) : Heeds text present (method read modifiers) := by
  unfold method
  infer_instance

instance (params : Parameters) (isAsync : Bool) (start : Position) :
    Heeds text present (arrowBody read params isAsync start) := by
  unfold arrowBody
  infer_instance

instance : Heeds text present (objectProperty read) := by
  unfold objectProperty
  refine stays_bind fun start => bind inferInstance fun hasEllipsis => ?_
  split
  · infer_instance
  · refine bind inferInstance fun modifiers => bind inferInstance fun key => ?_
    dsimp only
    cases key <;> infer_instance

instance : Heeds text present (objectEntry read) := by
  unfold objectEntry
  infer_instance

instance : Heeds text true (objectLiteral read) := by
  unfold objectLiteral
  infer_instance

instance : Heeds text present (bindingTarget read) := by
  unfold bindingTarget
  infer_instance

instance (isStatic : Bool) (start : Position) :
    Heeds text present (classElement read isStatic start) := by
  unfold classElement
  infer_instance

instance : Heeds text present (classMember read) := by
  unfold classMember
  infer_instance

instance : Heeds text present (classEntry read) := by
  unfold classEntry
  infer_instance

instance (anonymousAllowed : Bool) : Heeds text present (className anonymousAllowed) := by
  unfold className
  refine stays_bind fun token => ?_
  split <;> infer_instance

instance (anonymousAllowed : Bool) : Heeds text present (classDefinition read anonymousAllowed) := by
  unfold classDefinition
  infer_instance

/-! ## Primary expressions -/

instance (params : Parameters) (isAsync : Bool) (start : Position) :
    Heeds text present (arrowOnLine read params isAsync start) := by
  unfold arrowOnLine
  infer_instance

instance (name : String) (token : Token) : Heeds text true (reference read name token) := by
  unfold reference
  infer_instance

instance (start : Position) : Heeds text true (asyncArrow read start) := by
  unfold asyncArrow
  infer_instance

instance (asyncSpan : Span) : Heeds text true (asyncCallOrArrow read asyncSpan) := by
  unfold asyncCallOrArrow
  infer_instance

instance (name : String) : Heeds text true (identifierExpression read name) := by
  unfold identifierExpression
  refine stays_bind fun token => ?_
  split
  · refine stays_bind fun next => ?_
    split
    · infer_instance
    · split
      · infer_instance
      · split <;> infer_instance
  · infer_instance

instance : Heeds text present (parenthesizedOrArrow read) := by
  unfold parenthesizedOrArrow
  refine stays_bind fun start => bind inferInstance fun (items, comma?, span) => ?_
  refine bind inferInstance fun isArrow => ?_
  split
  · dsimp only
    cases comma? <;> infer_instance
  · split <;> infer_instance

instance (start : Position) : Heeds text true (importExpression read start) := by
  unfold importExpression
  infer_instance

instance : Heeds text true superReference := by
  unfold superReference
  infer_instance

instance (word : Keyword) (token : Token) : Heeds text true (keywordExpression read word token) := by
  unfold keywordExpression
  split <;> infer_instance

instance : Heeds text true Alike.slashExpression := by
  unfold Alike.slashExpression
  refine stays_bind fun start => bind inferInstance fun token => ?_
  split <;> infer_instance

/-- A slash is read again as the start of a regular expression. -/
theorem regExpLiteral_at {s : State} (h : Rereading.regExp.applies s.current = true)
    (hs : s.Standing text) : HeedsAt s regExpLiteral := by
  unfold HeedsAt
  rw [Alike.regExpLiteral_eq h]
  exact (inferInstance : Heeds text true Alike.slashExpression).run hs fun _ =>
    State.Standing.isEnd_of_applies h

instance (name : String) (token : Token) : Heeds text true (privateOperand name token) := by
  unfold privateOperand
  infer_instance

instance : Heeds text present (primary read) := by
  constructor
  intro s hs _
  have run {p : Production Expression} (h : Heeds text true p) (he : s.current.isEnd = false) :
      HeedsAt s p := h.run hs fun _ => he
  unfold primary
  refine .look (show current s = .ok s.current s from rfl) ?_
  split
  case h_6 h => exact regExpLiteral_at (by simp [Rereading.applies, Token.isMark, h]) hs
  case h_7 h => exact regExpLiteral_at (by simp [Rereading.applies, Token.isMark, h]) hs
  case h_13 => exact (inferInstance : Heeds text false _).heedsAt hs
  all_goals exact run inferInstance (by simp [Token.isEnd, *])

/-! ## Operators -/

instance : Heeds text present memberName := by
  unfold memberName
  refine current_bind (fun token he => ?_) fun token _ => ?_
  · rw [Opens.kind_of_isEnd he]
    infer_instance
  · split <;> infer_instance

instance (receiver : Expression) (optional : Bool) :
    Heeds text present (namedAccess receiver optional) := by
  unfold namedAccess
  infer_instance

instance (receiver : Expression) (optional : Bool) :
    Heeds text true (computedAccess read receiver optional) := by
  unfold computedAccess
  infer_instance

instance (callee : Expression) (optional : Bool) : Heeds text present (callOf read callee optional) := by
  unfold callOf
  infer_instance

instance (receiver : Expression) : Heeds text present (optionalSuffix read receiver) := by
  unfold optionalSuffix
  refine current_bind (fun token he => ?_) fun token _ => ?_
  · rw [Opens.kind_of_isEnd he]
    infer_instance
  · split <;> infer_instance

instance (callsAllowed : Bool) (receiver : Expression) :
    Heeds text present (suffix? read callsAllowed receiver) := by
  unfold suffix?
  refine current_bind (fun token he => ?_) fun token _ => ?_
  · rw [Opens.kind_of_isEnd he]
    infer_instance
  · split <;> infer_instance

theorem suffixesFrom (callsAllowed : Bool) (limit : Nat) (receiver : Expression) :
    Heeds text false (Grammar.suffixesFrom read callsAllowed limit receiver) := by
  induction limit generalizing receiver with
  | zero => exact inferInstanceAs (Heeds text false (pure receiver))
  | succ limit ih =>
      refine bind inferInstance fun next => ?_
      split
      · exact ih _
      · infer_instance

instance (callsAllowed : Bool) (receiver : Expression) :
    Heeds text present (suffixes read callsAllowed receiver) :=
  stays_bind fun _ => (suffixesFrom _ _ _).of_false

instance : Heeds text true (construction read) := by
  unfold construction
  infer_instance

instance : Heeds text present (leftHandSide read) := by
  unfold leftHandSide
  infer_instance

instance : Heeds text present (updatable read) := by
  unfold updatable
  refine stays_bind fun start => bind inferInstance fun operand => ?_
  refine current_bind (fun token he => ?_) fun token _ => ?_
  · unfold updateOperator?
    rw [Opens.kind_of_isEnd he]
    infer_instance
  · split <;> infer_instance

instance : Heeds text present (unary read) := by
  unfold unary
  refine current_bind (fun token he => ?_) fun token _ => ?_
  · unfold unaryOperator? updateOperator?
    rw [Opens.kind_of_isEnd he]
    infer_instance
  · split
    · infer_instance
    · split <;> infer_instance

theorem binaryFrom (limit : Nat) (stack : OperatorStack) :
    Heeds text false (Grammar.binaryFrom read limit stack) := by
  induction limit generalizing stack with
  | zero => exact inferInstanceAs (Heeds text false (liftStack stack.finish))
  | succ limit ih =>
      unfold Grammar.binaryFrom
      refine current_bind (fun token he => ?_) fun token _ => ?_
      · unfold binaryOperator?
        rw [Opens.kind_of_isEnd he]
        infer_instance
      · refine stays_bind fun context => ?_
        split <;> infer_instance

instance : Heeds text present (binary read) := by
  have := @binaryFrom text read _
  unfold binary
  infer_instance

instance : Heeds text present (conditional read) := by
  unfold conditional
  infer_instance

instance : Heeds text present (yieldOperand read) := by
  unfold yieldOperand
  infer_instance

instance : Heeds text true (yieldExpression read) := by
  unfold yieldExpression
  infer_instance

instance : Heeds text present (assignment read) := by
  unfold assignment
  refine stays_bind fun context => ?_
  have operated (start : Position) : Heeds text present (do
      let left ← conditional read
      if left.isArrow then return left
      else match assignmentOperator? (← current) with
        | none => return left
        | some operator =>
          skip
          let right ← read .assignment
          return .assignment operator left right (← spanFrom start)) := by
    refine bind inferInstance fun left => ?_
    split
    · infer_instance
    · refine current_bind (fun token he => ?_) fun token _ => ?_
      · unfold assignmentOperator?
        rw [Opens.kind_of_isEnd he]
        infer_instance
      · split <;> infer_instance
  infer_instance

/-! ## Imports and exports -/

instance : Heeds text present moduleSpecifier := by
  unfold moduleSpecifier
  refine current_bind (fun token he => ?_) fun token _ => ?_
  · rw [Opens.kind_of_isEnd he]
    infer_instance
  · split <;> infer_instance

instance : Heeds text present moduleName := by
  unfold moduleName
  refine current_bind (fun token he => ?_) fun token _ => ?_
  · rw [Opens.kind_of_isEnd he]
    infer_instance
  · split <;> infer_instance

instance : Heeds text present importDefault := by
  unfold importDefault
  refine stays_bind fun token => ?_
  split <;> infer_instance

instance : Heeds text present importSpecifier := by
  unfold importSpecifier
  infer_instance

theorem specifiersFrom {specifier : Production α} [Heeds text false specifier] (limit : Nat)
    (items : List α) : Heeds text false (Grammar.specifiersFrom specifier limit items) := by
  induction limit generalizing items with
  | zero => exact inferInstanceAs (Heeds text false (pure items.reverse))
  | succ limit ih =>
      unfold Grammar.specifiersFrom
      infer_instance

instance {specifier : Production α} [Heeds text false specifier] :
    Heeds text true (specifiers specifier) := by
  have := @specifiersFrom text _ specifier _
  unfold specifiers
  infer_instance

instance : Heeds text present importBindings := by
  unfold importBindings
  refine current_bind (fun token he => ?_) fun token _ => ?_
  · rw [isMark_of_isEnd he, isMark_of_isEnd he, if_neg Bool.false_ne_true, if_neg Bool.false_ne_true]
    infer_instance
  · infer_instance

instance : Heeds text present importClause := by
  unfold importClause
  infer_instance

instance : Heeds text true importDeclaration := by
  unfold importDeclaration
  infer_instance

instance : Heeds text present exportSpecifier := by
  unfold exportSpecifier
  infer_instance

instance (items : List ExportSpecifier) : Stays (items.forM checkExportedLocal) :=
  Stays.forM (fun _ => inferInstance) items

instance : Heeds text present (exportedDefault read) := by
  unfold exportedDefault
  infer_instance

instance (start : Position) : Heeds text true (exportAll start) := by
  unfold exportAll
  infer_instance

instance (start : Position) : Heeds text true (exportNamed start) := by
  unfold exportNamed
  infer_instance

instance : Heeds text true (exportDeclaration read) := by
  unfold exportDeclaration
  infer_instance

/-! ## Statements -/

instance : Heeds text present (declarator read) := by
  unfold declarator
  infer_instance

instance : Heeds text present (commaDeclarator read) := by
  unfold commaDeclarator
  infer_instance

instance (kind : VariableKind) : Heeds text true (declaration read kind) := by
  unfold declaration
  infer_instance

instance (kind : VariableKind) : Heeds text true (declarationStatement read kind) := by
  unfold declarationStatement
  infer_instance

instance : Heeds text present (loopHead read) := by
  unfold loopHead
  infer_instance

instance (head : Option LoopHead) (start : Position) :
    Heeds text present (countingLoop read head start) := by
  unfold countingLoop
  infer_instance

instance (head : LoopHead) (start : Position) : Heeds text true (keyLoop read head start) := by
  unfold keyLoop
  infer_instance

instance (head : LoopHead) (isAwait : Bool) (start : Position) :
    Heeds text true (valueLoop read head isAwait start) := by
  unfold valueLoop
  infer_instance

instance : Heeds text true (forStatement read) := by
  unfold forStatement
  refine stays_bind fun start => bind inferInstance fun _ => ?_
  refine bind inferInstance fun isAwait => bind inferInstance fun _ => ?_
  refine bind inferInstance fun head => ?_
  split <;> infer_instance

instance : Heeds text true (whileStatement read) := by
  unfold whileStatement
  infer_instance

instance : Heeds text true (doStatement read) := by
  unfold doStatement
  infer_instance

instance : Heeds text true (ifStatement read) := by
  unfold ifStatement
  infer_instance

instance : Heeds text present (caseTest read) := by
  unfold caseTest
  infer_instance

instance : Heeds text present (switchCase read) := by
  unfold switchCase
  infer_instance

instance : Heeds text true (switchStatement read) := by
  unfold switchStatement
  infer_instance

instance : Heeds text true (catchClause read) := by
  unfold catchClause
  infer_instance

instance : Heeds text true (tryStatement read) := by
  unfold tryStatement
  infer_instance

instance : Heeds text present jumpLabel := by
  unfold jumpLabel
  refine stays_bind fun token => ?_
  split
  · infer_instance
  · split <;> infer_instance

instance (make : Option Identifier → Span → Statement) : Heeds text true (jump make) := by
  unfold jump
  infer_instance

instance : Heeds text true (returnStatement read) := by
  unfold returnStatement
  infer_instance

instance : Heeds text true (throwStatement read) := by
  unfold throwStatement
  infer_instance

instance : Heeds text true (withStatement read) := by
  unfold withStatement
  infer_instance

instance : Heeds text true debuggerStatement := by
  unfold debuggerStatement
  infer_instance

instance : Heeds text true emptyStatement := by
  unfold emptyStatement
  infer_instance

instance : Heeds text present (expressionStatement read) := by
  unfold expressionStatement
  infer_instance

instance : Heeds text present (labeledStatement read) := by
  unfold labeledStatement
  infer_instance

instance (place : Place) (name : String) : Heeds text true (identifierStatement read place name) := by
  unfold identifierStatement
  infer_instance

instance (place : Place) (word : Keyword) : Heeds text true (keywordStatement read place word) := by
  unfold keywordStatement
  split <;> infer_instance

instance (place : Place) : Heeds text present (statement read place) := by
  unfold statement
  refine current_bind (fun token he => ?_) fun token _ => ?_
  · rw [Opens.kind_of_isEnd he]
    infer_instance
  · split <;> infer_instance

end Heeds

/-! ## The whole grammar -/

section Whole

variable {text : List Char}

/-- **No nonterminal reads the end of the text**, whatever the depth. -/
instance heeds_read (depth : Nat) : Reader.Heeds text (read depth) := by
  induction depth with
  | zero =>
      have (n : Nonterminal) (present : Bool) : Heeds text present (read 0 n) :=
        inferInstanceAs (Heeds text present (failHere .primaryExpressionExpected))
      exact ⟨fun _ => this _ _, this _ _, this _ _, this _ _, this _ _, this _ _⟩
  | succ depth ih =>
      exact ⟨fun place => inferInstanceAs (Heeds text false (statement (read depth) place)),
        inferInstanceAs (Heeds text false (assignment (read depth))),
        inferInstanceAs (Heeds text false (unary (read depth))),
        inferInstanceAs (Heeds text false (leftHandSide (read depth))),
        inferInstanceAs (Heeds text true (construction (read depth))),
        inferInstanceAs (Heeds text false (bindingTarget (read depth)))⟩

instance (start : Position) : Heeds text false (scriptPlaceholder start) := by
  unfold scriptPlaceholder
  infer_instance

/-- **A statement of the script does not read the end of the text**, nor does what passes over one. -/
theorem heedsAt_scriptStatement (depth : Nat) {s : State} (hs : s.Standing text) :
    HeedsAt s (scriptStatement (read depth)) := by
  obtain ⟨xs, hx⟩ := ((heeds_read depth).statement .topLevel).heedsAt hs
  unfold HeedsAt
  rw [scriptStatement_eq]
  cases hr : read depth (.statement .topLevel) s with
  | ok statement t =>
      rw [hr] at hx
      exact ⟨xs ++ [], hx.trans (.of_idle t.idle_flushed)⟩
  | error e t =>
      rw [hr] at hx
      dsimp only
      rw [recover_eq]
      have hidle := (ReadsTo.of_idle t.idle_flushed).trans
        (.of_idle (t.flushed.idle_journal (t.flushed.journal.failure e)))
      have hgo : Heeds text false (if t.options.keepGoing then scriptPlaceholder s.current.start
        else return none) := inferInstance
      have hback := hx.trans hidle
      obtain ⟨ys, hy⟩ := hgo.heedsAt (hback.reads.forward hs).standing
      exact ⟨_, hback.trans hy⟩

end Whole

end Grammar

end EcmaScript
