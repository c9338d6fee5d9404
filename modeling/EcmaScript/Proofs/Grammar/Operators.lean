import EcmaScript.Proofs.Grammar.Composed
import EcmaScript.Proofs.Grammar.Context
import EcmaScript.Proofs.Grammar.Loops
import EcmaScript.Proofs.Grammar.Precedence

/-!
# Expressions of binary operators

What follows the cursor are operands with operators between them (`OperatorsFollow`). The loop over them does
with its stack what the stack does by itself, and its limit is never what ends it; so the production gives the
tree of the sequence, or fails if that tree is not allowed.

## Contents

* `unary_not_binary`: an operand is no operator with its operands.
* `OperatorsFollow`: the operands and operators behind the cursor.
* `binaryFrom_follow`: the loop and the stack.
* `binary_tree`: the production.
-/

namespace EcmaScript

namespace Grammar

/-! ## Operands -/

section Operands

variable {read : Reader}

/-- The expression is not a binary operator with its operands. -/
def NotBinary (e : Expression) : Prop := ∀ op l r span, e ≠ .binary op l r span

/-- Whether the expression is a binary operator with its operands. -/
def isBinary : Expression → Bool
  | .binary .. => true
  | _ => false

theorem NotBinary.of {e : Expression} (h : isBinary e = false) : NotBinary e := by
  rintro op l r span rfl
  cases h

theorem notBinary_arrowOnLine (params : Parameters) (isAsync : Bool) (start : Position) :
    Always NotBinary (arrowOnLine read params isAsync start) :=
  .skim fun _ => .ite (fun _ => .stopped (failHere_eq _)) fun _ =>
    .skim fun _ => .skim fun _ => .skim fun _ => .pure (.of rfl)

theorem notBinary_reference (name : String) (token : Token) :
    Always NotBinary (reference read name token) := by
  refine .skim fun _ => .skim fun _ => .ite (fun _ => .stopped (fail_eq _ _)) fun _ => .skim fun _ => ?_
  exact .skim fun _ => .ite (fun _ => notBinary_arrowOnLine ..) fun _ => .pure (.of rfl)

theorem notBinary_identifierExpression (name : String) :
    Always NotBinary (identifierExpression read name) := by
  refine .skim fun token => .ite (fun _ => .skim fun next => ?_) fun _ => notBinary_reference ..
  refine .ite (fun _ => notBinary_reference ..) fun _ => .ite (fun _ => .skim fun _ => .made fun _ => .of rfl) fun _ => ?_
  split
  · refine .skim fun _ => .skim fun _ => .skim fun _ => .ite (fun _ => ?_) fun _ => .stopped (failHere_eq _)
    exact .skim fun _ => .skim fun _ => .skim fun _ => .pure (.of rfl)
  · refine .skim fun _ => .skim fun _ => .skim fun _ => ?_
    exact .ite (fun _ => notBinary_arrowOnLine ..) fun _ => .skim fun _ => .pure (.of rfl)
  · exact notBinary_reference ..

theorem notBinary_parenthesizedOrArrow : Always NotBinary (parenthesizedOrArrow read) := by
  refine .skim fun start => .skim fun parts => ?_
  obtain ⟨items, comma?, span⟩ := parts
  refine .skim fun _ => .ite (fun _ => ?_) fun _ => ?_
  · refine .skim fun _ => .ite (fun _ => .stopped (failHere_eq _)) fun _ => ?_
    cases comma? with
    | some comma => exact .skim fun _ => .skim fun _ => .skim fun _ => .skim fun _ => .pure (.of rfl)
    | none => exact .skim fun _ => .skim fun _ => .skim fun _ => .pure (.of rfl)
  · split
    · exact .pure (.of rfl)
    · exact .fail _ _

theorem notBinary_keywordExpression (word : Keyword) (token : Token) :
    Always NotBinary (keywordExpression read word token) := by
  unfold keywordExpression
  split
  case h_5 => exact .made fun _ => .of rfl
  case h_6 => exact .made fun _ => .of rfl
  case h_7 => exact .skim fun _ => .skim fun _ => .ite (fun _ => .pure (.of rfl)) fun _ => .failHere _
  case h_8 =>
    refine .skim fun _ => .skim fun _ => .ite (fun _ => .skim fun _ => .skim fun _ => .pure (.of rfl)) fun _ => ?_
    exact .skim fun _ => .skim fun _ => .skim fun _ => .skim fun _ => .pure (.of rfl)
  case h_9 => exact .fail _ _
  all_goals exact .skim fun _ => .pure (.of rfl)

theorem notBinary_regExpLiteral : Always NotBinary regExpLiteral := by
  refine .skim fun _ => .skim fun _ => .skim fun token => ?_
  split
  · exact .pure (.of rfl)
  · exact .fail _ _

theorem notBinary_primary : Always NotBinary (primary read) := by
  refine .skim fun token => ?_
  split
  case h_1 => exact notBinary_identifierExpression _
  case h_5 => exact .skim fun _ => .pure (.of rfl)
  case h_6 | h_7 => exact notBinary_regExpLiteral
  case h_8 => exact notBinary_parenthesizedOrArrow
  case h_11 => exact notBinary_keywordExpression ..
  case h_13 => exact .fail _ _
  case h_12 =>
    refine .skim fun _ => .skim fun _ => .ite (fun _ => .stopped (fail_eq _ _)) fun _ => ?_
    exact .skim fun _ => .pure (.of rfl)
  case h_9 | h_10 =>
    exact .skim fun _ => .skim fun _ => .skim fun _ => .skim fun _ => .skim fun _ => .pure (.of rfl)
  all_goals exact .skim fun _ => .pure (.of rfl)

theorem notBinary_suffix? (callsAllowed : Bool) (receiver : Expression) :
    Always (∀ e ∈ ·, NotBinary e) (suffix? read callsAllowed receiver) := by
  have hnamed (optional : Bool) : Always NotBinary (namedAccess receiver optional) :=
    .skim fun _ => .pure (.of rfl)
  have hcomputed (optional : Bool) : Always NotBinary (computedAccess read receiver optional) :=
    .skim fun _ => .skim fun _ => .skim fun _ => .skim fun _ => .pure (.of rfl)
  have hcall (optional : Bool) : Always NotBinary (callOf read receiver optional) :=
    .skim fun _ => .skim fun _ => .pure (.of rfl)
  have hsome {e : Expression} (h : NotBinary e) : ∀ e' ∈ some e, NotBinary e' := by
    intro e' he'
    cases he'
    exact h
  have hnone : Always (∀ e ∈ ·, NotBinary e) (pure none : Production (Option Expression)) :=
    .pure fun _ he => (Option.not_mem_none _ he).elim
  refine .skim fun _ => ?_
  split
  · exact .skim fun _ => .map (hnamed _) fun _ => hsome
  · refine .ite (fun _ => .stopped (failHere_eq _)) fun _ => .ite (fun _ => .stopped (failHere_eq _)) fun _ => ?_
    refine .skim fun _ => .map (Q := NotBinary) (.skim fun _ => ?_) fun _ => hsome
    split
    · exact hcall _
    · exact hcomputed _
    · exact .failHere _
    · exact .failHere _
    · exact hnamed _
  · exact .map (hcomputed _) fun _ => hsome
  · exact .ite (fun _ => .map (hcall _) fun _ => hsome) fun _ => hnone
  · refine .ite (fun _ => .stopped (failHere_eq _)) fun _ => .skim fun _ => .skim fun _ => .pure ?_
    exact hsome (.of rfl)
  · exact hnone

theorem notBinary_suffixesFrom (callsAllowed : Bool) (limit : Nat) {receiver : Expression}
    (h : NotBinary receiver) : Always NotBinary (suffixesFrom read callsAllowed limit receiver) := by
  induction limit generalizing receiver with
  | zero => exact .pure h
  | succ limit ih =>
      refine .bind (notBinary_suffix? callsAllowed receiver) fun found hfound => ?_
      cases found with
      | some next => exact ih (hfound next rfl)
      | none => exact .pure h

theorem notBinary_construction : Always NotBinary (construction read) := by
  refine .skim fun _ => .skim fun _ => .skim fun _ => .ite (fun _ => ?_) fun _ => .skim fun _ => ?_
  · exact .skim fun _ => .skim fun _ => .pure (.of rfl)
  · refine .ite (fun _ => .skim fun _ => .skim fun _ => .skim fun _ => ?_)
      fun _ => .skim fun _ => .skim fun _ => .skim fun _ => ?_
    all_goals exact .ite (fun _ => .skim fun _ => .skim fun _ => .pure (.of rfl)) fun _ => .skim fun _ => .pure (.of rfl)

theorem notBinary_leftHandSide : Always NotBinary (leftHandSide read) := by
  have hrest {operand : Expression} (h : NotBinary operand) : Always NotBinary
      (if operand.isArrow then return operand else suffixes read true operand) :=
    .ite (fun _ => .pure h) fun _ => .skim fun _ => notBinary_suffixesFrom _ _ h
  exact .skim fun _ => .ite (fun _ => .bind notBinary_construction fun _ => hrest)
    fun _ => .bind notBinary_primary fun _ => hrest

/-- **An operand is not a binary operator with its operands.** -/
theorem unary_not_binary : Always NotBinary (unary read) := by
  refine .skim fun token => ?_
  split
  · exact .skim fun _ => .skim fun _ => .skim fun _ => .pure (.of rfl)
  · split
    · exact .skim fun _ => .skim fun _ => .skim fun _ => .pure (.of rfl)
    · refine .skim fun _ => .ite (fun _ => .skim fun _ => .skim fun _ => .skim fun _ => .pure (.of rfl)) fun _ => ?_
      refine .skim fun _ => .bind notBinary_leftHandSide fun operand h => .skim fun _ => ?_
      split
      · exact .ite (fun _ => .pure h) fun _ => .skim fun _ => .skim fun _ => .pure (.of rfl)
      · exact .pure h

end Operands

/-! ## What follows the cursor -/

/-- Behind the cursor stand operators, each with an operand behind it, and then no operator any more. -/
inductive OperatorsFollow (read : Reader) (noIn : Bool) : State → List (OperatorAt × Expression) → State → Prop
  | done {s : State} (h : binaryOperator? noIn s.current = none) : OperatorsFollow read noIn s [] s
  | more {s t u : State} {op : BinaryOperator} {operand : Expression} {rest : List (OperatorAt × Expression)}
      (hop : binaryOperator? noIn s.current = some op) (hoperand : unary read s.advanced = .ok operand t)
      (hrest : OperatorsFollow read noIn t rest u) :
      OperatorsFollow read noIn s ((⟨op, s.current.start⟩, operand) :: rest) u

namespace OperatorsFollow

variable {read : Reader} {s t : State} {first : Expression} {rest : List (OperatorAt × Expression)} {noIn : Bool}

theorem operands_notBinary (h : OperatorsFollow read noIn s rest t) : ∀ x ∈ rest, NotBinary x.2 := by
  induction h with
  | done h => nofun
  | more hop hoperand hrest ih =>
      intro x hx
      obtain rfl | hx := List.mem_cons.mp hx
      · exact unary_not_binary.run hoperand
      · exact ih x hx

end OperatorsFollow

theorem liftStack_ok {α : Type} {x : Except Failure α} {a : α} (h : x = .ok a) (s : State) :
    liftStack x s = .ok a s := by
  rw [h]
  rfl

theorem liftStack_error {α : Type} {x : Except Failure α} {e : Failure} (h : x = .error e) (s : State) :
    (liftStack x : Production α) s = .error e s := by
  rw [h]
  rfl

theorem context_unary {depth : Nat} {s t : State} {e : Expression} (h : unary (read depth) s = .ok e t) :
    t.context = s.context := by
  have hc : (stateOf (unary (read depth) s)).context = s.context := OfGrammar.context_eq .unary s
  rw [h] at hc
  exact hc

section Loop

variable {read : Reader} {stack : OperatorStack} {s : State}

/-- The loop ends where no operator stands under the cursor, and its limit may end it there as well. -/
theorem binaryFrom_end (limit : Nat) (h : binaryOperator? s.context.noIn s.current = none) :
    binaryFrom read limit stack s = liftStack stack.finish s := by
  cases limit with
  | zero => rfl
  | succ limit =>
      rw [binaryFrom, bind_ok (show current s = .ok s.current s from rfl),
        bind_ok (show context s = .ok s.context s from rfl), h]

theorem binaryFrom_operator (limit : Nat) {op : BinaryOperator}
    (h : binaryOperator? s.context.noIn s.current = some op) :
    binaryFrom read (limit + 1) stack s = (do
      let reduced ← liftStack (stack.meet op)
      skip
      let operand ← unary read
      binaryFrom read limit ⟨operand, ⟨reduced.top, op, s.current.start⟩ :: reduced.waiting⟩ :
        Production Expression) s := by
  rw [binaryFrom, bind_ok (show current s = .ok s.current s from rfl),
    bind_ok (show context s = .ok s.context s from rfl), h]

end Loop

/-- **The loop does with its stack what the stack does by itself.** -/
theorem binaryFrom_follow {depth : Nat} {noIn : Bool} {s t : State} {rest : List (OperatorAt × Expression)}
    (h : OperatorsFollow (read depth) noIn s rest t) (hnoIn : s.context.noIn = noIn) {limit : Nat}
    (hlimit : rest.length ≤ limit) (stack : OperatorStack) :
    (∀ e, rest.foldlM OperatorStack.push stack >>= OperatorStack.finish = .ok e →
      binaryFrom (read depth) limit stack s = .ok e t) ∧
    ∀ failure, rest.foldlM OperatorStack.push stack >>= OperatorStack.finish = .error failure →
      ∃ u, binaryFrom (read depth) limit stack s = .error failure u := by
  -- on what follows, for any stack before it and any limit that is not too small
  induction h generalizing limit stack with
  | @done s h =>
      rw [binaryFrom_end limit (hnoIn ▸ h)]
      exact ⟨fun e he => liftStack_ok he s, fun failure hf => ⟨s, liftStack_error hf s⟩⟩
  | @more s t u op operand rest hop hoperand hrest ih =>
      obtain ⟨limit, rfl⟩ := Nat.exists_eq_add_one_of_ne_zero (Nat.ne_of_gt (Nat.lt_of_lt_of_le (Nat.succ_pos _) hlimit))
      rw [binaryFrom_operator limit (hnoIn ▸ hop), List.foldlM_cons]
      unfold OperatorStack.push
      cases hmeet : stack.meet op with
      | error failure =>
          refine ⟨nofun, fun failure' hf => ⟨s, ?_⟩⟩
          cases hf
          rfl
      | ok reduced =>
          rw [bind_ok (liftStack_ok rfl s), bind_ok (show skip s = .ok () s.advanced from rfl), bind_ok hoperand]
          exact ih (context_unary hoperand ▸ hnoIn) (Nat.le_of_succ_le_succ hlimit) _

/-! ## The production -/

/-- The run gives an expression that satisfies `f`. -/
def gives (f : Expression → Bool) : EStateM.Result Failure State Expression → Bool
  | .ok e _ => f e
  | .error _ _ => false

theorem exists_of_gives {f : Expression → Bool} {r : EStateM.Result Failure State Expression}
    (h : gives f r = true) : ∃ e, r = .ok e (stateOf r) ∧ f e = true := by
  cases r with
  | ok e t => exact ⟨e, rfl, h⟩
  | error e t => cases h

open OperatorTree in
/-- **Operators are put together by precedence.** Behind the cursor stands an operand that is no arrow function,
and then operators with operands. There is one tree of these in which tighter operators are further down. If no
coalescing operator stands above or below a logical one in it, and no unary operator before the base of a power,
the production gives this tree; if not, it fails. -/
theorem binary_tree {text : List Char} (depth : Nat) {s t u : State} {first : Expression}
    {rest : List (OperatorAt × Expression)} (hs : s.Standing text) (hfirst : unary (read depth) s = .ok first t)
    (harrow : first.isArrow = false) (hrest : OperatorsFollow (read depth) s.context.noIn t rest u) :
    (∃! tree : OperatorTree, tree.first = first ∧ tree.rest = rest ∧ tree.ordered = true) ∧
    ∀ tree : OperatorTree, tree.first = first → tree.rest = rest → tree.ordered = true →
      (tree.allowed = true → binary (read depth) s = .ok tree.expression u) ∧
      (tree.allowed = false → ∃ failure v, binary (read depth) s = .error failure v) := by
  refine ⟨existsUnique first rest, ?_⟩
  rintro tree rfl rfl hordered
  have hseparate : tree.Separate := by
    intro e he
    obtain rfl | he := List.mem_cons.mp he
    · exact unary_not_binary.run hfirst
    · obtain ⟨x, hx, rfl⟩ := List.mem_map.mp he
      exact hrest.operands_notBinary x hx
  have hstack := OperatorStack.run_finish hordered hseparate
  -- more rounds than there are operators change nothing
  let limit := max (t.lexer.rest.length + 2) tree.rest.length
  have hloop : binary (read depth) s = binaryFrom (read depth) limit ⟨tree.first, []⟩ t := by
    have hunary : Alike (read depth) (read depth) (unary (read depth)) (unary (read depth)) := inferInstance
    obtain ⟨tokens, hforward⟩ := (hunary.composed (composed_read depth)).forward_of_ok hs hfirst
    have hsettles := settles_binaryFrom (consumes_read depth) hforward.standing ⟨tree.first, []⟩
    rw [binary, bind_ok hfirst, harrow, if_neg Bool.false_ne_true, get_bind]
    exact (hsettles.eq_of_le hforward.standing (Nat.le_max_left _ _)).symm
  have hrun := binaryFrom_follow hrest (congrArg Context.noIn (context_unary hfirst))
    (Nat.le_max_right (t.lexer.rest.length + 2) _) ⟨tree.first, []⟩
  rw [hloop]
  exact ⟨fun h => hrun.1 _ (hstack.1 h), fun h => (hstack.2 h).imp hrun.2⟩

theorem binary_tree_power :
    let s := State.ofText "a-b**c" {} default
    let t := stateOf (unary (read 4) s)
    let u := stateOf (unary (read 4) t.advanced)
    let v := stateOf (unary (read 4) u.advanced)
    ∃ a b c : Expression, s.Standing "a-b**c".toList ∧ unary (read 4) s = .ok a t ∧ a.isArrow = false ∧
      OperatorsFollow (read 4) s.context.noIn t
        [(⟨.subtract, t.current.start⟩, b), (⟨.exponent, u.current.start⟩, c)] v ∧
      binary (read 4) s = .ok (OperatorTree.node ⟨.subtract, t.current.start⟩ (.operand a)
        (.node ⟨.exponent, u.current.start⟩ (.operand b) (.operand c))).expression v := by
  intro s t u v
  obtain ⟨a, hs, ha⟩ := exists_of_gives (f := fun e => !e.isArrow) (show gives _ (unary (read 4) s) = true by decide +kernel)
  obtain ⟨b, ht, hb⟩ := exists_of_gives (f := fun e => !(OperatorTree.operand e).isUnary)
    (show gives _ (unary (read 4) t.advanced) = true by decide +kernel)
  obtain ⟨c, hu, -⟩ := exists_of_gives (f := fun _ => true)
    (show gives _ (unary (read 4) u.advanced) = true by decide +kernel)
  have harrow : a.isArrow = false := by simpa using ha
  have hrest : OperatorsFollow (read 4) s.context.noIn t
      [(⟨.subtract, t.current.start⟩, b), (⟨.exponent, u.current.start⟩, c)] v :=
    .more (by decide +kernel) ht (.more (by decide +kernel) hu (.done (by decide +kernel)))
  have hstanding : s.Standing "a-b**c".toList := State.standing_ofText _ _ _
  refine ⟨a, b, c, hstanding, hs, harrow, hrest, ((binary_tree 4 hstanding hs harrow hrest).2 _ rfl rfl rfl).1 ?_⟩
  have hbase : (OperatorTree.operand b).isUnary = false := by simpa using hb
  simp [OperatorTree.allowed, OperatorTree.isBase, OperatorTree.root?, mixes, BinaryOperator.isLogical, hbase]

end Grammar

end EcmaScript
