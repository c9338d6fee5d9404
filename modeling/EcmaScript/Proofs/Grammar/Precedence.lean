import EcmaScript.Grammar.Expression
import Mathlib.Data.List.Induction

/-!
# Operators by precedence

Operands with binary operators between them stand for the tree in which an operator that binds tighter comes
further down, and of operators that bind alike the first one, or the last one if they group from the right
(`OperatorTree.ordered`). There is one such tree for each sequence: one operator more goes down the right side
of the tree (`OperatorTree.append`), and where two trees are parted at different operators, either of the two
operators would stand above the other.

The grammar keeps a stack instead. Behind the operands and operators of a tree there lies its right side: the
last operand on top, and for each operator on the way down the operator with its left operand
(`OperatorTree.onStack`). The stack is taken down to the whole tree when an operator arrives that the tree is a
left operand of, or at the end.

## Contents

* `OperatorTree`: trees of operators, their order (`ordered`) and what may stand in them (`allowed`).
* `OperatorTree.existsUnique`: the tree of a sequence.
* `OperatorStack.run_first`, `OperatorStack.run_finish`: the stack and the tree.
-/

namespace EcmaScript

namespace Grammar

/-- A binary operator at its place. -/
structure OperatorAt where
  operator : BinaryOperator
  position : Position
  deriving DecidableEq, Repr

/-- A tree of binary operators. -/
inductive OperatorTree where
  | operand (e : Expression)
  | node (op : OperatorAt) (left right : OperatorTree)

/-- The left operand of an operator may have this operator at its root. -/
def mayStandLeft (op inner : BinaryOperator) : Bool :=
  if op == .exponent then op.precedence < inner.precedence else op.precedence ≤ inner.precedence

/-- The right operand of an operator may have this operator at its root. -/
def mayStandRight (op inner : BinaryOperator) : Bool :=
  if op == .exponent then op.precedence ≤ inner.precedence else op.precedence < inner.precedence

/-- Coalescing and logical operators do not stand below each other. -/
def mixes (op inner : BinaryOperator) : Bool :=
  op == .coalesce && inner.isLogical || op.isLogical && inner == .coalesce

namespace OperatorTree

/-! ## What a tree is made of -/

/-- The operand on the far left. -/
def first : OperatorTree → Expression
  | operand e => e
  | node _ l _ => l.first

/-- What stands behind the first operand: the operators, each with the operand behind it. -/
def rest : OperatorTree → List (OperatorAt × Expression)
  | operand _ => []
  | node op l r => l.rest ++ (op, r.first) :: r.rest

/-- The operator at the root. -/
def root? : OperatorTree → Option BinaryOperator
  | operand _ => none
  | node op _ _ => some op.operator

/-- All operators of a tree, from left to right. -/
def operators (t : OperatorTree) : List BinaryOperator := t.rest.map (·.1.operator)

/-- All operands of a tree, from left to right. -/
def operands (t : OperatorTree) : List Expression := t.first :: t.rest.map (·.2)

/-- The expression of a tree. Each node covers the text from the start of its left operand to the end of its
right one. -/
def expression : OperatorTree → Expression
  | operand e => e
  | node op l r =>
    .binary op.operator l.expression r.expression (.between l.expression.start r.expression.span.stop)

/-- Operators that bind tighter stand further down. -/
def ordered : OperatorTree → Bool
  | operand _ => true
  | node op l r =>
    l.ordered && r.ordered && l.root?.all (mayStandLeft op.operator) && r.root?.all (mayStandRight op.operator)

/-- Whether the tree is the operand of a unary operator or of `await`, with that operator. -/
def isUnary : OperatorTree → Bool
  | operand (.unary ..) | operand (.await ..) => true
  | _ => false

/-- The operator may have the tree as its left operand, as far as powers are concerned. -/
def isBase (op : BinaryOperator) (t : OperatorTree) : Bool := !(op == .exponent && t.isUnary)

/-- No coalescing operator stands above or below a logical one, and no unary operator stands before the base
of a power. -/
def allowed : OperatorTree → Bool
  | operand _ => true
  | node op l r =>
    l.allowed && r.allowed && !l.root?.any (mixes op.operator) && !r.root?.any (mixes op.operator) &&
      l.isBase op.operator

end OperatorTree

/-! ## The order of operators -/

section Order

variable {op inner next : BinaryOperator}

theorem precedence_le (op : BinaryOperator) : op.precedence ≤ BinaryOperator.exponent.precedence := by
  cases op <;> decide

theorem eq_exponent_of_le (h : BinaryOperator.exponent.precedence ≤ op.precedence) : op = .exponent := by
  cases op <;> first | rfl | exact absurd h (by decide)

/-- An operator takes what stands before it from those that may stand in its left operand. -/
theorem precedes_eq (next op : BinaryOperator) : precedes next op = mayStandLeft next op := rfl

/-- What may stand in an operand may bind tighter. -/
theorem mayStandLeft_of_le {inner' : BinaryOperator} (h : mayStandLeft op inner = true)
    (hle : inner.precedence ≤ inner'.precedence) : mayStandLeft op inner' = true := by
  unfold mayStandLeft at h ⊢
  split at h
  next hop =>
      rw [if_pos hop]
      exact decide_eq_true (Nat.lt_of_lt_of_le (of_decide_eq_true h) hle)
  next hop =>
      rw [if_neg hop]
      exact decide_eq_true (Nat.le_trans (of_decide_eq_true h) hle)

theorem mayStandRight_of_le {inner' : BinaryOperator} (h : mayStandRight op inner = true)
    (hle : inner.precedence ≤ inner'.precedence) : mayStandRight op inner' = true := by
  unfold mayStandRight at h ⊢
  split at h
  next hop =>
      rw [if_pos hop]
      exact decide_eq_true (Nat.le_trans (of_decide_eq_true h) hle)
  next hop =>
      rw [if_neg hop]
      exact decide_eq_true (Nat.lt_of_lt_of_le (of_decide_eq_true h) hle)

/-- An operator leaves what stands before it to those in whose right operand it may stand. -/
theorem precedes_iff_right : precedes next op = false ↔ mayStandRight op next = true := by
  have hnext := precedence_le next
  have hop := precedence_le op
  rw [precedes_eq]
  unfold mayStandLeft mayStandRight
  by_cases hn : next = .exponent
  · by_cases ho : op = .exponent
    · subst hn ho
      decide
    · subst hn
      have hne : ¬BinaryOperator.exponent.precedence ≤ op.precedence := fun h => ho (eq_exponent_of_le h)
      rw [beq_self_eq_true, if_pos rfl, if_neg (by simpa using ho)]
      simp only [decide_eq_false_iff_not, decide_eq_true_eq]
      omega
  · have hne : ¬BinaryOperator.exponent.precedence ≤ next.precedence := fun h => hn (eq_exponent_of_le h)
    rw [if_neg (by simpa using hn)]
    by_cases ho : op = .exponent
    · subst ho
      rw [beq_self_eq_true, if_pos rfl]
      simp only [decide_eq_false_iff_not, decide_eq_true_eq]
      omega
    · rw [if_neg (by simpa using ho)]
      simp only [decide_eq_false_iff_not, decide_eq_true_eq]
      omega

end Order

/-! ## The tree of a sequence -/

namespace OperatorTree

variable {op : OperatorAt} {l r t u : OperatorTree} {e : Expression}

@[simp] theorem operators_operand : (operand e).operators = [] := rfl

@[simp] theorem operators_node : (node op l r).operators = l.operators ++ op.operator :: r.operators := by
  unfold operators
  rw [rest, List.map_append, List.map_cons]

@[simp] theorem operands_operand : (operand e).operands = [e] := rfl

@[simp] theorem operands_node : (node op l r).operands = l.operands ++ r.operands := by
  unfold operands
  rw [first, rest, List.map_append, List.map_cons, List.cons_append]

theorem ordered_node : (node op l r).ordered = true ↔ l.ordered = true ∧ r.ordered = true ∧
    l.root?.all (mayStandLeft op.operator) = true ∧ r.root?.all (mayStandRight op.operator) = true := by
  rw [ordered, Bool.and_eq_true, Bool.and_eq_true, Bool.and_eq_true, and_assoc, and_assoc]

/-- No operator binds less tightly than the one at the root. -/
theorem exists_root (h : t.ordered = true) {q : BinaryOperator} (hq : q ∈ t.operators) :
    ∃ p, t.root? = some p ∧ p.precedence ≤ q.precedence := by
  induction t generalizing q with
  | operand e => cases hq
  | node op l r ihl ihr =>
      obtain ⟨hl, hr, hleft, hright⟩ := ordered_node.mp h
      refine ⟨op.operator, rfl, ?_⟩
      rw [operators_node] at hq
      obtain hq | hq := List.mem_append.mp hq
      · obtain ⟨p, hp, hle⟩ := ihl hl hq
        have hstand := (Option.all_eq_true _ _).mp hleft p hp
        unfold mayStandLeft at hstand
        split at hstand <;> simp only [decide_eq_true_eq] at hstand <;> omega
      · obtain rfl | hq := List.mem_cons.mp hq
        · exact Nat.le_refl _
        · obtain ⟨p, hp, hle⟩ := ihr hr hq
          have hstand := (Option.all_eq_true _ _).mp hright p hp
          unfold mayStandRight at hstand
          split at hstand <;> simp only [decide_eq_true_eq] at hstand <;> omega

/-- An operator at the root takes all operators of its left operand. -/
theorem precedes_of_left (h : (node op l r).ordered = true) {q : BinaryOperator} (hq : q ∈ l.operators) :
    precedes op.operator q = true := by
  obtain ⟨hl, -, hleft, -⟩ := ordered_node.mp h
  obtain ⟨p, hp, hle⟩ := exists_root hl hq
  exact mayStandLeft_of_le ((Option.all_eq_true _ _).mp hleft p hp) hle

/-- An operator at the root is taken by none of its right operand. -/
theorem precedes_of_right (h : (node op l r).ordered = true) {q : BinaryOperator} (hq : q ∈ r.operators) :
    precedes q op.operator = false := by
  obtain ⟨-, hr, -, hright⟩ := ordered_node.mp h
  obtain ⟨p, hp, hle⟩ := exists_root hr hq
  exact precedes_iff_right.mpr (mayStandRight_of_le ((Option.all_eq_true _ _).mp hright p hp) hle)

/-! ### One tree at most -/

/-- Of two trees for one sequence neither is parted further to the right than the other. -/
theorem append_eq_cons {m : List (OperatorAt × Expression)} {op' : OperatorAt} {l' r' : OperatorTree}
    (h : (node op l r).ordered = true) (h' : (node op' l' r').ordered = true)
    (hleft : l'.rest = l.rest ++ m) (hright : (op, r.first) :: r.rest = m ++ (op', r'.first) :: r'.rest) :
    m = [] := by
  cases m with
  | nil => rfl
  | cons x m =>
      obtain ⟨rfl, hm⟩ := List.cons.inj hright
      -- the operator of the one tree is left of the other, which is right of the first
      have hop : op.operator ∈ l'.operators := by
        unfold operators
        rw [hleft]
        exact List.mem_map.mpr ⟨_, List.mem_append_right _ List.mem_cons_self, rfl⟩
      have hop' : op'.operator ∈ r.operators := by
        unfold operators
        rw [hm]
        exact List.mem_map.mpr ⟨_, List.mem_append_right _ List.mem_cons_self, rfl⟩
      have htakes := precedes_of_left h' hop
      rw [precedes_of_right h hop'] at htakes
      cases htakes

theorem eq_of_rest (h : t.ordered = true) (h' : u.ordered = true) (hfirst : t.first = u.first)
    (hrest : t.rest = u.rest) : t = u := by
  induction t generalizing u with
  | operand e =>
      cases u with
      | operand e' => exact congrArg operand hfirst
      | node op l r => exact absurd hrest.symm (List.append_ne_nil_of_right_ne_nil _ (List.cons_ne_nil _ _))
  | node op l r ihl ihr =>
      cases u with
      | operand e' => exact absurd hrest (List.append_ne_nil_of_right_ne_nil _ (List.cons_ne_nil _ _))
      | node op' l' r' =>
          have hparts : l.rest = l'.rest ∧ (op, r.first) :: r.rest = (op', r'.first) :: r'.rest := by
            obtain ⟨m, hleft, hright⟩ | ⟨m, hleft, hright⟩ := List.append_eq_append_iff.mp hrest
            · obtain rfl := append_eq_cons h h' hleft hright
              exact ⟨by rw [hleft, List.append_nil], hright⟩
            · obtain rfl := append_eq_cons h' h hleft hright
              exact ⟨by rw [hleft, List.append_nil], hright.symm⟩
          obtain ⟨hl, hr, -⟩ := ordered_node.mp h
          obtain ⟨hl', hr', -⟩ := ordered_node.mp h'
          obtain ⟨hhead, htail⟩ := List.cons.inj hparts.2
          obtain ⟨rfl, hfirst'⟩ := Prod.mk.inj hhead
          rw [ihl hl hl' hfirst hparts.1, ihr hr hr' hfirst' htail]

/-! ### One tree at least -/

/-- One operator with an operand more. It goes down the right side, below all operators that it leaves what
they have. -/
def append (t : OperatorTree) (next : OperatorAt) (e : Expression) : OperatorTree :=
  match t with
  | operand f => node next (operand f) (operand e)
  | node op l r =>
    if precedes next.operator op.operator then node next (node op l r) (operand e)
    else node op l (r.append next e)

variable {next : OperatorAt}

theorem first_append : (t.append next e).first = t.first := by
  cases t with
  | operand f => rfl
  | node op l r =>
      rw [append]
      split <;> rfl

theorem rest_append : (t.append next e).rest = t.rest ++ [(next, e)] := by
  induction t with
  | operand f => rfl
  | node op l r _ ih =>
      rw [append]
      split
      · rfl
      · rw [rest, rest, ih, first_append, List.append_assoc, List.cons_append]

theorem ordered_append (h : t.ordered = true) : (t.append next e).ordered = true := by
  induction t with
  | operand f => rfl
  | node op l r _ ih =>
      obtain ⟨hl, hr, hleft, hright⟩ := ordered_node.mp h
      rw [append]
      split
      next htakes => exact ordered_node.mpr ⟨h, rfl, htakes, rfl⟩
      next hleaves =>
          have hstand := precedes_iff_right.mp (Bool.eq_false_iff.mpr hleaves)
          refine ordered_node.mpr ⟨hl, ih hr, hleft, ?_⟩
          -- at the root of what has become longer stands the new operator or the one that was there
          cases r with
          | operand f => exact hstand
          | node op' l' r' =>
              rw [append]
              split
              · exact hstand
              · exact hright

/-- **A sequence of operands and operators is that of one tree.** -/
theorem existsUnique (first : Expression) (rest : List (OperatorAt × Expression)) :
    ∃! t : OperatorTree, t.first = first ∧ t.rest = rest ∧ t.ordered = true := by
  refine existsUnique_of_exists_of_unique ?_ fun t u ht hu => ?_
  · induction rest using List.reverseRecOn with
    | nil => exact ⟨operand first, rfl, rfl, rfl⟩
    | append_singleton rest x ih =>
        obtain ⟨t, hfirst, hrest, hordered⟩ := ih
        exact ⟨t.append x.1 x.2, first_append.trans hfirst, by rw [rest_append, hrest], ordered_append hordered⟩
  · exact eq_of_rest ht.2.2 hu.2.2 (ht.1.trans hu.1.symm) (ht.2.1.trans hu.2.1.symm)

/-! ## A tree on the stack -/

/-- The right side of a tree on the stack, above what waits there already. -/
def onStack : OperatorTree → List WaitingOperator → OperatorStack
  | operand e, ws => ⟨e, ws⟩
  | node op l r, ws => r.onStack (⟨l.expression, op.operator, op.position⟩ :: ws)

/-- The tree can lie on the stack: the left operands on its right side are complete. -/
def begun : OperatorTree → Bool
  | operand _ => true
  | node op l r => l.allowed && l.isBase op.operator && r.begun

theorem begun_of_allowed (h : t.allowed = true) : t.begun = true := by
  induction t with
  | operand e => rfl
  | node op l r _ ih =>
      rw [allowed] at h
      simp only [Bool.and_eq_true] at h
      obtain ⟨⟨⟨⟨hl, hr⟩, -⟩, -⟩, hbase⟩ := h
      rw [begun, hl, hbase, ih hr, Bool.and_self, Bool.and_self]

/-- No operand is an operator with its operands. -/
def Separate (t : OperatorTree) : Prop := ∀ e ∈ t.operands, ∀ op l r span, e ≠ .binary op l r span

theorem separate_node : (node op l r).Separate ↔ l.Separate ∧ r.Separate := by
  unfold Separate
  rw [operands_node]
  exact List.forall_mem_append

/-- An operator mixes with an operand if it mixes with the operator at its root. -/
theorem mixesCoalesce_expression (h : t.Separate) (op : BinaryOperator) :
    mixesCoalesce op t.expression = t.root?.any (mixes op) := by
  cases t with
  | node op' l r => rfl
  | operand e =>
      rw [expression, root?, Option.any_none]
      unfold mixesCoalesce
      split
      · exact absurd rfl (h _ List.mem_cons_self _ _ _ _)
      · rfl

end OperatorTree

/-! ## The stack -/

/-- The value `a` where that is allowed, and a failure where it is not. -/
def GivesIf {α : Type} (allowed : Bool) (a : α) (result : Except Failure α) : Prop :=
  (allowed = true → result = .ok a) ∧ (allowed = false → ∃ e, result = .error e)

namespace GivesIf

variable {α β : Type} {a : α} {b : β} {x : Except Failure α} {f : α → Except Failure β} {p q : Bool}

theorem ok : GivesIf true a (.ok a) := ⟨fun _ => rfl, nofun⟩

theorem bind (hx : GivesIf p a x) (hf : p = true → GivesIf q b (f a)) : GivesIf (p && q) b (x >>= f) := by
  cases p with
  | true =>
      rw [hx.1 rfl, Bool.true_and]
      exact hf rfl
  | false =>
      obtain ⟨e, he⟩ := hx.2 rfl
      rw [he, Bool.false_and]
      exact ⟨nofun, fun _ => ⟨e, rfl⟩⟩

end GivesIf

namespace OperatorStack

open OperatorTree

variable {t : OperatorTree} {ws : List WaitingOperator}

/-- One operator more on the stack, with the operand behind it. -/
def push (stack : OperatorStack) (next : OperatorAt × Expression) : Except Failure OperatorStack := do
  let reduced ← stack.meet next.1.operator
  return ⟨next.2, ⟨reduced.top, next.1.operator, next.1.position⟩ :: reduced.waiting⟩

theorem reduce_cons (ready : BinaryOperator → Bool) (w : WaitingOperator) (top : Expression)
    (h : ready w.operator = true) : reduce ready (w :: ws) top = w.apply top >>= reduce ready ws := by
  rw [reduce, if_pos h]

/-- Nothing is taken down where the last operator that waits is not ready. -/
theorem reduce_of_not_ready {ready : BinaryOperator → Bool} (top : Expression)
    (h : ∀ w ∈ ws.head?, ready w.operator = false) : reduce ready ws top = .ok ⟨top, ws⟩ := by
  cases ws with
  | nil => rfl
  | cons w ws => rw [reduce, h w rfl, if_neg Bool.false_ne_true]; rfl

theorem givesIf_apply {op : OperatorAt} {l r : OperatorTree} (h : (node op l r).Separate) :
    GivesIf (!l.root?.any (mixes op.operator) && !r.root?.any (mixes op.operator)) (node op l r).expression
      (WaitingOperator.apply ⟨l.expression, op.operator, op.position⟩ r.expression) := by
  obtain ⟨hl, hr⟩ := separate_node.mp h
  unfold WaitingOperator.apply
  rw [mixesCoalesce_expression hl, mixesCoalesce_expression hr]
  rw [← Bool.not_or]
  cases l.root?.any (mixes op.operator) || r.root?.any (mixes op.operator) with
  | true => exact ⟨nofun, fun _ => ⟨_, rfl⟩⟩
  | false => exact .ok

/-- A tree on the stack is taken down if all its operators are ready. -/
theorem reduce_onStack {ready : BinaryOperator → Bool} {allowed : Bool} {stack : OperatorStack}
    (hs : t.Separate) (hb : t.begun = true) (hready : ∀ q ∈ t.operators, ready q = true)
    (hrest : GivesIf allowed stack (reduce ready ws t.expression)) :
    GivesIf (t.allowed && allowed) stack (reduce ready (t.onStack ws).waiting (t.onStack ws).top) := by
  induction t generalizing ws allowed with
  | operand e => exact hrest
  | node op l r _ ih =>
      rw [begun, Bool.and_eq_true, Bool.and_eq_true] at hb
      obtain ⟨⟨hl, hbase⟩, hr⟩ := hb
      rw [operators_node] at hready
      have hop : ready op.operator = true := hready _ (List.mem_append_right _ List.mem_cons_self)
      have hnext := (givesIf_apply hs).bind fun _ => hrest
      rw [← reduce_cons ready ⟨l.expression, op.operator, op.position⟩ _ hop] at hnext
      have hwhole := ih (separate_node.mp hs).2 hr
        (fun q hq => hready q (List.mem_append_right _ (List.mem_cons_of_mem _ hq))) hnext
      rw [OperatorTree.allowed, hl, hbase, Bool.true_and, Bool.and_true, Bool.and_assoc, Bool.and_assoc]
      rwa [Bool.and_assoc] at hwhole

/-- The base of a power is checked where its operator arrives. -/
theorem givesIf_checkExponentBase (next : BinaryOperator) :
    GivesIf (t.isBase next) ()
      (if next == .exponent then checkExponentBase t.expression else .ok ()) := by
  unfold OperatorTree.isBase
  cases next == .exponent with
  | false => exact .ok
  | true =>
      rw [if_pos rfl, Bool.true_and]
      cases t with
      | node op l r => exact .ok
      | operand e => cases e <;> first | exact .ok | exact ⟨nofun, fun _ => ⟨_, rfl⟩⟩

theorem push_eq (stack : OperatorStack) (next : OperatorAt × Expression) :
    push stack next = (do
      let reduced ← reduce (precedes next.1.operator) stack.waiting stack.top
      (if next.1.operator == .exponent then checkExponentBase reduced.top else .ok ())
      return ⟨next.2, ⟨reduced.top, next.1.operator, next.1.position⟩ :: reduced.waiting⟩) := by
  unfold push meet
  cases reduce (precedes next.1.operator) stack.waiting stack.top with
  | error e => rfl
  | ok reduced =>
      cases next.1.operator == .exponent with
      | false => rfl
      | true => cases h : checkExponentBase reduced.top <;> simp [bind, Except.bind, h, pure, Except.pure]

/-- An operator arrives that has the tree on the stack as its left operand. -/
theorem push_onStack {next : OperatorAt} {e : Expression} (hs : t.Separate) (hb : t.begun = true)
    (htakes : ∀ q ∈ t.operators, precedes next.operator q = true)
    (hleaves : ∀ w ∈ ws.head?, precedes next.operator w.operator = false) :
    GivesIf (t.allowed && t.isBase next.operator) ⟨e, ⟨t.expression, next.operator, next.position⟩ :: ws⟩
      (push (t.onStack ws) (next, e)) := by
  have hreduced : GivesIf (t.allowed && true) ⟨t.expression, ws⟩
      (reduce (precedes next.operator) (t.onStack ws).waiting (t.onStack ws).top) := by
    refine reduce_onStack hs hb htakes ?_
    rw [reduce_of_not_ready _ hleaves]
    exact .ok
  rw [Bool.and_true] at hreduced
  rw [push_eq]
  refine hreduced.bind fun _ => ?_
  rw [← Bool.and_true (t.isBase next.operator)]
  exact (givesIf_checkExponentBase next.operator).bind fun _ => .ok

/-- **The stack behind the operands and operators of a tree.** -/
theorem run_first (h : t.ordered = true) (hs : t.Separate)
    (hleaves : ∀ w ∈ ws.head?, ∀ q ∈ t.operators, precedes q w.operator = false) :
    GivesIf t.begun (t.onStack ws) (t.rest.foldlM push ⟨t.first, ws⟩) := by
  induction t generalizing ws with
  | operand e => exact .ok
  | node op l r ihl ihr =>
      obtain ⟨hl, hr, -, -⟩ := ordered_node.mp h
      obtain ⟨hsl, hsr⟩ := separate_node.mp hs
      rw [operators_node] at hleaves
      have hleft := ihl hl hsl fun w hw q hq => hleaves w hw q (List.mem_append_left _ hq)
      have hpush (hb : l.begun = true) : GivesIf (l.allowed && l.isBase op.operator)
          ⟨r.first, ⟨l.expression, op.operator, op.position⟩ :: ws⟩ (push (l.onStack ws) (op, r.first)) :=
        push_onStack hsl hb (fun q => precedes_of_left h)
          fun w hw => hleaves w hw _ (List.mem_append_right _ List.mem_cons_self)
      -- the operators of the right operand leave the one at the root what it has
      have hright := @ihr (⟨l.expression, op.operator, op.position⟩ :: ws) hr hsr fun w hw q hq => by
        cases hw
        exact precedes_of_right h hq
      have hbehind (hb : l.begun = true) : GivesIf (l.allowed && l.isBase op.operator && r.begun)
          ((node op l r).onStack ws) (((op, r.first) :: r.rest).foldlM push (l.onStack ws)) := by
        rw [List.foldlM_cons]
        exact (hpush hb).bind fun _ => hright
      have hwhole := hleft.bind (f := fun stack => ((op, r.first) :: r.rest).foldlM push stack) hbehind
      have hbegun : (l.begun && (node op l r).begun) = (node op l r).begun := by
        rw [begun]
        cases ha : l.allowed with
        | false => simp
        | true => rw [begun_of_allowed ha, Bool.true_and]
      rw [rest, first, List.foldlM_append, ← hbegun]
      exact hwhole

/-- **The stack gives the tree.** -/
theorem run_finish (h : t.ordered = true) (hs : t.Separate) :
    GivesIf t.allowed t.expression (t.rest.foldlM push ⟨t.first, []⟩ >>= finish) := by
  have hrun : GivesIf t.begun (t.onStack []) (t.rest.foldlM push ⟨t.first, []⟩) := run_first h hs nofun
  have hfinish (hb : t.begun = true) : GivesIf t.allowed t.expression (finish (t.onStack [])) := by
    have hreduced : GivesIf (t.allowed && true) ⟨t.expression, []⟩
        (reduce (fun _ => true) (t.onStack []).waiting (t.onStack []).top) :=
      reduce_onStack hs hb (fun _ _ => rfl) .ok
    rw [Bool.and_true] at hreduced
    unfold finish
    exact ⟨fun ha => by rw [hreduced.1 ha]; rfl, fun ha => (hreduced.2 ha).imp fun e he => by rw [he]; rfl⟩
  have hwhole := hrun.bind hfinish
  have hallowed : (t.begun && t.allowed) = t.allowed := by
    cases ha : t.allowed with
    | false => exact Bool.and_false _
    | true => rw [begun_of_allowed ha, Bool.and_true]
  rwa [hallowed] at hwhole

end OperatorStack

end Grammar

end EcmaScript
