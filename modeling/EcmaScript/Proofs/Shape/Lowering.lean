import EcmaScript.Proofs.Shape.Rules
import Mathlib.Data.List.Induction

/-!
# Trees of the shape of their constructs

The recursion over the concrete tree makes of constructs that are as they should be trees that are. The proofs
go through the tree as the recursion does. Operators are drawn from their expressions, one case for each;
everything else is left to the rules.

## Contents

* `grown_comma`: items joined by commas.
* `Grows.expression`, `Grows.statement` and the theorems between them, by recursion over the tree.
-/

namespace EcmaScript

open IsPart (part)

namespace Lowering

set_option synthInstance.maxSize 20000

variable {P : Part → Prop} [hP : Part.Fitting P] {quiet : Prop}

/-! ## Operands -/

/-- The tree of an expression, wherever it stands. -/
abbrev Sprouts (P : Part → Prop) (quiet : Prop) (p : Lowering Node) : Prop := Quietly quiet (Grown P quiet) p

omit hP in
theorem Grows.sprouts {p : Lowering Node} (h : Grows P quiet p) : Sprouts P quiet p := h.run.mono fun _ hn => hn.1

/-- What may stand by itself may stand anywhere. -/
theorem Grows.of_sprouts (role : Role) {e : Expression} (h : Held P e)
    (hs : Sprouts P quiet (expression [] role e)) : Grows P quiet (expression [] role e) :=
  ⟨hs.and (.of_gives (settled_expression role e h.formed.1 h.formed.2))⟩

omit hP in
/-- The left operand of a binary operator. -/
theorem sprouts_operand {operator : BinaryOperator} {left : Expression}
    (h : Sprouts P quiet (expression [] .value left)) : Sprouts P quiet (operand operator left) := by
  cases left with
  | privateName name => exact .ite (inferInstance : Grows P quiet _).sprouts (inferInstance : Grows P quiet _).sprouts
  | _ => exact h

omit hP in
/-- What an assignment stores into. -/
theorem grows_assigned {operator : AssignmentOperator} {left : Expression}
    (h : ∀ role, Grows P quiet (expression [] role left)) : Grows P quiet (assigned operator left) := by
  have htarget := h (.target .assignment)
  have hvalue := h .value
  unfold assigned
  infer_instance

theorem gives_assigned {operator : AssignmentOperator} {left : Expression} :
    Gives (fun n => ∃ role, n.Renders role left) (assigned operator left) :=
  .ite (fun s => ⟨_, s, rfl⟩) (.skim fun _ s => ⟨_, s, rfl⟩)

/-- The operand of an increment is not refused. -/
theorem quietly_checkUpdate (increment afterOperand : Bool) (argument : Expression) :
    Quietly quiet (fun _ => quiet → argument.isSimpleTarget = true) (checkUpdate increment afterOperand argument) := by
  intro s hs hq
  cases hsimple : argument.isSimpleTarget with
  | true => rfl
  | false =>
    refine absurd ?_ (hs hq)
    unfold checkUpdate
    rw [hsimple]
    exact Journal.refusesUpdate_error _ _ _ _

/-! ## Items joined by commas -/

theorem expressions_cons (x : Expression) (xs : List Expression) (s : State) : (expressions (x :: xs) s).1 =
    (expression [] .value x s).1 :: (expressions xs (expression [] .value x s).2).1 := by
  rw [expressions]
  rfl

theorem expressions_append (xs ys : List Expression) (s : State) :
    (expressions (xs ++ ys) s).1 = (expressions xs s).1 ++ (expressions ys (expressions xs s).2).1 := by
  induction xs generalizing s with
  | nil =>
      rw [expressions]
      rfl
  | cons x xs ih =>
      rw [List.cons_append, expressions_cons, expressions_cons, ih, expressions]
      rfl

theorem commaNode_append {first : Node} {others : List Node} {n : Node} :
    commaNode (first :: (others ++ [n])) = .branch .comma
      ((commaNode (first :: others)).span.extendTo n.span) [commaNode (first :: others), n] := by
  show List.foldl _ first (others ++ [n]) = _
  rw [List.foldl_append]
  rfl

/-- What items make that are joined by commas is what their sequence makes. -/
theorem renders_joined (first : Expression) (between : List Expression) (s : State) :
    (commaNode (expressions (first :: between) s).1).Renders .value (.joined first between) := by
  refine ⟨s, ?_⟩
  unfold Expression.joined
  cases hlast : between.getLast? with
  | none =>
      cases List.getLast?_eq_none_iff.mp hlast
      rw [expressions, expressions]
      rfl
  | some last =>
      rw [expression]
      rfl

omit hP in
/-- **Items joined by commas** make a tree, from those of the items before the last one. -/
theorem grown_comma {first : Expression} {others : List Expression} {span : Span} {s : State}
    (he : (part (Expression.sequence (first :: others) span)).Every P)
    (hns : Full P quiet (expressions (first :: others) s).1) (between behind : List Expression)
    (ho : others = between ++ behind) : Full P quiet (commaNode (expressions (first :: between) s).1) := by
  induction between using List.reverseRecOn generalizing behind with
  | nil =>
      rw [expressions_cons] at hns ⊢
      rw [expressions]
      exact (Full.cons_iff.mp hns).1
  | append_singleton between right ih =>
      rw [List.append_assoc] at ho
      have hleft := ih _ ho
      rw [ho] at he hns
      have hright : Full P quiet (expression [] .value right (expressions (first :: between) s).2).1 := by
        rw [← List.cons_append, expressions_append, List.singleton_append, expressions_cons] at hns
        exact ⟨hns.grown _ (List.mem_append_right _ List.mem_cons_self)⟩
      have hlast : (expressions [right] (expressions (first :: between) s).2).1 =
          [(expression [] .value right (expressions (first :: between) s).2).1] := by
        rw [expressions_cons, expressions]
        rfl
      have hrenders := renders_joined first between s
      rw [← List.cons_append, expressions_append, hlast]
      rw [expressions_cons] at hleft hrenders ⊢
      rw [List.cons_append, commaNode_append]
      refine ⟨.mk ⟨⟨rfl, rfl, rfl⟩, nofun, ?_, .inr ⟨_, he, .comma rfl rfl rfl rfl hrenders ⟨_, rfl⟩⟩⟩ ?_, nofun⟩
      · exact List.forall_mem_cons.mpr ⟨hleft.grown.2, List.forall_mem_singleton.mpr hright.grown.2⟩
      · exact List.forall_mem_cons.mpr ⟨hleft.grown.1, List.forall_mem_singleton.mpr hright.grown.1⟩

/-! ## The other operators -/

omit hP in
theorem forall_pair {Q : Node → Prop} {a b : Node} (ha : Q a) (hb : Q b) : ∀ n ∈ [a, b], Q n :=
  List.forall_mem_cons.mpr ⟨ha, List.forall_mem_singleton.mpr hb⟩

section Operators

variable {a b : Node} {arguments : List Node} {span : Span}

omit hP in
theorem grown_binary {operator : BinaryOperator} {left right : Expression}
    (h : (part (Expression.binary operator left right span)).Every P)
    (ha : Grown P quiet a ∧ a.Renders .value left) (hb : Grown P quiet b ∧ b.Renders .value right) :
    Grown P quiet (.branch (.ofBinary operator) span [a, b]) := by
  have hdrop : List.drop (NodeKind.ofBinary operator).openChildren [a, b] = [] := by
    rw [NodeKind.openChildren_ofBinary]
    rfl
  refine .mk ⟨⟨rfl, rfl, rfl⟩, nofun, ?_, .inr ⟨_, h, .binary rfl rfl rfl rfl ha.2 hb.2⟩⟩ (forall_pair ha.1 hb.1)
  show ∀ c ∈ List.drop (NodeKind.ofBinary operator).openChildren [a, b], Node.Settled c
  rw [hdrop]
  exact nofun

omit hP in
theorem grown_assignment {operator : AssignmentOperator} {left right : Expression}
    (h : (part (Expression.assignment operator left right span)).Every P) (ha : Full P quiet a)
    (hleft : ∃ role, a.Renders role left) (hb : Full P quiet b) (hright : b.Renders .value right) :
    Grown P quiet (.branch (.ofAssignment operator) span [a, b]) := by
  obtain ⟨role, hleft⟩ := hleft
  refine .mk ⟨⟨rfl, rfl, rfl⟩, nofun, fun c hc => ?_,
    .inr ⟨_, h, .assignment rfl rfl rfl rfl hleft hright⟩⟩ (forall_pair ha.grown.1 hb.grown.1)
  exact forall_pair ha.grown.2 hb.grown.2 c (List.mem_of_mem_drop hc)

omit hP in
theorem grown_conditional {test consequent alternate : Expression}
    (h : (part (Expression.conditional test consequent alternate span)).Every P) (ha : Full P quiet a)
    (hra : a.Renders .value test) (hothers : Full P quiet arguments) :
    Grown P quiet (.branch .hook span (a :: arguments)) := by
  have hall := Full.cons_iff.mpr ⟨ha, hothers⟩
  exact .mk ⟨⟨rfl, rfl, rfl⟩, nofun, fun c hc => (hall.grown c hc).2,
    .inr ⟨_, h, .conditional rfl rfl rfl hra⟩⟩ fun c hc => (hall.grown c hc).1

omit hP in
theorem grown_update {increment afterOperand : Bool} {argument : Expression}
    (h : (part (Expression.update increment afterOperand argument span)).Every P) (ha : Full P quiet a)
    (hra : a.Renders .value argument) (hsimple : quiet → argument.isSimpleTarget = true) :
    Grown P quiet {
      kind := if increment then .increment else .decrement, children := [a], span,
      flags := { afterOperand } } := by
  refine .mk ⟨⟨rfl, rfl, rfl⟩, nofun, fun c hc => ?_, .inr ⟨_, h, .update rfl rfl rfl hra hsimple⟩⟩
    (List.forall_mem_singleton.mpr ha.grown.1)
  exact List.mem_singleton.mp (List.mem_of_mem_drop hc) ▸ ha.grown.2

omit hP in
/-- An access or a call, from its receiver and what else it has. -/
theorem grown_link {chained plain : NodeKind} {place : ChainPlace} {payload : Payload} {flags : NodeFlags}
    {e : Expression} (hplain : plain.isLink = true) (hchained : chained.isLink = true)
    (hparens : flags.parenthesized = false) (h : (part e).Every P)
    (hdrawn : Drawn quiet e {
      kind := if place.inChain then chained else plain, payload, children := a :: arguments, span, flags })
    (ha : Grown P quiet a) (hothers : Full P quiet arguments) : Grown P quiet {
      kind := if place.inChain then chained else plain, payload, children := a :: arguments, span, flags } := by
  have hopen : (if place.inChain then chained else plain).openChildren = 1 := by
    split
    · cases chained <;> first | rfl | cases hchained
    · cases plain <;> first | rfl | cases hplain
  refine .mk ⟨⟨rfl, rfl, rfl⟩, fun hp => absurd (hparens.symm.trans hp) Bool.noConfusion, ?_,
    .inr ⟨e, h, hdrawn⟩⟩ (List.forall_mem_cons.mpr ⟨ha, fun c hc => (hothers.grown c hc).1⟩)
  dsimp only
  rw [hopen]
  exact fun c hc => (hothers.grown c hc).2

omit hP in
theorem grown_construction {callee : Expression} {items : List Expression} {trailingComma : Bool}
    (h : (part (Expression.construction callee items trailingComma span)).Every P)
    (ha : Grown P quiet a ∧ a.Renders .value callee) (hothers : Full P quiet arguments) :
    Grown P quiet { kind := .new, children := a :: arguments, span, flags := { trailingComma } } :=
  .mk ⟨⟨rfl, rfl, rfl⟩, nofun, fun c hc => (hothers.grown c hc).2,
    .inr ⟨_, h, .construction rfl rfl rfl ha.2⟩⟩
    (List.forall_mem_cons.mpr ⟨ha.1, fun c hc => (hothers.grown c hc).1⟩)

omit hP in
theorem grown_taggedTemplate {tag : Expression} {texts : List TemplateText} {values : List Expression}
    {templateSpan : Span} (h : (part (Expression.taggedTemplate tag texts values templateSpan span)).Every P)
    (ha : Grown P quiet a ∧ a.Renders .value tag) (hb : Full P quiet b) :
    Grown P quiet (.branch .taggedTemplate span [a, b]) :=
  .mk ⟨⟨rfl, rfl, rfl⟩, nofun, List.forall_mem_singleton.mpr hb.grown.2,
    .inr ⟨_, h, .taggedTemplate rfl rfl rfl ha.2⟩⟩ (forall_pair ha.1 hb.grown.1)

end Operators

omit hP in
theorem Quietly.operand {Q : Node → Prop} {n : Node} (h : Q n) : Quietly quiet Q (applyPending [] n) :=
  .of_gives (gives_applyPending h)

omit hP in
/-- A tree with the expression that it is drawn from. -/
theorem Quietly.drawn {role : Role} {e : Expression} (h : Sprouts P quiet (expression [] role e)) :
    Quietly quiet (fun n => Grown P quiet n ∧ n.Renders role e) (expression [] role e) :=
  h.and (.of_gives (renders_expression role e))

namespace Grows

/-! ## The recursion -/

-- `parts` and `parts_expression` say of the table of parts that its entries may stand by themselves; the
-- hypotheses that are named after constructs are those of the induction.

mutual

theorem expression (role : Role) : (e : Expression) → (part e).Every P →
    Sprouts P quiet (Lowering.expression [] role e)
  | .binary operator left right span, h => by
      have hleft := expression .value left (h.nth (i := 1) rfl)
      have hright := expression .value right (h.nth (i := 2) rfl)
      rw [expression_binary]
      exact .skim fun _ => ((sprouts_operand hleft).and (.of_gives (renders_operand operator left))).bind
        fun a ha => .skim fun _ => hright.drawn.bind fun b hb => .pure (grown_binary h ha hb)
  | .assignment operator left right span, h => by
      have hfits : (Expression.assignment operator left right span).Fits := hP.fits h.own
      have hl : Held P left := ⟨h.nth (i := 1) rfl, hfits.2.1⟩
      have hr : Held P right := ⟨h.nth (i := 2) rfl, hfits.2.2⟩
      have hleft (role : Role) := of_sprouts role hl (expression role left hl.formed.1)
      have hright := of_sprouts .value hr (expression .value right hr.formed.1)
      by_cases hdefault : takesDefault role = false ∨ operator ≠ .assign
      · rw [expression_assignment hdefault]
        refine .skim fun _ => (Quietly.and (grows_assigned hleft).run (.of_gives gives_assigned)).bind fun a ha => ?_
        refine .skim fun _ => (hright.run.and (.of_gives (renders_expression .value right))).bind fun b hb => ?_
        exact .pure (grown_assignment h ⟨ha.1⟩ ha.2 ⟨hb.1⟩ hb.2)
      · -- the assignment gives a target its default
        obtain ⟨hrole, rfl⟩ : takesDefault role = true ∧ operator = .assign := by simpa using hdefault
        rw [Lowering.expression.eq_def]
        cases role with
        | entry | parameter => exact .skim fun _ => sprouts inferInstance
        | rest kind => exact .skim fun _ => (hleft (.target kind)).sprouts
        | value | callee | target => cases hrole
  | .sequence [] span, h => absurd (hP.fits h.own).1 (by simp)
  | .sequence (first :: others) span, h => by
      have hi : Held P (first :: others) := .items h (hP.fits h.own).2.1 fun q hq => List.mem_cons_of_mem _ hq
      have hitems := expressions (first :: others) hi
      have hcomma : Quietly quiet (fun ns => Grown P quiet (commaNode ns)) (Lowering.expressions (first :: others)) :=
        fun s hs => (grown_comma h ⟨hitems.run s hs⟩ others [] (List.append_nil _).symm).grown.1
      rw [Lowering.expression]
      exact .skim fun _ => hcomma.bind fun _ hn => .operand hn
  | .conditional test consequent alternate span, h => by
      have hfits : (Expression.conditional test consequent alternate span).Fits := hP.fits h.own
      have ht : Held P test := ⟨h.nth (i := 1) rfl, Expression.separate_of_not_opens hfits.1⟩
      have hc : Held P consequent := ⟨h.nth (i := 2) rfl, hfits.2.1⟩
      have ha : Held P alternate := ⟨h.nth (i := 3) rfl, hfits.2.2⟩
      have htest := of_sprouts .value ht (expression .value test ht.formed.1)
      have hconsequent := of_sprouts .value hc (expression .value consequent hc.formed.1)
      have halternate := of_sprouts .value ha (expression .value alternate ha.formed.1)
      rw [Lowering.expression]
      refine .skim fun _ => (htest.run.and (.of_gives (renders_expression .value test))).bind fun a ha => ?_
      refine hconsequent.run.bind fun b hb => halternate.run.bind fun c hc => .operand ?_
      exact grown_conditional h ⟨ha.1⟩ ha.2 ⟨forall_pair hb hc⟩
  | .update increment afterOperand argument span, h => by
      have ha : Held P argument := (Held.parts_expression h).nth (i := 1) rfl
      have hargument := of_sprouts .value ha (expression .value argument ha.formed.1)
      rw [Lowering.expression]
      refine .skim fun _ => (quietly_checkUpdate increment afterOperand argument).bind fun _ hsimple => ?_
      refine (hargument.run.and (.of_gives (renders_expression .value argument))).bind fun a ha => .operand ?_
      exact grown_update h ⟨ha.1⟩ ha.2 hsimple
  | .member receiver property optional span, h => by
      have hreceiver := expression .value receiver (h.nth (i := 1) rfl)
      rw [Lowering.expression]
      refine .skim fun _ => .note fun _ => hreceiver.drawn.bind fun a ha => ?_
      refine (Quietly.of_gives (gives_memberNode_shape _ a property _ span)).bind fun n ⟨name, hn⟩ => .operand ?_
      rw [hn]
      exact grown_link rfl rfl rfl h (.member rfl rfl rfl rfl ha.2) ha.1 inferInstance
  | .computedMember receiver key optional span, h => by
      have hk : Held P key := ⟨h.nth (i := 2) rfl, hP.fits h.own⟩
      have hreceiver := expression .value receiver (h.nth (i := 1) rfl)
      have hkey := of_sprouts .value hk (expression .value key hk.formed.1)
      rw [Lowering.expression]
      refine .skim fun _ => .note fun _ => hreceiver.drawn.bind fun a ha => hkey.run.bind fun b hb => .operand ?_
      exact grown_link rfl rfl rfl h (.computedMember rfl rfl rfl rfl ha.2) ha.1 ⟨List.forall_mem_singleton.mpr hb⟩
  | .call callee items trailingComma optional span, h => by
      have hi : Held P items :=
        .items h (hP.fits h.own) fun q hq => List.mem_cons_of_mem _ (List.mem_cons_of_mem _ hq)
      have hcallee := expression .callee callee (h.nth (i := 1) rfl)
      have hitems := expressions items hi
      rw [Lowering.expression]
      refine .skim fun _ => .note fun _ => hcallee.drawn.bind fun a ha => hitems.run.bind fun ns hns => .operand ?_
      exact grown_link rfl rfl rfl h (.call rfl rfl rfl rfl ha.2) ha.1 ⟨hns⟩
  | .construction callee items trailingComma span, h => by
      have hi : Held P items :=
        .items h (hP.fits h.own).2 fun q hq => List.mem_cons_of_mem _ (List.mem_cons_of_mem _ hq)
      have hcallee := expression .value callee (h.nth (i := 1) rfl)
      have hitems := expressions items hi
      rw [Lowering.expression]
      refine .skim fun _ => hcallee.drawn.bind fun a ha => hitems.run.bind fun ns hns => .operand ?_
      exact grown_construction h ha ⟨hns⟩
  | .taggedTemplate tag texts substitutions templateSpan span, h => by
      have hi : Held P substitutions := .items h (hP.fits h.own).2 fun q hq =>
        List.mem_of_mem_drop (i := 3) (List.mem_append_right _ hq)
      have htag := expression .value tag (h.nth (i := 2) rfl)
      have hvalues := template true texts substitutions hi
      rw [Lowering.expression]
      refine .skim fun _ => htag.drawn.bind fun a ha => .skim fun _ => hvalues.run.bind fun ns hns => .operand ?_
      have hns : Full P quiet ns := ⟨hns⟩
      exact grown_taggedTemplate h ha inferInstance
  | .paren argument span, h => by
      have ha : Held P argument := (Held.parts_expression h).nth (i := 1) rfl
      have hargument := of_sprouts .value ha (expression .value argument ha.formed.1)
      rw [Lowering.expression]
      exact .skim fun _ => hargument.run.bind fun n hn => .operand (hn.1.mark rfl fun _ => hn.2)
  | .identifier _, _ | .privateName _, _ | .string _, _ | .this _, _ | .super _, _ | .null _, _
  | .boolean _ _, _ | .number _ _, _ | .bigint _ _, _ | .regexp _ _ _, _ | .newTarget _, _
  | .importMeta _, _ => by
      rw [Lowering.expression]
      exact sprouts inferInstance
  | .template texts substitutions span, h => by
      have hi : Held P substitutions := (Held.append_iff.mp ((Held.parts_expression h).drop 1)).2.of_map_part
      have hvalues := template false texts substitutions hi
      rw [Lowering.expression]
      exact sprouts inferInstance
  | .unary _ argument _, h | .await argument _, h | .dynamicImport argument _, h => by
      have ha : Held P argument := (Held.parts_expression h).nth (i := 1) rfl
      have hargument := of_sprouts .value ha (expression .value argument ha.formed.1)
      rw [Lowering.expression]
      exact sprouts inferInstance
  | .array elements trailingComma span, h => by
      have he : Held P elements := ((Held.parts_expression h).drop 1).of_map_part
      have hliteral := arrayLiteral elements he
      have hpattern (kind : TargetKind) := arrayPattern kind trailingComma elements he
      rw [Lowering.expression]
      refine .skim fun _ => sprouts ?_
      split <;> infer_instance
  | .object properties trailingComma span, h => by
      have hi : Held P properties := ((Held.parts_expression h).drop 1).of_map_part
      have hliteral := objectLiteral properties hi
      have hpattern (kind : TargetKind) := objectPattern kind properties hi
      rw [Lowering.expression]
      refine .skim fun _ => sprouts ?_
      split <;> infer_instance
  | .function f, h => by
      have hf := function f ((Held.parts_expression h).nth (i := 0) rfl)
      rw [Lowering.expression]
      exact sprouts inferInstance
  | .classExpression c, h => by
      have hc := classDefinition c ((Held.parts_expression h).nth (i := 0) rfl)
      rw [Lowering.expression]
      exact sprouts inferInstance
  | .spread argument span, h => by
      have ha : Held P argument := (Held.parts_expression h).nth (i := 1) rfl
      have hargument (role : Role) := of_sprouts role ha (expression role argument ha.formed.1)
      rw [Lowering.expression.eq_def]
      refine .skim fun _ => sprouts ?_
      dsimp only
      split <;> infer_instance
  | .yield argument delegates span, h => by
      have ho := optional argument ((Held.parts_expression h).drop 1).of_toList_part
      rw [Lowering.expression]
      exact sprouts inferInstance

theorem expressions : (es : List Expression) → Held P es → Grows P quiet (Lowering.expressions es)
  | [], _ => by
      rw [Lowering.expressions]
      infer_instance
  | e :: rest, h => by
      have ⟨he, hr⟩ := Held.cons_iff.mp h
      have hfirst := of_sprouts .value he (expression .value e he.formed.1)
      have hrest := expressions rest hr
      rw [Lowering.expressions]
      infer_instance

theorem optional : (e : Option Expression) → Held P e → Grows P quiet (Lowering.optional e)
  | none, _ => by
      rw [Lowering.optional]
      infer_instance
  | some e, h => by
      have he := Held.some_iff.mp h
      have hvalue := of_sprouts .value he (expression .value e he.formed.1)
      rw [Lowering.optional]
      infer_instance

theorem template (tagged : Bool) (texts : List TemplateText) : (es : List Expression) → Held P es →
    Grows P quiet (Lowering.template tagged texts es)
  | [], _ => by
      rw [Lowering.template]
      exact mapM texts inferInstance
  | e :: rest, h => by
      have ⟨he, hr⟩ := Held.cons_iff.mp h
      have hvalue := of_sprouts .value he (expression .value e he.formed.1)
      have hrest (texts : List TemplateText) := template tagged texts rest hr
      rw [Lowering.template.eq_def]
      dsimp only
      split <;> infer_instance

theorem arrayLiteral : (items : List ArrayElement) → Held P items → Grows P quiet (Lowering.arrayLiteral items)
  | [], _ => by
      rw [Lowering.arrayLiteral]
      infer_instance
  | .hole span :: rest, h => by
      have hrest := arrayLiteral rest (Held.cons_iff.mp h).2
      rw [Lowering.arrayLiteral]
      infer_instance
  | .item e :: rest, h => by
      have ⟨hi, hr⟩ := Held.cons_iff.mp h
      have he : Held P e := (Held.parts rfl hi.formed).nth (i := 0) rfl
      have hitem := of_sprouts .value he (expression .value e he.formed.1)
      have hrest := arrayLiteral rest hr
      rw [Lowering.arrayLiteral]
      infer_instance
  | .spread argument span :: rest, h => by
      have ⟨hi, hr⟩ := Held.cons_iff.mp h
      have ha : Held P argument := (Held.parts rfl hi.formed).nth (i := 1) rfl
      have hargument := of_sprouts .value ha (expression .value argument ha.formed.1)
      have hrest := arrayLiteral rest hr
      rw [Lowering.arrayLiteral]
      infer_instance

theorem arrayPattern (kind : TargetKind) (trailingComma : Bool) : (items : List ArrayElement) →
    Held P items → Grows P quiet (Lowering.arrayPattern kind trailingComma items)
  | [], _ => by
      rw [Lowering.arrayPattern]
      infer_instance
  | .hole span :: rest, h => by
      have hrest := arrayPattern kind trailingComma rest (Held.cons_iff.mp h).2
      rw [Lowering.arrayPattern]
      infer_instance
  | .item e :: rest, h => by
      have ⟨hi, hr⟩ := Held.cons_iff.mp h
      have he : Held P e := (Held.parts rfl hi.formed).nth (i := 0) rfl
      have hitem := of_sprouts (.entry kind) he (expression (.entry kind) e he.formed.1)
      have hrest := arrayPattern kind trailingComma rest hr
      rw [Lowering.arrayPattern]
      infer_instance
  | .spread argument span :: rest, h => by
      have ⟨hi, hr⟩ := Held.cons_iff.mp h
      have ha : Held P argument := (Held.parts rfl hi.formed).nth (i := 1) rfl
      have hargument := of_sprouts (.rest kind) ha (expression (.rest kind) argument ha.formed.1)
      have hrest := arrayPattern kind trailingComma rest hr
      rw [Lowering.arrayPattern]
      infer_instance

theorem objectLiteral : (items : List Property) → Held P items → Grows P quiet (Lowering.objectLiteral items)
  | [], _ => by
      rw [Lowering.objectLiteral]
      infer_instance
  | .keyValue (.computed e _) value span :: rest, h => by
      have ⟨hi, hr⟩ := Held.cons_iff.mp h
      have hk : Held P (PropertyKey.computed e _) := (Held.parts rfl hi.formed).nth (i := 1) rfl
      have hv : Held P value := (Held.parts rfl hi.formed).nth (i := 2) rfl
      have he : Held P e := (Held.parts rfl hk.formed).nth (i := 1) rfl
      have hkey := of_sprouts .value he (expression .value e he.formed.1)
      have hvalue := of_sprouts .value hv (expression .value value hv.formed.1)
      have hrest := objectLiteral rest hr
      rw [Lowering.objectLiteral]
      infer_instance
  | .keyValue (.name _) value span :: rest, h | .keyValue (.hidden _) value span :: rest, h
  | .keyValue (.string _) value span :: rest, h | .keyValue (.number _ _) value span :: rest, h
  | .keyValue (.bigint _ _) value span :: rest, h => by
      have ⟨hi, hr⟩ := Held.cons_iff.mp h
      have hv : Held P value := (Held.parts rfl hi.formed).nth (i := 2) rfl
      have hvalue := of_sprouts .value hv (expression .value value hv.formed.1)
      have hrest := objectLiteral rest hr
      rw [Lowering.objectLiteral] <;> first | infer_instance | nofun
  | .shorthand name default span :: rest, h => by
      have ⟨hi, hr⟩ := Held.cons_iff.mp h
      have hvalue := optional default ((Held.parts rfl hi.formed).drop 2).of_toList_part
      have hrest := objectLiteral rest hr
      rw [Lowering.objectLiteral]
      refine skim fun _ => skim fun _ => ?_
      cases default with
      | none | some => infer_instance
  | .method key f span :: rest, h => by
      have ⟨hi, hr⟩ := Held.cons_iff.mp h
      have hkey := keyExpression key ((Held.parts rfl hi.formed).nth (i := 1) rfl)
      have hf := function f ((Held.parts rfl hi.formed).nth (i := 2) rfl)
      have hmethod : Grows P quiet (Lowering.objectMethodNode key f.kind span (Lowering.keyExpression key)
        (Lowering.function f)) := objectMethodNode key f.kind span (kind_function f)
      have hrest := objectLiteral rest hr
      rw [Lowering.objectLiteral]
      infer_instance
  | .spread argument span :: rest, h => by
      have ⟨hi, hr⟩ := Held.cons_iff.mp h
      have ha : Held P argument := (Held.parts rfl hi.formed).nth (i := 1) rfl
      have hargument := of_sprouts .value ha (expression .value argument ha.formed.1)
      have hrest := objectLiteral rest hr
      rw [Lowering.objectLiteral]
      infer_instance

theorem objectPattern (kind : TargetKind) : (items : List Property) → Held P items →
    Grows P quiet (Lowering.objectPattern kind items)
  | [], _ => by
      rw [Lowering.objectPattern]
      infer_instance
  | .keyValue (.computed e _) value span :: rest, h => by
      have ⟨hi, hr⟩ := Held.cons_iff.mp h
      have hk : Held P (PropertyKey.computed e _) := (Held.parts rfl hi.formed).nth (i := 1) rfl
      have hv : Held P value := (Held.parts rfl hi.formed).nth (i := 2) rfl
      have he : Held P e := (Held.parts rfl hk.formed).nth (i := 1) rfl
      have hkey := of_sprouts .value he (expression .value e he.formed.1)
      have hvalue := of_sprouts (.entry kind) hv (expression (.entry kind) value hv.formed.1)
      have hrest := objectPattern kind rest hr
      rw [Lowering.objectPattern]
      infer_instance
  | .keyValue (.name _) value span :: rest, h | .keyValue (.hidden _) value span :: rest, h
  | .keyValue (.string _) value span :: rest, h | .keyValue (.number _ _) value span :: rest, h
  | .keyValue (.bigint _ _) value span :: rest, h => by
      have ⟨hi, hr⟩ := Held.cons_iff.mp h
      have hv : Held P value := (Held.parts rfl hi.formed).nth (i := 2) rfl
      have hvalue := of_sprouts (.entry kind) hv (expression (.entry kind) value hv.formed.1)
      have hrest := objectPattern kind rest hr
      rw [Lowering.objectPattern] <;> first | infer_instance | nofun
  | .shorthand name default span :: rest, h => by
      have ⟨hi, hr⟩ := Held.cons_iff.mp h
      have hvalue := optional default ((Held.parts rfl hi.formed).drop 2).of_toList_part
      have hrest := objectPattern kind rest hr
      rw [Lowering.objectPattern]
      exact skim fun _ => inferInstance
  | .method key f span :: rest, h => by
      have hrest := objectPattern kind rest (Held.cons_iff.mp h).2
      rw [Lowering.objectPattern]
      infer_instance
  | .spread argument span :: rest, h => by
      have ⟨hi, hr⟩ := Held.cons_iff.mp h
      have ha : Held P argument := (Held.parts rfl hi.formed).nth (i := 1) rfl
      have hargument := of_sprouts (.rest kind) ha (expression (.rest kind) argument ha.formed.1)
      have hrest := objectPattern kind rest hr
      rw [Lowering.objectPattern]
      infer_instance

theorem function : (f : Function) → Held P f → Grows P quiet (Lowering.function f)
  | .mk name items trailingComma parametersSpan body kind isAsync isGenerator span, h => by
      have hp := Held.parts rfl h.formed
      have hparameters (objected : Bool) :=
        parameters trailingComma objected items (Held.append_iff.mp (hp.drop 3)).2.of_map_part
      have hbody := functionBody body (hp.nth (i := 2) rfl)
      rw [Lowering.function]
      infer_instance

theorem parameters (trailingComma objected : Bool) : (items : List Expression) → Held P items →
    Grows P quiet (Lowering.parameters trailingComma objected items)
  | [], _ => by
      rw [Lowering.parameters]
      infer_instance
  | e :: rest, h => by
      have ⟨he, hr⟩ := Held.cons_iff.mp h
      have hfirst (role : Role) := of_sprouts role he (expression role e he.formed.1)
      have hrest := parameters trailingComma objected rest hr
      rw [Lowering.parameters]
      infer_instance

theorem functionBody : (body : FunctionBody) → Held P body → Grows P quiet (Lowering.functionBody body)
  | .block b, h => by
      rw [Lowering.functionBody]
      exact block false b ((Held.parts rfl h.formed).nth (i := 0) rfl)
  | .expression e, h => by
      have he : Held P e := (Held.parts rfl h.formed).nth (i := 0) rfl
      rw [Lowering.functionBody]
      exact of_sprouts .value he (expression .value e he.formed.1)

theorem block (nested : Bool) : (b : Block) → Held P b → Grows P quiet (Lowering.block nested b)
  | .mk items span, h => by
      have hitems := statements nested items ((Held.parts rfl h.formed).drop 1).of_map_part
      rw [Lowering.block]
      infer_instance

theorem statements (nested : Bool) : (items : List Statement) → Held P items →
    Grows P quiet (Lowering.statements nested items)
  | [], _ => by
      rw [Lowering.statements]
      infer_instance
  | s :: rest, h => by
      have ⟨hs, hr⟩ := Held.cons_iff.mp h
      have hfirst := statement s hs
      have hrest := statements nested rest hr
      rw [Lowering.statements]
      infer_instance

theorem classDefinition : (c : ClassDefinition) → Held P c → Grows P quiet (Lowering.classDefinition c)
  | .mk name heritage members bodySpan span, h => by
      have hp := (Held.append_iff.mp ((Held.parts rfl h.formed).drop 2)).2
      have hheritage : Held P heritage := (Held.append_iff.mp hp).1.of_toList_part
      have hmembers := classMembers members (Held.append_iff.mp hp).2.of_map_part
      rw [Lowering.classDefinition]
      cases heritage with
      | some e =>
          have he := Held.some_iff.mp hheritage
          have hvalue := of_sprouts .value he (expression .value e he.formed.1)
          cases name <;> infer_instance
      | none => cases name <;> infer_instance

theorem classMembers : (members : List ClassMember) → Held P members →
    Grows P quiet (Lowering.classMembers members)
  | [], _ => by
      rw [Lowering.classMembers]
      infer_instance
  | member :: rest, h => by
      have ⟨hm, hr⟩ := Held.cons_iff.mp h
      have hfirst := classMember member hm
      have hrest := classMembers rest hr
      rw [Lowering.classMembers]
      infer_instance

theorem classMember : (member : ClassMember) → Held P member → Grows P quiet (Lowering.classMember member)
  | .method key f isStatic span, h => by
      have hkey := keyExpression key ((Held.parts rfl h.formed).nth (i := 1) rfl)
      have hf := function f ((Held.parts rfl h.formed).nth (i := 2) rfl)
      have hmethod : Grows P quiet (Lowering.classMethodNode key f.kind span (Lowering.keyExpression key)
        (Lowering.function f)) := classMethodNode key f.kind span (kind_function f)
      rw [Lowering.classMember]
      infer_instance
  | .field key value isStatic span, h => by
      have hkey := keyExpression key ((Held.parts rfl h.formed).nth (i := 1) rfl)
      have hvalue : Held P value := ((Held.parts rfl h.formed).drop 2).of_toList_part
      have hkind : Gives (·.kind.isPlain = true) (classFieldNode key span (Lowering.keyExpression key)) := by
        intro s
        obtain hk | hk := kind_classFieldNode key span (Lowering.keyExpression key) s <;> rw [hk]
      rw [Lowering.classMember]
      refine bind_gives inferInstance hkind (fun node hn => ?_) fun node => by cases value <;> infer_instance
      have hchange (values : List Node) [Full P quiet values] :
          Full P quiet { node.val with children := node.val.children ++ values } :=
        have := node.full.children hn
        node.full.change hn inferInstance
      cases value with
      | some e =>
          have he := Held.some_iff.mp hvalue
          have hinner := of_sprouts .value he (expression .value e he.formed.1)
          infer_instance
      | none =>
          infer_instance
  | .staticBlock (.mk items span), h => by
      have hb : Held P (Block.mk items span) := (Held.parts rfl h.formed).nth (i := 0) rfl
      have hitems := statements false items ((Held.parts rfl hb.formed).drop 1).of_map_part
      rw [Lowering.classMember]
      infer_instance

theorem keyExpression : (key : PropertyKey) → Held P key → Grows P quiet (Lowering.keyExpression key)
  | .computed e span, h => by
      have he : Held P e := (Held.parts rfl h.formed).nth (i := 1) rfl
      rw [Lowering.keyExpression]
      exact of_sprouts .value he (expression .value e he.formed.1)
  | .name _, _ | .hidden _, _ | .string _, _ | .number _ _, _ | .bigint _ _, _ => by
      rw [Lowering.keyExpression]
      · exact ⟨.pure (Full.node ⟨rfl, rfl, rfl⟩ ⟨rfl⟩ rfl (inferInstanceAs (Full P quiet []))).grown⟩
      · nofun

theorem declaration (loop : Option String) : (d : Declaration) → Held P d →
    Grows P quiet (Lowering.declaration loop d)
  | .mk kind declarators span, h => by
      have hd := declaratorList kind loop declarators ((Held.parts rfl h.formed).drop 1).of_map_part
      rw [Lowering.declaration]
      infer_instance

theorem declaratorList (kind : VariableKind) (loop : Option String) : (items : List Declarator) →
    Held P items → Grows P quiet (Lowering.declaratorList kind loop items)
  | [], _ => by
      rw [Lowering.declaratorList]
      infer_instance
  | .mk target value span :: rest, h => by
      have ⟨hi, hr⟩ := Held.cons_iff.mp h
      have ht : Held P target := (Held.parts rfl hi.formed).nth (i := 1) rfl
      have htarget := of_sprouts (.target .binding) ht (expression (.target .binding) target ht.formed.1)
      have hvalue := optional value ((Held.parts rfl hi.formed).drop 2).of_toList_part
      have hrest := declaratorList kind loop rest hr
      have hkind : Gives (fun n => isIdentifier target = true → n.kind = .identifier)
        (Lowering.expression [] (.target .binding) target) := fun s hi => kind_expression hi _ s
      rw [Lowering.declaratorList]
      refine skim fun _ => bind_gives htarget hkind fun node hn => bind hvalue fun values => ?_
      have hdeclarator : Full P quiet (Lowering.declaratorNode (isIdentifier target) node.val values.val span) :=
        declaratorNode node.val hn values.val span
      infer_instance

theorem loopTarget (loop : String) : (head : LoopHead) → Held P head →
    Grows P quiet (Lowering.loopTarget loop head)
  | .declaration d, h => by
      have hd := declaration (some loop) d ((Held.parts rfl h.formed).nth (i := 0) rfl)
      rw [Lowering.loopTarget]
      infer_instance
  | .expression e, h => by
      have he : Held P e := (Held.parts rfl h.formed).nth (i := 0) rfl
      rw [Lowering.loopTarget]
      exact of_sprouts _ he (expression _ e he.formed.1)

theorem loopPart (span : Span) : (e : Option Expression) → Held P e → Grows P quiet (Lowering.loopPart span e)
  | some e, h => by
      have he := Held.some_iff.mp h
      rw [Lowering.loopPart]
      exact of_sprouts .value he (expression .value e he.formed.1)
  | none, _ => by
      rw [Lowering.loopPart]
      infer_instance

theorem switchCases : (cases : List SwitchCase) → Held P cases → Grows P quiet (Lowering.switchCases cases)
  | [], _ => by
      rw [Lowering.switchCases]
      infer_instance
  | .mk test items span :: rest, h => by
      have ⟨hc, hr⟩ := Held.cons_iff.mp h
      have hp := Held.append_iff.mp ((Held.parts rfl hc.formed).drop 1)
      have htest := optional test hp.1.of_toList_part
      have hitems := statements true items hp.2.of_map_part
      have hrest := switchCases rest hr
      rw [Lowering.switchCases]
      infer_instance

theorem catchClause : (clause : CatchClause) → Held P clause → Grows P quiet (Lowering.catchClause clause)
  | .mk binding gap body span, h => by
      have hbody := block true body ((Held.parts rfl h.formed).nth (i := 2) rfl)
      have hbinding : Held P binding := ((Held.parts rfl h.formed).drop 3).of_toList_part
      cases binding with
      | some e =>
          have he := Held.some_iff.mp hbinding
          have htarget := of_sprouts (.target .binding) he (expression (.target .binding) e he.formed.1)
          rw [Lowering.catchClause]
          infer_instance
      | none =>
          rw [Lowering.catchClause]
          infer_instance

theorem statement : (s : Statement) → Held P s → Grows P quiet (Lowering.statement s)
  | .empty _, _ | .error _, _ | .debugger _, _ | .continue _ _, _ | .break _ _, _ | .import _, _
  | .exportNamed _ _ _ _, _ | .exportAll _ _ _, _ => by
      rw [Lowering.statement]
      infer_instance
  | .block b, h => by
      rw [Lowering.statement]
      exact block true b ((Held.parts rfl h.formed).nth (i := 0) rfl)
  | .variable d, h => by
      rw [Lowering.statement]
      exact declaration none d ((Held.parts rfl h.formed).nth (i := 0) rfl)
  | .expression e _, h | .throw e _, h => by
      have he : Held P e := (Held.parts rfl h.formed).nth (i := 1) rfl
      have hvalue := of_sprouts .value he (expression .value e he.formed.1)
      rw [Lowering.statement]
      infer_instance
  | .conditional test consequent alternate _, h => by
      have hp := Held.parts rfl h.formed
      have ht : Held P test := hp.nth (i := 1) rfl
      have htest := of_sprouts .value ht (expression .value test ht.formed.1)
      have hconsequent := statement consequent (hp.nth (i := 2) rfl)
      have ha : Held P alternate := (hp.drop 3).of_toList_part
      rw [Lowering.statement]
      cases alternate with
      | some other =>
          have halternate := statement other (Held.some_iff.mp ha)
          infer_instance
      | none => infer_instance
  | .doWhile body e _, h | .while e body _, h | .with e body _, h => by
      have hp := Held.parts rfl h.formed
      have he : Held P e := hp.nth (i := 1) rfl
      have hvalue := of_sprouts .value he (expression .value e he.formed.1)
      have hbody := statement body (hp.nth (i := 2) rfl)
      rw [Lowering.statement]
      infer_instance
  | .for head test update body _, h => by
      have hp := Held.parts rfl h.formed
      have hbody := statement body (hp.nth (i := 1) rfl)
      have ⟨hh, hrest⟩ := Held.append_iff.mp (hp.drop 2)
      have hh : Held P head := hh.of_toList_part
      have htest (span : Span) := loopPart span test (Held.append_iff.mp hrest).1.of_toList_part
      have hupdate (span : Span) := loopPart span update (Held.append_iff.mp hrest).2.of_toList_part
      match head with
      | some (.declaration d) =>
          have hd := declaration none d ((Held.parts rfl (Held.some_iff.mp hh).formed).nth (i := 0) rfl)
          rw [Lowering.statement]
          infer_instance
      | some (.expression e) =>
          have he : Held P e := (Held.parts rfl (Held.some_iff.mp hh).formed).nth (i := 0) rfl
          have hvalue := of_sprouts .value he (expression .value e he.formed.1)
          rw [Lowering.statement]
          infer_instance
      | none =>
          rw [Lowering.statement]
          infer_instance
  | .forIn head e body _, h | .forOf head e body _ _, h => by
      have hp := Held.parts rfl h.formed
      have hhead (loop : String) := loopTarget loop head (hp.nth (i := 1) rfl)
      have he : Held P e := hp.nth (i := 2) rfl
      have hvalue := of_sprouts .value he (expression .value e he.formed.1)
      have hbody := statement body (hp.nth (i := 3) rfl)
      rw [Lowering.statement]
      infer_instance
  | .return argument _, h => by
      have hvalue := optional argument ((Held.parts rfl h.formed).drop 1).of_toList_part
      rw [Lowering.statement]
      infer_instance
  | .switch discriminant cases _, h => by
      have hp := Held.parts rfl h.formed
      have hd : Held P discriminant := hp.nth (i := 1) rfl
      have hvalue := of_sprouts .value hd (expression .value discriminant hd.formed.1)
      have hcases := switchCases cases (hp.drop 2).of_map_part
      rw [Lowering.statement]
      infer_instance
  | .labeled label body _, h => by
      have hbody := statement body ((Held.parts rfl h.formed).nth (i := 2) rfl)
      rw [Lowering.statement]
      infer_instance
  | .try (.mk items blockSpan) handler finalizer _, h => by
      have hp := Held.parts rfl h.formed
      have hb : Held P (Block.mk items blockSpan) := hp.nth (i := 1) rfl
      have hitems := statements true items ((Held.parts rfl hb.formed).drop 1).of_map_part
      have hh : Held P handler := (Held.append_iff.mp (hp.drop 2)).1.of_toList_part
      have hf : Held P finalizer := (Held.append_iff.mp (hp.drop 2)).2.of_toList_part
      rw [Lowering.statement]
      cases handler with
      | some clause =>
          have hclause := catchClause clause (Held.some_iff.mp hh)
          cases finalizer with
          | some final =>
              have hfinal := block true final (Held.some_iff.mp hf)
              infer_instance
          | none => infer_instance
      | none =>
          cases finalizer with
          | some final =>
              have hfinal := block true final (Held.some_iff.mp hf)
              infer_instance
          | none => infer_instance
  | .function f, h => by
      rw [Lowering.statement]
      exact function f ((Held.parts rfl h.formed).nth (i := 0) rfl)
  | .classDeclaration c, h => by
      rw [Lowering.statement]
      exact classDefinition c ((Held.parts rfl h.formed).nth (i := 0) rfl)
  | .exportDeclaration s _, h => by
      have hs := statement s ((Held.parts rfl h.formed).nth (i := 1) rfl)
      rw [Lowering.statement]
      infer_instance
  | .exportDefault value _, h => by
      have hv : Held P value := (Held.parts rfl h.formed).nth (i := 1) rfl
      have hvalue := statement value hv
      rw [Lowering.statement.eq_def]
      dsimp only
      refine skim fun _ => ?_
      cases value with
      | expression e _ =>
          have he : Held P e := (Held.parts rfl hv.formed).nth (i := 1) rfl
          have hinner := of_sprouts .value he (expression .value e he.formed.1)
          infer_instance
      | _ => infer_instance

end

end Grows

end Lowering

end EcmaScript
