import EcmaScript.Proofs.Layout.Lowering
import EcmaScript.Proofs.Shape.Script

/-!
# Operators and the text of their operands

The node of a binary operator or of an assignment covers the text of its operands, from the first character
of the left one to the last of the right one: the grammar takes the region from the expressions. A comma takes
it from the nodes of the operands. So it starts at the name if the first item is a property access, and
parentheses around the first item or the right one are left out.

## Contents

* `Expression.isEnclosed`: what is written in parentheses.
* `Laid.before_comma`: items before a comma and behind it.
* `start_joined`, `stop_joined`, `stop_right`: the operands of a comma.
* `parse_operands`: the tree of a parse.
-/

namespace EcmaScript

open IsPart (part)

/-- Whether the expression ends with a parenthesis that is not part of its node. A sequence among other items
has such parentheses. -/
def Expression.isEnclosed : Expression → Bool
  | paren .. | sequence .. => true
  | _ => false

/-! ## Items and their commas -/

/-- **The items before a comma stand before the one behind it.** -/
theorem Laid.before_comma {first right : Expression} {between behind : List Expression} {s : Span} {lo hi : Nat}
    (h : Laid lo (Expression.sequence (first :: (between ++ right :: behind)) s).pieces hi) :
    ∃ lo mid hi, Laid lo (Expression.joined first between).pieces mid ∧ mid ≤ right.span.offset ∧
      Laid mid right.pieces hi := by
  obtain ⟨-, -, hin, -⟩ := Laid.region_alone.mp h
  have hitems : Piece.of first ++ Piece.each (between ++ right :: behind) =
      Piece.each (first :: between) ++ (Piece.of right ++ Piece.each behind) := by
    simp [Piece.each]
  rw [hitems] at hin
  obtain ⟨mid, hlo, -, hbefore, hbehind⟩ := hin.of_append s.offset_le_stop
  obtain ⟨next, -, hjoined, hnext, -⟩ := Laid.part_iff.mp (hbefore.joined hlo)
  obtain ⟨hi, -, hright, -, -⟩ := Laid.part_iff.mp hbehind
  exact ⟨s.offset, next, hi, hjoined, Nat.le_trans hnext (Laid.expression right hright).start,
    hright.mono hnext (Nat.le_refl _)⟩

namespace Lowering

variable {P : Part → Prop} [hP : Part.Fitting P] {first right : Expression} {between : List Expression} {a b : Node}
  {lo hi : Nat}

theorem start_commaNode (n : Node) (ns : List Node) : (commaNode (n :: ns)).span.start = n.span.start := by
  show (ns.foldl _ n).span.start = _
  induction ns generalizing n with
  | nil => rfl
  | cons m ns ih => exact ih _

/-- What is joined by commas starts where the first item does, if that is where the node of the item is. -/
theorem start_joined (h : (part first).Every P) (hplace : first.isDisplaced = false)
    (ha : a.Renders .value (.joined first between)) : a.span.start = (Expression.joined first between).start := by
  have hfirst (s : State) := (face_expression .value rfl first h s).span hplace
  obtain ⟨s, rfl⟩ := ha
  unfold Expression.joined
  split
  next => rw [hfirst]; rfl
  next last _ =>
    rw [expression]
    show (commaNode (expressions (first :: between) s).1).span.start = _
    rw [expressions_cons, start_commaNode, hfirst]
    rfl

omit hP in
/-- It ends before what stands behind it. -/
theorem stop_joined (h : Laid lo (Expression.joined first between).pieces hi)
    (ha : a.Renders .value (.joined first between)) : a.span.stop ≤ hi := by
  obtain ⟨s, rfl⟩ := ha
  exact (Lowers.expression _ h .stop s).laid.fits.stop

omit hP in
theorem span_member (receiver : Expression) (property : MemberName) (optional : Bool) (span : Span) :
    Gives (·.span = span) (expression [] .value (.member receiver property optional span)) := by
  rw [expression]
  refine .skim fun _ => .note fun _ => .skim fun a => ?_
  refine .bind (gives_memberNode_shape _ _ _ _ _) fun n hshape => ?_
  obtain ⟨name, hn⟩ := hshape
  exact gives_applyPending (hn ▸ rfl)

/-- The right operand ends where its node does, unless it is in parentheses. -/
theorem stop_right (h : (part right).Every P) (hopen : right.isEnclosed = false) (hlaid : Laid lo right.pieces hi)
    (hb : b.Renders .value right) : b.span.stop = right.span.stop := by
  obtain ⟨s, rfl⟩ := hb
  cases right with
  | member receiver property optional span =>
      obtain ⟨mid, -, hreceiver, -, hname⟩ := Laid.part_iff.mp hlaid
      have hstop : receiver.span.stop ≤ span.stop := Nat.le_trans (Laid.expression receiver hreceiver).stop
        (Nat.le_trans (Laid.leaf_iff.mp hname).1 span.offset_le_stop)
      rw [span_member]
      exact ((Span.stop_extendTo _ _).trans (Nat.max_eq_right hstop)).symm
  | paren | sequence => cases hopen
  | _ => rw [(face_expression .value rfl _ h s).span rfl]

end Lowering

/-! ## Operators -/

namespace Node

/-- The children of the node are made of the two operands. -/
def HasOperands (left right : Expression) (n : Node) : Prop :=
  ∃ a b role, n.children = [a, b] ∧ a.Renders role left ∧ b.Renders .value right

/-- The node starts with the first character of the left operand and ends with the last one of the right. -/
def Covers (left right : Expression) (n : Node) : Prop := n.span = .between left.start right.span.stop

namespace Sprouts

variable {P : Part → Prop} [hP : Part.Fitting P] {quiet : Prop} {n : Node}

theorem binary (h : n.Sprouts P quiet) (hk : n.kind.operation? = some .binary) :
    ∃ operator left right, (part (Expression.binary operator left right n.span)).Every P ∧
      n.kind = .ofBinary operator ∧ n.HasOperands left right ∧ n.Covers left right := by
  obtain ⟨e, he, hdrawn, ho⟩ := h.drawn hk
  cases hdrawn with
  | binary kind span flags children ha hb =>
      subst span
      exact ⟨_, _, _, he, kind, ⟨_, _, _, children, ha, hb⟩, hP.fits he.own⟩
  | _ => cases ho

theorem assignment (h : n.Sprouts P quiet) (hk : n.kind.operation? = some .assignment) :
    ∃ operator left right, (part (Expression.assignment operator left right n.span)).Every P ∧
      n.kind = .ofAssignment operator ∧ n.HasOperands left right ∧ n.Covers left right := by
  obtain ⟨e, he, hdrawn, ho⟩ := h.drawn hk
  cases hdrawn with
  | assignment kind span flags children ha hb =>
      subst span
      exact ⟨_, _, _, he, kind, ⟨_, _, _, children, ha, hb⟩, (hP.fits he.own).1⟩
  | _ => cases ho

/-- A comma covers the nodes of its operands, and their text if the nodes are where the text is. -/
theorem comma (h : n.Sprouts P quiet) (hk : n.kind.operation? = some .comma) :
    ∃ first between right behind s,
      (part (Expression.sequence (first :: (between ++ right :: behind)) s)).Every P ∧
      n.HasOperands (.joined first between) right ∧
      (∀ a b, n.children = [a, b] → n.span = a.span.extendTo b.span) ∧
      (first.isDisplaced = false → right.isEnclosed = false → n.Covers (.joined first between) right) := by
  obtain ⟨e, he, hdrawn, ho⟩ := h.drawn hk
  cases hdrawn with
  | @comma _ a b first right between behind s kind span flags children ha hb =>
      obtain ⟨-, -, _, _, hlaid⟩ : 2 ≤ _ ∧ _ := hP.fits he.own
      obtain ⟨_, mid, _, hjoined, hmid, hright⟩ := hlaid.before_comma
      have hspan : ∀ a b, n.children = [a, b] → n.span = a.span.extendTo b.span := by
        rw [children]
        rintro _ _ ⟨⟩
        exact span
      refine ⟨first, between, right, behind, s, he, ⟨a, b, _, children, ha, hb⟩, hspan, fun hplace hopen => ?_⟩
      have hpart (q : Part) (hq : q ∈ (first :: (between ++ right :: behind)).map part) : q.Every P :=
        he.inner q (List.mem_cons_of_mem _ hq)
      have hstart := Lowering.start_joined (hpart _ List.mem_cons_self) hplace ha
      have hstop := Lowering.stop_right (hpart _ (List.mem_map_of_mem (by simp))) hopen hright hb
      have hle : a.span.stop ≤ b.span.stop := Nat.le_trans (Lowering.stop_joined hjoined ha)
        (hstop ▸ Nat.le_trans hmid right.span.offset_le_stop)
      unfold Covers
      rw [span, Span.extendTo, hstart, Nat.max_eq_right hle, hstop]
  | _ => cases ho

end Sprouts

end Node

/-! ## The whole parse -/

/-- **Operators cover their operands.** Every binary operator and every assignment in the tree of a parse is
drawn from one in the concrete tree, and it starts where its left operand does and ends where its right one
does. A comma stands for a part of a sequence: all items up to one. It covers their nodes; and it covers the
items if the first of them is neither a property access nor in parentheses, and the last one is not in
parentheses. -/
theorem parse_operands (name source : String) (o : Options) {tree : Node}
    (htree : tree ∈ (parse name source o).root) {n : Node} (hn : n ∈ tree.bare.preorder) :
    (n.kind.isBinary = true → ∃ operator left right,
        (Expression.binary operator left right n.span).OccursIn (concreteTree name source o) ∧
        n.kind = .ofBinary operator ∧ n.HasOperands left right ∧ n.Covers left right) ∧
      (n.kind.isAssignment = true → ∃ operator left right,
        (Expression.assignment operator left right n.span).OccursIn (concreteTree name source o) ∧
        n.kind = .ofAssignment operator ∧ n.HasOperands left right ∧ n.Covers left right) ∧
      (n.kind = .comma → ∃ first between right behind s,
        (Expression.sequence (first :: (between ++ right :: behind)) s).OccursIn (concreteTree name source o) ∧
        n.HasOperands (.joined first between) right ∧
        (∀ a b, n.children = [a, b] → n.span = a.span.extendTo b.span) ∧
        (first.isDisplaced = false → right.isEnclosed = false → n.Covers (.joined first between) right)) := by
  have hgrown := (grown_parse name source o tree htree).1.of_mem_preorder hn
  refine ⟨fun hk => ?_, fun hk => ?_, fun hk => ?_⟩
  · obtain ⟨operator, left, right, he, h⟩ := hgrown.own.binary (NodeKind.operation?_of_isBinary hk)
    exact ⟨operator, left, right, he.own.2, h⟩
  · obtain ⟨operator, left, right, he, h⟩ := hgrown.own.assignment (NodeKind.operation?_of_isAssignment hk)
    exact ⟨operator, left, right, he.own.2, h⟩
  · obtain ⟨first, between, right, behind, s, he, h⟩ := hgrown.own.comma (by rw [hk]; rfl)
    exact ⟨first, between, right, behind, s, he.own.2, h⟩

/-- Items joined by commas are neither displaced nor in parentheses. -/
def Part.JoinsOpen (p : Part) : Prop :=
  ∀ items s, p = .expression (.sequence items s) → ∀ e ∈ items, e.isDisplaced = false ∧ e.isEnclosed = false

theorem Part.joinsOpen_names (i j : Identifier) (s whole : Span) :
    (part (Statement.expression (.sequence [.identifier i, .identifier j] s) whole)).Every Part.JoinsOpen := by
  have hspan (s : Span) : (Part.span s).Every Part.JoinsOpen := .mk nofun nofun
  have hname (i : Identifier) : (part (Expression.identifier i)).Every Part.JoinsOpen :=
    .mk nofun (List.forall_mem_singleton.mpr (hspan i.span))
  refine .mk nofun (List.forall_mem_cons.mpr ⟨hspan whole, List.forall_mem_singleton.mpr (.mk ?_ ?_)⟩)
  · rintro _ _ ⟨⟩
    exact List.forall_mem_cons.mpr ⟨⟨rfl, rfl⟩, List.forall_mem_singleton.mpr ⟨rfl, rfl⟩⟩
  · exact List.forall_mem_cons.mpr ⟨hspan s, List.forall_mem_cons.mpr
      ⟨hname i, List.forall_mem_singleton.mpr (hname j)⟩⟩

/-- Whether the statements are a comma between two names. -/
def readsCommaOfNames : List Statement → Bool
  | [.expression (.sequence [.identifier _, .identifier _] _) _] => true
  | _ => false

/-- A comma between two names. -/
theorem parse_operands_names :
    ∃ tree ∈ (parse "a.js" "a, b;" {}).root, ∃ n ∈ tree.bare.preorder,
      n.kind = .comma ∧ ∃ left right, n.HasOperands left right ∧ n.Covers left right := by
  obtain ⟨⟨tree, htree, n, hn, hkind⟩, hshape⟩ :
      (∃ tree ∈ (parse "a.js" "a, b;" {}).root, ∃ n ∈ tree.bare.preorder[2]?, n.kind = .comma) ∧
        readsCommaOfNames (concreteTree "a.js" "a, b;" {}) = true := by
    decide +kernel
  have hmem := List.mem_of_getElem? hn
  obtain ⟨first, between, right, behind, s, ⟨statement, hs, hwithin⟩, hoperands, -, hcovers⟩ :=
    (parse_operands "a.js" "a, b;" {} htree hmem).2.2 hkind
  unfold readsCommaOfNames at hshape
  split at hshape
  next i j span whole hconcrete =>
    rw [hconcrete] at hs
    cases List.mem_singleton.mp hs
    have hopen := ((Part.joinsOpen_names i j span whole).of_within hwithin).own _ _ rfl
    have hright : right ∈ first :: (between ++ right :: behind) := by simp
    exact ⟨tree, htree, n, hmem, hkind, _, right, hoperands,
      hcovers (hopen first List.mem_cons_self).1 (hopen right hright).2⟩
  next => cases hshape

/-- Whether the statements are a comma whose left operand is at the beginning. -/
def readsCommaAtStart : List Statement → Bool
  | [.expression (.sequence [left, _] _) _] => left.start.offset == 0
  | _ => false

/-- **A comma starts at the name of a property access**, and not at the receiver. -/
theorem comma_parse_access :
    (parse "a.js" "a.b, c;" {}).sink.errorCount = 0 ∧
      ∃ tree ∈ (parse "a.js" "a.b, c;" {}).root, ∃ n ∈ tree.bare.preorder, n.kind = .comma ∧
        ∃ left right s whole,
          concreteTree "a.js" "a.b, c;" {} = [.expression (.sequence [left, right] s) whole] ∧
          left.start.offset = 0 ∧ n.span.offset = 2 ∧ ¬n.Covers left right := by
  obtain ⟨hclean, ⟨tree, htree, n, hn, hkind, hoffset⟩, hshape⟩ :
      (parse "a.js" "a.b, c;" {}).sink.errorCount = 0 ∧
        (∃ tree ∈ (parse "a.js" "a.b, c;" {}).root, ∃ n ∈ tree.bare.preorder[2]?,
          n.kind = .comma ∧ n.span.offset = 2) ∧
        readsCommaAtStart (concreteTree "a.js" "a.b, c;" {}) = true := by
    decide +kernel
  refine ⟨hclean, tree, htree, n, List.mem_of_getElem? hn, hkind, ?_⟩
  unfold readsCommaAtStart at hshape
  split at hshape
  next left right s whole hconcrete =>
    have hstart : left.start.offset = 0 := eq_of_beq hshape
    refine ⟨left, right, s, whole, hconcrete, hstart, hoffset, fun hcovers => ?_⟩
    have hsame : n.span.offset = left.start.offset := congrArg (·.offset) hcovers
    omega
  next => cases hshape

end EcmaScript
