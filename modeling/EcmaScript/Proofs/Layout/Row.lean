import EcmaScript.Proofs.Layout.Concrete
import EcmaScript.Proofs.Layout.Node

/-!
# Rows of nodes

Lowering makes the children of a node one after the other, in the order of the text, and then puts the node
over them. While it does, the nodes that are made stand in a row, up to a place behind which the other
pieces of the construct stand (`Gathers`). Each step takes the first piece and makes a node of it; where
nothing is written, it adds a node that covers nothing. A node over such a row stands in the place of its
construct (`InPlace.of_row`).

## Contents

* `Grade`: what is asked of the node of a construct.
* `Node.InPlace`, `Node.Row`: a node, and nodes one behind the other, in the place of constructs.
* `Node.InPlace.of_row`, `Node.InPlace.operand`: a node over a row.
* `Gathers`: a row in the making.
-/

namespace EcmaScript

/-- What is asked of the node of a construct. -/
inductive Grade where
  /-- It covers something, and it can stand anywhere. -/
  | operand
  /-- It can stand anywhere. -/
  | part
  /-- It stands in a list of statements, or in a statement that does. -/
  | item

namespace Grade

/-- The node is of the grade. -/
def Admits : Grade → Node → Prop
  | operand, n => 0 < n.span.length ∧ n.kind.needsList = false
  | part, n => n.kind.needsList = false
  | item, _ => True

/-- Whether a node of the kind can have children of the grade. -/
def fits : Grade → NodeKind → Bool
  | item, k => k == .block || k.needsList
  | part, _ | operand, _ => true

/-- Whether nodes of the one grade are of the other. -/
def within : Grade → Grade → Bool
  | operand, _ | part, part | _, item => true
  | part, operand | item, _ => false

theorem Admits.weaken {g g' : Grade} {n : Node} (h : g.Admits n) (hg : g.within g' = true) :
    g'.Admits n := by
  cases g' with
  | item => trivial
  | part =>
      cases g with
      | operand => exact h.2
      | part => exact h
      | item => cases hg
  | operand =>
      cases g with
      | operand => exact h
      | part | item => cases hg

end Grade

/-- Whether nothing is asked of a node of the kind but what is asked of all nodes. -/
def NodeKind.isOrdinary : NodeKind → Bool
  | script | defaultValue | stringKey | importSpec | exportSpec | regexp => false
  | _ => true

namespace Node

/-- The node stands in the place of a construct. -/
structure InPlace (g : Grade) (lo : Nat) (n : Node) (hi : Nat) : Prop where
  le : lo ≤ hi
  laid : n.Laid .plain lo hi
  script : n.kind ≠ .script
  admits : g.Admits n

/-- The nodes stand in the places of constructs, one behind the other. -/
structure Row (g : Grade) (lo : Nat) (ns : List Node) (hi : Nat) : Prop where
  laid : LaidAll .plain lo ns hi
  each : ∀ n ∈ ns, n.kind ≠ .script ∧ g.Admits n

variable {g g' : Grade} {a : Arrangement} {lo lo' mid hi hi' : Nat} {n : Node} {ns ms : List Node} {s : Span}

/-! ## Single nodes -/

theorem Fits.of_le (hlo : lo ≤ n.span.offset) (hhi : n.span.stop ≤ hi) : n.Fits a lo hi :=
  ⟨hhi, fun hlen => Nat.lt_of_le_of_lt hlo (Nat.lt_add_of_pos_right hlen), fun _ _ => hlo⟩

theorem innerStart_le (h : lo ≤ n.span.offset) : n.innerStart lo ≤ n.span.offset := by
  unfold innerStart
  split
  · exact h
  · exact Nat.max_le.mpr ⟨h, Nat.le_refl _⟩

theorem stop_le_innerStop (h : n.span.stop ≤ hi) : n.span.stop ≤ n.innerStop hi := by
  unfold innerStop
  split
  · exact Nat.le_refl _
  · exact h

/-- What stands in the plain arrangement stands in every one. -/
theorem Laid.loosen (h : Laid .plain lo n hi) : Laid a lo n hi :=
  laid_iff.mpr ⟨⟨h.fits.stop, h.fits.reaches, fun hlen _ => h.fits.start hlen nofun⟩, h.shaped, h.below⟩

theorem LaidAll.loosen (h : LaidAll .plain lo ns hi) : LaidAll a lo ns hi := by
  induction ns generalizing lo with
  | nil => exact laidAll_nil.mpr (laidAll_nil.mp h)
  | cons n rest ih =>
      obtain ⟨next, hle, hstop, hn, hrest⟩ := laidAll_cons.mp h
      refine laidAll_cons.mpr ⟨next, hle, hstop, hn.loosen, (ih hrest).mono ?_ (Nat.le_refl _)⟩
      cases a with
      | plain | member => exact Nat.le_refl _
      | shared => exact hle

theorem laid_mark {change : NodeFlags → NodeFlags} : Laid a lo (n.mark change) hi ↔ Laid a lo n hi := by
  rw [laid_iff, laid_iff]
  refine and_congr ⟨fun h => ⟨h.stop, h.reaches, h.start⟩, fun h => ⟨h.stop, h.reaches, h.start⟩⟩
    (and_congr ?_ Iff.rfl)
  exact ⟨fun h => ⟨h.script, h.list, h.value, h.simple⟩, fun h => ⟨h.script, h.list, h.value, h.simple⟩⟩

/-- Nodes of one region. -/
theorem LaidAll.of_each (hle : lo ≤ hi) (h : ∀ n ∈ ns, Laid .shared lo n hi) : LaidAll .shared lo ns hi := by
  induction ns with
  | nil => exact laidAll_nil.mpr hle
  | cons n rest ih =>
      obtain ⟨hn, hrest⟩ := List.forall_mem_cons.mp h
      exact laidAll_cons.mpr ⟨hi, hle, Nat.le_refl _, hn, ih hrest⟩

/-- What covers a whole member may start before the key, as long as its parts do not. -/
theorem Laid.covering (hk : n.kind.coversMember = true) (hshaped : n.Shaped)
    (hoffset : n.span.offset ≤ lo) (hlt : lo < n.span.stop) (hhi : n.span.stop ≤ hi)
    (hbelow : LaidAll .plain lo n.children hi) : Laid .member lo n hi := by
  have hkind : n.kind ≠ .block ∧ n.kind.arrangement = .plain := by
    revert hk
    cases n.kind <;> simp [NodeKind.coversMember, NodeKind.arrangement]
  have hstart : n.innerStart lo ≤ lo := by
    unfold innerStart
    split
    · exact Nat.le_refl _
    · exact Nat.max_le.mpr ⟨Nat.le_refl _, hoffset⟩
  have hinner : n.innerStop hi = hi := by simp [innerStop, hkind.1]
  refine laid_iff.mpr ⟨⟨hhi, fun _ => hlt, fun _ hm => ?_⟩, hshaped, ?_⟩
  · rw [hk] at hm
    cases hm rfl
  · rw [hkind.2, hinner]
    exact hbelow.mono hstart (Nat.le_refl _)

namespace InPlace

theorem mono (h : InPlace g lo n hi) (hlo : lo' ≤ lo) (hhi : hi ≤ hi') : InPlace g lo' n hi' :=
  ⟨Nat.le_trans hlo (Nat.le_trans h.le hhi), h.laid.mono hlo hhi, h.script, h.admits⟩

theorem weaken (h : InPlace g lo n hi) (hg : g.within g' = true := by rfl) : InPlace g' lo n hi :=
  ⟨h.le, h.laid, h.script, h.admits.weaken hg⟩

theorem mark (h : InPlace g lo n hi) (change : NodeFlags → NodeFlags) : InPlace g lo (n.mark change) hi := by
  refine ⟨h.le, laid_mark.mpr h.laid, h.script, ?_⟩
  cases g with
  | operand | part => exact h.admits
  | item => trivial

/-- An operand covers something. -/
theorem start (h : InPlace .operand lo n hi) : lo ≤ n.span.offset := h.laid.fits.start h.admits.1 nofun

end InPlace

/-! ## Rows -/

namespace Row

theorem nil (h : lo ≤ hi) : Row g lo [] hi := ⟨laidAll_nil.mpr h, List.forall_mem_nil _⟩

theorem cons (hn : InPlace g lo n mid) (h : Row g mid ns hi) : Row g lo (n :: ns) hi :=
  ⟨laidAll_cons.mpr ⟨mid, hn.le, h.laid.le, hn.laid, h.laid⟩,
    List.forall_mem_cons.mpr ⟨⟨hn.script, hn.admits⟩, h.each⟩⟩

theorem of_cons (h : Row g lo (n :: ns) hi) : ∃ mid, InPlace g lo n mid ∧ Row g mid ns hi := by
  obtain ⟨mid, hle, -, hn, hrest⟩ := laidAll_cons.mp h.laid
  obtain ⟨⟨hscript, hadmits⟩, heach⟩ := List.forall_mem_cons.mp h.each
  exact ⟨mid, ⟨hle, hn, hscript, hadmits⟩, hrest, heach⟩

theorem le (h : Row g lo ns hi) : lo ≤ hi := h.laid.le

theorem one (h : InPlace g lo n hi) : Row g lo [n] hi := .cons h (.nil (Nat.le_refl _))

theorem append (h : Row g lo ns mid) (h' : Row g mid ms hi) : Row g lo (ns ++ ms) hi := by
  induction ns generalizing lo with
  | nil => exact ⟨h'.laid.mono h.le (Nat.le_refl _), h'.each⟩
  | cons n rest ih =>
      obtain ⟨next, hn, hrest⟩ := h.of_cons
      exact .cons hn (ih hrest)

theorem mono (h : Row g lo ns hi) (hlo : lo' ≤ lo) (hhi : hi ≤ hi') : Row g lo' ns hi' :=
  ⟨h.laid.mono hlo hhi, h.each⟩

theorem weaken (h : Row g lo ns hi) (hg : g.within g' = true := by rfl) : Row g' lo ns hi :=
  ⟨h.laid, fun n hn => (h.each n hn).imp_right (·.weaken hg)⟩

/-- Nodes for constructs one behind the other. -/
theorem map {α : Type} [IsPart α] {f : α → Node} (xs : List α)
    (hf : ∀ x {lo hi : Nat}, EcmaScript.Laid lo (IsPart.part x).pieces hi → InPlace g lo (f x) hi)
    (hle : lo ≤ hi) (h : EcmaScript.Laid lo (Piece.each xs) hi) : Row g lo (xs.map f) hi := by
  induction xs generalizing lo with
  | nil => exact .nil hle
  | cons x xs ih =>
      obtain ⟨mid, -, hx, hmid, hxs⟩ := EcmaScript.Laid.part_iff.mp h
      exact .cons (hf x hx) (ih hmid hxs)

/-- No node of a row ends behind the row. -/
theorem stop_le (h : Row g lo ns hi) (hn : n ∈ ns) : n.span.stop ≤ hi := by
  obtain ⟨index, hn⟩ := List.getElem?_of_mem hn
  obtain ⟨_, next, -, hnext, hlaid⟩ := h.laid.getElem? hn
  exact Nat.le_trans hlaid.fits.stop hnext

/-- An ordinary node over a row. -/
theorem shaped (h : Row g lo n.children hi) (hk : n.kind.isOrdinary = true)
    (hg : g.fits n.kind = true) : n.Shaped := by
  refine ⟨fun child hc => (h.each child hc).1, fun child hc hlist => ?_, fun hvalue => ?_, fun hshared => ?_⟩
  · cases g with
    | operand => exact absurd (h.each child hc).2.2 (by simp [hlist])
    | part => exact absurd (h.each child hc).2 (by simp [Grade.Admits, hlist])
    | item => simpa [Grade.fits] using hg
  · rcases hvalue with he | he <;> rw [he] at hk <;> cases hk
  · revert hk hshared
    cases n.kind <;> nofun

/-- A default over its target and its value. -/
theorem shaped_default (h : Row .operand s.offset (n :: ns) s.stop) :
    (branch .defaultValue s (n :: ns)).Shaped := by
  refine ⟨fun child hc => (h.each child hc).1, fun child hc hlist => ?_, fun _ => ?_, nofun⟩
  · exact absurd (h.each child hc).2.2 (by simp [hlist])
  · obtain ⟨mid, htarget, -⟩ := h.of_cons
    exact ⟨n, mem_preorderAll_of_mem List.mem_cons_self n n.self_mem_preorder,
      htarget.admits.1, htarget.start⟩

end Row

/-! ## A node over a row -/

namespace InPlace

theorem of_below (hlo : lo ≤ n.span.offset) (hhi : n.span.stop ≤ hi)
    (h : Row g' (n.innerStart lo) n.children (n.innerStop hi)) (hadmits : g.Admits n)
    (hk : n.kind.isOrdinary = true := by rfl) (hg : g'.fits n.kind = true := by rfl) :
    InPlace g lo n hi := by
  refine ⟨Nat.le_trans hlo (Nat.le_trans n.span.offset_le_stop hhi),
    laid_iff.mpr ⟨.of_le hlo hhi, h.shaped hk hg, h.laid.loosen⟩, fun he => ?_, hadmits⟩
  rw [he] at hk
  cases hk

theorem of_row (hlo : lo ≤ n.span.offset) (hhi : n.span.stop ≤ hi)
    (h : Row g' n.span.offset n.children n.span.stop) (hadmits : g.Admits n)
    (hk : n.kind.isOrdinary = true := by rfl) (hg : g'.fits n.kind = true := by rfl) :
    InPlace g lo n hi :=
  .of_below hlo hhi (h.mono (innerStart_le hlo) (stop_le_innerStop hhi)) hadmits hk hg

variable {inner : List Piece}

/-- A node over a row in the region of its construct. -/
theorem operand (h : EcmaScript.Laid lo [.region n.span inner] hi)
    (hrow : Row g' n.span.offset n.children n.span.stop) (hk : n.kind.isOrdinary = true := by rfl)
    (hlist : n.kind.needsList = false := by rfl) (hg : g'.fits n.kind = true := by rfl) :
    InPlace .operand lo n hi :=
  have ⟨hlo, hlen, _, hhi⟩ := EcmaScript.Laid.region_alone.mp h
  .of_row hlo hhi hrow ⟨hlen, hlist⟩ hk hg

/-- So does one that occurs in lists of statements. -/
theorem item (h : EcmaScript.Laid lo [.region n.span inner] hi)
    (hrow : Row g' n.span.offset n.children n.span.stop) (hk : n.kind.isOrdinary = true := by rfl)
    (hg : g'.fits n.kind = true := by rfl) : InPlace .item lo n hi :=
  have ⟨hlo, _, _, hhi⟩ := EcmaScript.Laid.region_alone.mp h
  .of_row hlo hhi hrow trivial hk hg

/-- A node without children. -/
theorem leaf (h : EcmaScript.Laid lo [.region n.span inner] hi) (hc : n.children = [] := by rfl)
    (hk : n.kind.isOrdinary = true := by rfl) (hlist : n.kind.needsList = false := by rfl) :
    InPlace .operand lo n hi := by
  have hrow : Row .operand n.span.offset n.children n.span.stop := by
    rw [hc]
    exact .nil n.span.offset_le_stop
  exact operand h hrow hk hlist rfl

/-- A node without children that occurs in lists of statements. -/
theorem bare (h : EcmaScript.Laid lo [.region n.span inner] hi) (hc : n.children = [] := by rfl)
    (hk : n.kind.isOrdinary = true := by rfl) : InPlace .item lo n hi := by
  have hrow : Row .operand n.span.offset n.children n.span.stop := by
    rw [hc]
    exact .nil n.span.offset_le_stop
  exact item h hrow hk rfl

/-- A node for something that may cover nothing. -/
theorem blank (hlo : lo ≤ n.span.offset) (hhi : n.span.stop ≤ hi) (hc : n.children = [] := by rfl)
    (hk : n.kind.isOrdinary = true := by rfl) (hlist : n.kind.needsList = false := by rfl) :
    InPlace .part lo n hi := by
  have hrow : Row .operand n.span.offset n.children n.span.stop := by
    rw [hc]
    exact .nil n.span.offset_le_stop
  exact of_row hlo hhi hrow hlist hk rfl

/-- A node where nothing is written. -/
theorem hollow (hle : lo ≤ hi) (hstop : n.span.stop ≤ hi) (hlen : n.span.length = 0 := by rfl)
    (hc : n.children = [] := by rfl) (hk : n.kind.isOrdinary = true := by rfl)
    (hlist : n.kind.needsList = false := by rfl) : InPlace .part lo n hi := by
  have hpos : ¬0 < n.span.length := fun h => Nat.pos_iff_ne_zero.mp h hlen
  have hscript : n.kind ≠ .script := fun he => by
    rw [he] at hk
    cases hk
  have hrow : Row .operand lo n.children hi := by
    rw [hc]
    exact .nil hle
  refine ⟨hle, laid_iff.mpr ⟨⟨hstop, fun h => absurd h hpos, fun h => absurd h hpos⟩,
    hrow.shaped hk rfl, ?_⟩, hscript, hlist⟩
  have hstart : n.innerStart lo = lo := by
    unfold innerStart
    rw [hlen]
    rfl
  have hinner : n.innerStop hi = hi := by
    unfold innerStop
    rw [hc, List.isEmpty_nil, Bool.not_true, Bool.and_false]
    rfl
  rw [hstart, hinner]
  exact hrow.laid.loosen

/-! ### Nodes that stand behind parts of their own -/

/-- A comma node over its operands. -/
theorem comma {left right : Node} (hl : InPlace .operand lo left mid) (hr : InPlace .operand mid right hi) :
    InPlace .operand lo (.branch .comma (left.span.extendTo right.span) [left, right]) hi := by
  have hstop : (left.span.extendTo right.span).stop = max left.span.stop right.span.stop :=
    Span.stop_extendTo _ _
  have hlt : left.span.offset < max left.span.stop right.span.stop :=
    Nat.lt_of_lt_of_le (Nat.lt_add_of_pos_right hl.admits.1) (Nat.le_max_left _ _)
  have hstart : (branch .comma (left.span.extendTo right.span) [left, right]).innerStart lo = lo := by
    simp [innerStart, branch]
  have hrow : Row .operand lo [left, right] hi := .cons hl (.one hr)
  refine of_below hl.start (hstop ▸ Nat.max_le.mpr ⟨?_, hr.laid.fits.stop⟩) (hstart.symm ▸ hrow)
    ⟨Nat.sub_pos_of_lt hlt, rfl⟩ rfl rfl
  exact Nat.le_trans hl.laid.fits.stop hr.le

/-- An access behind its receiver. -/
theorem access {receiver : Node} (hn : n.isAccess = true) (hc : n.children = [receiver])
    (hr : InPlace .operand lo receiver mid) (h : EcmaScript.Laid mid [.region n.span inner] hi) :
    InPlace .operand lo n hi := by
  obtain ⟨hlo, hlen, -, hhi⟩ := EcmaScript.Laid.region_alone.mp h
  have hstart : n.innerStart lo = lo := by simp [innerStart, hn]
  have hrow : Row .operand (n.innerStart lo) n.children (n.innerStop hi) := by
    rw [hstart, hc]
    refine .one (hr.mono (Nat.le_refl _) (Nat.le_trans (Nat.le_trans hlo ?_) (stop_le_innerStop hhi)))
    exact n.span.offset_le_stop
  rcases kind_of_isAccess hn with he | he
  · exact of_below (Nat.le_trans hr.le hlo) hhi hrow ⟨hlen, by rw [he]; rfl⟩ (by rw [he]; rfl) rfl
  · exact of_below (Nat.le_trans hr.le hlo) hhi hrow ⟨hlen, by rw [he]; rfl⟩ (by rw [he]; rfl) rfl

/-! ### Members -/

/-- A key with what stands behind it. -/
theorem member (hk : n.kind.arrangement = .member) (hlo : lo ≤ n.span.offset) (hlen : 0 < n.span.length)
    (hhi : n.span.stop ≤ hi) (hbelow : LaidAll .member n.span.offset n.children hi)
    (heach : ∀ child ∈ n.children, child.kind ≠ .script ∧ child.kind.needsList = false)
    (hvalue : n.kind = .stringKey →
      ∃ m ∈ preorderAll n.children, 0 < m.span.length ∧ n.span.offset ≤ m.span.offset) :
    InPlace .operand lo n hi := by
  have hkind : n.kind ≠ .block ∧ n.kind ≠ .script ∧ n.kind ≠ .defaultValue ∧ n.kind.needsList = false := by
    revert hk
    cases n.kind <;> simp [NodeKind.arrangement, NodeKind.needsList]
  have hinner : n.innerStop hi = hi := by simp [innerStop, hkind.1]
  refine ⟨Nat.le_trans hlo (Nat.le_trans n.span.offset_le_stop hhi), laid_iff.mpr ⟨.of_le hlo hhi,
    ⟨fun child hc => (heach child hc).1, fun child hc hlist => ?_, fun he => hvalue ?_, fun he => ?_⟩, ?_⟩,
    hkind.2.1, hlen, hkind.2.2.2⟩
  · rw [(heach child hc).2] at hlist
    cases hlist
  · exact he.resolve_left hkind.2.2.1
  · rw [hk] at he
    cases he
  · rw [hk, hinner]
    exact hbelow.mono (innerStart_le hlo) (Nat.le_refl _)

/-- The function of a method, put over the whole member. -/
theorem cover (h : InPlace .operand mid n hi) (hk : n.kind = .function) (hlo : lo ≤ mid)
    (hs : s.offset ≤ lo) (hlt : lo < s.stop) (hhi : hi ≤ s.stop) :
    Laid .member lo { n with span := s } s.stop := by
  refine .covering (by rw [hk]; rfl) ⟨h.laid.shaped.script, h.laid.shaped.list, fun he => ?_,
    h.laid.shaped.simple⟩ hs hlt (Nat.le_refl _) ?_
  · rw [hk] at he
    rcases he with he | he <;> cases he
  · have hbelow := h.laid.below
    rw [hk] at hbelow
    exact hbelow.mono (Nat.le_trans hlo (le_innerStart n mid)) (Nat.le_trans h.laid.fits.innerStop_le hhi)

/-! ### Defaults -/

/-- A target with its default. -/
theorem withDefault {target default : Node} (h : EcmaScript.Laid lo [.region s inner] hi)
    (hrow : Row .operand s.offset [target, default] s.stop) :
    InPlace .operand lo (.branch .defaultValue s [target, default]) hi := by
  obtain ⟨hlo, hlen, -, hhi⟩ := EcmaScript.Laid.region_alone.mp h
  exact ⟨Nat.le_trans hlo (Nat.le_trans s.offset_le_stop hhi), laid_iff.mpr ⟨.of_le hlo hhi,
    hrow.shaped_default, hrow.laid.mono (innerStart_le hlo) hhi⟩, nofun, hlen, rfl⟩

/-! ### Nodes with parts in one region -/

theorem shared (h : EcmaScript.Laid lo [.region n.span inner] hi) (hk : n.kind.arrangement = .shared)
    (heach : ∀ child ∈ n.children,
      InPlace .part n.span.offset child n.span.stop ∧ child.children = []) : InPlace .operand lo n hi := by
  obtain ⟨hlo, hlen, -, hhi⟩ := EcmaScript.Laid.region_alone.mp h
  have hkind : n.kind ≠ .block ∧ n.kind ≠ .script ∧ n.kind ≠ .defaultValue ∧ n.kind ≠ .stringKey ∧
      n.kind.needsList = false := by
    revert hk
    cases n.kind <;> simp [NodeKind.arrangement, NodeKind.needsList]
  refine ⟨Nat.le_trans hlo (Nat.le_trans n.span.offset_le_stop hhi), laid_iff.mpr ⟨.of_le hlo hhi,
    ⟨fun child hc => (heach child hc).1.script, fun child hc hlist => ?_, fun he => ?_,
      fun _ child hc => (heach child hc).2⟩, ?_⟩, hkind.2.1, hlen, hkind.2.2.2.2⟩
  · rw [show child.kind.needsList = false from (heach child hc).1.admits] at hlist
    cases hlist
  · exact absurd he (by simp [hkind])
  · rw [hk]
    exact (LaidAll.of_each n.span.offset_le_stop fun child hc => (heach child hc).1.laid.loosen).mono
      (innerStart_le hlo) (stop_le_innerStop hhi)

end InPlace

end Node

/-! ## A row in the making -/

open Node (InPlace Row)

/-- Of the first pieces nodes were made, which stand in a row; the other pieces stand behind it. -/
def Gathers (g : Grade) (lo : Nat) (ns : List Node) (ps : List Piece) (hi : Nat) : Prop :=
  ∃ mid, Row g lo ns mid ∧ Laid mid ps hi ∧ mid ≤ hi

namespace Gathers

variable {g g' : Grade} {lo hi : Nat} {n : Node} {ns ms : List Node} {s : Span} {p : Part}
  {inner ps qs : List Piece}

theorem start (g : Grade) (hle : lo ≤ hi) (h : Laid lo ps hi) : Gathers g lo [] ps hi :=
  ⟨lo, .nil (Nat.le_refl _), h, hle⟩

/-- The pieces in a region. -/
theorem inside (g : Grade) (h : Laid lo [.region s inner] hi) : Gathers g s.offset [] inner s.stop :=
  .start g s.offset_le_stop (Laid.region_alone.mp h).2.2.1

theorem row (h : Gathers g lo ns ps hi) : Row g lo ns hi :=
  have ⟨_, hrow, _, hle⟩ := h
  hrow.mono (Nat.le_refl _) hle

/-- A node is put over the first region. -/
theorem put (h : Gathers g lo ns (.region s inner :: ps) hi) (hn : InPlace g' s.offset n s.stop)
    (hg : g'.within g = true := by rfl) : Gathers g lo (ns ++ [n]) ps hi :=
  have ⟨_, hrow, hlaid, _⟩ := h
  have ⟨hlo, _, _, hstop, hps⟩ := Laid.region_iff.mp hlaid
  ⟨s.stop, hrow.append (.one ((hn.weaken hg).mono hlo (Nat.le_refl _))), hps, hstop⟩

theorem opened (h : Gathers g lo ns (.region s inner :: ps) hi) : Laid s.offset inner s.stop :=
  have ⟨_, _, hlaid, _⟩ := h
  (Laid.region_iff.mp hlaid).2.2.1

theorem alone (h : Gathers g lo ns (.region s inner :: ps) hi) : Laid s.offset [.region s inner] s.stop :=
  have ⟨_, _, hlaid, _⟩ := h
  have ⟨_, hlen, hin, _, _⟩ := Laid.region_iff.mp hlaid
  Laid.region_alone.mpr ⟨Nat.le_refl _, hlen, hin, Nat.le_refl _⟩

/-- A node that covers nothing comes right before the first region. -/
theorem squeeze (h : Gathers g lo ns (.region s inner :: ps) hi) (hn : InPlace .part s.offset n s.offset)
    (hg : Grade.part.within g = true := by rfl) : Gathers g lo (ns ++ [n]) (.region s inner :: ps) hi :=
  have ⟨_, hrow, hlaid, _⟩ := h
  have ⟨hlo, hlen, hin, hstop, hps⟩ := Laid.region_iff.mp hlaid
  ⟨s.offset, hrow.append (.one ((hn.weaken hg).mono hlo (Nat.le_refl _))),
    .region (Nat.le_refl _) hlen hin hstop hps, Nat.le_trans s.offset_le_stop hstop⟩

/-- A node that covers nothing comes right behind the row. -/
theorem hollow (h : Gathers g lo ns ps hi) (hn : ∀ {mid : Nat}, Row g lo ns mid → InPlace .part mid n mid)
    (hg : Grade.part.within g = true := by rfl) : Gathers g lo (ns ++ [n]) ps hi :=
  have ⟨mid, hrow, hlaid, hle⟩ := h
  ⟨mid, hrow.append (.one ((hn hrow).weaken hg)), hlaid, hle⟩

/-- A node is put over the first gap. -/
theorem fill (h : Gathers g lo ns (.gap s :: ps) hi) (hn : InPlace g' s.offset n s.stop)
    (hg : g'.within g = true := by rfl) : Gathers g lo (ns ++ [n]) ps hi :=
  have ⟨_, hrow, hlaid, _⟩ := h
  have ⟨hlo, hstop, hps⟩ := Laid.gap_iff.mp hlaid
  ⟨s.stop, hrow.append (.one ((hn.weaken hg).mono hlo (Nat.le_refl _))), hps, hstop⟩

/-- The first region is left out. -/
theorem pass (h : Gathers g lo ns (.region s inner :: ps) hi) : Gathers g lo ns ps hi :=
  have ⟨_, hrow, hlaid, _⟩ := h
  have ⟨hlo, _, _, hstop, hps⟩ := Laid.region_iff.mp hlaid
  ⟨s.stop, hrow.mono (Nat.le_refl _) (Nat.le_trans hlo s.offset_le_stop), hps, hstop⟩

/-- The first gap is left out. -/
theorem skip (h : Gathers g lo ns (.gap s :: ps) hi) : Gathers g lo ns ps hi :=
  have ⟨_, hrow, hlaid, _⟩ := h
  have ⟨hlo, hstop, hps⟩ := Laid.gap_iff.mp hlaid
  ⟨s.stop, hrow.mono (Nat.le_refl _) (Nat.le_trans hlo s.offset_le_stop), hps, hstop⟩

end Gathers

end EcmaScript
