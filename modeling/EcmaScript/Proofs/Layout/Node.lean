import EcmaScript.Comment.Attach

/-!
# Trees in the order of the text

A tree follows its text if what is made of a construct lies where the construct does: the children of a node
one behind the other, and none of them before the node. Some nodes do not start where their construct
starts. A property access stands at its name, behind the receiver; a comma node starts where its left operand
does, which may be such an access; and below the key of a member, the function of a method and the default of
a shorthand cover the whole member. And where one name stands for two, as in an import under the same name,
two children of a node share the region. `Node.Laid` says of a tree that it follows the text with these
exceptions.

## Contents

* `NodeKind.needsList`, `NodeKind.coversMember`, `Arrangement`: which nodes are found where, and how they
  stand there.
* `Node.isAccess`, `Node.outgrows`: the nodes that may stand behind parts of their own.
* `Node.Shaped`, `Node.Fits`: what is said of a single node.
* `Node.Laid`, `Node.LaidAll`: trees and lists of trees that follow the text.
* `Node.Laid.within`: all nodes of such a tree are found between its bounds.
-/

namespace EcmaScript

/-- How the children of a node stand in the text. -/
inductive Arrangement where
  /-- One behind the other. -/
  | plain
  /-- One behind the other, but for what covers a whole member, which starts before the key. -/
  | member
  /-- In one region, which all of them may cover. -/
  | shared
  deriving DecidableEq

/-- Where the next child starts at the earliest, if the children before it lie between the bounds. -/
def Arrangement.resume : Arrangement → (lo next : Nat) → Nat
  | plain, _, next | member, _, next => next
  | shared, lo, _ => lo

theorem Arrangement.le_resume (a : Arrangement) {lo next : Nat} (h : lo ≤ next) :
    lo ≤ a.resume lo next := by
  cases a with
  | plain | member => exact h
  | shared => exact Nat.le_refl _

namespace NodeKind

/-- Whether nodes of the kind occur in lists of statements only, or as parts of nodes that do. -/
def needsList : NodeKind → Bool
  | script | moduleBody | exprResult | label | labelName | continueJump | breakJump
  | exportDeclaration => true
  | _ => false

/-- Whether a node of the kind covers a whole member if it stands below the key. -/
def coversMember (k : NodeKind) : Bool := k == .function || k == .defaultValue

/-- How the children of a node of the kind stand in the text. -/
def arrangement : NodeKind → Arrangement
  | memberFunctionDef | getterDef | setterDef | computedProp | stringKey => .member
  | importSpec | exportSpec | regexp => .shared
  | _ => .plain

end NodeKind

namespace Node

/-- Whether the node is a property access, which stands at its name. -/
def isAccess (n : Node) : Bool := n.kind == .property || n.kind == .optionalProperty

/-- Whether the node may stand behind parts of its own, and claims comments before these all the same. -/
def outgrows (n : Node) : Bool := n.kind == .comma || (n.isAccess && n.flags.parenthesized)

/-- Where the parts of a node start at the earliest, if its construct starts at `lo`. -/
def innerStart (n : Node) (lo : Nat) : Nat :=
  if n.span.length = 0 || n.kind == .comma || n.isAccess then lo else max lo n.span.offset

/-- Where the parts of a node end at the latest, if its construct ends at `hi`. A block holds what is
in it. -/
def innerStop (n : Node) (hi : Nat) : Nat :=
  if n.kind == .block && !n.children.isEmpty then n.span.stop else hi

theorem kind_of_isAccess {n : Node} (h : n.isAccess = true) :
    n.kind = .property ∨ n.kind = .optionalProperty := by
  simpa [isAccess] using h

/-- The node fits to its children: none of them is a script, what occurs in lists of statements only is in
one, a default and a key have something of some length in them, and what shares a region is simple. -/
structure Shaped (n : Node) : Prop where
  script : ∀ child ∈ n.children, child.kind ≠ .script
  list : ∀ child ∈ n.children, child.kind.needsList = true →
    n.kind = .block ∨ n.kind.needsList = true
  value : n.kind = .defaultValue ∨ n.kind = .stringKey →
    ∃ m ∈ preorderAll n.children, 0 < m.span.length ∧ n.span.offset ≤ m.span.offset
  simple : n.kind.arrangement = .shared → ∀ child ∈ n.children, child.children = []

/-- The region of the node lies between `lo` and `hi`. What covers a whole member only has to end behind
`lo`. -/
structure Fits (a : Arrangement) (lo : Nat) (n : Node) (hi : Nat) : Prop where
  stop : n.span.stop ≤ hi
  reaches : 0 < n.span.length → lo < n.span.stop
  start : 0 < n.span.length → (a = .member → n.kind.coversMember = false) → lo ≤ n.span.offset

mutual

/-- The tree follows the text from `lo` to `hi`, as a child in the given arrangement. -/
def Laid (a : Arrangement) (lo : Nat) : Node → Nat → Prop
  | ⟨kind, payload, children, span, flags, doc, leading, trailing⟩, hi =>
    let n : Node := ⟨kind, payload, children, span, flags, doc, leading, trailing⟩
    n.Fits a lo hi ∧ n.Shaped ∧ LaidAll kind.arrangement (n.innerStart lo) children (n.innerStop hi)

/-- The trees follow the text in the given arrangement. -/
def LaidAll (a : Arrangement) (lo : Nat) : List Node → Nat → Prop
  | [], hi => lo ≤ hi
  | n :: rest, hi =>
    ∃ next, lo ≤ next ∧ next ≤ hi ∧ Laid a lo n next ∧ LaidAll a (a.resume lo next) rest hi

end

section Laid

variable {a : Arrangement} {lo hi k : Nat} {n : Node} {ns ms : List Node}

theorem laid_iff : Laid a lo n hi ↔ n.Fits a lo hi ∧ n.Shaped ∧
    LaidAll n.kind.arrangement (n.innerStart lo) n.children (n.innerStop hi) := by
  cases n
  rw [Laid]

@[simp] theorem laidAll_nil : LaidAll a lo [] hi ↔ lo ≤ hi := by rw [LaidAll]

theorem laidAll_cons : LaidAll a lo (n :: ns) hi ↔
    ∃ next, lo ≤ next ∧ next ≤ hi ∧ Laid a lo n next ∧ LaidAll a (a.resume lo next) ns hi := by
  rw [LaidAll]

theorem Laid.fits (h : Laid a lo n hi) : n.Fits a lo hi := (laid_iff.mp h).1

theorem Laid.shaped (h : Laid a lo n hi) : n.Shaped := (laid_iff.mp h).2.1

theorem Laid.below (h : Laid a lo n hi) :
    LaidAll n.kind.arrangement (n.innerStart lo) n.children (n.innerStop hi) := (laid_iff.mp h).2.2

/-! ## Wider bounds -/

theorem le_innerStart (n : Node) (lo : Nat) : lo ≤ n.innerStart lo := by
  unfold innerStart
  split
  · exact Nat.le_refl _
  · exact Nat.le_max_left _ _

theorem innerStop_of_block {n child : Node} (hk : n.kind = .block) (hc : child ∈ n.children) (hi : Nat) :
    n.innerStop hi = n.span.stop := by
  unfold innerStop
  rw [hk, List.isEmpty_eq_false_iff.mpr (List.ne_nil_of_mem hc)]
  rfl

theorem innerStart_mono (n : Node) {lo lo' : Nat} (h : lo' ≤ lo) : n.innerStart lo' ≤ n.innerStart lo := by
  unfold innerStart
  split <;> omega

theorem Fits.innerStop_le (h : n.Fits a lo hi) : n.innerStop hi ≤ hi := by
  unfold innerStop
  split
  · exact h.stop
  · exact Nat.le_refl _

theorem Fits.mono {lo' hi' : Nat} (h : n.Fits a lo hi) (hlo : lo' ≤ lo) (hhi : hi ≤ hi') :
    n.Fits a lo' hi' :=
  ⟨Nat.le_trans h.stop hhi, fun hn => Nat.lt_of_le_of_lt hlo (h.reaches hn),
    fun hn hm => Nat.le_trans hlo (h.start hn hm)⟩

mutual

theorem Laid.mono {a : Arrangement} {lo lo' hi hi' : Nat} :
    {n : Node} → Laid a lo n hi → lo' ≤ lo → hi ≤ hi' → Laid a lo' n hi'
  | ⟨kind, payload, children, span, flags, doc, leading, trailing⟩, h, hlo, hhi => by
      obtain ⟨hfits, hshaped, hbelow⟩ := laid_iff.mp h
      refine laid_iff.mpr ⟨hfits.mono hlo hhi, hshaped, LaidAll.mono hbelow (innerStart_mono _ hlo) ?_⟩
      unfold innerStop
      split
      · exact Nat.le_refl _
      · exact hhi

theorem LaidAll.mono {a : Arrangement} {lo lo' hi hi' : Nat} :
    {ns : List Node} → LaidAll a lo ns hi → lo' ≤ lo → hi ≤ hi' → LaidAll a lo' ns hi'
  | [], h, hlo, hhi => laidAll_nil.mpr (Nat.le_trans hlo (Nat.le_trans (laidAll_nil.mp h) hhi))
  | n :: rest, h, hlo, hhi => by
      obtain ⟨next, hnext, hstop, hn, hrest⟩ := laidAll_cons.mp h
      refine laidAll_cons.mpr ⟨next, Nat.le_trans hlo hnext, Nat.le_trans hstop hhi,
        hn.mono hlo (Nat.le_refl _), LaidAll.mono hrest ?_ hhi⟩
      cases a with
      | plain | member => exact Nat.le_refl _
      | shared => exact hlo

end

/-! ## Lists -/

theorem LaidAll.le (h : LaidAll a lo ns hi) : lo ≤ hi := by
  cases ns with
  | nil => exact laidAll_nil.mp h
  | cons n rest =>
      obtain ⟨next, hnext, hstop, -, -⟩ := laidAll_cons.mp h
      exact Nat.le_trans hnext hstop

/-- One of the trees. -/
theorem LaidAll.getElem? (h : LaidAll a lo ns hi) {index : Nat} (hn : ns[index]? = some n) :
    ∃ mid next, lo ≤ mid ∧ next ≤ hi ∧ Laid a mid n next := by
  induction ns generalizing lo index with
  | nil => cases hn
  | cons m rest ih =>
      obtain ⟨next, hle, hstop, hm, hrest⟩ := laidAll_cons.mp h
      cases index with
      | zero =>
          cases hn
          exact ⟨lo, next, Nat.le_refl _, hstop, hm⟩
      | succ index =>
          obtain ⟨mid, stop, hmid, hlaid⟩ := ih hrest hn
          exact ⟨mid, stop, Nat.le_trans (a.le_resume hle) hmid, hlaid⟩

/-- One of the trees, with what stands before it. -/
theorem LaidAll.split (h : LaidAll a lo ns hi) (ha : a ≠ .shared) {index : Nat}
    (hn : ns[index]? = some n) :
    ∃ mid next, LaidAll a lo (ns.take index) mid ∧ Laid a mid n next ∧ next ≤ hi := by
  have hresume (lo next : Nat) : a.resume lo next = next := by
    cases a with
    | plain | member => rfl
    | shared => exact absurd rfl ha
  induction ns generalizing lo index with
  | nil => cases hn
  | cons m rest ih =>
      obtain ⟨next, hle, hstop, hm, hrest⟩ := laidAll_cons.mp h
      cases index with
      | zero =>
          cases hn
          exact ⟨lo, next, laidAll_nil.mpr (Nat.le_refl _), hm, hstop⟩
      | succ index =>
          rw [hresume] at hrest
          obtain ⟨mid, stop, hbefore, hlaid, hstop⟩ := ih hrest hn
          refine ⟨mid, stop, laidAll_cons.mpr ⟨next, hle, hbefore.le, hm, ?_⟩, hlaid, hstop⟩
          rw [hresume]
          exact hbefore

/-- The parts of an ordinary node start behind it. -/
theorem innerStart_of_ordinary {n : Node} (hlen : 0 < n.span.length) (hcomma : n.kind ≠ .comma)
    (haccess : n.isAccess = false) (lo : Nat) : n.innerStart lo = max lo n.span.offset := by
  unfold innerStart
  simp [Nat.pos_iff_ne_zero.mp hlen, hcomma, haccess]

/-- A node that claims before its children stands before them, unless it outgrows them. -/
theorem ordinary_of_early {n : Node} (hearly : n.startsAfterChildren = false)
    (hgrows : n.outgrows = false) : n.kind ≠ .comma ∧ n.isAccess = false := by
  obtain ⟨hcomma, hclosed⟩ := Bool.or_eq_false_iff.mp hgrows
  refine ⟨ne_of_beq_false hcomma, ?_⟩
  have hearly : (n.isAccess && !n.flags.parenthesized) = false := hearly
  cases hp : n.flags.parenthesized <;> simp_all

/-! ## All nodes of a tree -/

theorem mem_preorderAll_of_mem (h : n ∈ ns) : ∀ m ∈ n.preorder, m ∈ preorderAll ns := by
  intro m hm
  induction ns with
  | nil => cases h
  | cons first rest ih =>
      rw [preorderAll]
      obtain rfl | h := List.mem_cons.mp h
      · exact List.mem_append_left _ hm
      · exact List.mem_append_right _ (ih h)

theorem self_mem_preorder (n : Node) : n ∈ n.preorder := by
  cases n
  rw [preorder]
  exact List.mem_cons_self

mutual

/-- A tree has the children of its nodes. -/
theorem mem_preorder_of_child {m child : Node} (hc : child ∈ m.children) :
    (n : Node) → m ∈ n.preorder → child ∈ n.preorder
  | ⟨kind, payload, children, span, flags, doc, leading, trailing⟩, h => by
      rw [preorder] at h ⊢
      refine List.mem_cons_of_mem _ ?_
      obtain rfl | h := List.mem_cons.mp h
      · exact mem_preorderAll_of_mem hc child child.self_mem_preorder
      · exact mem_preorderAll_of_child hc children h

theorem mem_preorderAll_of_child {m child : Node} (hc : child ∈ m.children) :
    (ns : List Node) → m ∈ preorderAll ns → child ∈ preorderAll ns
  | [], h => absurd h (by rw [preorderAll]; exact List.not_mem_nil)
  | n :: rest, h => by
      rw [preorderAll] at h ⊢
      obtain h | h := List.mem_append.mp h
      · exact List.mem_append_left _ (mem_preorder_of_child hc n h)
      · exact List.mem_append_right _ (mem_preorderAll_of_child hc rest h)

end

mutual

/-- **The nodes of a tree lie between its bounds**: all of them end before the upper one, and those of some
length behind the lower one. -/
theorem Laid.within {a : Arrangement} {lo hi : Nat} :
    {n : Node} → Laid a lo n hi →
      ∀ m ∈ n.preorder, m.span.stop ≤ hi ∧ (0 < m.span.length → lo < m.span.stop)
  | ⟨kind, payload, children, span, flags, doc, leading, trailing⟩, h => by
      obtain ⟨hfits, -, hbelow⟩ := laid_iff.mp h
      intro m hm
      rw [preorder] at hm
      obtain rfl | hm := List.mem_cons.mp hm
      · exact ⟨hfits.stop, hfits.reaches⟩
      · obtain ⟨hstop, hreach⟩ := LaidAll.within hbelow m hm
        exact ⟨Nat.le_trans hstop hfits.innerStop_le,
          fun hlen => Nat.lt_of_le_of_lt (le_innerStart _ _) (hreach hlen)⟩

theorem LaidAll.within {a : Arrangement} {lo hi : Nat} :
    {ns : List Node} → LaidAll a lo ns hi →
      ∀ m ∈ preorderAll ns, m.span.stop ≤ hi ∧ (0 < m.span.length → lo < m.span.stop)
  | [], _ => nofun
  | n :: rest, h => by
      obtain ⟨next, hle, hstop, hn, hrest⟩ := laidAll_cons.mp h
      intro m hm
      rw [preorderAll] at hm
      obtain hm | hm := List.mem_append.mp hm
      · exact (hn.within m hm).imp_left (Nat.le_trans · hstop)
      · exact (LaidAll.within hrest m hm).imp_right fun hr hlen =>
          Nat.lt_of_le_of_lt (a.le_resume hle) (hr hlen)

end

end Laid

end Node

end EcmaScript
