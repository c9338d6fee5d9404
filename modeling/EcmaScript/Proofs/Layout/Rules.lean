import EcmaScript.Proofs.Layout.Row
import EcmaScript.Proofs.Lowering.Spans

/-!
# Rules of lowering in the order of the text

What a step of lowering gives does not depend on the state, as far as the order of the text is concerned:
`Gives P` says of a step that `P` holds of its result in any case. From pieces of a construct that stand
between two offsets, lowering makes nodes that stand between the same offsets (`Lowers`). There is a rule for
each way to go on, and a lemma for each node that is made without recursion.

## Contents

* `Gives`: what steps give, and its rules.
* `Lowers`, `LowersAll`: lowering of constructs, and of lists of them.
* `Passes`: what becomes of an operand under pending operators.
* The lemmas for names, keys, accesses, members, modules and bodies.
-/

namespace EcmaScript

open Node (InPlace Row)

namespace Lowering

variable {α β : Type}

/-! ## What steps give -/

/-- In every state the step gives something of which `P` holds. -/
def Gives (P : α → Prop) (m : Lowering α) : Prop := ∀ s, P (m s).1

namespace Gives

variable {P Q : α → Prop} {R : β → Prop} {m m' : Lowering α} {q : Lowering β} {f : β → Lowering α}

theorem pure {a : α} (h : P a) : Gives P (Pure.pure a) := fun _ => h

theorem bind (hq : Gives R q) (hf : ∀ b, R b → Gives P (f b)) : Gives P (q >>= f) :=
  fun s => hf _ (hq s) _

/-- What the step gives does not matter. -/
theorem skim (hf : ∀ b, Gives P (f b)) : Gives P (q >>= f) := fun _ => hf _ _

theorem ite {c : Prop} [Decidable c] (h : Gives P m) (h' : Gives P m') :
    Gives P (if c then m else m') := by
  split
  · exact h
  · exact h'

/-- What is noted under a condition does not matter. -/
theorem note {c : Prop} [Decidable c] {q : Lowering Unit} {f : Unit → Lowering α}
    (hf : ∀ u, Gives P (f u)) : Gives P (if c then q >>= f else f ()) := .ite (.skim hf) (hf ())

theorem mono (hm : Gives P m) (h : ∀ a, P a → Q a) : Gives Q m := fun s => h _ (hm s)

theorem and (hp : Gives P m) (hq : Gives Q m) : Gives (fun a => P a ∧ Q a) m := fun s => ⟨hp s, hq s⟩

theorem map {f : β → α} (hq : Gives (fun b => P (f b)) q) : Gives P (f <$> q) := fun s => hq s

theorem between {enter exit : Scopes → Scopes} (hm : Gives P m) :
    Gives P (Lowering.between enter exit m) := fun _ => hm _

theorem insideLabel {label : Identifier} {isLoop : Bool} (hm : Gives P m) :
    Gives P (Lowering.insideLabel label isLoop m) := by
  unfold Lowering.insideLabel
  refine skim fun s => ?_
  split
  · exact skim fun _ => hm
  · exact between hm

end Gives

/-! ## Lowering of constructs -/

/-- Of a construct with these pieces the step makes a node that stands in its place. -/
structure Lowers (g : Grade) (ps : List Piece) (m : Lowering Node) : Prop where
  run : ∀ {lo hi : Nat}, Laid lo ps hi → Gives (InPlace g lo · hi) m

/-- Of constructs with these pieces the step makes nodes that stand in their places. -/
structure LowersAll (g : Grade) (ps : List Piece) (m : Lowering (List Node)) : Prop where
  run : ∀ {lo hi : Nat}, lo ≤ hi → Laid lo ps hi → Gives (Row g lo · hi) m

section

variable {g g' : Grade} {lo hi : Nat} {ns : List Node} {p : Part} {ps qs : List Piece} {m : Lowering Node}
  {ms : Lowering (List Node)} {P : α → Prop}

theorem Lowers.weaken (h : Lowers g ps m) (hg : g.within g' = true := by rfl) : Lowers g' ps m :=
  ⟨fun hl => (h.run hl).mono fun _ hn => hn.weaken hg⟩

/-- Of a construct a node is made that stands in its place. -/
theorem gives_part (h : Laid lo [.part p] hi) (hm : Lowers g p.pieces m) :
    Gives (InPlace g lo · hi) m := by
  obtain ⟨mid, -, hp, hmid, -⟩ := Laid.part_iff.mp h
  exact (hm.run hp).mono fun _ hn => hn.mono (Nat.le_refl _) hmid

theorem Lowers.alone (hm : Lowers g p.pieces m) : Lowers g [.part p] m := ⟨fun h => gives_part h hm⟩

/-- What fills a region stands in it. -/
theorem Lowers.within {s : Span} (hm : Lowers g p.pieces m) : Lowers g [.region s [.part p]] m :=
  ⟨fun h =>
    have ⟨hlo, _, hin, hhi⟩ := Laid.region_alone.mp h
    (gives_part hin hm).mono fun _ hn => hn.mono hlo hhi⟩

theorem LowersAll.nil : LowersAll g [] (pure []) := ⟨fun hle _ => .pure (.nil hle)⟩

/-- A node with those of the other constructs behind it. -/
theorem gives_cons {mid : Nat} {n : Node} {f : Lowering (List Node)} (hn : InPlace g lo n mid)
    (hf : Gives (Row g mid · hi) f) : Gives (Row g lo · hi) (f >>= fun ns => pure (n :: ns)) :=
  .bind hf fun _ hns => .pure (.cons hn hns)

/-- The node of the first construct, with those of the others behind it. -/
theorem LowersAll.cons {f : Lowering (List Node)} (hm : Lowers g' p.pieces m) (hf : LowersAll g ps f)
    (hg : g'.within g = true := by rfl) :
    LowersAll g (.part p :: ps) (m >>= fun n => f >>= fun ns => pure (n :: ns)) := by
  refine ⟨fun {lo hi} _ hl => ?_⟩
  obtain ⟨mid, -, hp, hmid, hps⟩ := Laid.part_iff.mp hl
  exact .bind (hm.run hp) fun _ hn => gives_cons (hn.weaken hg) (hf.run hmid hps)

theorem LowersAll.one (hm : Lowers g p.pieces m) : LowersAll g [.part p] (m >>= fun n => pure [n]) := by
  exact ⟨fun _ hl => .bind (gives_part hl hm) fun _ hn => .pure (.one hn)⟩

theorem LowersAll.mapM {f : β → Lowering Node} {G : β → List Piece} (bs : List β)
    (hf : ∀ b, Lowers g (G b) (f b)) : LowersAll g (bs.flatMap G) (bs.mapM f) := by
  induction bs with
  | nil => exact LowersAll.nil
  | cons b bs ih =>
      refine ⟨fun {lo hi} hle hl => ?_⟩
      rw [List.flatMap_cons] at hl
      obtain ⟨mid, hlo, hmid, hb, hbs⟩ := hl.of_append hle
      rw [List.mapM_cons]
      exact .bind ((hf b).run hb) fun _ hn => gives_cons hn (ih.run hmid hbs)

end

end Lowering

namespace Gathers

open Lowering (Gives Lowers LowersAll)

variable {α : Type} {g g' : Grade} {lo hi : Nat} {ns : List Node} {p : Part} {ps : List Piece}
  {m : Lowering Node} {ms : Lowering (List Node)} {P : α → Prop}

/-- The next construct is lowered. -/
theorem part {f : Node → Lowering α} (h : Gathers g lo ns (.part p :: ps) hi) (hm : Lowers g' p.pieces m)
    (hf : ∀ n, Gathers g lo (ns ++ [n]) ps hi → Gives P (f n)) (hg : g'.within g = true := by rfl) :
    Gives P (m >>= f) := by
  obtain ⟨mid, hrow, hlaid, -⟩ := h
  obtain ⟨next, hle, hp, hnext, hps⟩ := Laid.part_iff.mp hlaid
  exact .bind (hm.run hp) fun n hn => hf n ⟨next, hrow.append (.one (hn.weaken hg)), hps, hnext⟩

/-- The next construct is a single token. -/
theorem token {s : Span} {f : Node → Lowering α} (h : Gathers g lo ns (.leaf s :: ps) hi)
    (hm : Lowers g' [.leaf s] m) (hf : ∀ n, Gathers g lo (ns ++ [n]) ps hi → Gives P (f n))
    (hg : g'.within g = true := by rfl) : Gives P (m >>= f) :=
  .bind (hm.run h.alone) fun n hn => hf n (h.put hn hg)

/-- The last construct is lowered. -/
theorem last {f : Node → Lowering α} (h : Gathers g lo ns ps hi) (hm : Lowers g' ps m)
    (hf : ∀ n, Row g lo (ns ++ [n]) hi → Gives P (f n)) (hg : g'.within g = true := by rfl) :
    Gives P (m >>= f) := by
  obtain ⟨mid, hrow, hlaid, -⟩ := h
  exact .bind (hm.run hlaid) fun n hn => hf n (hrow.append (.one (hn.weaken hg)))

/-- The rest of the constructs are lowered. -/
theorem all {f : List Node → Lowering α} (h : Gathers g lo ns ps hi) (hms : LowersAll g' ps ms)
    (hf : ∀ xs, Row g lo (ns ++ xs) hi → Gives P (f xs)) (hg : g'.within g = true := by rfl) :
    Gives P (ms >>= f) := by
  obtain ⟨mid, hrow, hlaid, hle⟩ := h
  exact .bind (hms.run hle hlaid) fun xs hxs => hf xs (hrow.append (hxs.weaken hg))

end Gathers

namespace Lowering

/-! ## Operands -/

/-- Whatever stands in place of the operand under the pending operators, `Q` holds of what becomes of it.
Patterns are no operands. -/
structure Passes (role : Role) (pending : List PendingOperator) (lo hi : Nat) (Q : Node → Prop) : Prop where
  ends : role ≠ .value → pending = []
  run : ∀ {n : Node}, n.InPlace .operand lo hi → Gives Q (applyPending pending n)

namespace Passes

variable {role : Role} {pending : List PendingOperator} {lo hi : Nat} {Q : Node → Prop} {n : Node}

theorem stop : Passes role [] lo hi (InPlace .operand lo · hi) := by
  refine ⟨fun _ => rfl, fun hn => ?_⟩
  rw [applyPending]
  exact .pure hn

theorem pattern (h : Passes role pending lo hi Q) (hrole : role ≠ .value)
    (hn : n.InPlace .operand lo hi) : Gives Q (Pure.pure n) := by
  have hrun := h.run hn
  rwa [h.ends hrole, applyPending] at hrun

end Passes

/-! ## Names and literals -/

section Leaves

variable {g g' : Grade} {lo mid hi : Nat} {span : Span} {inner : List Piece}

theorem gives_identifier (name : Identifier) :
    Gives (· = .name name.name name.span) (identifier name) := by
  unfold identifier
  exact .ite (.skim fun _ => .pure rfl) (.pure rfl)

theorem lowers_identifier (name : Identifier) :
    Lowers .operand (Piece.identifier name) (identifier name) :=
  ⟨fun h => (gives_identifier name).mono fun _ he => he ▸ .leaf h rfl rfl rfl⟩

theorem lowers_bigintNode (value : Nat) (span : Span) :
    Lowers .operand [.leaf span] (bigintNode value span) :=
  ⟨fun h => .skim fun _ => .pure (.leaf h rfl rfl rfl)⟩

theorem lowers_regexpNode (pattern flags : String) (span : Span) :
    Lowers .operand [.leaf span] (regexpNode pattern flags span) := by
  refine ⟨fun h => .skim fun _ => .pure (.shared h rfl fun child hc => ?_)⟩
  have hleaf (value : String) : InPlace .part span.offset (.text .string value span) span.stop :=
    .blank (Nat.le_refl _) (Nat.le_refl _) rfl rfl rfl
  simp only [Node.branch] at hc
  split at hc
  · obtain rfl := List.mem_singleton.mp hc
    exact ⟨hleaf pattern, rfl⟩
  · obtain rfl | hc := List.mem_cons.mp hc
    · exact ⟨hleaf pattern, rfl⟩
    · obtain rfl := List.mem_singleton.mp hc
      exact ⟨hleaf flags, rfl⟩

theorem lowers_templateText (tagged : Bool) (t : TemplateText) :
    Lowers .operand [.leaf t.span] (templateText tagged t) := by
  refine ⟨fun {lo hi} h => ?_⟩
  unfold templateText
  exact .ite (.pure (.leaf h rfl rfl rfl)) (.skim fun _ => .pure (.leaf h rfl rfl rfl))

theorem lowers_privateOperand (name : Identifier) :
    Lowers .operand (Piece.identifier name) (privateOperand name) :=
  ⟨fun h => .skim fun _ => .pure (.leaf h rfl rfl rfl)⟩

theorem lowers_misplacedPrivateName (name : Identifier) :
    Lowers .operand (Piece.identifier name) (misplacedPrivateName name) :=
  ⟨fun h => .skim fun _ => .pure (.leaf h rfl rfl rfl)⟩

theorem gives_memberNode {receiver : Node} (place : ChainPlace) (property : MemberName) (isCallee : Bool)
    (hr : InPlace .operand lo receiver mid) (h : Laid mid [.leaf span] hi) :
    Gives (InPlace .operand lo · hi) (memberNode place receiver property isCallee span) := by
  have hnode (name : String) : InPlace .operand lo
      { kind := if place.inChain then .optionalProperty else .property, payload := .text name,
        children := [receiver], span, flags := { chainStart := place.startsChain } } hi := by
    refine .access ?_ rfl hr h
    cases place.inChain <;> rfl
  unfold memberNode
  cases property with
  | plain => exact .skim fun _ => .pure (hnode _)
  | hidden => exact .skim fun _ => .pure (hnode _)

/-- Nodes joined by commas cover the first one and more. -/
theorem stands_commaNode {first : Node} {others : List Node} (h : Row .operand lo (first :: others) hi) :
    InPlace .operand lo (commaNode (first :: others)) hi := by
  obtain ⟨mid, hfirst, hothers⟩ := h.of_cons
  unfold commaNode
  clear h
  -- on the other operands, for what was joined before
  induction others generalizing first mid with
  | nil => exact hfirst.mono (Nat.le_refl _) hothers.le
  | cons n rest ih =>
      obtain ⟨next, hn, hrest⟩ := hothers.of_cons
      exact ih next (.comma hfirst hn) hrest

/-- A name that may be missing. -/
def nameOr (missing : Node) : Option Identifier → Lowering Node
  | some name => identifier name
  | none => pure missing

theorem gives_nameOr {missing : Node} {ps : List Piece} (name : Option Identifier)
    (h : Gathers .part lo [] (Piece.maybe Piece.identifier name ++ ps) hi)
    (hmissing : Gathers .part lo [] ps hi → Gathers .part lo [missing] ps hi) :
    Gives (fun n => Gathers .part lo [n] ps hi) (nameOr missing name) := by
  cases name with
  | none => exact .pure (hmissing h)
  | some name => exact ((lowers_identifier name).run h.alone).mono fun _ hn => h.put hn rfl

/-! ## Keys -/

theorem gives_keyName (key : PropertyKey) :
    Gives (fun name => ∃ inner, key.pieces = [.region name.span inner]) (keyName key) := by
  unfold keyName
  split
  · exact .skim fun _ => .pure ⟨_, rfl⟩
  · exact .pure ⟨_, rfl⟩
  · exact .pure ⟨_, rfl⟩
  · exact .pure ⟨_, rfl⟩
  · exact .skim fun _ => .pure ⟨_, rfl⟩
  · exact .pure ⟨_, rfl⟩

/-- A key with its value behind it. -/
theorem stands_key {key : KeyName} {value : Node} (hkey : Laid lo [.region key.span inner] mid)
    (hv : InPlace .operand mid value hi) : InPlace .operand lo (key.node .stringKey value) hi := by
  obtain ⟨hlo, hlen, -, hmid⟩ := Laid.region_alone.mp hkey
  have hle : key.span.offset ≤ mid := Nat.le_trans key.span.offset_le_stop hmid
  have hrow : Row .operand key.span.offset [value] hi := .one (hv.mono hle (Nat.le_refl _))
  refine .member rfl hlo hlen (Nat.le_trans hmid hv.le) hrow.laid.loosen
    (fun child hc => (hrow.each child hc).imp_right And.right) fun _ => ?_
  exact ⟨value, Node.mem_preorderAll_of_mem List.mem_cons_self value value.self_mem_preorder,
    hv.admits.1, Nat.le_trans hle hv.start⟩

/-- What stands behind a key. -/
theorem split_key {key : PropertyKey} {e : Expression}
    (h : Laid lo [.region span (Piece.of key ++ Piece.of e)] hi) :
    ∃ mid, Laid lo key.pieces mid ∧ Laid mid (Piece.of e) hi := by
  obtain ⟨hlo, -, hin, hhi⟩ := Laid.region_alone.mp h
  obtain ⟨mid, -, hkey, -, he⟩ := Laid.part_iff.mp hin
  exact ⟨mid, hkey.mono hlo (Nat.le_refl _), he.mono (Nat.le_refl _) hhi⟩

/-- A key with the value that is lowered for it. -/
theorem gives_keyed {name : KeyName} {key : PropertyKey} {e : Expression} {m : Lowering Node}
    (h : Laid lo [.region span (Piece.of key ++ Piece.of e)] hi)
    (hname : ∃ inner, key.pieces = [.region name.span inner]) (hm : Lowers .operand e.pieces m) :
    Gives (fun value => InPlace .operand lo (name.node .stringKey value) hi) m := by
  obtain ⟨mid, hkey, he⟩ := split_key h
  obtain ⟨inner, hname⟩ := hname
  exact (gives_part he hm).mono fun _ hv => stands_key (hname ▸ hkey) hv

/-- A shorthand names its value, or a target with a default that covers both. -/
theorem stands_shorthandNode {name : Identifier} {values : List Node}
    (h : Laid lo [.region span (.leaf name.span :: inner)] hi)
    (hrow : Row .operand name.span.offset (.name name.name name.span :: values) span.stop) :
    InPlace .operand lo (shorthandNode name (if values.isEmpty then .name name.name name.span
      else .branch .defaultValue span (.name name.name name.span :: values))) hi := by
  obtain ⟨hlo, -, hname, hhi⟩ := Laid.region_alone.mp h
  obtain ⟨hoffset, hlen, -, hstop, -⟩ := Laid.region_iff.mp hname
  have hlt : name.span.offset < span.stop := Nat.lt_of_lt_of_le (Nat.lt_add_of_pos_right hlen) hstop
  have hmember {value : Node} (hv : value.Laid .member name.span.offset span.stop)
      (hscript : value.kind ≠ .script) (hlist : value.kind.needsList = false)
      (hm : .name name.name name.span ∈ value.preorder) :
      InPlace .operand lo (shorthandNode name value) hi := by
    refine .member rfl (Nat.le_trans hlo hoffset) hlen (Nat.le_trans hstop hhi)
      (Node.laidAll_cons.mpr ⟨span.stop, Nat.le_of_lt hlt, hhi, hv, Node.laidAll_nil.mpr hhi⟩)
      (fun child hc => ?_) fun _ => ?_
    · obtain rfl := List.mem_singleton.mp hc
      exact ⟨hscript, hlist⟩
    · exact ⟨_, Node.mem_preorderAll_of_mem List.mem_cons_self _ hm, hlen, Nat.le_refl _⟩
  split
  · obtain ⟨mid, htarget, hvalues⟩ := hrow.of_cons
    exact hmember (htarget.laid.mono (Nat.le_refl _) hvalues.le).loosen htarget.script
      htarget.admits.2 (Node.self_mem_preorder _)
  · have hwide := (hrow.mono hoffset (Nat.le_refl _)).shaped_default
    refine hmember (.covering rfl hwide hoffset hlt (Nat.le_refl _) hrow.laid) nofun rfl ?_
    rw [Node.branch, Node.preorder]
    refine List.mem_cons_of_mem _ (Node.mem_preorderAll_of_mem List.mem_cons_self _ ?_)
    exact Node.self_mem_preorder _

/-- A shorthand with the default that is lowered for it. -/
theorem gives_shorthand {name : Identifier} {default : Option Expression} {m : Lowering (List Node)}
    (h : Laid lo [.region span (Piece.identifier name ++ Piece.maybe Piece.of default)] hi)
    (hm : LowersAll .operand (Piece.maybe Piece.of default) m) :
    Gives (fun values => InPlace .operand lo (shorthandNode name (if values.isEmpty
      then .name name.name name.span
      else .branch .defaultValue span (.name name.name name.span :: values))) hi) m := by
  obtain ⟨-, -, hin, -⟩ := Laid.region_alone.mp h
  obtain ⟨-, hlen, -, hstop, hdefault⟩ := Laid.region_iff.mp hin
  refine (hm.run hstop hdefault).mono fun values hrow => stands_shorthandNode h (.cons ?_ hrow)
  exact .leaf (Laid.leaf_iff.mpr ⟨Nat.le_refl _, hlen, Nat.le_refl _⟩) rfl rfl rfl

/-- A hole of an array is empty where it starts. -/
theorem stands_hole (h : Laid lo (ArrayElement.hole span).pieces hi) :
    InPlace .part lo (.empty (.emptyAt span.start)) hi :=
  have ⟨hlo, hhi, _⟩ := Laid.gap_iff.mp h
  .hollow (Nat.le_trans hlo (Nat.le_trans span.offset_le_stop hhi)) (Nat.le_trans span.offset_le_stop hhi)
    rfl rfl rfl rfl

end Leaves

/-! ## Members -/

section Members

variable {lo mid hi : Nat} {span : Span} {key : PropertyKey} {f : Function} {kind : FunctionKind}
  {loweredKey loweredFunction : Lowering Node}

/-- A key is lowered only if it is computed. -/
def LowersKey (key : PropertyKey) (lowered : Lowering Node) : Prop :=
  ∀ e s, key = .computed e s → Lowers .operand e.pieces lowered

theorem lowers_classKeyNode (hkey : LowersKey key loweredKey) :
    Lowers .operand key.pieces (classKeyNode key loweredKey) := by
  refine ⟨fun {lo hi} h => ?_⟩
  unfold classKeyNode
  split
  · exact .skim fun _ => (Lowers.within (hkey _ _ rfl)).run h
  · exact .pure (.leaf h rfl rfl rfl)
  · exact .pure (.leaf h rfl rfl rfl)
  · exact (lowers_bigintNode _ _).run h
  · exact .pure (.leaf h rfl rfl rfl)
  · exact .pure (.leaf h rfl rfl rfl)

section Methods

variable (hf : Lowers .operand f.pieces loweredFunction)
  (hk : Gives (·.kind = .function) loweredFunction)
include hf hk

/-- The node of a method is put over its key, and the function over the whole member. -/
theorem gives_method {name : KeyName} {inner : List Piece}
    (h : Laid lo [.region span (.region name.span inner :: Piece.of f)] hi) :
    Gives (fun function => InPlace .operand lo
      (name.node (methodKind kind) { function with span := span }) hi) loweredFunction := by
  obtain ⟨hlo, -, hin, hhi⟩ := Laid.region_alone.mp h
  obtain ⟨hoffset, hlen, -, hstop, hfunction⟩ := Laid.region_iff.mp hin
  obtain ⟨next, -, hfunction, hnext, -⟩ := Laid.part_iff.mp hfunction
  refine ((hf.run hfunction).and hk).mono fun function ⟨hn, hk⟩ => ?_
  have hlt : name.span.offset < span.stop :=
    Nat.lt_of_lt_of_le (Nat.lt_add_of_pos_right hlen) hstop
  have hcover : Node.Laid .member name.span.offset { function with span := span } span.stop :=
    hn.cover hk name.span.offset_le_stop hoffset hlt hnext
  refine .member (by cases kind <;> rfl) (Nat.le_trans hlo hoffset) hlen (Nat.le_trans hstop hhi)
    (Node.laidAll_cons.mpr ⟨span.stop, Nat.le_of_lt hlt, hhi, hcover, Node.laidAll_nil.mpr hhi⟩)
    (fun child hc => ?_) (fun he => by cases kind <;> cases he)
  obtain rfl := List.mem_singleton.mp hc
  exact ⟨hn.script, hn.admits.2⟩

/-- So it is whatever the key, as long as its name is known. -/
theorem lowers_method : Lowers .operand [.region span (Piece.of key ++ Piece.of f)] (do
    let name ← keyName key
    let functionNode ← loweredFunction
    return name.node (methodKind kind) { functionNode with span := span }) := by
  refine ⟨fun h => .bind (gives_keyName key) fun name ⟨inner, hname⟩ => ?_⟩
  obtain ⟨hlo, hlen, hin, hhi⟩ := Laid.region_alone.mp h
  have hin := hin.unwrap
  rw [show (IsPart.part key).pieces = [.region name.span inner] from hname] at hin
  exact .bind (gives_method hf hk (Laid.region_alone.mpr ⟨hlo, hlen, hin, hhi⟩)) fun _ hn => .pure hn

variable (hkey : LowersKey key loweredKey)
include hkey

theorem lowers_objectMethodNode : Lowers .operand [.region span (Piece.of key ++ Piece.of f)]
    (objectMethodNode key kind span loweredKey loweredFunction) := by
  refine ⟨fun {lo hi} h => ?_⟩
  unfold objectMethodNode
  refine .skim fun _ => ?_
  split
  · refine .skim fun _ =>
      (Gathers.inside .operand h).part (Lowers.within (hkey _ _ rfl)) (fun _ hg => ?_) rfl
    exact hg.part hf (fun _ hg => .pure (.operand h hg.row rfl rfl rfl)) rfl
  · exact (lowers_method hf hk).run h

theorem lowers_classMethodNode : Lowers .operand [.region span (Piece.of key ++ Piece.of f)]
    (classMethodNode key kind span loweredKey loweredFunction) := by
  refine ⟨fun {lo hi} h => ?_⟩
  unfold classMethodNode
  refine .skim fun _ => ?_
  split
  · exact (lowers_method hf hk).run h
  · exact .skim fun _ => (lowers_method hf hk).run h
  · obtain ⟨hlo, hlen, hin, hhi⟩ := Laid.region_alone.mp h
    obtain ⟨mid, hmid, hin, hle, hfunction⟩ := Laid.part_iff.mp hin
    obtain ⟨next, -, hfunction, hnext, -⟩ := Laid.part_iff.mp hfunction
    refine .bind ((lowers_classKeyNode hkey).run hin) fun keyNode hkeyNode => ?_
    refine .bind ((hf.run hfunction).and hk) fun function hboth => .pure ?_
    obtain ⟨hn, hk⟩ := hboth
    have hlt : mid < span.stop := Nat.lt_of_le_of_lt hn.start (Nat.lt_of_lt_of_le
      (Nat.lt_add_of_pos_right hn.admits.1) (Nat.le_trans hn.laid.fits.stop hnext))
    have hcover : Node.Laid .member mid { function with span := span } span.stop :=
      hn.cover hk (Nat.le_refl _) hmid hlt hnext
    refine .member rfl hlo hlen hhi (Node.laidAll_cons.mpr ⟨mid, hmid, Nat.le_trans hle hhi,
      hkeyNode.laid.loosen, Node.laidAll_cons.mpr ⟨span.stop, hle, hhi, hcover,
        Node.laidAll_nil.mpr hhi⟩⟩) (fun child hc => ?_) (by rintro ⟨⟩)
    obtain rfl | hc := List.mem_cons.mp hc
    · exact ⟨hkeyNode.script, hkeyNode.admits.2⟩
    · obtain rfl := List.mem_singleton.mp hc
      exact ⟨hn.script, hn.admits.2⟩

end Methods

/-- A field without its value. -/
theorem gives_classFieldNode (hkey : LowersKey key loweredKey) (hle : lo ≤ hi)
    (h : Laid lo key.pieces hi) :
    Gives (fun n => (n.kind = .memberFieldDef ∨ n.kind = .computedFieldDef) ∧ n.span = span ∧
      Row .operand lo n.children hi) (classFieldNode key span loweredKey) := by
  have hname : Row .operand lo [] hi := .nil hle
  unfold classFieldNode
  split
  · exact .skim fun _ => .skim fun _ => .pure ⟨.inl rfl, rfl, hname⟩
  · exact .skim fun _ => .skim fun _ => .pure ⟨.inl rfl, rfl, hname⟩
  · exact .skim fun _ => .bind ((lowers_classKeyNode hkey).run h) fun _ hn => .pure ⟨.inr rfl, rfl, .one hn⟩

end Members

/-! ## Imports and exports -/

section Modules

variable {lo hi : Nat}

theorem stands_moduleNameNode {name : ModuleName} (h : Laid lo (Piece.moduleName name) hi) :
    InPlace .operand lo (moduleNameNode name) hi := by
  cases name with
  | identifier => exact .leaf h rfl rfl rfl
  | string => exact .leaf h rfl rfl rfl

theorem children_moduleNameNode (name : ModuleName) : (moduleNameNode name).children = [] := by
  cases name <;> rfl

/-- Two names of one region. -/
theorem stands_specifier {n left right : Node} {inner : List Piece}
    (h : Laid lo [.region n.span inner] hi) (hk : n.kind.arrangement = .shared)
    (hc : n.children = [left, right]) (hl : InPlace .operand n.span.offset left n.span.stop)
    (hr : InPlace .operand n.span.offset right n.span.stop) (hleft : left.children = [])
    (hright : right.children = []) : InPlace .operand lo n hi := by
  refine .shared h hk fun child hm => ?_
  rw [hc] at hm
  obtain rfl | hm := List.mem_cons.mp hm
  · exact ⟨hl.weaken rfl, hleft⟩
  · obtain rfl := List.mem_singleton.mp hm
    exact ⟨hr.weaken rfl, hright⟩

theorem lowers_importSpecNode (specifier : ImportSpecifier) :
    Lowers .operand specifier.pieces (importSpecNode specifier) := by
  obtain ⟨imported, name?, span⟩ := specifier
  refine ⟨fun {lo hi} h => ?_⟩
  obtain ⟨-, -, hin, -⟩ := Laid.region_alone.mp h
  have hchild := children_moduleNameNode imported
  unfold importSpecNode
  cases name? with
  | none =>
      exact .pure (stands_specifier h rfl rfl (stands_moduleNameNode hin) (.leaf hin rfl rfl rfl) hchild rfl)
  | some name =>
      obtain ⟨mid, hlo, hhi, himported, hname⟩ :=
        @Laid.of_append _ _ (Piece.moduleName imported) _ hin span.offset_le_stop
      have hleft := (stands_moduleNameNode himported).mono (Nat.le_refl _) hhi
      refine .bind (gives_identifier name) fun | _, rfl => .pure ?_
      exact stands_specifier h rfl rfl hleft (.leaf (hname.mono hlo (Nat.le_refl _)) rfl rfl rfl) hchild rfl

theorem stands_exportSpecNode {specifier : ExportSpecifier} (h : Laid lo specifier.pieces hi) :
    InPlace .operand lo (exportSpecNode specifier) hi := by
  obtain ⟨«local», exported, span⟩ := specifier
  obtain ⟨-, -, hin, -⟩ := Laid.region_alone.mp h
  have hchild := children_moduleNameNode
  unfold exportSpecNode
  cases exported with
  | none =>
      have hlocal : InPlace .operand span.offset (moduleNameNode «local») span.stop :=
        stands_moduleNameNode hin
      exact stands_specifier h rfl rfl hlocal hlocal (hchild _) (hchild _)
  | some name =>
      obtain ⟨mid, hlo, hhi, hlocal, hname⟩ :=
        @Laid.of_append _ _ (Piece.moduleName «local») _ hin span.offset_le_stop
      exact stands_specifier h rfl rfl ((stands_moduleNameNode hlocal).mono (Nat.le_refl _) hhi)
        ((stands_moduleNameNode hname).mono hlo (Nat.le_refl _)) (hchild _) (hchild _)

/-- What an import binds besides a default. -/
def bindingsNode (bindings : ImportBindings) (source : StringLiteral) : Lowering Node :=
  match bindings with
  | .star name span => pure (.text .importStar name.name span)
  | .named specifiers span => do return .branch .importSpecs span (← specifiers.mapM importSpecNode)
  | .none => pure (.empty (.emptyAt source.span.start))

theorem importNode_eq (d : ImportDeclaration) : importNode d = (do
    markModule d.span.start
    let default ← nameOr (.empty (.emptyAt d.span.start)) d.defaultName
    let bindings ← bindingsNode d.bindings d.source
    return .branch .importDeclaration d.span [default, bindings, stringNode d.source]) := by
  obtain ⟨name, bindings, source, span⟩ := d
  unfold importNode nameOr bindingsNode
  cases name <;> cases bindings <;> simp only [bind_assoc, pure_bind]

theorem gives_bindingsNode {n : Node} {bindings : ImportBindings} {source : StringLiteral}
    (h : Gathers .part lo [n] (bindings.pieces ++ Piece.string source) hi) :
    Gives (fun m => Gathers .part lo [n, m] (Piece.string source) hi)
      (bindingsNode bindings source) := by
  cases bindings with
  | none => exact .pure (h.squeeze (.hollow (Nat.le_refl _) (Nat.le_refl _) rfl rfl rfl rfl) rfl)
  | star => exact .pure (h.put (.leaf h.alone rfl rfl rfl) rfl)
  | named specifiers span =>
      refine .bind ((LowersAll.mapM specifiers fun s => (lowers_importSpecNode s).alone).run
        span.offset_le_stop h.opened) ?_
      exact fun _ hrow => .pure (h.put (.operand h.alone hrow rfl rfl rfl) rfl)

theorem lowers_importNode (d : ImportDeclaration) : Lowers .operand d.pieces (importNode d) := by
  refine ⟨fun {lo hi} h => ?_⟩
  have hg := Gathers.inside .part h
  rw [List.append_assoc] at hg
  rw [importNode_eq]
  refine .skim fun _ => .bind (gives_nameOr _ hg fun hg => hg.hollow (fun hrow => ?_) rfl) fun _ hg => ?_
  · exact .hollow (Nat.le_refl _) hrow.le rfl rfl rfl rfl
  · refine .bind (gives_bindingsNode hg) fun _ hg => .pure ?_
    have hsource := InPlace.leaf (n := stringNode d.source) hg.alone rfl rfl rfl
    exact .operand h (hg.put hsource rfl).row rfl rfl rfl

theorem stands_exportNamedNode {specifiers : List ExportSpecifier} {specifiersSpan span : Span}
    {source : Option StringLiteral} (h : Laid lo [.region span
      ([.region specifiersSpan (Piece.each specifiers)] ++ Piece.maybe Piece.string source)] hi) :
    InPlace .item lo (exportNamedNode specifiers specifiersSpan source span) hi := by
  have hg := Gathers.inside .part h
  have hspecs : Row .operand specifiersSpan.offset (specifiers.map exportSpecNode) specifiersSpan.stop :=
    .map specifiers (fun _ _ _ h => stands_exportSpecNode h) specifiersSpan.offset_le_stop hg.opened
  have hg := hg.put (.operand (n := .branch .exportSpecs specifiersSpan _) hg.alone hspecs rfl rfl rfl) rfl
  unfold exportNamedNode
  cases source with
  | none => exact .item h hg.row rfl rfl
  | some source =>
    have hsource := InPlace.leaf (n := stringNode source) hg.alone rfl rfl rfl
    exact .item h (hg.put hsource rfl).row rfl rfl

theorem stands_exportAllNode {name : Option ModuleName} {source : StringLiteral} {span : Span}
    (h : Laid lo [.region span (Piece.maybe Piece.moduleName name ++ Piece.string source)] hi) :
    InPlace .item lo (exportAllNode name source span) hi := by
  have hg := Gathers.inside .part h
  cases name with
  | none =>
    have hempty {mid : Nat} (hrow : Row .part span.offset [] mid) : InPlace .part mid (.empty (.emptyAt span.start)) mid :=
      .hollow (Nat.le_refl _) hrow.le rfl rfl rfl rfl
    have hg := hg.hollow hempty rfl
    have hsource := InPlace.leaf (n := stringNode source) hg.alone rfl rfl rfl
    exact .item h (hg.put hsource rfl).row rfl rfl
  | some name =>
    have hg := hg.put (n := moduleNameNode name) (stands_moduleNameNode hg.alone) rfl
    have hsource := InPlace.leaf (n := stringNode source) hg.alone rfl rfl rfl
    exact .item h (hg.put hsource rfl).row rfl rfl

end Modules

/-! ## Statements and bodies -/

/-- Nothing is asked of nodes of the kind, and they can stand anywhere. -/
def plainKind (k : NodeKind) : Prop := k.isOrdinary = true ∧ k.needsList = false

theorem plain_ofUnary (o : UnaryOperator) : plainKind (.ofUnary o) := by cases o <;> exact ⟨rfl, rfl⟩

theorem plain_ofBinary (o : BinaryOperator) : plainKind (.ofBinary o) := by cases o <;> exact ⟨rfl, rfl⟩

theorem plain_ofAssignment (o : AssignmentOperator) : plainKind (.ofAssignment o) := by
  cases o <;> exact ⟨rfl, rfl⟩

theorem gives_declarationKind (kind : VariableKind) (span : Span) :
    Gives plainKind (declarationKind kind span) := by
  cases kind with
  | var => exact .pure ⟨rfl, rfl⟩
  | letWord => exact .skim fun _ => .pure ⟨rfl, rfl⟩
  | const => exact .skim fun _ => .pure ⟨rfl, rfl⟩

theorem gives_valueLoopKind (isAwait : Bool) (span : Span) :
    Gives plainKind (valueLoopKind isAwait span) :=
  .ite (.skim fun _ => .skim fun _ => .pure ⟨rfl, rfl⟩) (.skim fun _ => .pure ⟨rfl, rfl⟩)

section Statements

variable {lo hi : Nat} {span : Span} {inner : List Piece}

/-- A body that is no block stands in one of its own. -/
theorem lowers_bodyNode {s : Statement} (hs : Lowers .item s.pieces (statement s)) :
    Lowers .part s.pieces (bodyNode s (statement s)) := by
  refine ⟨fun {lo hi} h => ?_⟩
  obtain ⟨hlo, hhi, hin⟩ := Laid.statement s h
  have hblock : Gives (fun n => ∀ b, s = .block b → n.kind = .block) (statement s) := by
    rintro t ⟨items, span⟩ rfl
    rw [statement, block]
    rfl
  unfold bodyNode
  refine .skim fun _ => .bind (((hs.run h).and (hs.run hin)).and hblock) fun n ⟨⟨hn, hfull⟩, hk⟩ => ?_
  split
  · exact .pure ⟨hn.le, hn.laid, hn.script, show n.kind.needsList = false by rw [hk _ rfl]; rfl⟩
  · exact .pure (.of_row hlo hhi (Row.one hfull) rfl rfl rfl)

theorem stands_labelNode {label : Identifier} (h : Laid lo (Piece.identifier label) hi) :
    InPlace .item lo (labelNode label) hi := .bare h rfl rfl

/-- A jump, with the label it may have. -/
theorem stands_jump (kind : NodeKind) {label : Identifier}
    (h : Laid lo [.region span (Piece.identifier label)] hi) (hk : kind.isOrdinary = true)
    (hlist : kind.needsList = true) : InPlace .item lo (.branch kind span [labelNode label]) hi := by
  have hg := Gathers.inside .item h
  have hfits : Grade.item.fits kind = true := by rw [Grade.fits, hlist, Bool.or_true]
  exact .item h (hg.put (stands_labelNode hg.alone) rfl).row hk hfits

theorem lowers_continueNode (label : Option Identifier) (span : Span) :
    Lowers .item [.region span (Piece.maybe Piece.identifier label)] (continueNode label span) := by
  refine ⟨fun {lo hi} h => ?_⟩
  unfold continueNode
  refine .skim fun s => ?_
  cases label with
  | none =>
      have hnode : InPlace .item lo (.leaf .continueJump span) hi := .bare h rfl rfl
      exact .ite (.pure hnode) (.skim fun _ => .pure hnode)
  | some label =>
      have hnode := stands_jump .continueJump h rfl rfl
      dsimp only
      split
      · exact .skim fun _ => .pure hnode
      · exact .ite (.skim fun _ => .pure hnode) (.pure hnode)

theorem lowers_breakNode (label : Option Identifier) (span : Span) :
    Lowers .item [.region span (Piece.maybe Piece.identifier label)] (breakNode label span) := by
  refine ⟨fun {lo hi} h => ?_⟩
  unfold breakNode
  refine .skim fun s => ?_
  cases label with
  | none =>
      have hnode : InPlace .item lo (.leaf .breakJump span) hi := .bare h rfl rfl
      exact .ite (.pure hnode) (.skim fun _ => .pure hnode)
  | some label =>
      have hnode := stands_jump .breakJump h rfl rfl
      exact .ite (.skim fun _ => .pure hnode) (.pure hnode)

/-- A part that may be missing. -/
theorem gives_loopPart {missing : Span} {e : Option Expression} {ns : List Node} {ps : List Piece}
    (he : ∀ role, ∀ a ∈ e, Lowers .operand a.pieces (expression [] role a))
    (h : Gathers .part lo ns (Piece.maybe Piece.of e ++ ps) hi)
    (hmissing : Gathers .part lo ns ps hi →
      Gathers .part lo (ns ++ [.empty (.emptyAt missing.start)]) ps hi) :
    Gives (fun n => Gathers .part lo (ns ++ [n]) ps hi) (loopPart missing e) := by
  cases e with
  | none =>
      rw [loopPart]
      exact .pure (hmissing h)
  | some e =>
      rw [loopPart, ← bind_pure (expression [] _ e)]
      exact h.part (he _ e rfl) (fun _ hg => .pure hg) rfl

theorem gives_emptySpanAt (offset : Nat) :
    Gives (fun r => r.length = 0 ∧ r.stop ≤ offset) (emptySpanAt offset) :=
  fun s => ⟨rfl, Nat.min_le_left offset s.lineMap.length⟩

/-- The region of the statements of a case: they fill it, or there are none. -/
theorem gives_caseSpan {items : List Statement}
    (h : Laid lo (Piece.each items) span.stop) :
    Gives (fun r => r.stop ≤ span.stop ∧ if items = [] then r.length = 0
      else lo ≤ r.offset ∧ Laid r.offset (Piece.each items) r.stop) (caseSpan items span) := by
  unfold caseSpan
  cases items with
  | nil => exact (gives_emptySpanAt span.stop).mono fun r ⟨hlen, hstop⟩ => ⟨hstop, hlen⟩
  | cons first others =>
      obtain ⟨last, hl⟩ : ∃ last, (first :: others).getLast? = some last :=
        ⟨_, List.getLast?_eq_some_getLast (List.cons_ne_nil first others)⟩
      obtain ⟨hlo, hlast, hhi, hfill⟩ := Laid.statements h hl
      have hstop : (first.span.extendTo last.span).stop = last.span.stop :=
        (Span.stop_extendTo _ _).trans (Nat.max_eq_right hlast)
      rw [hl]
      exact .pure ⟨hstop ▸ hhi, by rw [if_neg (List.cons_ne_nil _ _), hstop]; exact ⟨hlo, hfill⟩⟩

/-- The block of a case over its statements. -/
theorem gives_caseBody {items : List Statement} {r : Span}
    (hm : LowersAll .item (Piece.each items) (statements true items)) (hle : lo ≤ span.stop)
    (hr : r.stop ≤ span.stop ∧ if items = [] then r.length = 0
      else lo ≤ r.offset ∧ Laid r.offset (Piece.each items) r.stop) :
    Gives (fun nodes => InPlace .part lo (.branch .block r nodes) span.stop) (statements true items) := by
  obtain ⟨hstop, hr⟩ := hr
  split at hr
  next hnil =>
    subst hnil
    rw [statements]
    exact .pure (.hollow hle hstop hr rfl rfl rfl)
  · exact (hm.run r.offset_le_stop hr.2).mono fun nodes hrow => .of_row hr.1 hstop hrow rfl rfl rfl

/-- The node of a name takes the value in. -/
theorem stands_declaratorNode {isName : Bool} {target : Node} {value : List Node}
    (h : Laid lo [.region span inner] hi) (hrow : Row .operand span.offset (target :: value) span.stop)
    (hk : isName = true → target.kind = .identifier) :
    InPlace .operand lo (declaratorNode isName target value span) hi := by
  unfold declaratorNode
  split
  next hname =>
    obtain ⟨mid, htarget, hvalue⟩ := hrow.of_cons
    have hk := hk hname
    have hbelow := htarget.laid.below
    rw [hk] at hbelow
    have hchildren : Row .part span.offset target.children mid := by
      refine ⟨hbelow.mono (Node.le_innerStart _ _) htarget.laid.fits.innerStop_le, fun child hc => ?_⟩
      refine ⟨htarget.laid.shaped.script child hc, Bool.eq_false_iff.mpr fun hlist => ?_⟩
      have hparent := htarget.laid.shaped.list child hc hlist
      rw [hk] at hparent
      exact absurd hparent (by decide)
    refine .operand (n := { target with span, children := target.children ++ value }) h
      (hchildren.append (hvalue.weaken rfl)) ?_ ?_ rfl
    · exact hk ▸ rfl
    · exact hk ▸ rfl
  · exact .operand h hrow rfl rfl rfl

theorem gives_parametersNode {items : List Node} {trailingComma : Bool}
    (h : Laid lo [.region span inner] hi) (hrow : Row .operand span.offset items span.stop) :
    Gives (InPlace .operand lo · hi) (parametersNode items trailingComma span) :=
  .skim fun _ => .pure (.operand h hrow rfl rfl rfl)

end Statements

end Lowering

end EcmaScript
