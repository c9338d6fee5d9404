import EcmaScript.Proofs.Await.Site
import EcmaScript.Proofs.Lowering.Plain

/-!
# What a step of lowering does about `await`

A step of lowering that has met the sites `U` has done three things about them, and no more: the source is a
module if one of them says so, the uses of `await` in the script itself wait, and those in other functions
that are not asynchronous are objected to (`Account`). `Accounts c U p` says this of a step `p` at a place
where `await` means `c`. The sites are found out together with the fact: one after the other for steps in
sequence, and none for a rule that has no say about `await`.

## Contents

* `Account`, `Accounts`: what is kept of the sites that a step has met.
* `Accounts.bind`: one step behind another.
* `Accounts.checkAwait`, `Accounts.markModule`: the two rules that have a say.
* `Accounts.irrelevant`: sites that nothing is to be said of.
-/

namespace EcmaScript

namespace Lowering

theorem exists_mem_union {U V : Set Site} {P : Site → Prop} :
    (∃ u ∈ U ∪ V, P u) ↔ (∃ u ∈ U, P u) ∨ ∃ u ∈ V, P u := by
  simp only [Set.mem_union, or_and_right, exists_or]

/-- The sites `U` are all that a way from `s` to `t` with the remarks `rs` has met. -/
structure Account (U : Set Site) (s : State) (rs : List Remark) (t : State) : Prop where
  scopes : t.scopes = s.scopes
  marked : t.isModule = true ↔ s.isModule = true ∨ ∃ u ∈ U, u.marksModule = true
  waiting : ∀ x, x ∈ t.pendingAwaits ↔
    x ∈ s.pendingAwaits ∨ ∃ u ∈ U, u.context = .topLevel ∧ u.await? = some x
  refused : ∀ position q, q.isAwait = true →
    (Remark.problem position q ∈ rs ↔ ∃ u ∈ U, u.context = .denied ∧ u.await? = some (position, q))

namespace Account

variable {U V : Set Site} {s t u : State} {rs qs : List Remark}

protected theorem refl (s : State) {rs : List Remark} (h : ∀ r ∈ rs, r.isAwait = false) :
    Account ∅ s rs s := by
  refine ⟨rfl, by simp, fun x => by simp, fun position q hq => ?_⟩
  simp only [Set.mem_empty_iff_false, false_and, exists_false, iff_false]
  intro hr
  have hfalse := h _ hr
  rw [Remark.isAwait, hq] at hfalse
  cases hfalse

theorem trans (h : Account U s rs t) (h' : Account V t qs u) : Account (U ∪ V) s (rs ++ qs) u := by
  refine ⟨h'.scopes.trans h.scopes, ?_, fun x => ?_, fun position q hq => ?_⟩
  · rw [h'.marked, h.marked, or_assoc, exists_mem_union]
  · rw [h'.waiting, h.waiting, or_assoc, exists_mem_union]
  · rw [List.mem_append, h.refused position q hq, h'.refused position q hq, exists_mem_union]

end Account

/-- At a place where `await` means `c` the step meets the sites `U`. -/
class Accounts (c : AwaitContext) (U : outParam (Set Site)) {α : Type} (p : Lowering α) : Prop where
  run : ∀ s : State, s.scopes.awaitContext = c → ∃ rs : List Remark,
    (∀ j, p { s with journal := j } = ((p s).1, { (p s).2 with journal := j.notes rs })) ∧
      Account U s rs (p s).2

theorem run_checkAwait (position : Position) (r : Problem) (s : State) :
    checkAwait position r s = (match s.scopes.awaitContext with
      | .allowed => ((), s)
      | .topLevel => ((), { s with pendingAwaits := (position, r) :: s.pendingAwaits })
      | .denied => ((), { s with journal := s.journal.notes [.problem position r] })) := by
  have hpure {α : Type} (a : α) (t : State) : (StateT.pure a : Lowering α) t = (a, t) := rfl
  unfold checkAwait
  cases h : s.scopes.awaitContext <;>
    simp [h, scopes, bind, StateT.bind, get, getThe, MonadStateOf.get, StateT.get, pure, hpure] <;> rfl

namespace Accounts

variable {α β : Type} {c c' : AwaitContext} {U V : Set Site} {p : Lowering α}

instance (priority := high) instPlain [h : Plain p] : Accounts c ∅ p := by
  refine ⟨fun s _ => ?_⟩
  obtain ⟨rs, hplain, hrun⟩ := h.trace s
  have hs : (p s).2 = { s with journal := s.journal.notes rs } := congrArg Prod.snd (hrun s.journal)
  refine ⟨rs, fun j => by rw [hrun j, hs], ?_⟩
  have hrefl := Account.refl s hplain
  rw [hs]
  exact ⟨rfl, hrefl.marked, hrefl.waiting, hrefl.refused⟩

/-! ## Combinators -/

theorem bind {f : α → Lowering β} (hp : Accounts c U p) (hf : ∀ a, Accounts c V (f a)) :
    Accounts c (U ∪ V) (p >>= f) := by
  refine ⟨fun s hs => ?_⟩
  obtain ⟨rs, hrun, hu⟩ := hp.run s hs
  obtain ⟨qs, hrun', hv⟩ := (hf (p s).1).run (p s).2 (hu.scopes ▸ hs)
  refine ⟨rs ++ qs, fun j => ?_, hu.trans hv⟩
  show f (p { s with journal := j }).1 (p { s with journal := j }).2 = _
  rw [hrun j]
  exact (hrun' (j.notes rs)).trans (by rw [Journal.notes_notes]; rfl)

-- Of two steps both may meet sites; the instances behind are tried before, and leave out what is empty.

instance (priority := low) instBind {f : α → Lowering β} [hp : Accounts c U p] [hf : ∀ a, Accounts c V (f a)] :
    Accounts c (U ∪ V) (p >>= f) := bind hp hf

instance instBindLast {f : α → Lowering β} [hp : Accounts c U p] [hf : ∀ a, Plain (f a)] :
    Accounts c U (p >>= f) := Set.union_empty U ▸ bind hp fun _ => instPlain

theorem bindPlain {f : α → Lowering β} (hp : Plain p) (hf : ∀ a, Accounts c V (f a)) :
    Accounts c V (p >>= f) := Set.empty_union V ▸ bind instPlain hf

instance instBindPlain {f : α → Lowering β} [hp : Plain p] [hf : ∀ a, Accounts c V (f a)] :
    Accounts c V (p >>= f) := bindPlain hp hf

instance instMap {f : α → β} [h : Accounts c U p] : Accounts c U (f <$> p) :=
  inferInstanceAs (Accounts c U (p >>= fun a => pure (f a)))

instance instIte {P : Prop} [Decidable P] {q : Lowering α} [hp : Accounts c U p] [hq : Accounts c U q] :
    Accounts c U (if P then p else q) := by
  split
  · exact hp
  · exact hq

/-- The sites may be told in another way. -/
theorem of_eq [h : Accounts c U p] (e : U = V) : Accounts c V p := e ▸ h

/-- A site of which nothing is to be said may be among them. -/
theorem irrelevant {q : Site} (ha : q.await? = none) (hm : q.marksModule = false) (h : Accounts c U p) :
    Accounts c ({q} ∪ U) p := by
  refine ⟨fun s hs => ?_⟩
  obtain ⟨rs, hrun, hu⟩ := h.run s hs
  refine ⟨rs, hrun, hu.scopes, ?_, fun x => ?_, fun position r hr => ?_⟩
  · rw [hu.marked, exists_mem_union]
    simp [hm]
  · rw [hu.waiting, exists_mem_union]
    simp [ha]
  · rw [hu.refused position r hr, exists_mem_union]
    simp [ha]

/-- A construct of which nothing is to be said, by the sites right below it. -/
theorem meets {q : Site} (ha : q.await? = none) (hm : q.marksModule = false) [h : Accounts c U p]
    (e : U = Site.withinAll q.inner ∪ V) : Accounts c (q.within ∪ V) p := by
  rw [Site.within_eq, Set.union_assoc, ← e]
  exact irrelevant ha hm h

theorem meets_only {q : Site} (ha : q.await? = none) (hm : q.marksModule = false) [h : Accounts c U p]
    (e : U = Site.withinAll q.inner) : Accounts c q.within p := by
  rw [Site.within_eq, ← e]
  exact irrelevant ha hm h

/-! ## Rules about `await` -/

/-- A use of `await` waits in the script itself, and is objected to in a function that is not
asynchronous. -/
theorem checkAwait {q : Site} {position : Position} {r : Problem} (hc : q.context = c)
    (ha : q.await? = some (position, r)) (hm : q.marksModule = false) :
    Accounts c {q} (checkAwait position r) := by
  refine ⟨fun s hs => ?_⟩
  have hrun (j : Journal) := run_checkAwait position r { s with journal := j }
  have hself := run_checkAwait position r s
  have hx (x : Position × Problem) : some (position, r) = some x ↔ x = (position, r) := by
    rw [Option.some.injEq, eq_comm]
  subst hc
  simp only [hs] at hrun hself
  rw [hself]
  cases hcontext : q.context with
  | allowed =>
      simp only [hcontext] at hrun ⊢
      refine ⟨[], hrun, rfl, ?_, fun x => ?_, fun place q' hq' => ?_⟩ <;> simp [hm, hcontext]
  | topLevel =>
      simp only [hcontext] at hrun ⊢
      refine ⟨[], hrun, rfl, ?_, fun x => ?_, fun place q' hq' => ?_⟩
      · simp [hm]
      · simp [hcontext, ha, hx, or_comm]
      · simp [hcontext]
  | denied =>
      simp only [hcontext] at hrun ⊢
      refine ⟨[.problem position r], hrun, rfl, ?_, fun x => ?_, fun place q' hq' => ?_⟩
      · simp [hm]
      · simp [hcontext]
      · simp [hcontext, ha, hx, eq_comm]

/-- A construct that only a module can have. -/
theorem markModule {q : Site} (ha : q.await? = none) (hm : q.marksModule = true) (position : Position) :
    Accounts c {q} (markModule position) := by
  refine ⟨fun s _ => ⟨[.feature .modules position], fun j => ?_, rfl, ?_, fun x => ?_, fun place r hr => ?_⟩⟩
  · show ((), { s with journal := j.record .modules position, isModule := true }) = _
    rw [Journal.record_eq]
    rfl
  · simp [hm, Lowering.markModule]
    rfl
  · simp [ha]
    rfl
  · simp [ha]

/-! ## Scopes -/

/-- A scope that leaves `await` with its meaning. -/
theorem between {enter exit : Scopes → Scopes} (h : ∀ s, exit (enter s) = s)
    (hc : ∀ s, s.awaitContext = c → (enter s).awaitContext = c') [hp : Accounts c' U p] :
    Accounts c U (between enter exit p) := by
  refine ⟨fun s hs => ?_⟩
  obtain ⟨rs, hrun, hu⟩ := hp.run { s with scopes := enter s.scopes } (hc _ hs)
  have run (s : State) : Lowering.between enter exit p s =
      ((p { s with scopes := enter s.scopes }).1,
        { (p { s with scopes := enter s.scopes }).2 with
          scopes := exit (p { s with scopes := enter s.scopes }).2.scopes }) := rfl
  refine ⟨rs, fun j => ?_, ?_⟩
  · have hj : p { s with journal := j, scopes := enter s.scopes } = _ := hrun j
    rw [run, run, hj]
  · rw [run]
    refine ⟨?_, hu.marked, hu.waiting, hu.refused⟩
    show exit _ = s.scopes
    rw [hu.scopes]
    exact h _

instance instInsideClass (names : List String) [Accounts c U p] : Accounts c U (insideClass names p) :=
  between (Scopes.exitClass_enterClass names) fun _ h => h

instance instInsideLoop [Accounts c U p] : Accounts c U (insideLoop p) :=
  between Scopes.exitLoop_enterLoop fun _ h => h

instance instInsideSwitch [Accounts c U p] : Accounts c U (insideSwitch p) :=
  between Scopes.exitSwitch_enterSwitch fun _ h => h

instance instInsideLabel (label : Identifier) (isLoop : Bool) [h : Accounts c U p] :
    Accounts c U (insideLabel label isLoop p) := by
  unfold insideLabel
  refine bindPlain inferInstance fun s => ?_
  split
  · exact instBindPlain
  · exact between (Scopes.popLabel_pushLabel ⟨label.name, isLoop⟩) fun _ h => h

/-- In a function `await` means what the function says. -/
theorem insideFunction {boundary : Boundary} (hb : boundary ≠ .script) (isGenerator isAsync : Bool)
    [Accounts (.ofFunction isAsync) U p] : Accounts c U (insideFunction boundary isGenerator isAsync p) := by
  have hc (s : Scopes) :
      (s.enterFunction boundary isGenerator isAsync).awaitContext = .ofFunction isAsync := by
    show (if isAsync = true then AwaitContext.allowed else if boundary = .script then .topLevel else .denied) = _
    rw [if_neg hb]
    rfl
  exact between (Scopes.exitFunction_enterFunction boundary isGenerator isAsync) fun s _ => hc s

instance (kind : FunctionKind) (isGenerator isAsync : Bool) [Accounts (.ofFunction isAsync) U p] :
    Accounts c U (Lowering.insideFunction (boundaryOf kind) isGenerator isAsync p) :=
  insideFunction (by cases kind <;> decide) isGenerator isAsync

instance [h : Accounts .denied U p] : Accounts c U (Lowering.insideFunction .fieldInitializer false false p) :=
  have : Accounts (.ofFunction false) U p := h
  insideFunction (by decide) false false

instance [h : Accounts .denied U p] : Accounts c U (Lowering.insideFunction .staticBlock false false p) :=
  have : Accounts (.ofFunction false) U p := h
  insideFunction (by decide) false false

end Accounts

end Lowering

end EcmaScript
