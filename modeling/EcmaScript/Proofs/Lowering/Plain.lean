import EcmaScript.Proofs.Lowering.Apart

/-!
# Steps of lowering without a say about `await`

Most rules only make remarks: they neither note that the source is a module nor put an objection to `await`
off, and what they object to is something else than `await` at a wrong place. `Plain` is the class of these
steps. They leave the state as it is, up to the journal (`Plain.trace`).

## Contents

* `Problem.isAwait`, `Remark.isAwait`: objections to `await` at a wrong place.
* `Plain`: the class, its closure under the combinators, and what it says.
* `Plain.ofApart`: the rules that look at one thing.
-/

namespace EcmaScript

/-- The objections to `await` where it may not be used. -/
@[reducible] def Problem.isAwait : Problem → Bool
  | .awaitOutsideAsync | .forAwaitOutsideAsync => true
  | _ => false

def Remark.isAwait : Remark → Bool
  | .problem _ p => p.isAwait
  | _ => false

namespace Lowering

-- An instance for a rule is as large as the rule.
set_option synthInstance.maxSize 2000

/-- The steps that are put together from remarks which do not object to `await`. -/
class inductive Plain : {α : Type} → Lowering α → Prop where
  | pure {α : Type} (a : α) : Plain (pure a : Lowering α)
  | bind {α β : Type} {p : Lowering α} {f : α → Lowering β} :
      Plain p → (∀ a, Plain (f a)) → Plain (p >>= f)
  | look {α : Type} (f : View → α) : Plain (look f)
  | remark (r : Remark) : r.isAwait = false → Plain (remark r)

namespace Plain

attribute [instance] Plain.pure Plain.look

variable {α β : Type} {p : Lowering α}

instance (priority := low) composed [h : Plain p] : Composed p := by
  induction h with
  | pure a => exact .pure a
  | bind _ _ ihp ihf => exact .bind ihp ihf
  | look f => exact .look f
  | remark r _ => exact .remark r

/-- **A plain step only writes into the journal**, and no objection to `await`. -/
theorem trace (h : Plain p) (s : State) : ∃ rs : List Remark, (∀ r ∈ rs, r.isAwait = false) ∧
    ∀ j, p { s with journal := j } = ((p s).1, { s with journal := j.notes rs }) := by
  induction h generalizing s with
  | pure a => exact ⟨[], nofun, fun _ => rfl⟩
  | look f => exact ⟨[], nofun, fun _ => rfl⟩
  | remark r hr => exact ⟨[r], fun q hq => List.mem_singleton.mp hq ▸ hr, fun _ => rfl⟩
  | @bind α β p f _ _ ihp ihf =>
      obtain ⟨rs, hplain, hp⟩ := ihp s
      obtain ⟨qs, hplain', hf⟩ := ihf (p s).1 s
      -- behind the first part the state differs by its journal only, which no step looks at
      have hs : (p s).2 = { s with journal := s.journal.notes rs } := congrArg Prod.snd (hp s.journal)
      refine ⟨rs ++ qs, fun r hr => (List.mem_append.mp hr).elim (hplain r) (hplain' r), fun j => ?_⟩
      have hvalue : ((p >>= f) s).1 = (f (p s).1 s).1 := by
        show (f (p s).1 (p s).2).1 = _
        rw [hs, hf]
      show f (p { s with journal := j }).1 (p { s with journal := j }).2 = _
      rw [hp j, hf, Journal.notes_notes, hvalue]

/-! ## Combinators -/

instance instBind {f : α → Lowering β} [hp : Plain p] [hf : ∀ a, Plain (f a)] : Plain (p >>= f) :=
  bind hp hf

instance instMap {f : α → β} [h : Plain p] : Plain (f <$> p) :=
  inferInstanceAs (Plain (p >>= fun a => Pure.pure (f a)))

instance instIte {c : Prop} [Decidable c] {q : Lowering α} [hp : Plain p] [hq : Plain q] :
    Plain (if c then p else q) := by
  split
  · exact hp
  · exact hq

/-- A rule that leaves objections to `await` alone is plain. -/
instance (priority := low) ofApart [h : Apart Problem.isAwait p] : Plain p := by
  induction h with
  | pure a => exact .pure a
  | bind _ _ ihp ihf => exact .bind ihp ihf
  | look f => exact .look f
  | remark r hr => exact .remark r (by cases r <;> exact hr)

end Plain

end Lowering

end EcmaScript
