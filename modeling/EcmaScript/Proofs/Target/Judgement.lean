import EcmaScript.Proofs.Lowering.Tree

/-!
# Who says that something cannot be stored into

A step of lowering can say "invalid assignment target" itself, run a part that says it, or neither.
`Judges v P p` states which: at the place `v` the step `p` says the text if and only if `P`. Steps compose by
disjunction, and a step that has said it judges `True` whatever follows, because the journal only grows.

## Contents

* `Journal.RefusesTarget`: the text has been said.
* `Problem.SaysOther`: problems with other texts.
* `Judges`, `Silent`: what a step says, with the steps that are silent.
-/

namespace EcmaScript

/-! ## The text -/

namespace Journal

/-- The journal says that something cannot be stored into. -/
def RefusesTarget (j : Journal) : Prop :=
  ∃ d ∈ j.sink.reported, d.message = Problem.invalidAssignmentTarget.message

/-- A journal says so after a remark if it did before, or if the remark is reported with that text. -/
theorem refusesTarget_notes {j : Journal} {rs : List Remark} :
    (j.notes rs).RefusesTarget ↔ j.RefusesTarget ∨
      ∃ q ∈ Remark.reports j.edition rs, q.message = Problem.invalidAssignmentTarget.message := by
  constructor
  · rintro ⟨d, hd, hm⟩
    rcases Sink.mem_reports.mp hd with hd | ⟨_, q, hq, rfl⟩
    · exact .inl ⟨d, hd, hm⟩
    · exact .inr ⟨q, List.mem_of_find?_eq_some hq, hm⟩
  · rintro (⟨d, hd, hm⟩ | ⟨q, hq, hm⟩)
    · exact ⟨d, Sink.mem_reports_of_mem hd, hm⟩
    · obtain ⟨d, hd, hk⟩ := Sink.seen_iff.mp (Sink.seen_reports_of_mem (s := j.sink) hq)
      exact ⟨d, hd, (Report.message_eq_of_key hk).trans hm⟩

end Journal

/-- Problems that are told from a bad target by their text. -/
class Problem.SaysOther (p : Problem) : Prop where
  ne : p.message ≠ Problem.invalidAssignmentTarget.message

namespace Problem.SaysOther

instance : SaysOther .restNotLast := ⟨by decide⟩
instance : SaysOther .commaAfterRest := ⟨by decide⟩
instance : SaysOther .defaultAfterRest := ⟨by decide⟩
instance : SaysOther .privateNameMisplaced := ⟨by decide⟩
instance : SaysOther .privateFieldUndeclared := ⟨by decide⟩
instance : SaysOther .privateMethodUndeclared := ⟨by decide⟩

/-- The two texts open with different letters. -/
theorem keywordNotAllowed_ne (word : String) :
    (keywordNotAllowed word).message ≠ invalidAssignmentTarget.message := by
  intro h
  have front (more : List Char) :
      (String.ofList ('c' :: more) ++ word ++ "' here.").toList.head? = some 'c' := by
    rw [String.toList_append, String.toList_append, String.toList_ofList]
    rfl
  have ho := congrArg (fun text => text.toList.head?) h
  exact absurd ((front _).symm.trans ho) (by decide)

instance (word : String) : SaysOther (.keywordNotAllowed word) := ⟨keywordNotAllowed_ne word⟩

instance {c : Prop} [Decidable c] {p q : Problem} [hp : p.SaysOther] [hq : q.SaysOther] :
    SaysOther (if c then p else q) := by
  split
  · exact hp
  · exact hq

end Problem.SaysOther

/-- An edition objects to a feature with other words. -/
theorem Feature.objection_ne {f : Feature} {message : String} {severity : Severity}
    (h : f.objection? = some (message, severity)) : message ≠ Problem.invalidAssignmentTarget.message := by
  rintro rfl
  have ht := Speaker.ofText_objection h
  exact absurd ht (by decide)

namespace Lowering

/-! ## What a step says -/

/-- What the rules about targets and values can ask about the place where they are. -/
structure Place where
  scopes : Scopes
  lineMap : LineMap
  strict : Bool
  edition : Edition

def State.place (s : State) : Place := ⟨s.scopes, s.lineMap, s.strict, s.journal.edition⟩

variable {α β : Type} {p : Lowering α} {v : Place} {P Q : Prop}

/-- No step leaves the place. -/
theorem Composed.place_eq (h : Composed p) (s : State) : (p s).2.place = s.place := by
  induction h generalizing s with
  | pure | look | remark | setModule | defer => rfl
  | bind _ _ ihp ihf => exact (ihf _ _).trans (ihp s)
  | between o _ ih =>
      have hp := ih { s with scopes := o.enter s.scopes }
      have hs := congrArg Place.scopes hp
      have hl := congrArg Place.lineMap hp
      have ht := congrArg Place.strict hp
      have he := congrArg Place.edition hp
      show Place.mk (o.exit _) _ _ _ = _
      exact Place.mk.injEq .. ▸ ⟨(congrArg o.exit hs).trans (o.exit_enter _), hl, ht, he⟩

/-- A step takes back nothing. -/
theorem Composed.refusesTarget (h : Composed p) {s : State} (hs : s.journal.RefusesTarget) :
    (p s).2.journal.RefusesTarget := by
  obtain ⟨rs, hrun⟩ := h.trace s
  have hj : (p s).2.journal = s.journal.notes rs := congrArg (fun r => r.2.journal) (hrun s.journal)
  rw [hj]
  exact Journal.refusesTarget_notes.mpr (.inl hs)

/-- At the place `v` the step says that something cannot be stored into if and only if `P`. -/
class Judges (v : Place) (P : Prop) (p : Lowering α) : Prop where
  composed : Composed p
  refusesTarget_iff : ∀ s, s.place = v → ((p s).2.journal.RefusesTarget ↔ s.journal.RefusesTarget ∨ P)

/-- The step does not say at the place that something cannot be stored into. -/
abbrev Silent (v : Place) (p : Lowering α) : Prop := Judges v False p

namespace Judges

theorem congr (h : Judges v P p) (hpq : P ↔ Q) : Judges v Q p :=
  ⟨h.composed, fun s hs => by rw [h.refusesTarget_iff s hs, hpq]⟩

theorem bind {f : α → Lowering β} (hp : Judges v P p) (hf : ∀ a, Judges v Q (f a)) :
    Judges v (P ∨ Q) (p >>= f) := by
  refine ⟨.bind hp.composed fun a => (hf a).composed, fun s hs => ?_⟩
  have hs' : (p s).2.place = v := (hp.composed.place_eq s).trans hs
  show (f (p s).1 (p s).2).2.journal.RefusesTarget ↔ _
  rw [(hf _).refusesTarget_iff _ hs', hp.refusesTarget_iff s hs, or_assoc]

/-- What follows a silent step decides. -/
theorem bind_silent {f : α → Lowering β} (hp : Silent v p) (hf : ∀ a, Judges v P (f a)) :
    Judges v P (p >>= f) := (hp.bind hf).congr (iff_of_eq (false_or P))

/-- What a silent step follows has decided. -/
theorem silent_bind {f : α → Lowering β} (hp : Judges v P p) (hf : ∀ a, Silent v (f a)) :
    Judges v P (p >>= f) := (hp.bind hf).congr (iff_of_eq (or_false P))

/-- Once the text is said, the rest does not matter. -/
theorem said {f : α → Lowering β} (hp : Judges v True p) (hf : ∀ a, Composed (f a)) :
    Judges v True (p >>= f) := by
  refine ⟨.bind hp.composed hf, fun s hs => ?_⟩
  have h := (hp.refusesTarget_iff s hs).mpr (.inr trivial)
  exact iff_of_true ((hf _).refusesTarget h) (.inr trivial)

theorem error (position : Position) : Judges v True (error position .invalidAssignmentTarget) := by
  refine ⟨inferInstance, fun s _ => iff_of_true ?_ (.inr trivial)⟩
  show (s.journal.notes [.problem position .invalidAssignmentTarget]).RefusesTarget
  exact Journal.refusesTarget_notes.mpr (.inr ⟨_, List.mem_cons_self, rfl⟩)

end Judges

namespace Silent

instance instPure (a : α) : Silent v (pure a : Lowering α) :=
  ⟨.pure a, fun _ _ => (iff_of_eq (or_false _)).symm⟩

instance instBind {f : α → Lowering β} [hp : Silent v p] [hf : ∀ a, Silent v (f a)] :
    Silent v (p >>= f) := hp.bind_silent hf

instance instIte {c : Prop} [Decidable c] {q : Lowering α} [hp : Silent v p] [hq : Silent v q] :
    Silent v (if c then p else q) := by
  split
  · exact hp
  · exact hq

instance (f : View → α) : Silent v (look f) := ⟨.look f, fun _ _ => (iff_of_eq (or_false _)).symm⟩

instance : Silent v scopes := inferInstanceAs (Silent v (look (·.scopes)))

/-- A remark with other words. -/
theorem remark {r : Remark}
    (h : ∀ q, r.report? v.edition = some q → q.message ≠ Problem.invalidAssignmentTarget.message) :
    Silent v (remark r) := by
  refine ⟨.remark r, fun s hs => ?_⟩
  have he : s.journal.edition = v.edition := congrArg Place.edition hs
  show (s.journal.notes [r]).RefusesTarget ↔ _
  rw [Journal.refusesTarget_notes, he]
  refine or_congr_right (iff_of_false ?_ id)
  rintro ⟨q, hq, hm⟩
  obtain ⟨r', hr, hreport⟩ := Remark.mem_reports.mp hq
  rw [List.mem_singleton.mp hr] at hreport
  exact h q hreport hm

instance (f : Feature) (position : Position) : Silent v (record f position) := by
  rw [record_eq_remark]
  refine remark fun q hq => ?_
  simp only [Remark.report?] at hq
  split at hq
  · cases hq
  · obtain ⟨⟨message, severity⟩, ho, rfl⟩ := Option.map_eq_some_iff.mp hq
    exact Feature.objection_ne ho

instance (position : Position) (q : Problem) [h : q.SaysOther] : Silent v (error position q) := by
  refine remark (r := .problem position q) fun r hr => ?_
  cases hr
  exact h.ne

/-! ## Names, keys and accesses -/

instance (name : Identifier) : Silent v (identifier name) := by
  unfold identifier
  infer_instance

instance (isLast trailingComma : Bool) (span : Span) : Silent v (checkRest isLast trailingComma span) := by
  unfold checkRest
  infer_instance

instance (name : Identifier) : Silent v (recordPropertyName name) := by
  unfold recordPropertyName
  infer_instance

instance (key : PropertyKey) : Silent v (keyName key) := by
  unfold keyName
  split <;> infer_instance

instance (name : Identifier) (undeclared : Problem) [undeclared.SaysOther] :
    Silent v (checkPrivate name undeclared) := by
  unfold checkPrivate
  infer_instance

instance (place : ChainPlace) (receiver : Node) (property : MemberName) (isCallee : Bool) (span : Span) :
    Silent v (memberNode place receiver property isCallee span) := by
  unfold memberNode
  dsimp only
  split <;> infer_instance

/-- A shorthand that may not have its name is objected to with other words. -/
instance shorthand {position : Position} {name : String} {next : Lowering α} [h : Judges v P next] :
    Judges v P (do
      if ← isReservedShorthand name then error position (.keywordNotAllowed name)
      next) := by
  have e : (do
      if ← isReservedShorthand name then error position (.keywordNotAllowed name)
      next) = _ := Composed.shorthand_eq .pattern position name next
  rw [e]
  refine Judges.bind_silent inferInstance fun _ => Judges.bind_silent (remark fun q hq => ?_) fun _ => h
  simp only [Remark.report?] at hq
  split at hq <;> cases hq
  exact Problem.SaysOther.keywordNotAllowed_ne name

end Silent
end Lowering

end EcmaScript
