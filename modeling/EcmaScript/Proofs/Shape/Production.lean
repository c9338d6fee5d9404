import EcmaScript.Proofs.Grammar.Composed
import EcmaScript.Proofs.Shape.Concrete
import EcmaScript.Proofs.Shape.Extent

/-!
# Productions whose results are in form

`Forms` says of a production that it gives values made of constructs as the grammar makes them, expressions
that may stand by themselves among them. It is closed under the ways to put productions together. Where a
production gives more or less than that, or where it matters at which token it starts, what it gives is said
for one state (`GivesAt`).

## Contents

* `Forms`, `GivesAt`: what productions give.
* Instances and lemmas for the combinators, recovery among them.
* `Reader.Forms`: readers whose nonterminals give constructs in form.
-/

namespace EcmaScript

open IsPart (part)

namespace Grammar

-- An instance for a production is as large as the production.
set_option synthInstance.maxSize 20000

instance : Bare Context := ⟨⟩
instance : Bare State := ⟨⟩
instance : Bare FunctionKind := ⟨⟩
instance : Bare MethodModifiers := ⟨⟩

/-- The cursor stays in the text, and what the production gives is in form. -/
class Forms (text : List Char) {α : Type} [HasForm α] (p : Production α) : Prop where
  run : ∀ {s t : State} {a : α}, s.Standing text → p s = .ok a t → t.Standing text ∧ InForm a

namespace Forms

variable {text : List Char} {α β : Type} [HasForm α] [HasForm β] {p : Production α}

/-! ## Combinators -/

/-- Nothing need be said of a result that holds no expressions. -/
instance (priority := low) of_composed [Plain α] [h : Composed p] : Forms text p := by
  refine ⟨fun hs ht => ⟨?_, inferInstance⟩⟩
  obtain ⟨_, hf⟩ := h.forward_of_ok hs ht
  exact hf.standing

theorem bind {f : α → Production β} (hp : Forms text p)
    (hf : ∀ a : FormValue α, Forms text (f a.val)) : Forms text (p >>= f) := by
  refine ⟨fun hs ht => ?_⟩
  obtain ⟨a, u, hu, ht⟩ := exists_of_bind_ok ht
  obtain ⟨hstanding, ha⟩ := hp.run hs hu
  exact (hf ⟨a, ha⟩).run hstanding ht

/-- What follows may count on the order of what was read. -/
theorem bind_laid {F : α → List Piece} {f : α → Production β} (hp : Forms text p) (hl : Lays text F p)
    (hf : ∀ (a : FormValue α) (lo hi : Nat), Laid lo (F a.val) hi → Forms text (f a.val)) :
    Forms text (p >>= f) := by
  refine ⟨fun hs ht => ?_⟩
  obtain ⟨a, u, hu, ht⟩ := exists_of_bind_ok ht
  obtain ⟨hstanding, ha⟩ := hp.run hs hu
  exact (hf ⟨a, ha⟩ _ _ (hl.run hs hu).2).run hstanding ht

instance instBind {f : α → Production β} [hp : Forms text p] [hf : ∀ a : FormValue α, Forms text (f a.val)] :
    Forms text (p >>= f) := bind hp hf

instance instPure {a : α} [ha : InForm a] : Forms text (pure a : Production α) :=
  ⟨fun hs ht => by cases ht; exact ⟨hs, ha⟩⟩

instance : Forms text (get : Production State) := ⟨fun hs ht => by cases ht; exact ⟨hs, inferInstance⟩⟩

instance instMap {f : α → β} [hp : Forms text p] [hf : ∀ a : FormValue α, InForm (f a.val)] :
    Forms text (f <$> p) := by
  refine ⟨fun hs ht => ?_⟩
  obtain ⟨a, ha, rfl⟩ := exists_of_map_ok ht
  obtain ⟨hstanding, hin⟩ := hp.run hs ha
  exact ⟨hstanding, hf ⟨a, hin⟩⟩

instance instIte {c : Prop} [Decidable c] {q : Production α} [hp : Forms text p] [hq : Forms text q] :
    Forms text (if c then p else q) := by
  split
  · exact hp
  · exact hq

instance instFail (q : Problem) (position : Position) : Forms text (fail q position : Production α) :=
  ⟨fun _ ht => by rw [fail_eq] at ht; cases ht⟩

instance instFailHere (q : Problem) : Forms text (failHere q : Production α) :=
  ⟨fun _ ht => by rw [failHere_eq] at ht; cases ht⟩

/-- Behind a failure nothing comes. -/
instance (q : Problem) {γ : Type} {f : γ → Production α} : Forms text (failHere q >>= f) :=
  ⟨fun {s _ _} _ ht => by rw [bind_error (failHere_eq q s)] at ht; cases ht⟩

instance (q : Problem) (position : Position) {γ : Type} {f : γ → Production α} :
    Forms text (fail q position >>= f) :=
  ⟨fun {s _ _} _ ht => by rw [bind_error (fail_eq q position s)] at ht; cases ht⟩

instance instWithin (change : Context → Context) [h : Forms text p] : Forms text (within change p) := by
  refine ⟨fun {s t a} hs ht => ?_⟩
  unfold within at ht
  cases hu : p { s with context := change s.context } with
  | ok b u =>
      rw [hu] at ht
      cases ht
      obtain ⟨hstanding, hb⟩ := h.run (hs.idle (s.idle_context _)) hu
      exact ⟨hstanding.idle (u.idle_context _), hb⟩
  | error e u =>
      rw [hu] at ht
      cases ht

instance [Forms text p] : Forms text (allowingIn p) := instWithin _

instance (isAsync isGenerator : Bool) [Forms text p] :
    Forms text (insideFunction isAsync isGenerator p) := instWithin _

/-- What recovery gives in the place of something is in form like that. -/
theorem reporting {handler : Production α} (hc : Composed p) (hp : Forms text p) (hh : Forms text handler) :
    Forms text (reporting p handler) := by
  refine ⟨fun {s t a} hs ht => ?_⟩
  unfold Grammar.reporting at ht
  cases h : p s with
  | ok b u =>
      rw [h] at ht
      cases ht
      exact hp.run hs h
  | error e u =>
      obtain ⟨_, hf⟩ := hc.forward hs
      rw [h] at ht hf
      dsimp only at ht
      split at ht
      · exact hh.run (hf.standing.idle (u.idle_journal _)) ht
      · cases ht

end Forms

/-- From this state the cursor stays in the text, and what the production gives satisfies `P`. -/
structure GivesAt (text : List Char) (s : State) {α : Type} (P : α → Prop) (p : Production α) : Prop where
  run : ∀ {t : State} {a : α}, p s = .ok a t → t.Standing text ∧ P a

namespace GivesAt

variable {text : List Char} {s : State} {α β : Type} {P Q : α → Prop} {R : β → Prop}
  {p p' : Production α} {q : Production β} {f : β → Production α}

theorem of_forms [HasForm α] [hp : Forms text p] (hs : s.Standing text) : GivesAt text s InForm p :=
  ⟨fun ht => hp.run hs ht⟩

theorem here {a : α} (hs : s.Standing text) (h : P a) : GivesAt text s P (pure a) :=
  ⟨fun ht => by cases ht; exact ⟨hs, h⟩⟩

/-- The region of what was read closes the construct. -/
theorem close {start : Position} {make : Span → α} (hs : s.Standing text)
    (h : P (make (.between start s.lastStop))) :
    GivesAt text s P (do return make (← spanFrom start)) :=
  ⟨fun ht => by cases ht; exact ⟨hs, h⟩⟩

theorem look {b : β} (hq : q s = .ok b s) (h : GivesAt text s P (f b)) : GivesAt text s P (q >>= f) :=
  ⟨fun ht => h.run ((bind_ok hq).symm.trans ht)⟩

theorem bind (hq : GivesAt text s R q)
    (hf : ∀ {b : β} {u : State}, q s = .ok b u → u.Standing text → R b → GivesAt text u P (f b)) :
    GivesAt text s P (q >>= f) := by
  refine ⟨fun ht => ?_⟩
  obtain ⟨b, u, hu, ht⟩ := exists_of_bind_ok ht
  obtain ⟨hstanding, hb⟩ := hq.run hu
  exact (hf hu hstanding hb).run ht

/-- The first part gives something in form. -/
theorem andThen [HasForm β] [Forms text q] (hs : s.Standing text)
    (hf : ∀ {b : β} {u : State}, q s = .ok b u → u.Standing text → InForm b → GivesAt text u P (f b)) :
    GivesAt text s P (q >>= f) := bind (of_forms hs) hf

theorem map {make : β → α} (hq : GivesAt text s R q) (h : ∀ b, R b → P (make b)) :
    GivesAt text s P (make <$> q) := by
  refine ⟨fun ht => ?_⟩
  obtain ⟨b, hb, rfl⟩ := exists_of_map_ok ht
  obtain ⟨hstanding, hr⟩ := hq.run hb
  exact ⟨hstanding, h b hr⟩

theorem ite {c : Prop} [Decidable c] (hp : c → GivesAt text s P p) (hp' : ¬c → GivesAt text s P p') :
    GivesAt text s P (if c then p else p') := by
  split
  next hc => exact hp hc
  next hc => exact hp' hc

/-- Behind a failure nothing comes. -/
theorem stopped {e : State → Failure} (h : ∀ s, q s = .error (e s) s) : GivesAt text s P (q >>= f) :=
  ⟨fun ht => by rw [bind_error (h s)] at ht; cases ht⟩

theorem failHere (problem : Problem) : GivesAt text s P (Grammar.failHere problem : Production α) := ⟨nofun⟩

end GivesAt

theorem Forms.of_givesAt {text : List Char} {α : Type} [HasForm α] {p : Production α}
    (h : ∀ {s : State}, s.Standing text → GivesAt text s InForm p) : Forms text p :=
  ⟨fun hs ht => (h hs).run ht⟩

/-- A production that is composed keeps the cursor in the text, so only its results matter. -/
theorem Forms.of_results {text : List Char} {α : Type} [HasForm α] {p : Production α} (hc : Composed p)
    (h : ∀ {s t : State} {a : α}, s.Standing text → p s = .ok a t → InForm a) : Forms text p := by
  refine ⟨fun hs ht => ⟨?_, h hs ht⟩⟩
  obtain ⟨_, hf⟩ := hc.forward_of_ok hs ht
  exact hf.standing

/-- All nonterminals of a reader give constructs in form. -/
class Reader.Forms (text : List Char) (read : Reader) : Prop where
  consumes : read.Consumes text
  lays : Reader.Lays text read
  extends' : read.Extends
  statement (place : Place) : Grammar.Forms text (read (.statement place))
  assignment : Grammar.Forms text (read .assignment)
  unary : Grammar.Forms text (read .unary)
  leftHandSide : Grammar.Forms text (read .leftHandSide)
  construction : Grammar.Forms text (read .construction)
  binding : Grammar.Forms text (read .binding)
  /-- What `new` starts is not an optional chain. -/
  construction_chain : Always (·.isOptionalChain = false) (read .construction)

attribute [instance] Reader.Forms.lays Reader.Forms.statement Reader.Forms.assignment Reader.Forms.unary
  Reader.Forms.leftHandSide Reader.Forms.construction Reader.Forms.binding

end Grammar

end EcmaScript
