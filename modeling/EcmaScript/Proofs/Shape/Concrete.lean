import EcmaScript.Proofs.Layout.Concrete

/-!
# The shapes of concrete trees

The grammar promises more about a construct than its type says. An operator covers the text from its left
operand to its right one; what is tagged or constructed is no optional chain; and an arrow function stands
where nothing follows it, unless the grammar forgets to ask. An arrow function that stands at the front of
something larger (`opensWithArrow`) is out of place everywhere but in the right operand of a binary
operator and in the callee of a construction, and in what is at the front of these. `Part.Fits` says this
of one construct, `Part.Formed` of a construct and all that is inside it.

Over a hundred productions put constructs together, so the property is carried along by a type class, as
their places are: `Held P a` says that a value is made of constructs of which `P` holds, all the way down,
and of an expression besides that it may stand by itself; it is closed under the tables of parts, and under
lists and pairs. The grammar gives values that are `InForm`, made of constructs that are as they should be.

## Contents

* `Expression.opensWithArrow`, `Expression.Separate`: where arrow functions stand.
* `Expression.Fits`, `Part.Fits`: constructs as the grammar makes them.
* `Part.Every`: what holds of a construct and of all that is inside it.
* `HasForm`, `Held`, `InForm`, `FormValue`: values made of such constructs, with instances for each type.
-/

namespace EcmaScript

open IsPart (part)

namespace Expression

/-! ## Arrow functions at the front -/

/-- Whether an arrow function without parentheses stands at the front: the expression is one, or its left
operand, its receiver or its tag opens with one. -/
def opensWithArrow : Expression → Bool
  | function f => f.kind == .arrow
  | binary _ left _ _ => left.opensWithArrow
  | member receiver _ _ _ | computedMember receiver _ _ _ => receiver.opensWithArrow
  | call callee _ _ _ _ => callee.opensWithArrow
  | taggedTemplate tag _ _ _ _ => tag.opensWithArrow
  | _ => false

/-- An arrow function at the front is all that there is. -/
def Separate (e : Expression) : Prop := e.opensWithArrow = true → e.isArrow = true

theorem separate_of_not_opens {e : Expression} (h : e.opensWithArrow = false) : e.Separate :=
  fun ho => absurd (ho.symm.trans h) Bool.noConfusion

/-- What may stand by itself and is no arrow function does not open with one. -/
theorem Separate.opens_eq_false {e : Expression} (h : e.Separate) (ha : ¬e.isArrow = true) :
    e.opensWithArrow = false :=
  Bool.eq_false_iff.mpr fun ho => ha (h ho)

/-! ## One expression -/

/-- What the grammar promises of an expression and of what it is made of directly. The operands of binary
operators, receivers, tags and the callees of constructions may open with an arrow function. -/
def Fits : Expression → Prop
  | binary _ left right s => s = .between left.start right.span.stop
  | assignment _ left right s => s = .between left.start right.span.stop ∧ left.Separate ∧ right.Separate
  | conditional test consequent alternate _ =>
    test.opensWithArrow = false ∧ consequent.Separate ∧ alternate.Separate
  | sequence items s =>
    2 ≤ items.length ∧ (∀ e ∈ items, e.Separate) ∧ ∃ lo hi, Laid lo (sequence items s).pieces hi
  | member _ _ _ _ => True
  | computedMember _ key _ _ => key.Separate
  | call _ es _ _ _ => ∀ e ∈ es, e.Separate
  | construction callee es _ _ => callee.isOptionalChain = false ∧ ∀ e ∈ es, e.Separate
  | taggedTemplate tag _ es _ _ => tag.isOptionalChain = false ∧ ∀ e ∈ es, e.Separate
  | e => ∀ inner, .expression inner ∈ e.parts → inner.Separate

end Expression

namespace Part

/-- What the grammar promises of a construct: what it is made of directly may stand by itself. -/
def Fits : Part → Prop
  | expression e => e.Fits
  | p => ∀ e, expression e ∈ p.parts → e.Separate

/-- The property holds of the construct and of all that is inside it. -/
inductive Every (P : Part → Prop) : Part → Prop
  | mk {p : Part} (own : P p) (inner : ∀ q ∈ p.parts, Every P q) : Every P p

namespace Every

variable {P Q : Part → Prop} {p : Part}

theorem own (h : p.Every P) : P p := by
  cases h with
  | mk own _ => exact own

theorem inner (h : p.Every P) : ∀ q ∈ p.parts, q.Every P := by
  cases h with
  | mk _ inner => exact inner

theorem nth {q : Part} {i : Nat} (h : p.Every P) (hq : p.parts[i]? = some q) : q.Every P :=
  h.inner q (List.mem_of_getElem? hq)

theorem mono (h : p.Every P) (hpq : ∀ q, P q → Q q) : p.Every Q := by
  induction h with
  | mk own _ ih => exact .mk (hpq _ own) ih

end Every

/-- The construct is as the grammar makes it, and so is all that is inside it. -/
abbrev Formed (p : Part) : Prop := p.Every Part.Fits

/-- Whether the construct is an expression. -/
def isExpression : Part → Bool
  | expression _ => true
  | _ => false

theorem fits_iff {p : Part} (hp : p.isExpression = false) :
    p.Fits ↔ ∀ e, expression e ∈ p.parts → e.Separate := by
  cases p with
  | expression e => cases hp
  | _ => exact .rfl

/-- A property of constructs that are as they should be. -/
class Fitting (P : Part → Prop) : Prop where
  fits : ∀ {p}, P p → p.Fits

instance : Fitting Part.Fits := ⟨id⟩

/-- What is not made of anything is as it should be. -/
theorem formed_of_parts_nil {p : Part} (hp : p.isExpression = false) (h : p.parts = []) : p.Formed := by
  refine .mk ((fits_iff hp).mpr ?_) ?_
  · rw [h]
    exact fun e he => absurd he List.not_mem_nil
  · rw [h]
    exact nofun

end Part

/-! ## Values -/

/-- Values that are made of constructs. -/
class HasForm (α : Type) where
  /-- The property holds of all that the value is made of. -/
  formed : (Part → Prop) → α → Prop

/-- The property holds of all that the value is made of, and its expressions may stand by themselves. -/
class Held (P : Part → Prop) {α : Type} [HasForm α] (a : α) : Prop where
  formed : HasForm.formed P a

/-- The value is made of constructs as the grammar makes them, and its expressions may stand by themselves. -/
abbrev InForm {α : Type} [HasForm α] (a : α) : Prop := Held Part.Fits a

/-- A value of such constructs. -/
structure FormValue (α : Type) [HasForm α] where
  val : α
  inForm : InForm val

attribute [instance] FormValue.inForm

/-- Types whose values hold no expressions. -/
class Bare (α : Type) : Prop

instance {α : Type} [Bare α] : HasForm α := ⟨fun _ _ => True⟩

instance : Bare Bool := ⟨⟩
instance : Bare Unit := ⟨⟩
instance : Bare Token := ⟨⟩
instance : Bare Position := ⟨⟩
instance : Bare Span := ⟨⟩
instance : Bare LexicalDiagnostic := ⟨⟩
instance : Bare Identifier := ⟨⟩
instance : Bare StringLiteral := ⟨⟩
instance : Bare MemberName := ⟨⟩
instance : Bare ModuleName := ⟨⟩
instance : Bare TemplateText := ⟨⟩
instance : Bare ImportSpecifier := ⟨⟩
instance : Bare ImportBindings := ⟨⟩
instance : Bare ImportDeclaration := ⟨⟩
instance : Bare ExportSpecifier := ⟨⟩

instance (priority := low) {α : Type} [IsPart α] : HasForm α := ⟨fun P a => (part a).Every P⟩

instance : HasForm Expression := ⟨fun P e => (part e).Every P ∧ e.Separate⟩

instance : HasForm Part := ⟨fun P p => p.Every P ∧ ∀ e, p = .expression e → e.Separate⟩

section Containers

variable {α β : Type} [HasForm α] [HasForm β]

instance : HasForm (List α) := ⟨fun P xs => ∀ x ∈ xs, HasForm.formed P x⟩

instance : HasForm (Option α) := ⟨fun P x => ∀ a ∈ x, HasForm.formed P a⟩

instance : HasForm (α × β) := ⟨fun P x => HasForm.formed P x.1 ∧ HasForm.formed P x.2⟩

/-- Types of which every value is in form. -/
class Plain (α : Type) [HasForm α] : Prop where
  formed : ∀ (P : Part → Prop) (a : α), HasForm.formed P a

variable {P : Part → Prop}

instance [h : Plain α] (a : α) : Held P a := ⟨h.formed P a⟩

instance {α : Type} [Bare α] : Plain α := ⟨fun _ _ => True.intro⟩

instance [h : Plain α] : Plain (List α) := ⟨fun P _ x _ => h.formed P x⟩

instance [h : Plain α] : Plain (Option α) := ⟨fun P _ a _ => h.formed P a⟩

instance [ha : Plain α] [hb : Plain β] : Plain (α × β) := ⟨fun P x => ⟨ha.formed P x.1, hb.formed P x.2⟩⟩

end Containers

namespace Held

variable {P : Part → Prop}

/-! ### Lists, options and pairs -/

section Containers

variable {α β : Type} [HasForm α] [HasForm β] {a : α} {b : β} {x : Option α} {xs ys : List α}

@[simp] theorem cons_iff : Held P (a :: xs) ↔ Held P a ∧ Held P xs :=
  ⟨fun h => ⟨⟨h.formed a List.mem_cons_self⟩, ⟨fun b hb => h.formed b (List.mem_cons_of_mem a hb)⟩⟩,
    fun h => ⟨List.forall_mem_cons.mpr ⟨h.1.formed, h.2.formed⟩⟩⟩

@[simp] theorem append_iff : Held P (xs ++ ys) ↔ Held P xs ∧ Held P ys :=
  ⟨fun h => ⟨⟨fun b hb => h.formed b (List.mem_append_left _ hb)⟩,
    ⟨fun b hb => h.formed b (List.mem_append_right _ hb)⟩⟩,
    fun h => ⟨List.forall_mem_append.mpr ⟨h.1.formed, h.2.formed⟩⟩⟩

@[simp] theorem some_iff : Held P (some a) ↔ Held P a :=
  ⟨fun h => ⟨h.formed a rfl⟩, fun h => ⟨fun _ hm => Option.mem_some.mp hm ▸ h.formed⟩⟩

instance : Held P ([] : List α) := ⟨nofun⟩

instance : Held P (none : Option α) := ⟨nofun⟩

instance [ha : Held P a] [hx : Held P xs] : Held P (a :: xs) := cons_iff.mpr ⟨ha, hx⟩

instance [hx : Held P xs] [hy : Held P ys] : Held P (xs ++ ys) := append_iff.mpr ⟨hx, hy⟩

instance [h : Held P x] : Held P x.toList := ⟨fun a ha => h.formed a (Option.mem_toList.mp ha)⟩

instance [h : Held P a] : Held P (some a) := some_iff.mpr h

instance [hx : Held P xs] : Held P xs.reverse := ⟨fun x hm => hx.formed x (List.mem_reverse.mp hm)⟩

instance [ha : Held P a] [hb : Held P b] : Held P (a, b) := ⟨ha.formed, hb.formed⟩

instance {x : α × β} [h : Held P x] : Held P x.1 := ⟨h.formed.1⟩

instance {x : α × β} [h : Held P x] : Held P x.2 := ⟨h.formed.2⟩

instance {xs : List (α × β)} [h : Held P xs] : Held P (xs.map (·.1)) :=
  ⟨fun _ hm => have ⟨_, hx, e⟩ := List.mem_map.mp hm; e ▸ (h.formed _ hx).1⟩

instance {xs : List (Option α)} [h : Held P xs] : Held P (xs.filterMap id) :=
  ⟨fun _ hm => have ⟨_, hx, e⟩ := List.mem_filterMap.mp hm; h.formed _ hx _ e⟩

end Containers

/-! ### Constructs as parts -/

/-- A value in form is a part in form, and a part of which something holds is a value of which it holds. -/
class Embeds (α : Type) [IsPart α] [HasForm α] : Prop where
  embed : ∀ a : α, InForm a → InForm (part a)
  extract : ∀ {P : Part → Prop} {a : α}, Held P (part a) → Held P a

/-- Nothing need be said of a region. -/
instance (s : Span) : InForm (Part.span s) := ⟨Part.formed_of_parts_nil rfl rfl, nofun⟩

instance (p : Position) : InForm (Part.position p) := ⟨Part.formed_of_parts_nil rfl rfl, nofun⟩

instance : Embeds Position := ⟨fun p _ => inferInstanceAs (InForm (Part.position p)), fun _ => inferInstance⟩
instance : Embeds Span := ⟨fun s _ => inferInstanceAs (InForm (Part.span s)), fun _ => inferInstance⟩
instance : Embeds LexicalDiagnostic :=
  ⟨fun d _ => inferInstanceAs (InForm (Part.position d.position)), fun _ => inferInstance⟩
instance : Embeds Identifier :=
  ⟨fun n _ => inferInstanceAs (InForm (Part.span n.span)), fun _ => inferInstance⟩
instance : Embeds StringLiteral :=
  ⟨fun l _ => inferInstanceAs (InForm (Part.span l.span)), fun _ => inferInstance⟩
instance : Embeds MemberName :=
  ⟨fun n _ => inferInstanceAs (InForm (Part.span n.identifier.span)), fun _ => inferInstance⟩
instance : Embeds ModuleName :=
  ⟨fun n _ => inferInstanceAs (InForm (Part.span n.span)), fun _ => inferInstance⟩
instance : Embeds Expression :=
  ⟨fun _ h => ⟨h.formed.1, fun _ he => Part.expression.inj he ▸ h.formed.2⟩,
    fun h => ⟨h.formed.1, h.formed.2 _ rfl⟩⟩
instance : Embeds ArrayElement := ⟨fun _ h => ⟨h.formed, nofun⟩, fun h => ⟨h.formed.1⟩⟩
instance : Embeds Property := ⟨fun _ h => ⟨h.formed, nofun⟩, fun h => ⟨h.formed.1⟩⟩
instance : Embeds PropertyKey := ⟨fun _ h => ⟨h.formed, nofun⟩, fun h => ⟨h.formed.1⟩⟩
instance : Embeds Function := ⟨fun _ h => ⟨h.formed, nofun⟩, fun h => ⟨h.formed.1⟩⟩
instance : Embeds FunctionBody := ⟨fun _ h => ⟨h.formed, nofun⟩, fun h => ⟨h.formed.1⟩⟩
instance : Embeds ClassDefinition := ⟨fun _ h => ⟨h.formed, nofun⟩, fun h => ⟨h.formed.1⟩⟩
instance : Embeds ClassMember := ⟨fun _ h => ⟨h.formed, nofun⟩, fun h => ⟨h.formed.1⟩⟩
instance : Embeds Block := ⟨fun _ h => ⟨h.formed, nofun⟩, fun h => ⟨h.formed.1⟩⟩
instance : Embeds Declarator := ⟨fun _ h => ⟨h.formed, nofun⟩, fun h => ⟨h.formed.1⟩⟩
instance : Embeds Declaration := ⟨fun _ h => ⟨h.formed, nofun⟩, fun h => ⟨h.formed.1⟩⟩
instance : Embeds LoopHead := ⟨fun _ h => ⟨h.formed, nofun⟩, fun h => ⟨h.formed.1⟩⟩
instance : Embeds SwitchCase := ⟨fun _ h => ⟨h.formed, nofun⟩, fun h => ⟨h.formed.1⟩⟩
instance : Embeds CatchClause := ⟨fun _ h => ⟨h.formed, nofun⟩, fun h => ⟨h.formed.1⟩⟩
instance : Embeds Statement := ⟨fun _ h => ⟨h.formed, nofun⟩, fun h => ⟨h.formed.1⟩⟩

section Parts

variable {α : Type} [IsPart α] [HasForm α] [he : Embeds α] {a : α} {x : Option α} {xs : List α}

instance [h : InForm a] : InForm (part a) := he.embed a h

instance [h : InForm xs] : InForm (xs.map part) :=
  ⟨fun _ hq => have ⟨a, ha, e⟩ := List.mem_map.mp hq; e ▸ (he.embed a ⟨h.formed a ha⟩).formed⟩

theorem of_part (h : Held P (part a)) : Held P a := he.extract h

theorem of_map_part (h : Held P (xs.map part)) : Held P xs :=
  ⟨fun _ ha => (of_part ⟨h.formed _ (List.mem_map_of_mem ha)⟩).formed⟩

theorem of_toList_part (h : Held P (x.toList.map part)) : Held P x :=
  ⟨fun a ha => h.of_map_part.formed a (Option.mem_toList.mpr ha)⟩

end Parts

/-- A construct is as the grammar makes it if its parts are. -/
theorem of_parts {p : Part} (hp : p.isExpression = false) (h : InForm p.parts) : p.Formed :=
  .mk ((Part.fits_iff hp).mpr fun e he => (h.formed _ he).2 e rfl) fun q hq => (h.formed q hq).1

/-- What holds of a construct that is as it should be holds of its parts. -/
theorem parts [hP : Part.Fitting P] {p : Part} (hp : p.isExpression = false) (h : p.Every P) : Held P p.parts :=
  ⟨fun q hq => ⟨h.inner q hq, fun e he => (Part.fits_iff hp).mp (hP.fits h.own) e (he ▸ hq)⟩⟩

/-- Whether nothing else is promised of the expression than that what it is made of may stand by itself. -/
@[reducible] def isOrdinary : Expression → Bool
  | .binary .. | .assignment .. | .conditional .. | .sequence .. | .member .. | .computedMember ..
  | .call .. | .construction .. | .taggedTemplate .. => false
  | _ => true

/-- The same of an expression of which nothing else is promised. -/
theorem parts_expression [hP : Part.Fitting P] {e : Expression} (h : (part e).Every P)
    (ho : isOrdinary e = true := by rfl) : Held P e.parts := by
  have hfits : e.Fits := hP.fits h.own
  refine ⟨fun q hq => ⟨h.inner q hq, fun inner hi => ?_⟩⟩
  rw [hi] at hq
  cases e <;> first | exact hfits inner hq | cases ho

theorem nth {α : Type} [IsPart α] [HasForm α] [Embeds α] {a : α} {ps : List Part} {i : Nat}
    (h : Held P ps) (ha : ps[i]? = some (part a)) : Held P a :=
  of_part ⟨h.formed _ (List.mem_of_getElem? ha)⟩

/-- Parts that may stand by themselves. -/
theorem items {p : Part} {es : List Expression} (h : p.Every P) (hes : ∀ e ∈ es, e.Separate)
    (hin : ∀ q ∈ es.map part, q ∈ p.parts) : Held P es :=
  ⟨fun e he => ⟨h.inner _ (hin _ (List.mem_map_of_mem he)), hes e he⟩⟩

theorem drop {ps : List Part} (h : Held P ps) (i : Nat) : Held P (ps.drop i) :=
  ⟨fun q hq => h.formed q (List.mem_of_mem_drop hq)⟩

/-- What is made of regions only is in form. -/
theorem embed_bare {α : Type} [IsPart α] [Bare α] {a : α} (hp : (part a).isExpression = false)
    (h : InForm (part a).parts) : InForm (part a) := by
  refine ⟨of_parts hp h, fun e he => ?_⟩
  rw [he] at hp
  cases hp

instance : Embeds TemplateText :=
  ⟨fun t _ => embed_bare rfl (inferInstanceAs (InForm t.parts)), fun _ => inferInstance⟩
instance : Embeds ImportSpecifier :=
  ⟨fun s _ => embed_bare rfl (inferInstanceAs (InForm s.parts)), fun _ => inferInstance⟩
instance : Embeds ExportSpecifier :=
  ⟨fun s _ => embed_bare rfl (inferInstanceAs (InForm s.parts)), fun _ => inferInstance⟩
instance : Embeds ImportBindings := by
  refine ⟨fun b _ => embed_bare rfl (?_ : InForm b.parts), fun _ => inferInstance⟩
  cases b <;> infer_instance
instance : Embeds ImportDeclaration :=
  ⟨fun d _ => embed_bare rfl (inferInstanceAs (InForm d.parts)), fun _ => inferInstance⟩

/-- What a construct is made of that starts with something that may not stand by itself. -/
theorem formed_of_first {s : Span} {e : Expression} {rest : List Part} (he : (part e).Formed)
    [hrest : InForm rest] : ∀ q ∈ part s :: part e :: rest, q.Formed :=
  List.forall_mem_cons.mpr ⟨(inferInstance : InForm (Part.span s)).formed.1, List.forall_mem_cons.mpr
    ⟨he, fun q hq => (hrest.formed q hq).1⟩⟩

section Constructs

variable {element : ArrayElement} {property : Property} {key : PropertyKey} {f : Function}
  {body : FunctionBody} {c : ClassDefinition} {member : ClassMember} {b : Block}
  {declarator : Declarator} {d : Declaration} {head : LoopHead} {switchCase : SwitchCase}
  {clause : CatchClause} {s : Statement} {e : Expression}

-- The table of a construct is looked up only if nothing else is known of it.
instance (priority := low) [h : InForm element.parts] : InForm element := ⟨of_parts rfl h⟩
instance (priority := low) [h : InForm property.parts] : InForm property := ⟨of_parts rfl h⟩
instance (priority := low) [h : InForm key.parts] : InForm key := ⟨of_parts rfl h⟩
instance (priority := low) [h : InForm f.parts] : InForm f := ⟨of_parts rfl h⟩
instance (priority := low) [h : InForm body.parts] : InForm body := ⟨of_parts rfl h⟩
instance (priority := low) [h : InForm c.parts] : InForm c := ⟨of_parts rfl h⟩
instance (priority := low) [h : InForm member.parts] : InForm member := ⟨of_parts rfl h⟩
instance (priority := low) [h : InForm b.parts] : InForm b := ⟨of_parts rfl h⟩
instance (priority := low) [h : InForm declarator.parts] : InForm declarator := ⟨of_parts rfl h⟩
instance (priority := low) [h : InForm d.parts] : InForm d := ⟨of_parts rfl h⟩
instance (priority := low) [h : InForm head.parts] : InForm head := ⟨of_parts rfl h⟩
instance (priority := low) [h : InForm switchCase.parts] : InForm switchCase := ⟨of_parts rfl h⟩
instance (priority := low) [h : InForm clause.parts] : InForm clause := ⟨of_parts rfl h⟩
instance (priority := low) [h : InForm s.parts] : InForm s := ⟨of_parts rfl h⟩

/-- A test that comes out true. -/
class IsTrue (b : Bool) : Prop where
  eq : b = true

instance : IsTrue true := ⟨rfl⟩

instance (priority := low) [h : InForm e.parts] [ho : IsTrue (isOrdinary e)] : InForm e := by
  have hinner : ∀ inner, .expression inner ∈ e.parts → inner.Separate := fun inner hm =>
    (h.formed _ hm).2 inner rfl
  have hparts : ∀ q ∈ e.parts, q.Formed := fun q hq => (h.formed q hq).1
  have hordinary := ho.eq
  cases e <;> cases hordinary
  case function f => exact ⟨.mk hinner hparts, id⟩
  all_goals exact ⟨.mk hinner hparts, nofun⟩

/-- An assignment is in form if it covers the text between its operands. -/
theorem assignment {operator : AssignmentOperator} {left right : Expression} {s : Span}
    (hspan : s = .between left.start right.span.stop) [hl : InForm left] [hr : InForm right] :
    InForm (Expression.assignment operator left right s) :=
  ⟨.mk ⟨hspan, hl.formed.2, hr.formed.2⟩ (formed_of_first hl.formed.1), nofun⟩

theorem conditional {test consequent alternate : Expression} {s : Span} [ht : InForm test]
    (hopens : test.opensWithArrow = false) [hc : InForm consequent] [ha : InForm alternate] :
    InForm (Expression.conditional test consequent alternate s) :=
  ⟨.mk ⟨hopens, hc.formed.2, ha.formed.2⟩ (formed_of_first ht.formed.1), nofun⟩

/-- Items joined by commas stand one behind the other. -/
theorem sequence {items : List Expression} {s : Span} (hlength : 2 ≤ items.length) [h : InForm items]
    {lo hi : Nat} (hlaid : Laid lo (Expression.sequence items s).pieces hi) :
    InForm (Expression.sequence items s) := by
  have hparts : InForm (Expression.sequence items s).parts := by
    cases items with
    | nil => cases hlength
    | cons e es =>
        obtain ⟨_, _⟩ := cons_iff.mp h
        infer_instance
  exact ⟨.mk ⟨hlength, fun e he => (h.formed e he).2, lo, hi, hlaid⟩ fun q hq => (hparts.formed q hq).1, nofun⟩

/-- What items stand for that are joined by commas is in form like the items. -/
theorem joined {first : Expression} {others : List Expression} [h : InForm (first :: others)] {lo hi : Nat}
    (hlaid : Laid lo (Piece.each (first :: others)) hi) (hle : lo ≤ hi) :
    InForm (Expression.joined first others) := by
  obtain ⟨hf, ho⟩ := Held.cons_iff.mp h
  obtain ⟨_, -, hin, -⟩ := Laid.part_iff.mp (hlaid.joined hle)
  unfold Expression.joined at hin ⊢
  split at hin
  · exact hf
  next last hlast =>
    have hne : others ≠ [] := List.ne_nil_of_mem (List.mem_of_getLast? hlast)
    exact .sequence (Nat.succ_le_succ (List.length_pos_iff.mpr hne)) hin

theorem call {callee : Expression} {es : List Expression} {b optional : Bool} {s : Span}
    [hc : InForm callee] (hopens : callee.opensWithArrow = false) [he : InForm es] :
    InForm (Expression.call callee es b optional s) :=
  ⟨.mk (fun e hm => (he.formed e hm).2) (formed_of_first hc.formed.1),
    Expression.separate_of_not_opens hopens⟩

end Constructs

end Held

end EcmaScript
