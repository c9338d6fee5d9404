import EcmaScript.Lowering.Scope
import EcmaScript.Lowering.Target
import EcmaScript.Proofs.Layout.Concrete
import Mathlib.Data.Set.Lattice

/-!
# Where `await` stands

Whether `await` may be used depends on the innermost function around it, and which function that is can be
read off the concrete tree. A `Site` is a construct together with what `await` means at its place; the sites
right below it are `Site.inner`. A function is a boundary for its parameters and its body, a class for the
values of its fields and its static blocks, but not for its heritage and its keys.

Patterns have the same constructs as literals, so a site also says how a construct is read. In a pattern a
method and the default of a rest entry mean nothing; they are objected to as a whole, and there are no sites
in them.

## Contents

* `Reading`, `Role.reading`: how a construct is read.
* `Site`, `Site.inner`, `Site.Inside`: constructs at their places.
* `Site.await?`, `Site.marksModule`: what is looked for.
* `Site.within`, `Site.withinAll`: the sites in one or in several sites.
-/

namespace EcmaScript

open IsPart (part)

/-! ## How a construct is read -/

/-- How a construct is read that may be a value as well as a pattern. -/
inductive Reading where
  | value
  /-- What is stored into. -/
  | target
  /-- An entry of a pattern, which may have a default. -/
  | entry
  /-- The operand of a rest entry, which has no default. -/
  | rest
  | parameter
  deriving DecidableEq, Repr

namespace Reading

/-- How an entry is read of what is read like this. -/
def ofEntry : Reading → Reading
  | value => .value
  | _ => .entry

/-- How the operand of a spread entry is read. -/
def ofRest : Reading → Reading
  | value => .value
  | _ => .rest

end Reading

def Role.reading : Role → Reading
  | value | callee => .value
  | target _ => .target
  | entry _ => .entry
  | rest _ => .rest
  | parameter _ => .parameter

namespace Role

variable (kind : TargetKind) (place : ParameterPlace)

@[simp] theorem reading_value : value.reading = .value := rfl
@[simp] theorem reading_callee : callee.reading = .value := rfl
@[simp] theorem reading_target : (target kind).reading = .target := rfl
@[simp] theorem reading_entry : (entry kind).reading = .entry := rfl
@[simp] theorem reading_rest : (rest kind).reading = .rest := rfl
@[simp] theorem reading_parameter : (parameter place).reading = .parameter := rfl

theorem targetKind?_eq_none (role : Role) : role.targetKind? = none ↔ role.reading = .value := by
  cases role <;> simp [targetKind?, reading]

end Role

/-- What `await` means in a function. -/
def AwaitContext.ofFunction (isAsync : Bool) : AwaitContext := if isAsync then .allowed else .denied

namespace Piece

mutual

/-- The constructs that a piece shows. -/
def parts : Piece → List Part
  | region _ inner => partsAll inner
  | gap _ => []
  | part p => [p]

def partsAll : List Piece → List Part
  | [] => []
  | p :: rest => p.parts ++ partsAll rest

end

@[simp] theorem partsAll_append (ps qs : List Piece) : partsAll (ps ++ qs) = partsAll ps ++ partsAll qs := by
  induction ps with
  | nil => rfl
  | cons p ps ih => simp [partsAll, ih]

@[simp] theorem partsAll_each {α : Type} [IsPart α] (xs : List α) :
    partsAll (each xs) = xs.map IsPart.part := by
  induction xs with
  | nil => rfl
  | cons x xs ih =>
      rw [each, List.flatMap_cons, partsAll_append, ← each, ih]
      rfl

theorem partsAll_texts (texts : List TemplateText) : partsAll (texts.map (leaf ·.span)) = [] := by
  induction texts with
  | nil => rfl
  | cons text texts ih => simp [partsAll, parts, ih]

end Piece

/-! ## Sites -/

/-- A construct at its place. -/
structure Site where
  /-- What `await` means there. -/
  context : AwaitContext
  reading : Reading := .value
  construct : Part

namespace Site

/-- The sites right below a site, in the order of the text. -/
def inner (q : Site) : List Site :=
  let same (reading : Reading) (p : Part) : Site := ⟨q.context, reading, p⟩
  match q.construct with
  | .expression (.assignment .assign left right _) =>
    if q.reading = .rest then [same .target (part left)]
    else [same .target (part left), same .value (part right)]
  | .expression (.array elements _ _) => elements.map fun e => same q.reading (part e)
  | .expression (.object properties _ _) => properties.map fun p => same q.reading (part p)
  | .expression (.spread e _) => [same (if q.reading = .parameter then .target else .value) (part e)]
  | .element (.item e) => [same q.reading.ofEntry (part e)]
  | .element (.spread e _) => [same q.reading.ofRest (part e)]
  | .property (.keyValue key e _) => [same .value (part key), same q.reading.ofEntry (part e)]
  | .property (.method key f _) =>
    if q.reading = .value then [same .value (part key), same .value (part f)] else []
  | .property (.spread e _) => [same q.reading.ofRest (part e)]
  | .function (.mk _ items _ _ body _ isAsync _ _) =>
    let inFunction (reading : Reading) (p : Part) : Site := ⟨.ofFunction isAsync, reading, p⟩
    items.map (fun e => inFunction .parameter (part e)) ++
      (Piece.partsAll body.pieces).map (inFunction .value)
  | .classMember (.field key value _ _) =>
    same .value (part key) :: value.toList.map fun e => ⟨.denied, .value, part e⟩
  | .classMember (.staticBlock b) => [⟨.denied, .value, part b⟩]
  | .declarator (.mk target value _) =>
    same .target (part target) :: value.toList.map fun e => same .value (part e)
  | .catchClause (.mk binding _ body _) =>
    binding.toList.map (fun e => same .target (part e)) ++ [same .value (part body)]
  | .statement (.forIn head e body _) | .statement (.forOf head e body _ _) =>
    [same .target (part head), same .value (part e), same .value (part body)]
  | .loopHead (.expression e) => [same q.reading (part e)]
  -- these hold names only
  | .statement (.import _) | .statement (.exportNamed ..) => []
  | p => (Piece.partsAll p.pieces).map (same .value)

/-- The second site is the first one or lies in it. -/
inductive Inside : Site → Site → Prop
  | self (q : Site) : Inside q q
  | inner {q r u : Site} : r ∈ q.inner → Inside r u → Inside q u

/-- The place and the objection of a use of `await`, should it not be allowed. -/
def await? (q : Site) : Option (Position × Problem) :=
  match q.construct with
  | .expression (.await _ s) => some (s.start, .awaitOutsideAsync)
  | .statement (.forOf _ _ _ true s) => some (s.start, .forAwaitOutsideAsync)
  | _ => none

/-- Whether only a module can have the construct. -/
def marksModule (q : Site) : Bool :=
  match q.construct with
  | .expression (.importMeta _) => true
  | .statement (.import _) => true
  | .statement (.exportDeclaration _ _) => true
  | .statement (.exportDefault _ _) => true
  | .statement (.exportNamed ..) => true
  | .statement (.exportAll ..) => true
  | _ => false

/-! ## The sites in a site -/

/-- The sites in a site. -/
def within (q : Site) : Set Site := {u | Inside q u}

/-- The sites in several sites. -/
def withinAll (qs : List Site) : Set Site := {u | ∃ q ∈ qs, Inside q u}

variable {q : Site} {qs rs : List Site}

@[simp] theorem withinAll_nil : withinAll [] = ∅ := by
  ext u
  simp [withinAll]

@[simp] theorem withinAll_cons : withinAll (q :: qs) = q.within ∪ withinAll qs := by
  ext u
  simp [withinAll, within]

@[simp] theorem withinAll_append : withinAll (qs ++ rs) = withinAll qs ∪ withinAll rs := by
  ext u
  simp only [withinAll, List.mem_append, Set.mem_ofPred_eq, Set.mem_union]
  exact ⟨fun ⟨q, hq, h⟩ => hq.imp (fun hq => ⟨q, hq, h⟩) fun hq => ⟨q, hq, h⟩,
    fun h => h.elim (fun ⟨q, hq, h⟩ => ⟨q, .inl hq, h⟩) fun ⟨q, hq, h⟩ => ⟨q, .inr hq, h⟩⟩

/-- In a site there are the site itself and what is in the sites right below. -/
theorem within_eq (q : Site) : q.within = {q} ∪ withinAll q.inner := by
  ext u
  constructor
  · intro h
    cases h with
    | self => exact .inl rfl
    | inner hr h => exact .inr ⟨_, hr, h⟩
  · rintro (rfl | ⟨r, hr, h⟩)
    · exact .self _
    · exact .inner hr h

end Site

end EcmaScript
