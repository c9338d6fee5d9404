import EcmaScript.Lowering.Tree
import EcmaScript.Proofs.Await.Order
import EcmaScript.Proofs.Scope.Enclosure
import Mathlib.Data.Multiset.Filter
import Mathlib.Data.Multiset.AddSub

/-!
# Constructs at their places

An `Occurrence` is a construct of the concrete tree together with what encloses it and the use that is made of
it. The occurrences right below are `Occurrence.inner`, and all in it are `Occurrence.within`. From an occurrence
alone one can tell what is wrong with a jump, a label or a private name at its place (`Occurrence.jumpProblem?`,
`Occurrence.privateProblem?`).

Patterns have the same constructs as literals, and `Use` tells which is meant. In a pattern a method and the
default of a rest entry mean nothing; they are objected to as a whole, and there are no occurrences in them.

## Contents

* `Piece.below_shown`: what a construct shows is smaller.
* `Use`, `Role.use`: what an expression or an entry is used for.
* `Occurrence`, `Occurrence.inner`, `Occurrence.Inside`, `Occurrence.within`: constructs at their places.
* `Occurrence.jumpProblem?`, `Occurrence.privateProblem?`: jumps, labels and private names.
* `Occurrence.Shares`, `Occurrence.suspended`: `yield` and `await` of one function.
* `Occurrence.faults`: what else is objected to in lists of parameters and in patterns.
-/

namespace EcmaScript

open IsPart (part)

/-! ## What a construct shows is smaller -/

namespace Piece

/-- Parts that are smaller than a bound. -/
def Below (n : Nat) (ps : List Part) : Prop := ∀ p ∈ ps, sizeOf p < n

section Below

variable {n : Nat}

@[simp] theorem below_nil : Below n [] := nofun

@[simp] theorem below_cons {p : Part} {ps : List Part} : Below n (p :: ps) ↔ sizeOf p < n ∧ Below n ps :=
  List.forall_mem_cons

@[simp] theorem below_append {ps qs : List Part} : Below n (ps ++ qs) ↔ Below n ps ∧ Below n qs :=
  List.forall_mem_append

variable {α : Type} [SizeOf α] {make : α → Part}

theorem below_map (hs : ∀ a, sizeOf (make a) = 1 + sizeOf a) {xs : List α} (h : sizeOf xs < n) :
    Below n (xs.map make) := by
  intro p hp
  obtain ⟨a, ha, rfl⟩ := List.mem_map.mp hp
  have hlt := List.sizeOf_lt_of_mem ha
  rw [hs]
  omega

theorem below_option (hs : ∀ a, sizeOf (make a) = 1 + sizeOf a) {x : Option α} (h : sizeOf x < n) :
    Below n (x.toList.map make) := by
  cases x with
  | none => exact below_nil
  | some a =>
      rw [Option.some.sizeOf_spec] at h
      exact below_cons.mpr ⟨hs a ▸ h, below_nil⟩

theorem below_template {texts : List TemplateText} {es : List Expression} (h : sizeOf es < n) :
    Below n (partsAll (template texts es)) := by
  intro p hp
  exact below_map (fun _ => rfl) h p (partsAll_template_subset texts es hp)

attribute [local grind ←] below_map below_option below_template

attribute [local grind =] Part.element.sizeOf_spec Part.property.sizeOf_spec Part.expression.sizeOf_spec
  Part.classMember.sizeOf_spec Part.statement.sizeOf_spec Part.declarator.sizeOf_spec
  Part.switchCase.sizeOf_spec Part.importSpecifier.sizeOf_spec Part.exportSpecifier.sizeOf_spec
  Part.loopHead.sizeOf_spec Part.catchClause.sizeOf_spec Part.block.sizeOf_spec

attribute [local simp] Part.pieces Expression.pieces ArrayElement.pieces Property.pieces PropertyKey.pieces
  FunctionBody.pieces Function.pieces ClassDefinition.pieces ClassMember.pieces Block.pieces Declarator.pieces
  Declaration.pieces LoopHead.pieces SwitchCase.pieces CatchClause.pieces Statement.pieces
  ImportSpecifier.pieces ImportBindings.pieces ImportDeclaration.pieces ExportSpecifier.pieces IsPart.part

theorem below_expression (e : Expression) : Below (1 + sizeOf e) (partsAll e.pieces) := by
  cases e with
  | sequence es s =>
      cases es with
      | nil => simp
      | cons e es =>
          simp
          grind
  | _ =>
      simp
      try grind

theorem below_statement (s : Statement) : Below (1 + sizeOf s) (partsAll s.pieces) := by
  cases s <;> simp <;> grind

/-- **What a construct shows is smaller** than the construct. -/
theorem below_shown (p : Part) : Below (sizeOf p) (partsAll p.pieces) := by
  cases p with
  | expression e => exact below_expression e
  | statement s => exact below_statement s
  | position | span | templateText => exact below_nil
  | function f =>
      obtain ⟨_, items, _, _, body, _, _, _, _⟩ := f
      cases body <;> simp <;> grind
  | importDeclaration d =>
      obtain ⟨_, bindings, _, _⟩ := d
      cases bindings <;> simp
      grind
  | importBindings x | element x | property x | key x | functionBody x | classMember x | loopHead x =>
      cases x <;> simp <;> grind
  | importSpecifier x | exportSpecifier x | classDefinition x | block x | declarator x | declaration x
  | switchCase x | catchClause x =>
      cases x
      simp
      try grind

end Below

end Piece

/-! ## What a construct is used for -/

/-- What an expression or an entry of a literal or pattern is used for. -/
inductive Use where
  | value
  /-- What a call calls. -/
  | callee
  /-- A private name whose membership is tested. -/
  | tested
  /-- What is stored into. -/
  | target
  /-- An entry of a pattern in its list; a comma may end the list. -/
  | listed (isLast trailingComma : Bool)
  /-- What an entry of a pattern holds, which may have a default. -/
  | entry
  /-- The operand of a rest entry, which has no default. -/
  | rest
  | parameter (place : ParameterPlace)
  deriving DecidableEq, Repr

namespace Use

/-- Whether an array or object is a pattern. -/
def isPattern : Use → Bool
  | target | entry | rest | parameter _ => true
  | value | callee | tested | listed .. => false

/-- What the operand of an entry is used for. -/
def ofEntry : Use → Use
  | listed .. => entry
  | _ => value

/-- What the operand of a spread or rest entry is used for. -/
def ofRest : Use → Use
  | listed .. => rest
  | _ => value

/-- What the left operand of an operator is used for. A private name can be that of the membership test. -/
def ofOperand (operator : BinaryOperator) : Expression → Use
  | .privateName _ => if operator = .isIn then tested else value
  | _ => value

/-- What the operand of a spread expression is used for. -/
def ofSpread : Use → Use
  | parameter _ => target
  | _ => value

end Use

/-- The use that is made of an expression in a role. -/
def Role.use : Role → Use
  | value => .value
  | callee => .callee
  | target _ => .target
  | entry _ => .entry
  | rest _ => .rest
  | parameter place => .parameter place

namespace Role

variable (kind : TargetKind) (place : ParameterPlace)

@[simp] theorem use_value : value.use = .value := rfl
@[simp] theorem use_callee : callee.use = .callee := rfl
@[simp] theorem use_target : (target kind).use = .target := rfl
@[simp] theorem use_entry : (entry kind).use = .entry := rfl
@[simp] theorem use_rest : (rest kind).use = .rest := rfl
@[simp] theorem use_parameter : (parameter place).use = .parameter place := rfl

/-- Whether an array or object is a pattern can be told from the use that is made of it. -/
theorem isPattern_use (role : Role) : role.use.isPattern = role.targetKind?.isSome := by
  cases role <;> rfl

end Role

/-! ## Occurrences -/

/-- A construct at its place. -/
structure Occurrence where
  /-- What encloses the place, innermost first. -/
  enclosing : List Enclosure := []
  use : Use := .value
  construct : Part

namespace Occurrence

/-- The occurrences of the items of a list, which know whether they are the last one. -/
def listed (es : List Enclosure) (use : Bool → Use) : List Part → List Occurrence
  | [] => []
  | p :: rest => ⟨es, use rest.isEmpty, p⟩ :: listed es use rest

section Listed

variable (es : List Enclosure) (use : Bool → Use)

@[simp] theorem listed_nil : listed es use [] = [] := rfl

@[simp] theorem listed_cons (p : Part) (rest : List Part) :
    listed es use (p :: rest) = ⟨es, use rest.isEmpty, p⟩ :: listed es use rest := rfl

@[simp] theorem map_construct_listed (ps : List Part) : (listed es use ps).map construct = ps := by
  induction ps with
  | nil => rfl
  | cons p rest ih => rw [listed_cons, List.map_cons, ih]

/-- Each item knows whether it is the last one. -/
theorem mem_listed {ps : List Part} {i : Nat} {p : Part} (h : ps[i]? = some p) :
    ⟨es, use (i + 1 == ps.length), p⟩ ∈ listed es use ps := by
  induction ps generalizing i with
  | nil => cases h
  | cons a rest ih =>
      rw [listed_cons]
      cases i with
      | zero =>
          cases h
          rw [show (0 + 1 == (p :: rest).length) = rest.isEmpty by cases rest <;> rfl]
          exact List.mem_cons_self
      | succ i =>
          refine List.mem_cons_of_mem _ ?_
          rw [show (i + 1 + 1 == (a :: rest).length) = (i + 1 == rest.length) by simp]
          exact ih (by simpa using h)

variable {es use}

theorem of_mem_listed {ps : List Part} {r : Occurrence} (h : r ∈ listed es use ps) :
    r.enclosing = es ∧ (∃ isLast, r.use = use isLast) ∧ r.construct ∈ ps := by
  induction ps with
  | nil => cases h
  | cons p rest ih =>
      rcases List.mem_cons.mp h with rfl | h
      · exact ⟨rfl, ⟨_, rfl⟩, List.mem_cons_self⟩
      · exact (ih h).imp_right fun h' => h'.imp_right (List.mem_cons_of_mem p)

end Listed

/-- The occurrences right below, in the order of the text. -/
def inner (q : Occurrence) : List Occurrence :=
  let same (use : Use) (p : Part) : Occurrence := ⟨q.enclosing, use, p⟩
  let under (e : Enclosure) (use : Use) (p : Part) : Occurrence := ⟨e :: q.enclosing, use, p⟩
  match q.construct with
  | .expression (.binary operator left right _) =>
    [same (.ofOperand operator left) (part left), same .value (part right)]
  | .expression (.assignment .assign left right _) =>
    if q.use = .rest then [same .target (part left)]
    else [same .target (part left), same .value (part right)]
  | .expression (.array elements trailingComma _) =>
    if q.use.isPattern then listed q.enclosing (.listed · trailingComma) (elements.map part)
    else elements.map fun e => same .value (part e)
  | .expression (.object properties _ _) =>
    if q.use.isPattern then listed q.enclosing (.listed · false) (properties.map part)
    else properties.map fun p => same .value (part p)
  | .expression (.call callee items _ _ _) =>
    same .callee (part callee) :: items.map fun e => same .value (part e)
  | .expression (.spread e _) => [same q.use.ofSpread (part e)]
  | .element (.item e) => [same q.use.ofEntry (part e)]
  | .element (.spread e _) => [same q.use.ofRest (part e)]
  | .property (.keyValue key e _) => [same .value (part key), same q.use.ofEntry (part e)]
  | .property (.method key f _) =>
    if q.use = .value then [same .value (part key), same .value (part f)] else []
  | .property (.spread e _) => [same q.use.ofRest (part e)]
  | .function (.mk _ items trailingComma _ body kind isAsync isGenerator _) =>
    let boundary := Enclosure.boundary (Lowering.boundaryOf kind) isGenerator isAsync
    let objected := (Lowering.accessorProblem? kind items).isSome
    listed (boundary :: q.enclosing) (fun isLast => .parameter ⟨isLast, trailingComma, objected⟩) (items.map part) ++
      (Piece.partsAll body.pieces).map (under boundary .value)
  | .classDefinition (.mk _ heritage members _ _) =>
    heritage.toList.map (fun e => same .value (part e)) ++
      members.map fun m => under (.classBody members) .value (part m)
  | .classMember (.field key value _ _) =>
    same .value (part key) ::
      value.toList.map fun e => under (.boundary .fieldInitializer false false) .value (part e)
  | .classMember (.staticBlock b) => [under (.boundary .staticBlock false false) .value (part b)]
  | .declarator (.mk target value _) =>
    same .target (part target) :: value.toList.map fun e => same .value (part e)
  | .catchClause (.mk binding _ body _) =>
    binding.toList.map (fun e => same .target (part e)) ++ [same .value (part body)]
  | .statement (.doWhile body e _) => [under .loopBody .value (part body), same .value (part e)]
  | .statement (.while e body _) => [same .value (part e), under .loopBody .value (part body)]
  | .statement (.for head test update body _) =>
    head.toList.map (fun h => same .value (part h)) ++ test.toList.map (fun e => same .value (part e)) ++
      update.toList.map (fun e => same .value (part e)) ++ [under .loopBody .value (part body)]
  | .statement (.forIn head e body _) | .statement (.forOf head e body _ _) =>
    [same .target (part head), same .value (part e), under .loopBody .value (part body)]
  | .statement (.switch e cases _) =>
    same .value (part e) :: cases.map fun c => under .switchBody .value (part c)
  | .statement (.labeled label body _) => [under (.labelled label.name body) .value (part body)]
  | .loopHead (.expression e) => [same q.use (part e)]
  -- these hold names only
  | .statement (.import _) | .statement (.exportNamed ..) => []
  | p => (Piece.partsAll p.pieces).map (same .value)

/-- The second occurrence is the first one or lies in it. -/
inductive Inside : Occurrence → Occurrence → Prop
  | self (q : Occurrence) : Inside q q
  | inner {q r u : Occurrence} : r ∈ q.inner → Inside r u → Inside q u

theorem Inside.trans {q r u : Occurrence} (h : Inside q r) (h' : Inside r u) : Inside q u := by
  induction h with
  | self q => exact h'
  | inner hr _ ih => exact .inner hr (ih h')

/-- Whether something is not looked into: the default of a rest entry and a method in a pattern, which are objected
to as a whole, and the names of an import or export. -/
def isOmitted (q : Occurrence) : Bool :=
  match q.construct with
  | .expression (.assignment .assign _ _ _) => q.use == .rest
  | .property (.method ..) => q.use != .value
  | .statement (.import _) | .statement (.exportNamed ..) => true
  | _ => false

section Pieces

attribute [local simp] Part.pieces Expression.pieces ArrayElement.pieces Property.pieces Function.pieces
  ClassDefinition.pieces ClassMember.pieces Declarator.pieces CatchClause.pieces LoopHead.pieces Statement.pieces
  Piece.partsAll Piece.parts IsPart.part Function.comp_def

/-- **Nothing else is left out**: the occurrences right below are all that the pieces show. -/
theorem map_construct_inner {q : Occurrence} (h : q.isOmitted = false) :
    q.inner.map construct = Piece.partsAll q.construct.pieces := by
  obtain ⟨es, use, p⟩ := q
  unfold inner
  dsimp only
  split <;> try split
  all_goals simp_all [isOmitted]

/-- The occurrences right below are some of the constructs that the pieces show. -/
theorem inner_sublist (q : Occurrence) : (q.inner.map construct).Sublist (Piece.partsAll q.construct.pieces) := by
  cases h : q.isOmitted with
  | false => rw [map_construct_inner h]
  | true =>
      obtain ⟨es, use, p⟩ := q
      unfold isOmitted at h
      dsimp only at h
      split at h
      · obtain rfl := eq_of_beq h
        simp [inner]
      · simp [inner, (by simpa using h : use ≠ .value)]
      · exact List.nil_sublist _
      · exact List.nil_sublist _
      · cases h

end Pieces

/-- An occurrence right below is smaller. -/
theorem sizeOf_inner {q r : Occurrence} (h : r ∈ q.inner) : sizeOf r.construct < sizeOf q.construct :=
  Piece.below_shown q.construct _ (q.inner_sublist.subset (List.mem_map_of_mem h))

/-- An occurrence and all in it. -/
def within (q : Occurrence) : List Occurrence :=
  q :: q.inner.attach.flatMap fun r => within r.1
termination_by sizeOf q.construct
decreasing_by exact sizeOf_inner r.2

theorem within_eq (q : Occurrence) : q.within = q :: q.inner.flatMap within := by
  rw [within, List.flatMap_subtype, List.unattach_attach]
  intros
  rfl

/-- All in an occurrence are the occurrences inside. -/
theorem mem_within {q u : Occurrence} : u ∈ q.within ↔ Inside q u := by
  constructor
  · induction q using within.induct with
    | case1 q ih =>
        intro hu
        rw [within_eq] at hu
        rcases List.mem_cons.mp hu with rfl | hu
        · exact .self _
        · obtain ⟨r, hr, hu⟩ := List.mem_flatMap.mp hu
          exact .inner hr (ih ⟨r, hr⟩ hu)
  · intro h
    induction h with
    | self q =>
        rw [within_eq]
        exact List.mem_cons_self
    | @inner q r u hr _ ih =>
        rw [within_eq]
        exact List.mem_cons_of_mem _ (List.mem_flatMap.mpr ⟨r, hr, ih⟩)

/-! ### Without an order -/

/-- An occurrence and all in it, in no order. -/
def census (q : Occurrence) : Multiset Occurrence := q.within

/-- Several occurrences and all in them. -/
def censusAll (qs : List Occurrence) : Multiset Occurrence := (qs.flatMap within : List Occurrence)

variable {q : Occurrence} {qs rs : List Occurrence}

@[simp] theorem censusAll_nil : censusAll [] = 0 := rfl

@[simp] theorem censusAll_cons : censusAll (q :: qs) = q.census + censusAll qs := by
  unfold censusAll census
  rw [List.flatMap_cons, Multiset.coe_add]

@[simp] theorem censusAll_append : censusAll (qs ++ rs) = censusAll qs + censusAll rs := by
  unfold censusAll
  rw [List.flatMap_append, Multiset.coe_add]

theorem census_eq (q : Occurrence) : q.census = {q} + censusAll q.inner := by
  unfold census censusAll
  rw [within_eq, ← Multiset.cons_coe, Multiset.singleton_add]

/-! ## Jumps and labels -/

/-- What is wrong with a jump or a label. -/
def jumpProblem? (q : Occurrence) : Option (Position × Problem) :=
  match q.construct with
  | .statement (.break none s) =>
    if Enclosure.inBreakable q.enclosing then none else some (s.start, .breakOutsideLoop)
  | .statement (.break (some label) _) =>
    match Enclosure.labelled? label.name q.enclosing with
    | some _ => none
    | none => some (label.span.start, .undefinedLabel label.name)
  | .statement (.continue none s) =>
    if Enclosure.inLoop q.enclosing then none else some (s.start, .continueOutsideLoop)
  | .statement (.continue (some label) s) =>
    match Enclosure.labelled? label.name q.enclosing with
    | some body => if body.labelsLoop then none else some (s.start, .continueLabelNotLoop)
    | none => some (label.span.start, .undefinedLabel label.name)
  | .statement (.labeled label _ _) =>
    match Enclosure.labelled? label.name q.enclosing with
    | some _ => some (label.span.start, .duplicateLabel label.name)
    | none => none
  | _ => none

/-! ## Private names -/

/-- What is wrong with a reference to a private name. -/
def unresolved? (es : List Enclosure) (name : Identifier) (undeclared : Problem) : Option (Position × Problem) :=
  if Enclosure.inClass es = false then some (name.span.start, .privateNameMisplaced)
  else if Enclosure.declares name.name es then none
  else some (name.span.start, undeclared)

/-- What is wrong with a private name in an expression. Apart from accesses it is a reference as the left operand
of the membership test only. -/
def privateProblem? (q : Occurrence) : Option (Position × Problem) :=
  match q.construct with
  | .expression (.member _ (.hidden name) _ _) =>
    unresolved? q.enclosing name (if q.use = .callee then .privateMethodUndeclared else .privateFieldUndeclared)
  | .expression (.privateName name) =>
    if q.use = .tested then unresolved? q.enclosing name .privateFieldUndeclared
    else some (name.span.start, .privateNameMisplaced)
  | _ => none

/-! ## `yield` and `await` of one function -/

/-- Whether the construct is a function or a class. -/
def nests (q : Occurrence) : Bool :=
  match q.construct with
  | .function _ | .classDefinition _ => true
  | _ => false

/-- The second occurrence is the first one or lies in it, but in no function and no class of its own. -/
inductive Shares : Occurrence → Occurrence → Prop
  | self (q : Occurrence) : Shares q q
  | inner {q r u : Occurrence} : q.nests = false → r ∈ q.inner → Shares r u → Shares q u

theorem Shares.inside (h : Shares q u) : Inside q u := by
  induction h with
  | self q => exact .self q
  | inner _ hr _ ih => exact .inner hr ih

/-- The region of a `yield` or `await`, with what is said of it in the default of a parameter. -/
def suspension? (q : Occurrence) : Option (Span × Problem) :=
  match q.construct with
  | .expression (.yield _ _ s) => some (s, .yieldInParameterDefault)
  | .expression (.await _ s) => some (s, .awaitInParameterDefault)
  | _ => none

/-- Every `yield` and `await` that belongs to the function around the occurrence. -/
def suspended (q : Occurrence) : Set (Span × Problem) := {x | ∃ u, Shares q u ∧ u.suspension? = some x}

def suspendedAll (qs : List Occurrence) : Set (Span × Problem) := {x | ∃ q ∈ qs, x ∈ q.suspended}

@[simp] theorem suspendedAll_nil : suspendedAll [] = ∅ := by
  ext x
  simp [suspendedAll]

@[simp] theorem suspendedAll_cons : suspendedAll (q :: qs) = q.suspended ∪ suspendedAll qs := by
  ext x
  simp [suspendedAll]

/-- Nothing in a function or a class belongs to the function around it. -/
theorem suspended_of_nests (h : q.nests = true) (hs : q.suspension? = none) : q.suspended = ∅ := by
  refine Set.eq_empty_of_forall_notMem fun x hx => ?_
  obtain ⟨u, hu, hx⟩ := hx
  cases hu with
  | self => exact nomatch hs.symm.trans hx
  | inner hn => exact nomatch hn.symm.trans h

theorem suspended_eq (h : q.nests = false) :
    q.suspended = {x | q.suspension? = some x} ∪ suspendedAll q.inner := by
  ext x
  constructor
  · rintro ⟨u, hu, hx⟩
    cases hu with
    | self => exact .inl hx
    | inner _ hr hu => exact .inr ⟨_, hr, _, hu, hx⟩
  · rintro (hx | ⟨r, hr, u, hu, hx⟩)
    · exact ⟨q, .self q, hx⟩
    · exact ⟨u, .inner h hr hu, hx⟩

/-! ## Lists of parameters and patterns -/

/-- What is wrong with the place of a rest entry in its list. -/
def restFaults (isLast trailingComma : Bool) (s : Span) : Set (Position × Problem) :=
  if isLast = false then {(s.start, .restNotLast)}
  else if trailingComma then {(s.start, .commaAfterRest)}
  else ∅

/-- What else is objected to at a place: rest entries, the parameters of accessors, and `yield` and `await` where
they may not be. -/
def faults (q : Occurrence) : Set (Position × Problem) :=
  match q.construct with
  | .expression (.assignment operator _ right s) =>
    match q.use with
    | .rest => {(s.start, .defaultAfterRest)}
    | .target => {(s.start, .invalidAssignmentTarget)}
    | .parameter _ =>
      if operator = .assign then (fun x => (x.1.start, x.2)) '' suspended ⟨q.enclosing, .value, part right⟩ else ∅
    | _ => ∅
  | .expression (.spread _ s) =>
    match q.use with
    | .parameter place => if place.objected then ∅ else restFaults place.isLast place.trailingComma s
    | _ => ∅
  | .element (.spread _ s) | .property (.spread _ s) =>
    match q.use with
    | .listed isLast trailingComma => restFaults isLast trailingComma s
    | _ => ∅
  | .expression (.yield _ _ s) =>
    if Enclosure.inGenerator q.enclosing then ∅ else {(s.start, .yieldOutsideGenerator)}
  | .expression (.await _ s) =>
    if Enclosure.deniesAwait q.enclosing then {(s.start, .awaitOutsideAsync)} else ∅
  | .function (.mk _ items _ parametersSpan _ kind _ _ _) =>
    {x | x.1 = parametersSpan.start ∧ Lowering.accessorProblem? kind items = some x.2}
  | _ => ∅

end Occurrence

end EcmaScript
