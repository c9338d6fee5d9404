import EcmaScript.Proofs.Scope.Script

/-!
# Rest entries

A rest entry takes what the other entries of its list leave over, so it stands last, no comma follows it, and it
has no default. The rule is checked in several places: the grammar knows the parameters of a function that it reads
as such, and lowering everything that was read as an expression before it turned out to be a pattern or a list of
parameters. `rest_entries_in_order` says that where nothing is objected to the rule is kept everywhere, but for a
comma behind the rest entry of an object, which nobody looks at.

## Contents

* `Occurrence.entries?`: lists that may have rest entries.
* `Occurrence.Clean`: nothing is objected to in an occurrence.
* `rest_entries_in_order`: the rule in a parse.
-/

namespace EcmaScript

open IsPart (part)

/-! ## Lists with rest entries -/

/-- The operand of a rest entry of an array. -/
def ArrayElement.rest? : ArrayElement → Option Expression
  | spread argument _ => some argument
  | _ => none

/-- The operand of a rest entry of an object. -/
def Property.rest? : Property → Option Expression
  | spread argument _ => some argument
  | _ => none

/-- The operand of a rest parameter. -/
def Expression.rest? : Expression → Option Expression
  | spread argument _ => some argument
  | _ => none

/-- Whether the expression is an assignment, which as an entry of a list is a target with its default. -/
def Expression.isAssignment : Expression → Bool
  | assignment .. => true
  | _ => false

theorem ArrayElement.eq_spread_of_rest? {element : ArrayElement} {e : Expression} (h : element.rest? = some e) :
    ∃ s, element = .spread e s := by
  cases element <;> cases h
  exact ⟨_, rfl⟩

theorem Property.eq_spread_of_rest? {property : Property} {e : Expression} (h : property.rest? = some e) :
    ∃ s, property = .spread e s := by
  cases property <;> cases h
  exact ⟨_, rfl⟩

theorem Expression.eq_spread_of_rest? {item e : Expression} (h : item.rest? = some e) :
    ∃ s, item = .spread e s := by
  cases item <;> cases h
  exact ⟨_, rfl⟩

namespace Occurrence

/-- A list that may have rest entries, which are those with an operand, and whether a comma ends it: an array or
object that is a pattern, or the parameters of a function. -/
def entries? (q : Occurrence) : Option (List (Option Expression) × Bool) :=
  match q.construct with
  | .expression (.array elements trailingComma _) =>
    if q.use.isPattern then some (elements.map (·.rest?), trailingComma) else none
  | .expression (.object properties trailingComma _) =>
    if q.use.isPattern then some (properties.map (·.rest?), trailingComma) else none
  | .function (.mk _ items trailingComma _ _ _ _ _ _) => some (items.map (·.rest?), trailingComma)
  | _ => none

def isObject (q : Occurrence) : Bool :=
  match q.construct with
  | .expression (.object ..) => true
  | _ => false

variable {es : List Enclosure} {q r u : Occurrence}

/-! ## Where nothing is objected to -/

/-- Nothing is objected to in the occurrence. -/
def Clean (q : Occurrence) : Prop := ∀ u, Inside q u → u.faults = ∅

namespace Clean

theorem faults (h : q.Clean) : q.faults = ∅ := h q (.self q)

theorem inner (h : q.Clean) (hr : r ∈ q.inner) : r.Clean := fun u hu => h u (.inner hr hu)

/-- A rest entry at a place where nothing is wrong. -/
theorem rest {isLast trailingComma : Bool} {s : Span} (h : restFaults isLast trailingComma s = ∅) :
    isLast = true ∧ trailingComma = false := by
  unfold restFaults at h
  cases isLast with
  | false => exact absurd h (Set.singleton_ne_empty _)
  | true =>
      cases trailingComma with
      | false => exact ⟨rfl, rfl⟩
      | true => exact absurd h (Set.singleton_ne_empty _)

/-- What a rest entry of a pattern holds is no assignment. -/
theorem rest_operand {e : Expression} (h : Clean ⟨es, .rest, part e⟩) : e.isAssignment = false := by
  cases e with
  | assignment operator left right s => exact absurd h.faults (Set.singleton_ne_empty _)
  | _ => rfl

/-- What is stored into is no assignment. -/
theorem target {e : Expression} (h : Clean ⟨es, .target, part e⟩) : e.isAssignment = false := by
  cases e with
  | assignment operator left right s => exact absurd h.faults (Set.singleton_ne_empty _)
  | _ => rfl

/-- A rest entry in the list of a pattern. -/
theorem entry {ps : List Part} {trailingComma : Bool} (h : ∀ r ∈ listed es (.listed · trailingComma) ps, r.Clean)
    {i : Nat} {p : Part} (hp : ps[i]? = some p) {e : Expression} {s : Span}
    (hf : ∀ isLast, Occurrence.faults ⟨es, .listed isLast trailingComma, p⟩ = restFaults isLast trailingComma s)
    (hi : ∀ isLast, Occurrence.inner ⟨es, .listed isLast trailingComma, p⟩ = [⟨es, .rest, part e⟩]) :
    i + 1 = ps.length ∧ e.isAssignment = false ∧ trailingComma = false := by
  have hclean := h _ (mem_listed es (.listed · trailingComma) hp)
  obtain ⟨hlast, hcomma⟩ := rest (hf _ ▸ hclean.faults)
  have hoperand : Clean ⟨es, .rest, part e⟩ := hclean.inner (hi _ ▸ List.mem_singleton_self _)
  exact ⟨eq_of_beq hlast, rest_operand hoperand, hcomma⟩

/-- **Rest entries of an array** stand last, without a comma and without a default. -/
theorem array {elements : List ArrayElement} {trailingComma : Bool} {s : Span} {use : Use}
    (h : Clean ⟨es, use, part (Expression.array elements trailingComma s)⟩) (huse : use.isPattern = true)
    {i : Nat} {e : Expression} (he : (elements.map (·.rest?))[i]? = some (some e)) :
    i + 1 = elements.length ∧ e.isAssignment = false ∧ trailingComma = false := by
  rw [List.getElem?_map, Option.map_eq_some_iff] at he
  obtain ⟨element, helement, hrest⟩ := he
  obtain ⟨t, rfl⟩ := ArrayElement.eq_spread_of_rest? hrest
  have hinner : Occurrence.inner ⟨es, use, part (Expression.array elements trailingComma s)⟩ =
      listed es (.listed · trailingComma) (elements.map part) := if_pos huse
  rw [← List.length_map part]
  exact entry (fun r hr => h.inner (hinner ▸ hr)) (by rw [List.getElem?_map, helement]; rfl) (fun _ => rfl) fun _ => rfl

/-- **Rest entries of an object** stand last, without a default. The comma behind them is not handed on. -/
theorem object {properties : List Property} {trailingComma : Bool} {s : Span} {use : Use}
    (h : Clean ⟨es, use, part (Expression.object properties trailingComma s)⟩) (huse : use.isPattern = true)
    {i : Nat} {e : Expression} (he : (properties.map (·.rest?))[i]? = some (some e)) :
    i + 1 = properties.length ∧ e.isAssignment = false := by
  rw [List.getElem?_map, Option.map_eq_some_iff] at he
  obtain ⟨property, hproperty, hrest⟩ := he
  obtain ⟨t, rfl⟩ := Property.eq_spread_of_rest? hrest
  have hinner : Occurrence.inner ⟨es, use, part (Expression.object properties trailingComma s)⟩ =
      listed es (.listed · false) (properties.map part) := if_pos huse
  rw [← List.length_map part]
  obtain ⟨hlast, hdefault, -⟩ := entry (fun r hr => h.inner (hinner ▸ hr))
    (by rw [List.getElem?_map, hproperty]; rfl) (fun _ => rfl) fun _ => rfl
  exact ⟨hlast, hdefault⟩

/-- **Rest parameters** stand last, without a comma and without a default. -/
theorem function {name : Option Identifier} {items : List Expression} {trailingComma : Bool} {parametersSpan s : Span}
    {body : FunctionBody} {kind : FunctionKind} {isAsync isGenerator : Bool} {use : Use}
    (h : Clean ⟨es, use, part (Function.mk name items trailingComma parametersSpan body kind isAsync isGenerator s)⟩)
    {i : Nat} {e : Expression} (he : (items.map (·.rest?))[i]? = some (some e)) :
    i + 1 = items.length ∧ e.isAssignment = false ∧ trailingComma = false := by
  rw [List.getElem?_map, Option.map_eq_some_iff] at he
  obtain ⟨entry, hentry, hrest⟩ := he
  obtain ⟨t, rfl⟩ := Expression.eq_spread_of_rest? hrest
  -- the parameters of an accessor are objected to as a whole
  have hobjected : Lowering.accessorProblem? kind items = none := by
    cases ha : Lowering.accessorProblem? kind items with
    | none => rfl
    | some p =>
        have hp : (parametersSpan.start, p) ∈ Occurrence.faults ⟨es, use, part
            (Function.mk name items trailingComma parametersSpan body kind isAsync isGenerator s)⟩ := ⟨rfl, ha⟩
        rw [h.faults] at hp
        exact hp.elim
  have hmem : ⟨.boundary (Lowering.boundaryOf kind) isGenerator isAsync :: es,
      .parameter ⟨i + 1 == items.length, trailingComma, false⟩, part (Expression.spread e t)⟩ ∈ Occurrence.inner
        ⟨es, use, part (Function.mk name items trailingComma parametersSpan body kind isAsync isGenerator s)⟩ := by
    refine List.mem_append_left _ ?_
    rw [hobjected, ← List.length_map part]
    exact mem_listed _ (fun isLast => .parameter ⟨isLast, trailingComma, false⟩)
      (by rw [List.getElem?_map, hentry]; rfl)
  have hclean := h.inner hmem
  obtain ⟨hlast, hcomma⟩ := rest hclean.faults
  exact ⟨eq_of_beq hlast, target (hclean.inner List.mem_cons_self), hcomma⟩

/-- **Rest entries** stand last, without a default, and a comma follows those of objects only. -/
theorem entries (h : q.Clean) {list : List (Option Expression)} {trailingComma : Bool}
    (hlist : q.entries? = some (list, trailingComma)) {i : Nat} {e : Expression} (he : list[i]? = some (some e)) :
    i + 1 = list.length ∧ e.isAssignment = false ∧ (trailingComma = true → q.isObject = true) := by
  obtain ⟨es, use, construct⟩ := q
  unfold entries? at hlist
  dsimp only at hlist
  split at hlist
  · split at hlist
    next huse =>
      cases hlist
      obtain ⟨hlast, hdefault, hcomma⟩ := h.array huse he
      rw [List.length_map, hcomma]
      exact ⟨hlast, hdefault, nofun⟩
    · cases hlist
  · split at hlist
    next huse =>
      cases hlist
      obtain ⟨hlast, hdefault⟩ := h.object huse he
      rw [List.length_map]
      exact ⟨hlast, hdefault, fun _ => rfl⟩
    · cases hlist
  · cases hlist
    obtain ⟨hlast, hdefault, hcomma⟩ := h.function he
    rw [List.length_map, hcomma]
    exact ⟨hlast, hdefault, nofun⟩
  · cases hlist

end Clean

/-- Where a parse reports no error, nothing is objected to. -/
theorem clean_of_errorCount {name source : String} {o : Options}
    (h : (parse name source o).sink.errorCount = 0)
    (hq : q ∈ (Script.ofText name source o).occurrences source.length) : q.Clean := by
  intro u hu
  refine Set.eq_empty_of_forall_notMem fun x hx => ?_
  have hm := fault_reported (Script.mem_occurrences_of_inside hq hu) hx
  have hpos := (counted_parse name source o).errorCount_pos_iff.mpr (Array.any_eq_true'.mpr ⟨_, hm, rfl⟩)
  omega

end Occurrence

/-! ## The whole parse -/

/-- **Rest entries obey one rule everywhere.** Where a parse reports no error, every rest entry of every list of
parameters and of every pattern, however deep it is nested, is the last entry of its list and has no default, and
no comma follows it unless the list is that of an object. -/
theorem rest_entries_in_order (name source : String) (o : Options)
    (h : (parse name source o).sink.errorCount = 0) :
    ∀ q ∈ (Script.ofText name source o).occurrences source.length, ∀ entries trailingComma,
      q.entries? = some (entries, trailingComma) → ∀ i operand, entries[i]? = some (some operand) →
        i + 1 = entries.length ∧ operand.isAssignment = false ∧ (trailingComma = true → q.isObject = true) := by
  intro q hq entries trailingComma hentries i operand hoperand
  have hclean := Occurrence.clean_of_errorCount h hq
  exact hclean.entries hentries hoperand

/-- Whether the statements are an arrow function with an array of a name and a rest entry as its parameter. -/
def readsArrayRest : List Statement → Bool
  | [.expression (.function (.mk none [.array [.item (.identifier _), .spread (.identifier _) _] _ _] _ _ _ .arrow _
      _ _)) _] => true
  | _ => false

/-- A rest entry in an array that is an entry of the parameters of an arrow function. -/
theorem rest_entries_in_order_array :
    let source := "([a, ...b]) => a;"
    let start := Script.ofText "a.js" source {}
    (parse "a.js" source {}).sink.errorCount = 0 ∧
    ∃ q ∈ start.occurrences source.length, ∃ entries operand trailingComma,
      q.entries? = some (entries, trailingComma) ∧ entries[1]? = some (some operand) ∧
      entries.length = 2 ∧ operand.isAssignment = false ∧ trailingComma = false := by
  intro source start
  obtain ⟨hclean, hread⟩ : (parse "a.js" source {}).sink.errorCount = 0 ∧
      readsArrayRest (start.readStatements source.length) = true := by
    decide +kernel
  unfold readsArrayRest at hread
  split at hread
  next a b s comma t trailing _ _ isAsync isGenerator _ _ hlist =>
    have hq : ⟨[.boundary .arrow isGenerator isAsync], .parameter ⟨true, trailing, false⟩,
        .expression (.array [.item (.identifier a), .spread (.identifier b) s] comma t)⟩ ∈
          start.occurrences source.length := by
      refine start.mem_occurrences (hlist ▸ List.mem_cons_self) ?_
      exact .inner List.mem_cons_self (.inner List.mem_cons_self (.inner List.mem_cons_self (.self _)))
    obtain ⟨hlast, hdefault, hcomma⟩ := rest_entries_in_order "a.js" source {} hclean _ hq
      [none, some (.identifier b)] comma rfl 1 (.identifier b) rfl
    refine ⟨hclean, _, hq, _, _, comma, rfl, rfl, hlast.symm, hdefault, ?_⟩
    exact Bool.eq_false_iff.mpr fun hc => Bool.noConfusion (hcomma hc)
  · cases hread

/-- Whether the statements assign to an object of a rest entry that a comma follows. -/
def readsObjectRest : List Statement → Bool
  | [.expression (.paren (.assignment .assign (.object [.spread (.identifier _) _] true _) _ _) _) _] => true
  | _ => false

/-- A comma may follow the rest entry of an object. -/
theorem rest_entry_before_comma :
    let source := "({...a,} = b);"
    let start := Script.ofText "a.js" source {}
    (parse "a.js" source {}).sink.errorCount = 0 ∧
    ∃ q ∈ start.occurrences source.length, ∃ name, q.entries? = some ([some (.identifier name)], true) := by
  intro source start
  obtain ⟨hclean, hread⟩ : (parse "a.js" source {}).sink.errorCount = 0 ∧
      readsObjectRest (start.readStatements source.length) = true := by
    decide +kernel
  refine ⟨hclean, ?_⟩
  unfold readsObjectRest at hread
  split at hread
  next name s t _ _ _ _ hlist =>
    have hq : ⟨[], .target, .expression (.object [.spread (.identifier name) s] true t)⟩ ∈
        start.occurrences source.length := by
      refine start.mem_occurrences (hlist ▸ List.mem_cons_self) ?_
      exact .inner List.mem_cons_self (.inner List.mem_cons_self (.inner List.mem_cons_self (.self _)))
    exact ⟨_, hq, name, rfl⟩
  · cases hread

end EcmaScript
