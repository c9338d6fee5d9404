import EcmaScript.Lowering.Tree
import EcmaScript.Proofs.Places.Ascending

/-!
# Regions of lowered statements

The node of a statement covers what the statement does, and the node of a function is one. Both are read
off the last act of a lowering, whatever the steps before it have made of the state.

## Contents

* `kind_function`, `kind_classFieldNode`, `kind_expression`: nodes that are put over another region.
* `StandsFor`, `standsFor_statement`: the node of a statement, from those of its kinds.
* `spans_statements`: the nodes of a list of statements.
* `arranges_caseSpan`: the region of the statements of a case.
-/

namespace EcmaScript

namespace Lowering

theorem kind_function (f : Function) (s : State) : (function f s).1.kind = .function := by
  cases f
  rw [function]
  rfl

theorem kind_classFieldNode (key : PropertyKey) (span : Span) (lowered : Lowering Node) (s : State) :
    (classFieldNode key span lowered s).1.kind = .memberFieldDef ∨
      (classFieldNode key span lowered s).1.kind = .computedFieldDef := by
  cases key with
  | name | hidden => exact .inl rfl
  | _ => exact .inr rfl

theorem kind_identifier (name : Identifier) (s : State) : (identifier name s).1.kind = .identifier := by
  unfold identifier
  split <;> rfl

/-- The node of a name is a name, whatever part the name plays. -/
theorem kind_expression {e : Expression} (h : isIdentifier e = true) (role : Role) (s : State) :
    (expression [] role e s).1.kind = .identifier := by
  unfold isIdentifier at h
  split at h
  next name =>
    rw [expression]
    show (applyPending [] (identifier name _).1 _).1.kind = _
    rw [applyPending]
    exact kind_identifier name _
  next => cases h

/-! ## The nodes of statements -/

/-- The node stands for a statement over the region: it covers it, and it is not the body of a module. -/
structure StandsFor (r : Span) (n : Node) : Prop where
  span : n.span = r
  kind : n.kind ≠ .moduleBody

theorem standsFor_function (f : Function) (s : State) : StandsFor f.span (function f s).1 := by
  cases f
  rw [function]
  exact ⟨rfl, nofun⟩

theorem standsFor_block (nested : Bool) (b : Block) (s : State) :
    StandsFor b.span (block nested b s).1 := by
  cases b
  rw [block]
  exact ⟨rfl, nofun⟩

theorem standsFor_classDefinition (c : ClassDefinition) (s : State) :
    StandsFor c.span (classDefinition c s).1 := by
  obtain ⟨name, heritage, members, bodySpan, span⟩ := c
  rw [classDefinition]
  cases name <;> cases heritage <;> exact ⟨rfl, nofun⟩

theorem standsFor_declaration (loop : Option String) (d : Declaration) (s : State) :
    StandsFor d.span (declaration loop d s).1 := by
  obtain ⟨kind, declarators, span⟩ := d
  rw [declaration]
  cases kind <;> exact ⟨rfl, nofun⟩

theorem standsFor_importNode (d : ImportDeclaration) (s : State) :
    StandsFor d.span (importNode d s).1 := by
  obtain ⟨name, bindings, source, span⟩ := d
  unfold importNode
  cases name <;> cases bindings <;> exact ⟨rfl, nofun⟩

theorem standsFor_ite {c : Prop} [Decidable c] {p q : Lowering Node} {r : Span} {s : State}
    (hp : StandsFor r (p s).1) (hq : StandsFor r (q s).1) :
    StandsFor r ((if c then p else q) s).1 := by
  split
  · exact hp
  · exact hq

theorem standsFor_look {r : Span} {f : Scopes → Lowering Node} {s : State}
    (h : StandsFor r (f s.scopes s).1) : StandsFor r ((scopes >>= f) s).1 := h

theorem standsFor_continueNode (label : Option Identifier) (span : Span) (s : State) :
    StandsFor span (continueNode label span s).1 := by
  refine standsFor_look ?_
  cases label with
  | some label =>
      dsimp only
      cases s.scopes.findLabel? label.name with
      | none => exact ⟨rfl, nofun⟩
      | some found => exact standsFor_ite ⟨rfl, nofun⟩ ⟨rfl, nofun⟩
  | none => exact standsFor_ite ⟨rfl, nofun⟩ ⟨rfl, nofun⟩

theorem standsFor_breakNode (label : Option Identifier) (span : Span) (s : State) :
    StandsFor span (breakNode label span s).1 := by
  cases label with
  | some label => exact standsFor_ite ⟨rfl, nofun⟩ ⟨rfl, nofun⟩
  | none => exact standsFor_ite ⟨rfl, nofun⟩ ⟨rfl, nofun⟩

/-- **The node of a statement covers what the statement does.** -/
theorem standsFor_statement (statement : Statement) (s : State) :
    StandsFor statement.span (Lowering.statement statement s).1 := by
  cases statement with
  | block b =>
      rw [Lowering.statement]
      exact standsFor_block true b s
  | «variable» d =>
      rw [Lowering.statement]
      exact standsFor_declaration none d s
  | function f =>
      rw [Lowering.statement]
      exact standsFor_function f s
  | classDeclaration c =>
      rw [Lowering.statement]
      exact standsFor_classDefinition c s
  | «import» d =>
      rw [Lowering.statement]
      exact standsFor_importNode d s
  | «continue» label span =>
      rw [Lowering.statement]
      exact standsFor_continueNode label span s
  | «break» label span =>
      rw [Lowering.statement]
      exact standsFor_breakNode label span s
  | conditional test consequent alternate =>
      rw [Lowering.statement]
      cases alternate <;> exact ⟨rfl, nofun⟩
  | «for» head =>
      cases head with
      | none =>
          rw [Lowering.statement]
          exact ⟨rfl, nofun⟩
      | some head => cases head <;> rw [Lowering.statement] <;> exact ⟨rfl, nofun⟩
  | forOf head iterable body isAwait =>
      rw [Lowering.statement]
      cases isAwait <;> exact ⟨rfl, nofun⟩
  | «return» =>
      rw [Lowering.statement]
      exact standsFor_ite ⟨rfl, nofun⟩ ⟨rfl, nofun⟩
  | «try» body handler finalizer =>
      cases body
      rw [Lowering.statement]
      cases handler <;> cases finalizer <;> exact ⟨rfl, nofun⟩
  | exportDefault value =>
      rw [Lowering.statement.eq_def]
      cases value <;> exact ⟨rfl, nofun⟩
  | _ =>
      rw [Lowering.statement]
      exact ⟨rfl, nofun⟩

/-- The nodes of a list cover what its statements do. -/
theorem spans_statements (nested : Bool) (items : List Statement) (s : State) :
    (statements nested items s).1.map (·.span) = items.map Statement.span := by
  induction items generalizing s with
  | nil =>
      rw [statements]
      rfl
  | cons first rest ih =>
      rw [statements]
      cases nested with
      | false =>
        show (statement first _).1.span :: (statements false rest _).1.map _ = _
        rw [(standsFor_statement first _).span, ih]
        rfl
      | true =>
        show (statement first _).1.span :: (statements true rest _).1.map _ = _
        rw [(standsFor_statement first _).span, ih]
        rfl

/-- The region of the statements of a case holds them, whatever it is that holds the case. -/
theorem arranges_caseSpan {start stop : Nat} {items : List Statement}
    (h : Ascending start (items.map Statement.span) stop) (span : Span) (s : State) :
    (caseSpan items span s).1.Arranges (items.map Statement.span) := by
  cases items with
  | nil => exact .nil _ _
  | cons first rest =>
      obtain ⟨last, hl⟩ : ∃ last, (first :: rest).getLast? = some last :=
        ⟨_, List.getLast?_eq_some_getLast (List.cons_ne_nil first rest)⟩
      have run : caseSpan (first :: rest) span s = (first.span.extendTo last.span, s) := by
        unfold caseSpan
        rw [hl]
        rfl
      rw [run]
      exact h.extendTo rfl (by rw [List.getLast?_map, hl]; rfl)

end Lowering

end EcmaScript
