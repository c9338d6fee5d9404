import EcmaScript.Proofs.Await.Script
import EcmaScript.Proofs.Scope.Lowering

/-!
# Jumps and private names of a program

A program is lowered statement by statement, and then its root is made. Outside all of it nothing encloses a
statement, so what is said about jumps and private names is what is wrong with the occurrences of the program,
each said once and nothing else (`jumps_resolved`, `private_names_resolved`). The order may be another one: the
statements of a case are lowered before its test.

## Contents

* `Occurrence.ofProgram`: the occurrences of a program.
* `Objections.exactly`: problems of one kind.
* `Lowering.program`, `Lowering.exists_objections`: a whole program.
* `jumps_resolved`, `private_names_resolved`: the results.
-/

namespace EcmaScript

namespace Occurrence

/-- A statement outside everything. -/
def ofScript (s : Statement) : Occurrence := { construct := .statement s }

/-- All constructs of a program. -/
def ofProgram (items : List Statement) : List Occurrence := (items.map ofScript).flatMap within

theorem isPrivate_eq_false_of_jumpProblem? {q : Occurrence} {x : Position × Problem}
    (h : q.jumpProblem? = some x) : x.2.isPrivate = false := by
  have hjump := isJump_of_jumpProblem? h
  cases hx : x.2 <;> rw [hx] at hjump <;> first | rfl | cases hjump

theorem isJump_eq_false_of_privateProblem? {q : Occurrence} {x : Position × Problem}
    (h : q.privateProblem? = some x) : x.2.isJump = false := by
  have hprivate := isPrivate_of_privateProblem? h
  cases hx : x.2 <;> rw [hx] at hprivate <;> first | rfl | cases hprivate

/-- A construct is not both a jump and a private name. -/
theorem privateProblem?_of_jumpProblem? {q : Occurrence} {x : Position × Problem} (h : q.jumpProblem? = some x) :
    q.privateProblem? = none := by
  obtain ⟨es, use, construct⟩ := q
  unfold jumpProblem? at h
  cases construct with
  | statement s => rfl
  | _ => cases h

/-- Of the problems with scopes, those of jumps and labels. -/
theorem filter_isJump (q : Occurrence) : q.problem?.filter (·.2.isJump) = q.jumpProblem? := by
  unfold problem?
  cases hj : q.jumpProblem? with
  | some x => exact Option.filter_some_pos (isJump_of_jumpProblem? hj)
  | none =>
      rw [Option.none_or]
      cases hp : q.privateProblem? with
      | some x => exact Option.filter_some_neg (by simp [isJump_eq_false_of_privateProblem? hp])
      | none => rfl

/-- Of the problems with scopes, those of private names. -/
theorem filter_isPrivate (q : Occurrence) : q.problem?.filter (·.2.isPrivate) = q.privateProblem? := by
  unfold problem?
  cases hj : q.jumpProblem? with
  | some x =>
      rw [privateProblem?_of_jumpProblem? hj]
      exact Option.filter_some_neg (by simp [isPrivate_eq_false_of_jumpProblem? hj])
  | none =>
      rw [Option.none_or]
      cases hp : q.privateProblem? with
      | some x => exact Option.filter_some_pos (isPrivate_of_privateProblem? hp)
      | none => rfl

end Occurrence

namespace Lowering

open Occurrence

/-- Remarks of one kind among those of another. -/
theorem ofKind?_eq_filter {K L : Problem → Bool} (h : ∀ p, K p = true → L p = true) (r : Remark) :
    r.ofKind? K = (r.ofKind? L).filter (K ·.2) := by
  cases r with
  | problem position p =>
      show (if K p then some (position, p) else none) = (if L p then some (position, p) else none).filter (K ·.2)
      by_cases hK : K p = true
      · rw [if_pos hK, if_pos (h p hK)]
        exact (Option.filter_some_pos (p := fun x : Position × Problem => K x.2) hK).symm
      · rw [if_neg hK]
        split
        · exact (Option.filter_some_neg (p := fun x : Position × Problem => K x.2) (Bool.eq_false_iff.mpr hK)).symm
        · rfl
  | _ => rfl

/-- **Problems of one kind** are objected to once for each occurrence. -/
theorem Objections.exactly {U : Multiset Occurrence} {rs : List Remark} (h : Objections U rs)
    {K : Problem → Bool} (hK : ∀ p, K p = true → p.isScoped = true) :
    (rs.filterMap (Remark.ofKind? K) : List (Position × Problem)) =
      U.filterMap fun u => u.problem?.filter (K ·.2) := by
  have hfilter (x : Option (Position × Problem)) : x.filter (K ·.2) = x.bind (Option.guard (K ·.2)) := by
    cases x with
    | none => rfl
    | some x => exact Option.filter_some
  have hsplit : (rs.filterMap (Remark.ofKind? K) : Multiset (Position × Problem)) =
      (rs.filterMap (Remark.ofKind? Problem.isScoped) : Multiset (Position × Problem)).filterMap
        (Option.guard (K ·.2)) := by
    rw [Multiset.filterMap_coe, List.filterMap_filterMap]
    simp only [ofKind?_eq_filter hK, hfilter]
  rw [hsplit, h.exact, Multiset.filterMap_filterMap]
  simp only [hfilter]

/-! ## A whole program -/

/-- What waits in a program read from the start are objections to `await`. -/
theorem isAwait_of_waiting (items : List Statement) (s : State) (hs : s.scopes.awaitContext = .topLevel)
    (hpending : s.pendingAwaits = []) {x : Position × Problem}
    (hx : x ∈ (statements false items s).2.pendingAwaits) : x.2.isAwait = true := by
  obtain ⟨_, -, haccount⟩ := (Accounts.statements .topLevel false items).run s hs
  rcases (haccount.waiting x).mp hx with hx | ⟨u, -, -, ha⟩
  · rw [hpending] at hx
    cases hx
  · exact Site.isAwait_of_await? ha

/-- Lowers a program: its statements, one after the other, and its root. -/
def program (items : List Statement) (span : Span) : Lowering Node := do
  let nodes ← statements false items
  script nodes span

/-- **A program** is lowered with objections to its occurrences, whatever was noted before. -/
theorem exists_objections (items : List Statement) (span : Span) (lineMap : LineMap) (strict : Bool) :
    ∃ rs : List Remark,
      (∀ journal, (program items span { journal, lineMap, strict }).2.journal = journal.notes rs) ∧
        Objections (ofProgram items : List Occurrence) rs := by
  let start : State := { journal := default, lineMap, strict }
  obtain ⟨rs, hrun, -, hobjections⟩ := (Objects.statements [] false items).run start rfl
  let settled : List Remark := if (statements false items start).2.isModule then []
    else (statements false items start).2.pendingAwaits.reverse.map fun x => .problem x.1 x.2
  have hsettled : ∀ r ∈ settled, r.concerns Problem.isScoped = false := by
    intro r hr
    unfold settled at hr
    split at hr
    · cases hr
    · obtain ⟨x, hx, rfl⟩ := List.mem_map.mp hr
      have ha := isAwait_of_waiting items start rfl rfl (List.mem_reverse.mp hx)
      show x.2.isScoped = false
      cases hp : x.2 <;> rw [hp] at ha <;> first | rfl | cases ha
  refine ⟨rs ++ settled, fun journal => ?_, ?_⟩
  · show (script (statements false items { start with journal }).1 span
      (statements false items { start with journal }).2).2.journal = _
    rw [hrun journal, journal_script, Journal.notes_notes]
  · have h := hobjections.append (.nothing hsettled)
    rwa [add_zero] at h

end Lowering

/-! ## The results -/

section Results

variable (items : List Statement) (span : Span) (lineMap : LineMap) (strict : Bool)

/-- **Labels and jumps are resolved exactly.** Of all that is remarked while a program is lowered, the problems
with jumps and labels are those of its occurrences, each as often as it occurs: a jump without a label must have a
loop around it, or for `break` a loop or a switch; a label must name a statement around the jump, and for
`continue` the outermost one of that name must be a loop; and no label may be that of a statement around it. Jumps
do not cross the boundaries of functions, static blocks and fields. -/
theorem jumps_resolved : ∃ rs : List Remark,
    (∀ journal, (Lowering.program items span { journal, lineMap, strict }).2.journal = journal.notes rs) ∧
      (rs.filterMap (Remark.ofKind? Problem.isJump)).Perm
        ((Occurrence.ofProgram items).filterMap Occurrence.jumpProblem?) := by
  obtain ⟨rs, hrun, hobjections⟩ := Lowering.exists_objections items span lineMap strict
  refine ⟨rs, hrun, Multiset.coe_eq_coe.mp ?_⟩
  rw [hobjections.exactly fun _ => Problem.isScoped_of_isJump, Multiset.filterMap_coe]
  simp only [Occurrence.filter_isJump]

/-- The default of a rest entry is objected to as a whole, and a jump in it is not. -/
theorem jump_not_resolved_in_rest_default :
    let source := "[...a = () => { break; }] = b;"
    let start := Script.ofText "a.js" source { onError := .keepGoing }
    let result := parse "a.js" source { onError := .keepGoing }
    result.root.isSome = true ∧
    (match start.readStatements source.length with
      | [.expression (.assignment .assign (.array [.spread (.assignment .assign (.identifier _)
          (.function (.mk none [] _ _ (.block (.mk [.break none s] _)) .arrow _ _ _)) _) _] _ _)
          (.identifier _) _) _] => s.start == ⟨1, 16, 16⟩
      | _ => false) = true ∧
    Findings.objection "a.js" ⟨1, 16, 16⟩ .breakOutsideLoop ∉ result.sink.reported := by
  decide +kernel

/-- **Private names resolve to the class bodies around them.** Of all that is remarked while a program is lowered,
the problems with private names are those of its occurrences, each as often as it occurs: a reference outside all
class bodies is misplaced, and so is a private name that is no reference at all; a reference in class bodies none
of which has a member of that name is to an undeclared method if it is called, and else to an undeclared field. A
class body is around its members, and not around what the class extends. -/
theorem private_names_resolved : ∃ rs : List Remark,
    (∀ journal, (Lowering.program items span { journal, lineMap, strict }).2.journal = journal.notes rs) ∧
      (rs.filterMap (Remark.ofKind? Problem.isPrivate)).Perm
        ((Occurrence.ofProgram items).filterMap Occurrence.privateProblem?) := by
  obtain ⟨rs, hrun, hobjections⟩ := Lowering.exists_objections items span lineMap strict
  refine ⟨rs, hrun, Multiset.coe_eq_coe.mp ?_⟩
  rw [hobjections.exactly fun _ => Problem.isScoped_of_isPrivate, Multiset.filterMap_coe]
  simp only [Occurrence.filter_isPrivate]

/-- A private name in the default of a rest entry is not looked up. -/
theorem private_name_not_resolved_in_rest_default :
    let source := "[...a = x.#y] = z;"
    let start := Script.ofText "a.js" source { onError := .keepGoing }
    let result := parse "a.js" source { onError := .keepGoing }
    result.root.isSome = true ∧
    (match start.readStatements source.length with
      | [.expression (.assignment .assign (.array [.spread (.assignment .assign (.identifier _)
          (.member (.identifier _) (.hidden name) false _) _) _] _ _) (.identifier _) _) _] =>
        name.name == "y" && name.span.start == ⟨1, 10, 10⟩
      | _ => false) = true ∧
    Findings.objection "a.js" ⟨1, 10, 10⟩ .privateNameMisplaced ∉ result.sink.reported := by
  decide +kernel

end Results

end EcmaScript
