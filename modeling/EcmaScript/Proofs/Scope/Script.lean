import EcmaScript.Proofs.Scope.Program
import EcmaScript.Proofs.Scope.Texts

/-!
# Lists of parameters and patterns in a parse

A parse lowers each statement that it reads, outside everything, and so the faults of all occurrences in the
statements are in the sink (`Occurrence.fault_reported`).

## Contents

* `Script.occurrences`: the occurrences of a script.
* `Script.told_readAll`: the faults that were objected to behind all of it.
* `Occurrence.fault_reported`: the whole parse.
-/

namespace EcmaScript

namespace Script

open Grammar

/-- All constructs in the statements that are read of a text. -/
def occurrences (length : Nat) (s : Script) : List Occurrence := Occurrence.ofProgram (s.readStatements length)

/-- What is inside a statement that is read occurs. -/
theorem mem_occurrences {length : Nat} (s : Script) {statement : Statement} {q : Occurrence}
    (hs : statement ∈ s.readStatements length) (hq : Occurrence.Inside (.ofScript statement) q) :
    q ∈ s.occurrences length :=
  List.mem_flatMap.mpr ⟨_, List.mem_map_of_mem hs, Occurrence.mem_within.mpr hq⟩

/-- What is inside an occurrence occurs. -/
theorem mem_occurrences_of_inside {length : Nat} {s : Script} {q r : Occurrence} (hq : q ∈ s.occurrences length)
    (h : Occurrence.Inside q r) : r ∈ s.occurrences length := by
  obtain ⟨u, hu, hq⟩ := List.mem_flatMap.mp hq
  exact List.mem_flatMap.mpr ⟨u, hu, Occurrence.mem_within.mpr ((Occurrence.mem_within.mp hq).trans h)⟩

/-- On the way from `s` to `t` with the remarks `rs` the faults in the statements were objected to. -/
structure Told (items : List Statement) (s : Script) (rs : List Remark) (t : Script) : Prop where
  journal : t.grammar.journal = s.grammar.journal.notes rs
  scopes : t.lowering.scopes = s.lowering.scopes
  told : ∀ u ∈ Occurrence.ofProgram items, ∀ x ∈ u.faults, .problem x.1 x.2 ∈ rs

variable {text : List Char} {depth : Nat} {s t u : Script} {items more : List Statement} {rs qs : List Remark}

/-- No statement was lowered. -/
theorem Told.nothing (hj : t.grammar.journal = s.grammar.journal.notes rs)
    (hs : t.lowering.scopes = s.lowering.scopes) : Told [] s rs t := by
  refine ⟨hj, hs, fun u hu => ?_⟩
  rw [Occurrence.ofProgram, List.map_nil, List.flatMap_nil] at hu
  exact absurd hu List.not_mem_nil

theorem Told.refl (s : Script) : Told [] s [] s := .nothing rfl rfl

theorem Told.trans (h : Told items s rs t) (h' : Told more t qs u) : Told (items ++ more) s (rs ++ qs) u := by
  refine ⟨by rw [h'.journal, h.journal, Journal.notes_notes], h'.scopes.trans h.scopes, fun v hv x hx => ?_⟩
  rw [Occurrence.ofProgram, List.map_append, List.flatMap_append] at hv
  rcases List.mem_append.mp hv with hv | hv
  · exact List.mem_append_left _ (h.told v hv x hx)
  · exact List.mem_append_right _ (h'.told v hv x hx)

/-- A statement that is lowered outside everything. -/
theorem told_lower (statement : Statement) (hs : s.lowering.scopes = .script) :
    ∃ rs, Told [statement] s rs (s.lower (Lowering.statement statement)).2 := by
  obtain ⟨rs, hrun, hscopes, hobjections⟩ := (Lowering.Objects.statement [] statement).run s.lowering hs
  refine ⟨rs, ?_⟩
  unfold lower
  rw [hrun s.grammar.journal]
  refine ⟨rfl, hscopes.trans hs.symm, fun v hv x hx => hobjections.told v ?_ x hx⟩
  rw [Occurrence.ofProgram, List.map_singleton, List.flatMap_singleton] at hv
  exact hv

/-- **One statement**, read and lowered. -/
theorem told_step (depth : Nat) (h : s.Sound text) (hs : s.lowering.scopes = .script) :
    ∃ rs, Told (s.statement? depth).toList s rs (s.step depth) := by
  obtain ⟨a, t, rs, hrun, -⟩ := scriptStatement_trace depth s.grammar
  have hscript := hrun s.grammar.journal
  rw [State.noting_journal h.grammar.synced] at hscript
  unfold step statement?
  rw [hscript]
  cases a with
  | none => exact ⟨rs, .nothing rfl rfl⟩
  | some statement =>
      obtain ⟨qs, hlower⟩ := told_lower
        (s := { s with grammar := t.noting (s.grammar.journal.notes rs) }) statement hs
      have hread : Told [] s rs { s with grammar := t.noting (s.grammar.journal.notes rs) } := .nothing rfl rfl
      obtain ⟨hjournal, hscopes, htold⟩ := hread.trans hlower
      exact ⟨rs ++ qs, hjournal, hscopes, htold⟩

/-- **Any number of statements**, by induction on that number. -/
theorem told_run (depth limit : Nat) (h : s.Sound text) (hs : s.lowering.scopes = .script) :
    ∃ rs, Told (s.statements depth limit) s rs (s.run depth limit) := by
  induction limit generalizing s with
  | zero => exact ⟨[], .refl s⟩
  | succ limit ih =>
      unfold run statements
      split
      · exact ⟨[], .refl s⟩
      · obtain ⟨rs, hstep⟩ := told_step depth h hs
        obtain ⟨qs, hrun⟩ := ih (leads_step depth h).sound (hstep.scopes.trans hs)
        exact ⟨rs ++ qs, hstep.trans hrun⟩

theorem told_readAll (length : Nat) (h : s.Sound text) (hs : s.lowering.scopes = .script) :
    ∃ rs, Told (s.readStatements length) s rs (s.readAll length) := by
  obtain ⟨rs, hrun⟩ := told_run (4 * (length + 4)) (length + 2) h hs
  have hflush : Told [] (s.run (4 * (length + 4)) (length + 2))
      (s.run (4 * (length + 4)) (length + 2)).grammar.pending (s.readAll length) := by
    unfold readAll
    rw [flush_eq]
    exact .nothing rfl rfl
  exact ⟨_, List.append_nil (s.readStatements length) ▸ hrun.trans hflush⟩

/-- The root adds remarks. -/
theorem exists_notes_root? (s : Script) : ∃ rs, s.root?.2.grammar.journal = s.grammar.journal.notes rs := by
  cases hs : s.stopped with
  | true =>
      refine ⟨[], ?_⟩
      unfold root?
      rw [if_pos hs]
      rfl
  | false =>
      rw [root?_eq hs]
      exact ⟨_, Lowering.journal_script _ _ { s.lowering with journal := s.grammar.journal }⟩

end Script

/-- **What a parse remarks** contains the faults of all occurrences. -/
theorem exists_told_findings (name source : String) (o : Options) :
    ∃ f : Findings, parse name source o = f.result name o ∧
      ∀ u ∈ (Script.ofText name source o).occurrences source.length, ∀ x ∈ u.faults, .problem x.1 x.2 ∈ f.remarks := by
  obtain ⟨rs, htold⟩ := Script.told_readAll source.length (Script.sound_ofText name source o) rfl
  obtain ⟨qs, hroot⟩ := ((Script.ofText name source o).readAll source.length).exists_notes_root?
  rw [htold.journal, Journal.notes_notes] at hroot
  obtain ⟨f, hparse, hremarks⟩ := exists_findings_of_notes hroot
  refine ⟨f, hparse, fun u hu x hx => ?_⟩
  rw [hremarks]
  exact List.mem_append_left _ (htold.told u hu x hx)

namespace Occurrence

variable {q r u : Occurrence} {x : Position × Problem}

theorem isRule_of_mem_restFaults {isLast trailingComma : Bool} {s : Span}
    (h : x ∈ restFaults isLast trailingComma s) : x.2.isRule = true := by
  unfold restFaults at h
  split at h
  · rw [Set.mem_singleton_iff.mp h]
  · split at h
    · rw [Set.mem_singleton_iff.mp h]
    · exact h.elim

theorem isRule_of_mem_suspended {y : Span × Problem} (h : y ∈ q.suspended) : y.2.isRule = true := by
  obtain ⟨u, -, hu⟩ := h
  unfold suspension? at hu
  split at hu <;> cases hu <;> rfl

theorem isRule_of_mem_faults (h : x ∈ q.faults) : x.2.isRule = true := by
  unfold faults at h
  split at h
  · split at h
    · rw [Set.mem_singleton_iff.mp h]
    · rw [Set.mem_singleton_iff.mp h]
    · split at h
      · obtain ⟨y, hy, rfl⟩ := h
        exact isRule_of_mem_suspended hy
      · exact h.elim
    · exact h.elim
  · split at h
    · split at h
      · exact h.elim
      · exact isRule_of_mem_restFaults h
    · exact h.elim
  · split at h
    · exact isRule_of_mem_restFaults h
    · exact h.elim
  · split at h
    · exact isRule_of_mem_restFaults h
    · exact h.elim
  · split at h
    · exact h.elim
    · rw [Set.mem_singleton_iff.mp h]
  · split at h
    · rw [Set.mem_singleton_iff.mp h]
    · exact h.elim
  · rcases Lowering.accessorProblem?_cases h.2 with ⟨n, hn⟩ | ⟨n, hn⟩ | hn <;> rw [hn]
  · exact h.elim

/-- **The faults of all occurrences are in the sink.** -/
theorem fault_reported {name source : String} {o : Options}
    (hu : u ∈ (Script.ofText name source o).occurrences source.length) (hx : x ∈ u.faults) :
    Findings.objection name x.1 x.2 ∈ (parse name source o).sink.reported := by
  obtain ⟨f, hparse, htold⟩ := exists_told_findings name source o
  rw [hparse]
  exact Findings.objection_mem (isRule_of_mem_faults hx) (htold u hu x hx)

end Occurrence

end EcmaScript
