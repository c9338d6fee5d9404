import EcmaScript.Proofs.CommentPolicy
import EcmaScript.Proofs.Script.Root
import EcmaScript.Proofs.Shape.Grammar
import EcmaScript.Proofs.Shape.Lowering

/-!
# The shape of the tree of a script

A script is read and lowered statement by statement. The grammar gives statements that are as they should be,
be it placeholders, and lowering makes of each a tree drawn from what is inside the statement. What lowering
has refused stays in the journal, so a parse without errors has refused nothing. The root is put over these
trees, and comments change nothing of their shape (`grown_parse`).

## Contents

* `Part.Within`, `Expression.OccursIn`: what is inside a construct, and inside the statements of a script.
* `Grammar.inForm_scriptStatement`: the statements that are read.
* `Script.stems_step`, `Script.stems_run`: the nodes of a script and the statements they are lowered from.
* `concreteTree`, `Script.grown_root?`: the tree of a script.
* `grown_parse`: the tree of a parse.
-/

namespace EcmaScript

open IsPart (part)

/-! ## Inside a construct -/

/-- The construct is the other one, or inside it. -/
inductive Part.Within : Part → Part → Prop
  | self (p : Part) : Within p p
  | inside {p q r : Part} (h : p ∈ q.parts) (hq : Within q r) : Within p r

/-- What holds of all that is inside a construct is said of what is inside it. -/
theorem Part.Every.within {P : Part → Prop} {p r : Part} (h : p.Every P) (hr : p.Within r) :
    p.Every fun q => P q ∧ q.Within r := by
  induction h with
  | mk own _ ih => exact .mk ⟨own, hr⟩ fun q hq => ih q hq (.inside hq hr)

theorem Part.Every.of_within {P : Part → Prop} {p r : Part} (hr : r.Every P) (h : p.Within r) : p.Every P := by
  induction h with
  | self => exact hr
  | inside hp _ ih => exact (ih hr).inner _ hp

/-- The expression is inside one of the statements. -/
def Expression.OccursIn (program : List Statement) (e : Expression) : Prop :=
  ∃ s ∈ program, (part e).Within (part s)

/-- The construct is as the grammar makes it, and inside one of the statements. -/
def Part.FitsIn (program : List Statement) (p : Part) : Prop :=
  p.Fits ∧ ∃ s ∈ program, p.Within (part s)

instance (program : List Statement) : Part.Fitting (Part.FitsIn program) := ⟨fun h => h.1⟩

/-- A statement in form is one of those that it is among. -/
theorem Held.fitsIn {program : List Statement} {s : Statement} (h : InForm s) (hs : s ∈ program) :
    Held (Part.FitsIn program) s :=
  ⟨(h.formed.within (.self _)).mono fun _ hq => ⟨hq.1, s, hs, hq.2⟩⟩

/-! ## Reading -/

/-- **A statement of the script is in form**, also if it is the placeholder of one that failed. -/
theorem Grammar.inForm_scriptStatement {text : List Char} {s t : State} (depth : Nat)
    (hs : s.Standing text) {statement : Statement}
    (h : scriptStatement (read depth) s = .ok (some statement) t) : InForm statement := by
  rw [scriptStatement_eq] at h
  cases hr : read depth (.statement .topLevel) s with
  | ok a u =>
      rw [hr] at h
      cases h
      exact ((forms_read depth).statement .topLevel |>.run hs hr).2
  | error e u =>
      rw [hr] at h
      dsimp only at h
      rw [recover_eq] at h
      split at h
      · obtain ⟨_, v, -, ht⟩ := exists_of_bind_ok h
        cases ht
        infer_instance
      · cases h

namespace Script

variable {text : List Char} {depth : Nat} {s t : Script} {n : Node}

/-- The node is lowered from one of the statements, and what was refused in doing so the journal says. -/
def Stems (program : List Statement) (j : Journal) (n : Node) : Prop :=
  ∃ s ∈ program, InForm s ∧ ∃ l, n = (Lowering.statement s l).1 ∧
    ((Lowering.statement s l).2.journal.RefusesUpdate → j.RefusesUpdate)

theorem Stems.mono {program program' : List Statement} {j j' : Journal} (h : Stems program j n)
    (hp : program ⊆ program') (hj : j.RefusesUpdate → j'.RefusesUpdate) : Stems program' j' n :=
  have ⟨s, hs, hform, l, hn, hrefuses⟩ := h
  ⟨s, hp hs, hform, l, hn, hj ∘ hrefuses⟩

/-- **One step** adds the node of the statement that it reads. -/
theorem stems_step (hs : s.grammar.Standing text) (hn : n ∈ (s.step depth).reversed) :
    n ∈ s.reversed ∨ Stems (s.statement? depth).toList (s.step depth).grammar.journal n := by
  unfold step at hn ⊢
  unfold statement?
  split at hn
  next statement g hg =>
    obtain rfl | hn := List.mem_cons.mp hn
    · rw [hg]
      exact .inr ⟨statement, List.mem_singleton_self _, Grammar.inForm_scriptStatement depth hs hg, _, rfl, id⟩
    · exact .inl hn
  next => exact .inl hn
  next => exact .inl hn

/-- What was refused stays refused. -/
theorem Leads.refusesUpdate (h : Leads text s t) (hs : s.grammar.journal.RefusesUpdate) :
    t.grammar.journal.RefusesUpdate := by
  obtain ⟨rs, -, hj⟩ := h.journal
  rw [hj]
  exact hs.notes rs

/-- **Any number of steps**, by induction on that number: every node that they add is lowered from one of
the statements that were read. -/
theorem stems_run (depth limit : Nat) (hs : s.Sound text) (hn : n ∈ (run depth limit s).reversed) :
    n ∈ s.reversed ∨ Stems (s.statements depth limit) (run depth limit s).grammar.journal n := by
  induction limit generalizing s with
  | zero => exact .inl hn
  | succ limit ih =>
      unfold run at hn ⊢
      unfold statements
      split at hn
      next hd =>
        exact .inl hn
      next hd =>
        rw [if_neg hd, if_neg hd]
        have hsound := (leads_step depth hs).sound
        obtain hstep | hrest := ih hsound hn
        · exact (stems_step hs.grammar.toStanding hstep).imp_right fun h =>
            h.mono (List.subset_append_left _ _) (leads_run depth limit hsound).refusesUpdate
        · exact .inr (hrest.mono (List.subset_append_right _ _) id)

end Script

/-- The concrete tree of a text: the statements that its script reads. -/
def concreteTree (name source : String) (o : Options) : List Statement :=
  (Script.ofText name source o).readStatements source.length

/-! ## The tree -/

instance {P : Part → Prop} {quiet : Prop} (nodes : List Node) [Lowering.Full P quiet nodes] (span : Span) :
    Lowering.Grows P quiet (Lowering.script nodes span) := by
  unfold Lowering.script
  infer_instance

namespace Script

variable {name source : String} {o : Options} {root n : Node} {s : Script}

/-- The nodes of a script that was read are lowered from its statements. -/
theorem stems_readAll (hn : n ∈ ((ofText name source o).readAll source.length).reversed) :
    Stems (concreteTree name source o) ((ofText name source o).readAll source.length).grammar.journal n := by
  unfold readAll at hn ⊢
  rw [flush_eq] at hn ⊢
  have hrun := stems_run _ _ (sound_ofText name source o) hn
  exact (hrun.resolve_left List.not_mem_nil).mono (List.Subset.refl _) fun h => h.notes _

/-- **The tree of a script is drawn from its statements.** -/
theorem grown_root? (hroot : ((ofText name source o).readAll source.length).root? = (some root, s))
    {quiet : Prop} (hquiet : quiet → ¬s.grammar.journal.RefusesUpdate) :
    Grown (Part.FitsIn (concreteTree name source o)) quiet root ∧ root.Settled := by
  have hread := leads_readAll source.length (sound_ofText name source o)
  have hlast := leads_root? hread.sound
  rw [hroot] at hlast
  have hnodes : Lowering.Full (Part.FitsIn (concreteTree name source o)) quiet
      ((ofText name source o).readAll source.length).reversed.reverse := by
    refine ⟨fun n hn => ?_⟩
    obtain ⟨statement, hs, hform, l, rfl, hrefuses⟩ := stems_readAll (List.mem_reverse.mp hn)
    exact (Lowering.Grows.statement statement (hform.fitsIn hs)).run l fun hq hr =>
      hquiet hq (hlast.2.refusesUpdate (hrefuses hr))
  have hscript (span : Span) := (inferInstance : Lowering.Grows (Part.FitsIn (concreteTree name source o)) quiet
    (Lowering.script ((ofText name source o).readAll source.length).reversed.reverse span))
  unfold root? at hroot
  split at hroot
  · cases hroot
  · cases hroot
    exact (hscript _).run _ fun hq => hquiet hq

/-- A parse without errors has refused nothing. -/
theorem not_refusesUpdate {root? : Option Node}
    (hroot : ((ofText name source o).readAll source.length).root? = (root?, s))
    (hclean : (parse name source o).sink.errorCount = 0) : ¬s.grammar.journal.RefusesUpdate := by
  obtain ⟨tree?, ws, -, hattach⟩ := attached_trace root? s.grammar.lexer.comments.toList source o
  have hread := leads_readAll source.length (sound_ofText name source o)
  have hlast := (leads_root? hread.sound).2
  rw [hroot] at hlast
  obtain ⟨rs, -, hjournal⟩ := hread.journal.trans hlast.journal
  rw [(counted_parse name source o).1, Array.countP_eq_zero, parse_of_root hroot (hattach _)] at hclean
  refine Journal.not_refusesUpdate (congrArg (·.sink) hjournal) fun d hd => ?_
  exact Bool.eq_false_iff.mpr (hclean d (Sink.mem_reports_of_mem hd))

end Script

/-- **The tree of a parse is drawn from the concrete tree**, but for its comments. Without errors nothing was
wrong with the operand of an increment or decrement. -/
theorem grown_parse (name source : String) (o : Options) : ∀ tree ∈ (parse name source o).root,
    Grown (Part.FitsIn (concreteTree name source o)) ((parse name source o).sink.errorCount = 0) tree.bare ∧
      tree.bare.Settled := by
  obtain ⟨root?, s, hroot⟩ : ∃ root s,
      ((Script.ofText name source o).readAll source.length).root? = (root, s) := ⟨_, _, rfl⟩
  obtain ⟨tree?, ws, -, hattach⟩ := attached_trace root? s.grammar.lexer.comments.toList source o
  have hparse := parse_of_root hroot (hattach s.grammar.journal.sink)
  have hbare := bare_attached root? s.grammar.lexer.comments.toList source o s.grammar.journal.sink
  rw [hattach] at hbare
  intro tree htree
  have htree : tree? = some tree := by
    rw [hparse] at htree
    dsimp only at htree
    split at htree
    · cases htree
    · exact htree
  cases root? with
  | none =>
      rw [htree] at hbare
      cases hbare
  | some root =>
      rw [htree, Option.map_some, Option.map_some, Option.some_inj] at hbare
      have hgrown := Script.grown_root? hroot (Script.not_refusesUpdate hroot)
      rw [hbare, hgrown.1.bare_eq]
      exact hgrown

end EcmaScript
