import EcmaScript.Proofs.Layout.Lowering
import EcmaScript.Proofs.Layout.Statement
import EcmaScript.Proofs.Places.Script

/-!
# Scripts in the order of the text

A script is read statement by statement. The grammar gives statements whose pieces lie between the cursor
before them and the last token that was read, lowering makes of each a node that stands in the same place,
and so the nodes that a script has gathered stand in a row up to the cursor (`Script.row_step`,
`Script.row_run`). The root is put over the whole row.

## Contents

* `Grammar.laid_scriptStatement`: one statement, or a placeholder for one.
* `Script.row_run`: the nodes of a script.
* `Script.laid_root?`: the tree of a script follows its text.
-/

namespace EcmaScript

open Node (InPlace Row)

namespace Grammar

variable {text : List Char} {s t : State}

/-- **A statement of the script lies behind the cursor**, also if it is the placeholder of one that failed. -/
theorem laid_scriptStatement (depth : Nat) (hs : s.Standing text) (he : s.current.isEnd = false)
    {statement : Statement} (h : scriptStatement (read depth) s = .ok (some statement) t) :
    Moves text s t ∧ Laid s.current.span.offset statement.pieces t.lastStop := by
  obtain ⟨tokens, hreads⟩ := reads_scriptStatement depth s
  rw [h] at hreads
  have hm := Moves.of_reads hreads hs
  have hlt := hm.lt (lt_scriptStatement depth hs he h)
  refine ⟨hm, ?_⟩
  rw [scriptStatement_eq] at h
  cases hr : read depth (.statement .topLevel) s with
  | ok a u =>
      rw [hr] at h
      cases h
      have hread : Reader.Lays text (read depth) := lays_read depth
      obtain ⟨-, hlaid⟩ := (hread.statement .topLevel).run hs hr
      obtain ⟨mid, -, hin, hmid, -⟩ := Laid.part_iff.mp hlaid
      exact hin.mono (Nat.le_refl _) hmid
  | error e u =>
      rw [hr] at h
      dsimp only at h
      rw [recover_eq] at h
      split at h
      · obtain ⟨_, v, -, ht⟩ := exists_of_bind_ok h
        cases ht
        have hstop := Span.stop_between (p := s.current.start) (Nat.le_of_lt hlt)
        exact .gap (Nat.le_refl _) (Nat.le_of_eq hstop) .nil
      · cases h

end Grammar

namespace Script

variable {text : List Char} {s t : Script}

/-- The nodes of the script stand in a row up to the cursor, which stands in the text. -/
structure InRow (text : List Char) (s : Script) : Prop where
  standing : s.grammar.Standing text
  row : Row .item 0 s.reversed.reverse s.grammar.current.span.offset

theorem inRow_ofText (name source : String) (o : Options) : (ofText name source o).InRow source.toList :=
  ⟨standing_ofText name source o, .nil (Nat.zero_le _)⟩

/-- Reading on without a statement. -/
theorem InRow.reading (h : s.InRow text) {g : Grammar.State} (hm : Grammar.Moves text s.grammar g)
    (stopped : Bool) : InRow text { s with grammar := g, stopped } :=
  ⟨hm.standing, h.row.mono (Nat.le_refl _) hm.le⟩

/-- **One statement**, read and lowered, comes behind the nodes before it. -/
theorem inRow_step (depth : Nat) (h : s.InRow text) (he : s.grammar.current.isEnd = false) :
    (step depth s).InRow text := by
  obtain ⟨tokens, hreads⟩ := Grammar.reads_scriptStatement depth s.grammar
  have hm := Grammar.Moves.of_reads hreads h.standing
  unfold step
  split
  next statement g hg =>
    obtain ⟨hmoves, hlaid⟩ := Grammar.laid_scriptStatement depth h.standing he hg
    have hnode := (Lowering.Lowers.statement statement).run
      (hlaid.mono (Nat.le_refl _) hmoves.standing.behind) { s.lowering with journal := g.journal }
    have hidle : g.Idle { g with journal := (Lowering.statement statement
        { s.lowering with journal := g.journal }).2.journal } := Grammar.State.idle_journal _ _
    refine ⟨hmoves.standing.idle hidle, ?_⟩
    show Row .item 0 (_ :: s.reversed).reverse _
    rw [List.reverse_cons]
    exact h.row.append (.one hnode)
  next g hg =>
    rw [hg] at hm
    exact h.reading hm true
  next e g hg =>
    rw [hg] at hm
    exact h.reading hm true

/-- **Any number of statements**, by induction on that number. -/
theorem inRow_run (depth limit : Nat) (h : s.InRow text) : (run depth limit s).InRow text := by
  induction limit generalizing s with
  | zero => exact h
  | succ limit ih =>
      unfold run
      split
      · exact h
      next hd => exact ih (inRow_step depth h (Bool.or_eq_false_iff.mp (Bool.eq_false_iff.mpr hd)).2)

theorem inRow_readAll (length : Nat) (h : s.InRow text) : (readAll length s).InRow text := by
  have hrun := inRow_run (4 * (length + 4)) (length + 2) h
  unfold readAll
  rw [flush_eq]
  exact ⟨hrun.standing.idle (Grammar.State.idle_flushed _), hrun.row⟩

end Script

namespace Node

variable {nodes : List Node} {span : Span} {hi : Nat}

/-- A list of statements from the start of the text on. -/
theorem Row.laid_list {kind : NodeKind} (hk : kind = .script ∨ kind = .moduleBody)
    (h : Row .item 0 nodes hi) (hstart : span.offset = 0) (hstop : span.stop ≤ hi) :
    Laid .plain 0 (.branch kind span nodes) hi := by
  have hlist : kind.needsList = true := by obtain rfl | rfl := hk <;> rfl
  have hplain : kind.arrangement = .plain := by obtain rfl | rfl := hk <;> rfl
  have hshaped : (branch kind span nodes).Shaped := by
    refine ⟨fun child hc => (h.each child hc).1, fun _ _ _ => .inr hlist, fun hv => ?_, fun hshared => ?_⟩
    · obtain rfl | rfl := hk <;> obtain hv | hv := hv <;> cases hv
    · cases hplain.symm.trans hshared
  have hinner : (branch kind span nodes).innerStop hi = hi := by
    obtain rfl | rfl := hk <;> rfl
  refine laid_iff.mpr ⟨.of_le (Nat.zero_le _) hstop, hshaped, ?_⟩
  have hfirst : (branch kind span nodes).innerStart 0 ≤ (branch kind span nodes).span.offset :=
    innerStart_le (Nat.zero_le _)
  rw [hinner]
  exact (h.laid.mono (Nat.le_trans hfirst (Nat.le_of_eq hstart)) (Nat.le_refl _)).loosen

end Node

namespace Script

variable {text : List Char} {s : Script}

/-- **The tree of a script follows its text.** -/
theorem laid_root? (h : s.InRow text) {root : Node} (hroot : s.root?.1 = some root) :
    root.Laid .plain 0 text.length := by
  have hcurrent : s.grammar.current.span.stop ≤ text.length := h.standing.current.span.2
  have hrow : Row .item 0 s.reversed.reverse text.length :=
    h.row.mono (Nat.le_refl _) (Nat.le_trans s.grammar.current.span.offset_le_stop hcurrent)
  have hstop : (Span.between Position.start s.grammar.current.span.stop).stop ≤ text.length := by
    rwa [Span.stop_between (Nat.zero_le _)]
  unfold root? at hroot
  split at hroot
  · cases hroot
  · cases hroot
    show ((if _ then _ else _ : Lowering Node) _).1.Laid .plain 0 text.length
    split
    · have hbody : Node.Laid .plain 0 (.branch .moduleBody _ _) text.length :=
        hrow.laid_list (.inr rfl) rfl hstop
      exact (Row.one (g := .item) ⟨Nat.zero_le _, hbody, nofun, trivial⟩).laid_list (.inl rfl) rfl hstop
    · exact hrow.laid_list (.inl rfl) rfl hstop

/-- The tree of a text follows the text. -/
theorem laid_ofText (name source : String) (o : Options) {root : Node}
    (hroot : ((ofText name source o).readAll source.length).root?.1 = some root) :
    root.Laid .plain 0 source.length :=
  String.length_toList ▸ laid_root? (inRow_readAll source.length (inRow_ofText name source o)) hroot

end Script

end EcmaScript
