import EcmaScript.Proofs.Grammar.Presence
import EcmaScript.Proofs.Script.Tiling

/-!
# The root of a script

A script reads statements, one with each step (`Script.statements`). If it was not stopped it is read to its
end, and lowering puts a root over its statements. So all of its tokens have been read
(`Script.exists_readsTo_of_root`), and the last statement ends with the last of them
(`Script.Steps.ends_last`).

## Contents

* `Script.statement?`, `Script.statements`, `Script.readStatements`: the statements that a script reads.
* `Script.Steps.exists_readsTo`, `Script.Steps.ends_last`: the tokens of a script and its last statement.
* `Script.root?_eq`, `Script.steps_of_root`: what a script with a root has come from.
-/

namespace EcmaScript

namespace Script

open Grammar

/-! ## What a script reads -/

/-- The statement that a step reads, unless it stops the script. -/
def statement? (depth : Nat) (s : Script) : Option Statement :=
  match scriptStatement (read depth) s.grammar with
  | .ok statement _ => statement
  | .error _ _ => none

/-- The statements that a run reads. -/
def statements (depth : Nat) : (limit : Nat) → Script → List Statement
  | 0, _ => []
  | limit + 1, s =>
    if s.stopped || s.grammar.current.isEnd then []
    else (s.statement? depth).toList ++ statements depth limit (s.step depth)

/-- The statements that are read of a text of `length` characters. -/
def readStatements (length : Nat) (s : Script) : List Statement := s.statements (4 * (length + 4)) (length + 2)

/-! ## The tokens of a script -/

variable {text : List Char} {depth : Nat} {s t : Script} {read : List (List Token)}

theorem heedsAt_step (depth : Nat) (hs : s.grammar.Standing text) :
    ∃ tokens, ReadsTo s.grammar tokens (s.step depth).grammar := by
  obtain ⟨tokens, hreads⟩ := heedsAt_scriptStatement depth hs
  unfold step
  split
  next statement t ht =>
    rw [ht] at hreads
    exact ⟨tokens ++ [],
      hreads.trans (.of_idle (idle_lower (Lowering.statement statement) { s with grammar := t }))⟩
  next t ht =>
    rw [ht] at hreads
    exact ⟨tokens, hreads⟩
  next e t ht =>
    rw [ht] at hreads
    exact ⟨tokens, hreads⟩

namespace Steps

/-- A script reads tokens, and not the end of the text. -/
theorem exists_readsTo (h : Steps depth s read t) (hs : s.grammar.Standing text) :
    ∃ tokens, ReadsTo s.grammar tokens t.grammar := by
  induction h with
  | halt => exact ⟨[], .refl _⟩
  | step _ hreads _ ih =>
      obtain ⟨xs, hx⟩ := heedsAt_step depth hs
      obtain ⟨ys, hy⟩ := ih (hreads.forward hs).standing
      exact ⟨xs ++ ys, hx.trans hy⟩

/-- **The last statement ends with the last token**; a script without statements has read nothing. -/
theorem ends_last (h : Steps depth s read t) (hs : s.grammar.Standing text) (ht : t.stopped = false) :
    t = s ∨ ∃ node rest, t.reversed = node :: rest ∧ node.span.stop = t.grammar.lastStop := by
  induction h with
  | halt => exact .inl rfl
  | @step s t tokens rest hd hreads hrest ih =>
      right
      obtain ⟨node, hnode, -, hspan⟩ := hrest.exists_node ht
      obtain rfl | hlast := ih (hreads.forward hs).standing ht
      · have he := (Bool.or_eq_false_iff.mp hd).2
        have hlt : s.grammar.current.span.offset < (s.step depth).grammar.current.span.offset :=
          (lt_step depth hs he).resolve_right (Bool.eq_false_iff.mp ht)
        exact ⟨node, s.reversed, hnode, hspan ▸ Span.stop_between (hreads.le_lastStop hs hlt)⟩
      · exact hlast

end Steps

/-! ## The root -/

/-- The tree of a script that was not stopped: what lowering puts over its statements. -/
theorem root?_eq (h : s.stopped = false) :
    s.root? =
      let span := Span.between Position.start s.grammar.current.span.stop
      (some (s.lower (Lowering.script s.reversed.reverse span)).1,
        (s.lower (Lowering.script s.reversed.reverse span)).2) := by
  unfold root?
  rw [if_neg (Bool.eq_false_iff.mp h)]

/-- The root of a script, with the script behind it. -/
theorem root?_eq_of_some {root : Node} (h : s.root?.1 = some root) : s.root? = (some root, s.root?.2) := Prod.ext h rfl

/-- The way to a script with a root: all statements, what the lexer has still noted, and the root over the
statements. -/
theorem steps_of_root {name source : String} {o : Options} {root : Node}
    (hroot : ((ofText name source o).readAll source.length).root? = (some root, s)) :
    ∃ read t, Steps (4 * (source.length + 4)) (ofText name source o) read t ∧ t.stopped = false ∧
      let span := Span.between Position.start t.grammar.flushed.current.span.stop
      let lowered := Script.lower { t with grammar := t.grammar.flushed }
        (Lowering.script t.reversed.reverse span)
      root = lowered.1 ∧ s = lowered.2 := by
  have hstart := sound_ofText name source o
  obtain ⟨read, t, hsteps⟩ := Steps.exists_steps (4 * (source.length + 4)) hstart.grammar.toStanding
  rw [hsteps.readAll_eq] at hroot
  have hstopped : t.stopped = false := (stopped_of_root? (congrArg Prod.fst hroot)).1
  rw [flush_eq, root?_eq (s := { t with grammar := t.grammar.flushed }) hstopped] at hroot
  cases hroot
  exact ⟨read, t, hsteps, hstopped, rfl, rfl⟩

/-- **All tokens of a script with a root have been read.** -/
theorem exists_readsTo_of_root {name source : String} {o : Options} {root : Node}
    (hroot : ((ofText name source o).readAll source.length).root? = (some root, s)) :
    ∃ tokens, ReadsTo (ofText name source o).grammar tokens s.grammar := by
  obtain ⟨read, t, hsteps, -, -, rfl⟩ := steps_of_root hroot
  obtain ⟨tokens, htokens⟩ := hsteps.exists_readsTo (sound_ofText name source o).grammar.toStanding
  exact ⟨tokens ++ [], htokens.trans (.of_idle ⟨.inr rfl, rfl, rfl, rfl⟩)⟩

end Script

end EcmaScript
