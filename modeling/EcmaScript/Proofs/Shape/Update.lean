import EcmaScript.Proofs.EditionGate
import EcmaScript.Proofs.Lowering.Composed

/-!
# Who refuses the operand of an increment

What is incremented or decremented must be a name or a property access. If it is not, lowering reports an
error, and goes on. The text of that error is its own: no warning has it, so the sink cannot take the error
for something that it has reported before, and a journal without errors has refused nothing
(`Journal.not_refusesUpdate`). The last two characters of a text tell.

## Contents

* `UpdateText.Refuses`, `UpdateText.closes`: the texts, and how they end.
* `Journal.RefusesUpdate`: the text has been said.
* `Lowering.Composed.refusesUpdate`: it is not taken back.
-/

namespace EcmaScript

namespace UpdateText

/-- The text says that something cannot be incremented or decremented. -/
def Refuses (text : String) : Prop :=
  ∃ increment afterOperand, text = (Problem.invalidUpdateOperand increment afterOperand).message

/-- Whether the last word of a text may be "operand", with a full stop behind it. -/
def closes (text : List Char) : Bool := text.reverse.take 2 == ['.', 'd']

/-! ## The end of a text -/

/-- Two characters at the end decide how the whole text ends. -/
theorem closes_append {front back : List Char} (h : 2 ≤ back.length) : closes (front ++ back) = closes back := by
  unfold closes
  rw [List.reverse_append, List.take_append_of_le_length (by rw [List.length_reverse]; exact h)]

theorem closes_literal (text : List Char) : closes (String.ofList text).toList = closes text := by
  rw [String.toList_ofList]

theorem closes_ending (front : String) {back : List Char} (h : 2 ≤ back.length) :
    closes (front ++ String.ofList back).toList = closes back := by
  rw [String.toList_append, String.toList_ofList, closes_append h]

/-- One character is enough if it is no full stop. -/
theorem closes_mark (front : String) {c : Char} (h : c ≠ '.') :
    closes (front ++ String.ofList [c]).toList = false := by
  rw [String.toList_append, String.toList_ofList]
  unfold closes
  rw [List.reverse_append]
  have hc : (c == '.') = false := beq_eq_false_iff_ne.mpr h
  cases front.toList.reverse with
  | nil | cons =>
    show (c == '.' && _) = false
    rw [hc]
    rfl

theorem closes_of_refuses {text : String} (h : Refuses text) : closes text.toList = true := by
  obtain ⟨increment, afterOperand, rfl⟩ := h
  exact closes_ending _ (by decide)

/-! ## The texts of warnings -/

theorem closes_lexical (p : LexicalProblem) : closes p.message.toList = false := by
  cases p with
  | missingDigits radix => exact closes_ending _ (by decide)
  | badStart c => exact closes_ending _ (by decide)
  | unnecessaryEscape c => exact closes_mark _ (by decide)
  | htmlComment | lineContinuation => exact closes_ending _ (by decide)
  | _ => exact closes_literal _

theorem closes_duplicateParameter (name : String) :
    closes (Problem.duplicateParameter name).message.toList = false := closes_mark _ (by decide)

theorem closes_written {text : List Char} (h : closes text = false ∧ 2 ≤ text.length) :
    closes (String.ofList text).toList = false ∧ 2 ≤ (String.ofList text).toList.length := by
  rw [String.toList_ofList]
  exact h

theorem closes_description (f : Feature) : closes f.description.toList = false ∧ 2 ≤ f.description.toList.length := by
  cases f <;> exact closes_written (by decide)

theorem closes_objection {f : Feature} {message : String} {severity : Severity}
    (h : f.objection? = some (message, severity)) : closes message.toList = false := by
  unfold Feature.objection? at h
  split at h <;> cases h
  case h_5 =>
    unfold Feature.unsupportedMessage
    rw [String.toList_append, closes_append (closes_description f).2]
    exact (closes_description f).1
  case h_2 => exact closes_ending _ (by decide)
  all_goals exact closes_literal _

end UpdateText

/-- **No warning refuses an operand.** -/
theorem Remark.severity_of_refuses {r : Remark} {e : Edition} {q : Report} (hq : r.report? e = some q)
    (h : UpdateText.Refuses q.message) : q.severity = .error := by
  have hclose := UpdateText.closes_of_refuses h
  have no {α : Prop} (ho : UpdateText.closes q.message.toList = false) : α :=
    absurd (hclose.symm.trans ho) Bool.noConfusion
  cases r with
  | problem position p => cases hq; rfl
  | lexical d => cases hq; exact no (UpdateText.closes_lexical _)
  | duplicate position name => cases hq; exact no (UpdateText.closes_duplicateParameter _)
  | feature f position =>
      simp only [report?] at hq
      split at hq
      · cases hq
      · obtain ⟨⟨message, severity⟩, ho, rfl⟩ := Option.map_eq_some_iff.mp hq
        exact no (UpdateText.closes_objection ho)
  | trailingComma comma place | shorthand position strict name place =>
      simp only [report?] at hq
      split at hq <;> cases hq
      rfl

namespace Journal

/-- The journal says that something cannot be incremented or decremented. -/
def RefusesUpdate (j : Journal) : Prop := ∃ d ∈ j.sink.reported, UpdateText.Refuses d.message

theorem RefusesUpdate.notes {j : Journal} (h : j.RefusesUpdate) (rs : List Remark) :
    (j.notes rs).RefusesUpdate :=
  have ⟨d, hd, hm⟩ := h
  ⟨d, Sink.mem_reports_of_mem hd, hm⟩

/-- An operand that is refused is spoken of from then on. -/
theorem refusesUpdate_error (j : Journal) (position : Position) (increment afterOperand : Bool) :
    (j.error position (.invalidUpdateOperand increment afterOperand)).RefusesUpdate := by
  obtain ⟨d, hd, hk⟩ := Sink.seen_iff.mp (Sink.seen_reports_of_mem (s := j.sink) (List.mem_singleton_self
    ⟨position, (Problem.invalidUpdateOperand increment afterOperand).message, Severity.error⟩))
  exact ⟨d, hd, increment, afterOperand, Report.message_eq_of_key hk⟩

/-- **A journal without errors has refused nothing.** -/
theorem not_refusesUpdate {name : String} {e : Edition} {rs : List Remark} {j : Journal}
    (hj : j.sink = (Sink.ofName name).reports (Remark.reports e rs))
    (hclean : ∀ d ∈ j.sink.reported, d.isError = false) : ¬j.RefusesUpdate := by
  rintro ⟨d, hd, hm⟩
  have herror := hclean d hd
  rw [hj] at hd
  rcases Sink.mem_reports.mp hd with hd | ⟨_, q, hq, rfl⟩
  · exact nomatch hd
  · obtain ⟨r, _, hr⟩ := Remark.mem_reports.mp (List.mem_of_find?_eq_some hq)
    have hs : (q.severity == .error) = false := herror
    rw [Remark.severity_of_refuses hr hm] at hs
    cases hs

end Journal

/-- No step of lowering takes back what was said. -/
theorem Lowering.Composed.refusesUpdate {α : Type} {p : Lowering α} (h : Composed p) {s : State}
    (hs : s.journal.RefusesUpdate) : (p s).2.journal.RefusesUpdate := by
  obtain ⟨rs, hrun⟩ := h.trace s
  have hj : (p s).2.journal = s.journal.notes rs := congrArg (fun r => r.2.journal) (hrun s.journal)
  rw [hj]
  exact hs.notes rs

end EcmaScript
