import EcmaScript.Doc.Problem
import EcmaScript.Proofs.Lowering.Plain

/-!
# The texts that object to `await`

The two objections to `await` at a wrong place have texts of their own: no other report can be taken for one
of them, and none can hide one. Two characters at the opening of a text and five at its end tell
(`AwaitText.problem?`).

## Contents

* `AwaitText.problem?`: the objection that a text is.
* `Remark.eq_problem_of_text`: whoever says such a text objects to `await`.
-/

namespace EcmaScript

namespace AwaitText

/-- The objection to `await` with these first characters. -/
def ofOpening : List Char → Option Problem
  | 'a' :: 'w' :: _ => some .awaitOutsideAsync
  | '\'' :: 'f' :: _ => some .forAwaitOutsideAsync
  | _ => none

/-- Whether the last word of a text may be "function" or "context". -/
def closes (text : List Char) : Bool :=
  let ending := text.reverse.take 5
  ending == ['n', 'o', 'i', 't', 'c'] || ending == ['t', 'x', 'e', 't', 'n']

/-- The objection to `await` that a text is. -/
def problem? (text : String) : Option Problem :=
  if closes text.toList then ofOpening text.toList else none

/-! ## The two ends of a text -/

/-- Five characters at the end decide how the whole text ends. -/
theorem closes_append {front back : List Char} (h : 5 ≤ back.length) : closes (front ++ back) = closes back := by
  unfold closes
  rw [List.reverse_append, List.take_append_of_le_length (by rw [List.length_reverse]; exact h)]

/-- A text that is written out. -/
theorem problem?_literal {text : List Char} {p : Option Problem}
    (h : (if closes text then ofOpening text else none) = p) : problem? (String.ofList text) = p := by
  unfold problem?
  rw [String.toList_ofList]
  exact h

/-- With an end that is nobody's, the opening does not matter. -/
theorem problem?_ending {front : String} {back : List Char} (hl : 5 ≤ back.length)
    (h : closes back = false) : problem? (front ++ String.ofList back) = none := by
  unfold problem?
  rw [String.toList_append, String.toList_ofList, closes_append hl, h]
  rfl

/-- No text that starts so objects to `await`. -/
def Shut (text : String) : Prop := ∀ tail, ofOpening (text.toList ++ tail) = none

theorem Shut.literal {text : List Char} (h : ∀ tail, ofOpening (text ++ tail) = none) :
    Shut (String.ofList text) := by
  intro tail
  rw [String.toList_ofList]
  exact h tail

theorem Shut.append {text : String} (h : Shut text) (more : String) : Shut (text ++ more) := by
  intro tail
  rw [String.toList_append, List.append_assoc]
  exact h _

/-- With an opening that is nobody's, the end does not matter. -/
theorem Shut.problem? {text : String} (h : Shut text) : problem? text = none := by
  have ho := h []
  rw [List.append_nil] at ho
  unfold AwaitText.problem?
  rw [ho]
  exact ite_self _

/-! ## The texts of each party -/

/-- **An objection to `await` is told by its text.** -/
theorem problem?_of_isAwait {p : Problem} (h : p.isAwait = true) : problem? p.message = some p := by
  cases p with
  | awaitOutsideAsync | forAwaitOutsideAsync => exact problem?_literal rfl
  | _ => cases h

/-- **Other problems have other texts.** -/
theorem problem?_of_not {p : Problem} (h : p.isAwait = false) : problem? p.message = none := by
  cases p with
  | awaitOutsideAsync | forAwaitOutsideAsync => cases h
  | expected _ | initializerInLoopHead _ | severalDeclarationsInLoopHead _ =>
      exact problem?_ending (by decide) rfl
  | keywordNotAllowed _ | unaryBeforeExponent _ | invalidRegExpFlag _ | undefinedLabel _
  | duplicateLabel _ | duplicateParameter _ =>
      exact (((Shut.literal fun _ => rfl).append _).append _).problem?
  | getterParameters _ | setterParameters _ => exact ((Shut.literal fun _ => rfl).append _).problem?
  | keywordAsProperty => exact (((Shut.literal fun _ => rfl).append _).append _).problem?
  | invalidUpdateOperand _ _ =>
      exact (((((Shut.literal fun _ => rfl).append _).append _).append _).append _).problem?
  | _ => exact problem?_literal rfl

theorem problem?_lexical (p : LexicalProblem) : problem? p.message = none := by
  cases p with
  | missingDigits radix => exact problem?_ending (by decide) rfl
  | badStart _ | unnecessaryEscape _ =>
      exact (((((Shut.literal fun _ => rfl).append _).append _).append _).append _).problem?
  | htmlComment | lineContinuation => exact ((Shut.literal fun _ => rfl).append _).problem?
  | _ => exact problem?_literal rfl

theorem problem?_doc (p : Doc.Problem) : problem? p.message = none := by
  cases p with
  | badType _ | unknownTag _ =>
      exact ((((Shut.literal fun _ => rfl).append _).append _).append _).problem?
  | _ => exact problem?_literal rfl

theorem problem?_unsupportedMessage (f : Feature) : problem? f.unsupportedMessage = none := by
  unfold Feature.unsupportedMessage
  exact ((((Shut.literal fun _ => rfl).append _).append _).append _).problem?

theorem problem?_objection {f : Feature} {message : String} {severity : Severity}
    (h : f.objection? = some (message, severity)) : problem? message = none := by
  unfold Feature.objection? at h
  split at h <;> cases h
  -- three features are objected to with a problem of their own
  case h_5 => exact problem?_unsupportedMessage f
  all_goals exact problem?_of_not rfl

end AwaitText

namespace Remark

open AwaitText

variable {p : Problem} {e : Edition}

/-- **Whoever says the text of an objection to `await` objects to it.** -/
theorem eq_problem_of_text {r : Remark} {q : Report} (hp : p.isAwait = true) (hq : r.report? e = some q)
    (hm : q.message = p.message) : ∃ position, r = .problem position p ∧ q = ⟨position, p.message, .error⟩ := by
  have htext : problem? q.message = some p := hm ▸ problem?_of_isAwait hp
  have no {α : Prop} (h : problem? q.message = none) : α := by
    rw [h] at htext
    cases htext
  cases r with
  | lexical d =>
      cases hq
      exact no (problem?_lexical _)
  | problem position p' =>
      cases hq
      cases h : p'.isAwait with
      | false => exact no (problem?_of_not h)
      | true =>
          obtain rfl : p' = p := Option.some.inj ((problem?_of_isAwait h).symm.trans htext)
          exact ⟨position, rfl, rfl⟩
  | duplicate position name =>
      cases hq
      exact no (problem?_of_not rfl)
  | feature f position =>
      simp only [report?] at hq
      split at hq
      · cases hq
      · obtain ⟨⟨message, severity⟩, ho, rfl⟩ := Option.map_eq_some_iff.mp hq
        exact no (problem?_objection ho)
  | trailingComma comma place =>
      simp only [report?] at hq
      split at hq <;> cases hq
      exact no (problem?_of_not (by cases place <;> rfl))
  | shorthand position strict name place =>
      simp only [report?] at hq
      split at hq <;> cases hq
      exact no (problem?_of_not (by cases place <;> rfl))

end Remark

end EcmaScript
