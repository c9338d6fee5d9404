import EcmaScript.Proofs.Await.Script

/-!
# Objections that no warning hides

The sink lets a text through once for each place, so an objection would be lost if a warning with the same text
had been made at its place. The objections to lists of parameters and patterns, and to `yield` and `await`, have
texts with which no warning opens: one or two characters tell (`RuleText.opens`).

## Contents

* `Problem.isRule`: the objections.
* `RuleText.fits`: texts that open like one of them.
* `Findings.objection_mem`: such an objection is in the sink.
-/

namespace EcmaScript

/-- Objections to lists of parameters and patterns, and to `yield` and `await`. -/
@[reducible] def Problem.isRule : Problem → Bool
  | invalidAssignmentTarget | restNotLast | commaAfterRest | defaultAfterRest | getterParameters _
  | setterParameters _ | setterRest | yieldOutsideGenerator | awaitOutsideAsync | yieldInParameterDefault
  | awaitInParameterDefault => true
  | _ => false

namespace RuleText

/-- Whether a text with these first characters may be such an objection. -/
def opens : List Char → Bool
  | 'A' :: _ | 'G' :: _ | '`' :: _ | 'y' :: _ | 'S' :: 'e' :: _ | 'i' :: 'n' :: _ | 'a' :: 'w' :: _ => true
  | _ => false

/-- Whether a text may be such an objection. The lexer can open a text with anything, but then its last word is
"digit". -/
def fits (text : String) : Bool := !Speaker.endsInDigit text.toList && opens text.toList

/-! ## The two ends of a text -/

/-- A text that is written out. -/
theorem fits_literal {text : List Char} {b : Bool} (h : (!Speaker.endsInDigit text && opens text) = b) :
    fits (String.ofList text) = b := by
  unfold fits
  rw [String.toList_ofList]
  exact h

/-- No text that starts so is such an objection. -/
def Shut (text : String) : Prop := ∀ tail, opens (text.toList ++ tail) = false

theorem Shut.literal {text : List Char} (h : ∀ tail, opens (text ++ tail) = false) :
    Shut (String.ofList text) := by
  intro tail
  rw [String.toList_ofList]
  exact h tail

theorem Shut.append {text : String} (h : Shut text) (more : String) : Shut (text ++ more) := by
  intro tail
  rw [String.toList_append, List.append_assoc]
  exact h _

theorem Shut.fits {text : String} (h : Shut text) : fits text = false := by
  have ho := h []
  rw [List.append_nil] at ho
  unfold RuleText.fits
  rw [ho, Bool.and_false]

/-! ## The texts of each party -/

/-- A text that ends in a number does not end in "digit". -/
theorem endsInDigit_number (front : List Char) (n : Nat) :
    Speaker.endsInDigit (front ++ (toString n).toList) = false := by
  unfold Speaker.endsInDigit
  rw [Nat.toString_eq_repr, Nat.toList_repr, List.reverse_append]
  cases h : (Nat.toDigits 10 n).reverse with
  | nil => exact absurd (List.reverse_eq_nil_iff.mp h) Nat.toDigits_ne_nil
  | cons c rest =>
      have hc : c.isDigit = true := by
        refine Nat.isDigit_of_mem_toDigits (b := 10) (n := n) (by decide) (Nat.le_refl _) ?_
        rw [← List.mem_reverse, h]
        exact List.mem_cons_self
      rw [List.cons_append, List.take_succ_cons]
      refine beq_eq_false_iff_ne.mpr fun he => ?_
      rw [(List.cons.inj he).1] at hc
      cases hc

theorem fits_number {text : List Char} (n : Nat) (h : ∀ rest, opens (text ++ rest) = true) :
    fits (String.ofList text ++ toString n) = true := by
  unfold fits
  rw [String.toList_append, String.toList_ofList, endsInDigit_number, h]
  rfl

/-- **The objections have such texts.** -/
theorem fits_of_isRule {p : Problem} (h : p.isRule = true) : fits p.message = true := by
  cases p with
  | getterParameters n | setterParameters n => exact fits_number n fun _ => rfl
  | invalidAssignmentTarget | restNotLast | commaAfterRest | defaultAfterRest | setterRest | yieldOutsideGenerator
  | awaitOutsideAsync | yieldInParameterDefault | awaitInParameterDefault => exact fits_literal rfl
  | _ => cases h

/-- **The lexer has other texts.** -/
theorem fits_lexical (p : LexicalProblem) : fits p.message = false := by
  cases p with
  | missingDigits radix =>
      show fits (radix ++ " Integer Literal must contain at least one digit") = false
      unfold fits
      rw [String.toList_append, String.toList_ofList, Speaker.endsInDigit_append (by decide)]
      rfl
  | badStart _ | unnecessaryEscape _ =>
      exact (((((Shut.literal fun _ => rfl).append _).append _).append _).append _).fits
  | htmlComment | lineContinuation => exact ((Shut.literal fun _ => rfl).append _).fits
  | _ => exact fits_literal rfl

theorem fits_unsupportedMessage (f : Feature) : fits f.unsupportedMessage = false := by
  unfold Feature.unsupportedMessage
  exact ((((Shut.literal fun _ => rfl).append _).append _).append _).fits

theorem fits_objection {f : Feature} {message : String} {severity : Severity}
    (h : f.objection? = some (message, severity)) : fits message = false := by
  unfold Feature.objection? at h
  split at h
  · cases h
    exact fits_literal rfl
  · cases h
    exact (((Shut.literal fun _ => rfl).append _).append _).fits
  · cases h
    exact fits_literal rfl
  · cases h
  · cases h
    exact fits_unsupportedMessage f

theorem fits_duplicateParameter (name : String) : fits (Problem.duplicateParameter name).message = false :=
  (((Shut.literal fun _ => rfl).append _).append _).fits

end RuleText

/-- **No warning has such a text.** -/
theorem Remark.severity_of_fits {r : Remark} {e : Edition} {q : Report} (hq : r.report? e = some q)
    (h : RuleText.fits q.message = true) : q.severity = .error := by
  cases r with
  | lexical d =>
      cases hq
      exact absurd h (by rw [RuleText.fits_lexical]; exact Bool.false_ne_true)
  | feature f position =>
      simp only [report?] at hq
      split at hq
      · cases hq
      · obtain ⟨⟨message, severity⟩, ho, rfl⟩ := Option.map_eq_some_iff.mp hq
        exact absurd h (by rw [RuleText.fits_objection ho]; exact Bool.false_ne_true)
  | duplicate position name =>
      cases hq
      exact absurd h (by rw [RuleText.fits_duplicateParameter]; exact Bool.false_ne_true)
  | problem position p =>
      cases hq
      rfl
  | trailingComma comma place =>
      simp only [report?] at hq
      split at hq <;> cases hq
      rfl
  | shorthand position strict name place =>
      simp only [report?] at hq
      split at hq <;> cases hq
      rfl

namespace Findings

variable {f : Findings} {name : String} {e : Edition} {position : Position} {p : Problem}

/-- **What is objected to is in the sink.** -/
theorem objection_mem (hp : p.isRule = true) (h : .problem position p ∈ f.remarks) :
    objection name position p ∈ (f.sink name e).reported := by
  obtain ⟨d, hd, hk⟩ := Sink.seen_iff.mp (Sink.seen_reports_of_mem (s := Sink.ofName name)
    (Remark.mem_reports.mpr ⟨_, h, rfl⟩))
  rcases Sink.mem_reports.mp hd with hd | ⟨_, q, hq, rfl⟩
  · exact nomatch hd
  · -- whichever report came first under this key, it is an error
    obtain ⟨r, -, hr⟩ := Remark.mem_reports.mp (List.mem_of_find?_eq_some hq)
    have hm : q.message = p.message := Report.message_eq_of_key hk
    have hs := Remark.severity_of_fits hr (hm ▸ RuleText.fits_of_isRule hp)
    have heq : q.diagnostic name = objection name position p := by
      simp only [Diagnostic.key, Report.key, Report.diagnostic, Prod.mk.injEq] at hk
      unfold Report.diagnostic objection
      rw [hk.1, hk.2.1, hm, hs]
    exact heq ▸ Sink.mem_reports_of_mem hd

end Findings

end EcmaScript
