import EcmaScript.Doc.Problem
import EcmaScript.Proofs.EditionGate
import EcmaScript.Proofs.Places.Remarks

/-!
# The texts that object to a feature

A feature that the edition lacks is objected to in a text of its own (`Feature.gateTexts`). This module
reads the feature back from the text: `GateText.feature?` gives it for every such text, and gives nothing
for any other text that can be reported. So a text in the sink tells which feature was used, whoever put it
there.

Most texts are told apart by their first characters, and those about unsupported features by the
description behind their colon. Three complaints open with a word that the type leaves free; these are told
by their end.

## Contents

* `Feature.gateTexts`, `Feature.gateSeverity`: what is said about a feature, and how severe it is.
* `GateText.feature?`: the feature that a text objects to.
* `GateText.feature?_of_mem`: it is found for the texts of a feature.
* `GateText.feature?_problem`, `GateText.feature?_lexical`, `GateText.feature?_doc`: and for no others.
-/

namespace EcmaScript

namespace Feature

/-- The texts that object to a feature where the edition lacks it. -/
def gateTexts : Feature → List String
  | .trailingComma => [Problem.trailingCommaInLiteral.message]
  | .keywordsAsProperties => [Problem.keywordAsProperty.message]
  | .es3KeywordsAsIdentifiers => [Problem.reservedIdentifier.message]
  | .trailingCommaInParamList =>
    [Problem.trailingCommaInParameters.message, Problem.trailingCommaInArguments.message]
  | f => [f.unsupportedMessage]

/-- How severe it is to use a feature where the edition lacks it. -/
def gateSeverity : Feature → Severity
  | .es3KeywordsAsIdentifiers | .trailingCommaInParamList => .error
  | _ => .warning

theorem mem_gateTexts_of_objection {f : Feature} {message : String} {severity : Severity}
    (h : f.objection? = some (message, severity)) :
    message ∈ f.gateTexts ∧ severity = f.gateSeverity := by
  cases f <;> cases h <;> exact ⟨List.mem_singleton_self _, rfl⟩

theorem mem_gateTexts_comma (place : CommaPlace) :
    place.problem.message ∈ gateTexts .trailingCommaInParamList := by
  cases place with
  | parameters => exact List.mem_cons_self
  | arguments => exact List.mem_cons_of_mem _ List.mem_cons_self

/-- The feature with the given description. -/
def ofDescription? (text : String) : Option Feature := all.find? (·.description == text)

/-- No two features have one description. -/
theorem ofDescription?_description (f : Feature) : ofDescription? f.description = some f := by
  have h : ∀ g ∈ all, ofDescription? g.description = some g := by decide +kernel
  exact h f f.mem_all

end Feature

namespace GateText

/-! ## Reading a text -/

/-- Whether a text ends in the given characters. -/
def endsIn (text ending : List Char) : Bool := text.reverse.take ending.length == ending.reverse

/-- The ends of the complaints that may open with anything: "have initializer", "variable declaration" and
"one digit". -/
def looseEnds : List (List Char) :=
  [['e', ' ', 'i', 'n', 'i', 't', 'i', 'a', 'l', 'i', 'z', 'e', 'r'],
   ['e', ' ', 'd', 'e', 'c', 'l', 'a', 'r', 'a', 't', 'i', 'o', 'n'],
   ['o', 'n', 'e', ' ', 'd', 'i', 'g', 'i', 't']]

def isLoose (text : List Char) : Bool := looseEnds.any (endsIn text)

/-- The feature that a text objects to, by its first characters. -/
def ofOpening : List Char → Option Feature
  | 'T' :: 'h' :: rest => Feature.ofDescription? (.ofList ((rest.dropWhile (· != ':')).drop 2))
  | 'T' :: 'r' :: 'a' :: 'i' :: 'l' :: 'i' :: 'n' :: 'g' :: ' ' :: 'c' :: _ => some .trailingComma
  | 'K' :: _ => some .keywordsAsProperties
  | 'i' :: 'd' :: _ => some .es3KeywordsAsIdentifiers
  | 'I' :: 'n' :: 'v' :: 'a' :: 'l' :: 'i' :: 'd' :: ' ' :: 't' :: _ => some .trailingCommaInParamList
  | _ => none

/-- The feature that a text objects to. -/
def feature? (text : String) : Option Feature :=
  if isLoose text.toList then none else ofOpening text.toList

/-- A long enough part at the end decides how the whole text ends. -/
theorem isLoose_append {front back : List Char} (h : 13 ≤ back.length) :
    isLoose (front ++ back) = isLoose back := by
  have hend {ending : List Char} (he : ending.length ≤ 13) :
      endsIn (front ++ back) ending = endsIn back ending := by
    unfold endsIn
    rw [List.reverse_append, List.take_append_of_le_length]
    rw [List.length_reverse]
    exact Nat.le_trans he h
  unfold isLoose looseEnds
  simp only [List.any_cons, List.any_nil]
  rw [hend (by decide), hend (by decide), hend (by decide)]

/-- A text that is written out. -/
theorem feature?_literal {text : List Char} {f : Option Feature}
    (h : (if isLoose text then none else ofOpening text) = f) : feature? (String.ofList text) = f := by
  unfold feature?
  rw [String.toList_ofList]
  exact h

/-- A text between two parts that are written out. -/
theorem feature?_between {front back : List Char} {middle : String} {f : Option Feature}
    (hb : 13 ≤ back.length ∧ isLoose back = false) (hf : ∀ rest, ofOpening (front ++ rest) = f) :
    feature? (String.ofList front ++ middle ++ String.ofList back) = f := by
  unfold feature?
  simp only [String.toList_append, String.toList_ofList]
  rw [isLoose_append hb.1, hb.2, List.append_assoc]
  exact hf _

/-- No text that starts so objects to a feature. -/
def Shut (text : String) : Prop := ∀ tail, ofOpening (text.toList ++ tail) = none

theorem shut_literal {text : List Char} (h : ∀ tail, ofOpening (text ++ tail) = none) :
    Shut (String.ofList text) := by
  intro tail
  rw [String.toList_ofList]
  exact h tail

theorem Shut.append {text : String} (h : Shut text) (more : String) : Shut (text ++ more) := by
  intro tail
  rw [String.toList_append, List.append_assoc]
  exact h _

/-- With an opening that objects to nothing, the end does not matter. -/
theorem Shut.feature? {text : String} (h : Shut text) : feature? text = none := by
  have ho := h []
  rw [List.append_nil] at ho
  unfold GateText.feature?
  rw [ho]
  exact ite_self _

/-- With a loose end, the opening does not matter. -/
theorem feature?_loose {front : String} {back : List Char} (hl : 13 ≤ back.length)
    (h : isLoose back = true) : feature? (front ++ String.ofList back) = none := by
  unfold feature?
  rw [String.toList_append, String.toList_ofList, isLoose_append hl, if_pos h]

/-! ## Texts that object to a feature -/

/-- Two parts of a text that are written out. -/
theorem isLoose_written {front back : List Char} (h : isLoose (front ++ back) = false) :
    isLoose ((String.ofList front).toList ++ (String.ofList back).toList) = false := by
  rw [String.toList_ofList, String.toList_ofList]
  exact h

/-- The part of the text behind the name of the edition. -/
theorem isLoose_description (f : Feature) :
    isLoose (" mode or better: ".toList ++ f.description.toList) = false := by
  cases f <;> exact isLoose_written (by decide +kernel)

theorem feature?_unsupportedMessage (f : Feature) : feature? f.unsupportedMessage = some f := by
  have hloose : isLoose f.unsupportedMessage.toList = false := by
    unfold Feature.unsupportedMessage
    simp only [String.toList_append]
    rw [List.append_assoc, isLoose_append, isLoose_description]
    rw [List.length_append]
    exact Nat.le_add_right_of_le (by decide)
  -- the first colon stands before the description
  obtain ⟨front, hfront, hclear⟩ : ∃ front : List Char,
      "This language feature is only supported for ".toList = 'T' :: 'h' :: front ∧
        front.all (· != ':') = true := ⟨_, String.toList_ofList, rfl⟩
  have hname : f.minimumEdition.name.toList.all (· != ':') = true := by
    generalize f.minimumEdition = e
    cases e <;> exact String.toList_ofList ▸ rfl
  have hback (tail : List Char) :
      (" mode or better: ".toList ++ tail).dropWhile (· != ':') = ':' :: ' ' :: tail := by
    rw [String.toList_ofList]
    rfl
  unfold feature?
  rw [hloose, if_neg Bool.false_ne_true]
  unfold Feature.unsupportedMessage
  simp only [String.toList_append, List.append_assoc, hfront, List.cons_append]
  show Feature.ofDescription? (String.ofList (List.drop 2 (List.dropWhile (· != ':') _))) = some f
  rw [List.dropWhile_append_of_pos (List.all_eq_true.mp hclear),
    List.dropWhile_append_of_pos (List.all_eq_true.mp hname), hback]
  show Feature.ofDescription? (String.ofList f.description.toList) = some f
  rw [String.ofList_toList, Feature.ofDescription?_description]

/-- **The texts of a feature object to that feature.** -/
theorem feature?_of_mem {f : Feature} {text : String} (h : text ∈ f.gateTexts) :
    feature? text = some f := by
  unfold Feature.gateTexts at h
  split at h
  · cases List.mem_singleton.mp h
    exact feature?_literal rfl
  · cases List.mem_singleton.mp h
    exact feature?_between (by decide) fun _ => rfl
  · cases List.mem_singleton.mp h
    exact feature?_literal rfl
  · rcases List.mem_cons.mp h with rfl | h
    · exact feature?_literal rfl
    · cases List.mem_singleton.mp h
      exact feature?_literal rfl
  · cases List.mem_singleton.mp h
    exact feature?_unsupportedMessage f

/-! ## Other texts -/

/-- **Problems of every edition object to no feature.** -/
theorem feature?_problem {p : Problem} (h : p.isObjection = false) : feature? p.message = none := by
  cases p with
  | trailingCommaInParameters | trailingCommaInArguments | trailingCommaInLiteral | keywordAsProperty
  | reservedIdentifier => cases h
  | initializerInLoopHead loop => exact feature?_loose (by decide) rfl
  | severalDeclarationsInLoopHead loop => exact feature?_loose (by decide) rfl
  | expected _ | keywordNotAllowed _ | unaryBeforeExponent _ | undefinedLabel _ | duplicateLabel _
  | duplicateParameter _ | invalidRegExpFlag _ =>
      exact (((shut_literal fun _ => rfl).append _).append _).feature?
  | getterParameters _ | setterParameters _ => exact ((shut_literal fun _ => rfl).append _).feature?
  | invalidUpdateOperand increment afterOperand =>
      have hfront : Shut ("Invalid " ++ if afterOperand then "postfix" else "prefix") := by
        intro tail
        rw [String.toList_append]
        cases afterOperand <;> rfl
      exact (((hfront.append _).append _).append _).feature?
  | _ => exact feature?_literal rfl

/-- **Problems of the lexer object to no feature.** -/
theorem feature?_lexical (p : LexicalProblem) : feature? p.message = none := by
  cases p with
  | missingDigits radix => exact feature?_loose (by decide) rfl
  | badStart _ | unnecessaryEscape _ =>
      exact (((((shut_literal fun _ => rfl).append _).append _).append _).append _).feature?
  | htmlComment | lineContinuation => exact ((shut_literal fun _ => rfl).append _).feature?
  | _ => exact feature?_literal rfl

/-- **Problems of documentation comments object to no feature.** -/
theorem feature?_doc (p : Doc.Problem) : feature? p.message = none := by
  cases p with
  | badType _ | unknownTag _ =>
      exact ((((shut_literal fun _ => rfl).append _).append _).append _).feature?
  | _ => exact feature?_literal rfl

end GateText

end EcmaScript
