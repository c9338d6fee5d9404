import EcmaScript.Journal

/-!
# Who says a text

The sink compares texts and not their origins, so whether one report can hide another is a question
about the texts themselves. Three parties speak in a parse whose texts must not meet: the productions
of the grammar, which fail with an error; the edition, which mostly warns; and the lexer, which does
both. This module tells them apart by a few characters at the two ends of a text.

## Contents

* `Problem.EndsProduction`: the problems that a production fails with.
* `Speaker`, `Speaker.ofText`: who says a text, read off its opening and its last two characters.
* `Speaker.ofText_endsProduction`, `Speaker.ofText_lexical`, `Speaker.ofText_objection`,
  `Speaker.ofText_duplicateParameter`: the texts of each party.

A literal is by definition `String.ofList` of its characters, so `String.toList_ofList` opens a text
for `rfl` without a detour through its bytes. The end of the text matters in one case only: the lexer's
complaint about missing digits opens with the name of a radix, which may be anything.
-/

namespace EcmaScript

/-- The problems that a production fails with. -/
class inductive Problem.EndsProduction : Problem → Prop where
  | expected (what : String) : EndsProduction (.expected what)
  | identifierExpected : EndsProduction .identifierExpected
  | primaryExpressionExpected : EndsProduction .primaryExpressionExpected
  | semicolonExpected : EndsProduction .semicolonExpected
  | stringExpected : EndsProduction .stringExpected
  | keywordNotAllowed (word : String) : EndsProduction (.keywordNotAllowed word)
  | privateNameMisplaced : EndsProduction .privateNameMisplaced
  | lexicalDeclarationMisplaced : EndsProduction .lexicalDeclarationMisplaced
  | throwWithoutValue : EndsProduction .throwWithoutValue
  | optionalChainInConstruction : EndsProduction .optionalChainInConstruction
  | optionalChainOnSuper : EndsProduction .optionalChainOnSuper
  | templateInOptionalChain : EndsProduction .templateInOptionalChain
  | braceInOptionalChain : EndsProduction .braceInOptionalChain
  | unclosedSubstitution : EndsProduction .unclosedSubstitution
  | invalidParenthesized : EndsProduction .invalidParenthesized
  | newlineBeforeArrow : EndsProduction .newlineBeforeArrow
  | mixedCoalesce : EndsProduction .mixedCoalesce
  | unaryBeforeExponent (operator : String) : EndsProduction (.unaryBeforeExponent operator)
  | yieldStarWithoutOperand : EndsProduction .yieldStarWithoutOperand
  | commaAfterRest : EndsProduction .commaAfterRest
  | defaultAfterRest : EndsProduction .defaultAfterRest

namespace Problem.EndsProduction

attribute [instance] expected identifierExpected primaryExpressionExpected semicolonExpected
  stringExpected keywordNotAllowed privateNameMisplaced lexicalDeclarationMisplaced
  throwWithoutValue optionalChainInConstruction optionalChainOnSuper templateInOptionalChain
  braceInOptionalChain unclosedSubstitution invalidParenthesized newlineBeforeArrow mixedCoalesce
  unaryBeforeExponent yieldStarWithoutOperand commaAfterRest defaultAfterRest

end Problem.EndsProduction

/-- Who says a text. -/
inductive Speaker where
  /-- A production that fails. -/
  | grammar
  /-- The edition, about a feature that it lacks. -/
  | edition
  /-- The lexer or a static rule. -/
  | other
  deriving DecidableEq, Repr

namespace Speaker

/-- The speaker of a text with these first characters. -/
def ofOpening : List Char → Speaker
  | '\'' :: _ => grammar
  | 'p' :: _ => grammar
  | 'S' :: 'e' :: _ => grammar
  | 'c' :: _ => grammar
  | 'P' :: _ => grammar
  | 'L' :: _ => grammar
  | 's' :: _ => grammar
  | 'O' :: 'p' :: _ => grammar
  | 't' :: _ => grammar
  | 'E' :: 'x' :: 'p' :: 'e' :: 'c' :: 't' :: 'e' :: 'd' :: ' ' :: '\'' :: '\x7d' :: _ => grammar
  | 'i' :: 'n' :: _ => grammar
  | 'N' :: 'o' :: _ => grammar
  | 'U' :: 'n' :: 'a' :: _ => grammar
  | 'y' :: _ => grammar
  | 'I' :: 'n' :: 'v' :: 'a' :: 'l' :: 'i' :: 'd' :: ' ' :: 't' :: _ => grammar
  | 'A' :: _ => grammar
  | 'T' :: 'h' :: _ => edition
  | 'T' :: 'r' :: 'a' :: 'i' :: 'l' :: 'i' :: 'n' :: 'g' :: ' ' :: 'c' :: _ => edition
  | 'K' :: _ => edition
  | 'i' :: 'd' :: _ => edition
  | _ => other

/-- Whether the last word of a text may be "digit". -/
def endsInDigit (text : List Char) : Bool := text.reverse.take 2 == ['t', 'i']

/-- Who says a text. -/
def ofText (text : String) : Speaker :=
  if endsInDigit text.toList then other else ofOpening text.toList

/-! ## The two ends of a text -/

/-- Two characters at the end decide how the whole text ends. -/
theorem endsInDigit_append {front back : List Char} (h : 2 ≤ back.length) :
    endsInDigit (front ++ back) = endsInDigit back := by
  unfold endsInDigit
  rw [List.reverse_append, List.take_append_of_le_length (by rw [List.length_reverse]; exact h)]

/-- A text written out says who speaks. -/
theorem ofText_literal {text : List Char} {speaker : Speaker}
    (h : (if endsInDigit text then other else ofOpening text) = speaker) :
    ofText (String.ofList text) = speaker := by
  unfold ofText
  rw [String.toList_ofList]
  exact h

/-- A text between two parts that are written out speaks with the first, if it does not end in
"digit" with the second. -/
theorem ofText_between {front back : List Char} {middle : String} {speaker : Speaker}
    (hb : 2 ≤ back.length ∧ endsInDigit back = false)
    (hf : ∀ rest, ofOpening (front ++ rest) = speaker) :
    ofText (String.ofList front ++ middle ++ String.ofList back) = speaker := by
  unfold ofText
  simp only [String.toList_append, String.toList_ofList]
  rw [endsInDigit_append hb.1, hb.2, List.append_assoc]
  exact hf _

/-- With an opening that is nobody's, the end does not matter. -/
theorem ofText_eq_other {text : String} (h : ofOpening text.toList = other) :
    ofText text = other := by
  unfold ofText
  rw [h]
  exact ite_self _

/-! ## The texts of each party -/

/-- **Failures of productions speak for the grammar.** -/
theorem ofText_endsProduction {p : Problem} (h : p.EndsProduction) : ofText p.message = grammar := by
  cases h with
  | expected what => exact ofText_between (by decide) fun _ => rfl
  | keywordNotAllowed word => exact ofText_between (by decide) fun _ => rfl
  | unaryBeforeExponent operator => exact ofText_between (by decide) fun _ => rfl
  | _ => exact ofText_literal rfl

/-- **The lexer speaks neither for the grammar nor for the edition.** -/
theorem ofText_lexical (p : LexicalProblem) : ofText p.message = other := by
  cases p with
  | missingDigits radix =>
      -- the only opening that is not fixed: here the end decides
      show ofText (radix ++ " Integer Literal must contain at least one digit") = other
      unfold ofText
      rw [String.toList_append, String.toList_ofList, endsInDigit_append (by decide)]
      rfl
  | badStart c =>
      refine ofText_eq_other ?_
      show ofOpening ("Character '" ++ c.toString ++ "' (U+" ++ LexicalProblem.hexCode c ++
        ") is not a valid identifier start char").toList = other
      simp only [String.toList_append, List.append_assoc]
      rfl
  | unnecessaryEscape c =>
      refine ofText_eq_other ?_
      show ofOpening ("Unnecessary escape: '\\" ++ c.toString ++ "' is equivalent to just '" ++
        c.toString ++ "'").toList = other
      simp only [String.toList_append, List.append_assoc]
      rfl
  | htmlComment =>
      refine ofText_eq_other ?_
      show ofOpening (_ ++ _ : String).toList = other
      rw [String.toList_append, String.toList_ofList]
      rfl
  | lineContinuation =>
      refine ofText_eq_other ?_
      show ofOpening (_ ++ _ : String).toList = other
      rw [String.toList_append, String.toList_ofList]
      rfl
  | _ => exact ofText_literal rfl

/-- The description of a feature ends in other words than "digit". -/
theorem endsInDigit_description (f : Feature) :
    2 ≤ f.description.toList.length ∧ endsInDigit f.description.toList = false := by
  cases f <;> exact String.toList_ofList ▸ ⟨by decide, rfl⟩

theorem ofText_unsupportedMessage (f : Feature) : ofText f.unsupportedMessage = edition := by
  obtain ⟨hl, he⟩ := endsInDigit_description f
  unfold ofText Feature.unsupportedMessage
  simp only [String.toList_append]
  rw [endsInDigit_append hl, he]
  rfl

/-- **Objections to a feature speak for the edition.** -/
theorem ofText_objection {f : Feature} {message : String} {severity : Severity}
    (h : f.objection? = some (message, severity)) : ofText message = edition := by
  unfold Feature.objection? at h
  split at h
  · cases h; exact ofText_literal rfl
  · cases h; exact ofText_between (by decide) fun _ => rfl
  · cases h; exact ofText_literal rfl
  · cases h
  · cases h; exact ofText_unsupportedMessage f

/-- The only warning of a static rule speaks for neither. -/
theorem ofText_duplicateParameter (name : String) :
    ofText (Problem.duplicateParameter name).message = other := by
  refine ofText_eq_other ?_
  show ofOpening ("Duplicate parameter name \"" ++ name ++ "\"").toList = other
  simp only [String.toList_append, List.append_assoc]
  rfl

end Speaker

end EcmaScript
