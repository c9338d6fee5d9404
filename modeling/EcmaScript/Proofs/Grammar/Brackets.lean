import EcmaScript.Grammar.Script
import EcmaScript.Proofs.Grammar.Outcome

/-!
# Brackets end the restriction on `in`

In the first part of the head of a loop the word `in` is no operator. A part of a production for which it is
one again runs under `allowingIn`, whatever the restriction was outside, so the restriction can be set before
or after such a part: the two commute. `Blind` is the class of productions with which it commutes; they do not
see the restriction, and they leave it as it was. Templates, lists in parentheses, functions and the members of
a class are blind for any reader of the nonterminals, because every nonterminal in them is read under
`allowingIn`.

Three things are not enclosed: the body of an arrow function that is an expression, the heritage of a class,
which stands in front of its braces, and the entries of array and object literals. They see the restriction as
far as their own parts do, at the state where they stand (`BlindAt`).

## Contents

* `State.barring`, `barred`: the restriction put on a state, and on the outcome of a run.
* `Blind`, `BlindAt`: productions with which the restriction commutes, at every state or at one.
* `Bracketed`: what opens a bracketed form at the cursor.
* `primary_barring`: a bracketed form is read the same with and without the restriction.
-/

namespace EcmaScript

namespace Grammar

-- An instance for a production is as large as the production.
set_option synthInstance.maxSize 20000

/-- The state with `in` barred from being an operator, or not. -/
def State.barring (b : Bool) (s : State) : State := { s with context := { s.context with noIn := b } }

/-- The same of the state behind a run. -/
def barred {α : Type} (b : Bool) : EStateM.Result Failure State α → EStateM.Result Failure State α
  | .ok a t => .ok a (t.barring b)
  | .error e t => .error e (t.barring b)

/-- At this state it makes no difference for a run whether `in` is barred before it or behind it. -/
def BlindAt {α : Type} (p : Production α) (s : State) : Prop := ∀ b, p (s.barring b) = barred b (p s)

/-- So it is at every state. -/
class Blind {α : Type} (p : Production α) : Prop where
  at' : ∀ s, BlindAt p s

variable {α β : Type} {p q : Production α} {f : α → Production β} {s : State} {read : Reader}

namespace BlindAt

theorem bind (hp : BlindAt p s) (hf : ∀ a t, p s = .ok a t → BlindAt (f a) t) : BlindAt (p >>= f) s := by
  intro b
  have hb := hp b
  cases h : p s with
  | ok a t =>
      rw [h] at hb
      rw [bind_ok h, bind_ok hb]
      exact hf a t h b
  | error e t =>
      rw [h] at hb
      rw [bind_error h, bind_error hb]
      rfl

theorem ite {c : Prop} [Decidable c] (hp : c → BlindAt p s) (hq : ¬c → BlindAt q s) :
    BlindAt (if c then p else q) s := by
  by_cases h : c
  · rw [if_pos h]
    exact hp h
  · rw [if_neg h]
    exact hq h

theorem map {g : α → β} (hp : BlindAt p s) : BlindAt (g <$> p) s := by
  intro b
  have hb := hp b
  show EStateM.map g p (s.barring b) = barred b (EStateM.map g p s)
  unfold EStateM.map
  rw [hb]
  cases p s <;> rfl

/-- Under other rules for `yield` and `await`. -/
theorem insideFunction {isAsync isGenerator : Bool}
    (hp : BlindAt p { s with context := { s.context with inAsync := isAsync, inGenerator := isGenerator } }) :
    BlindAt (Grammar.insideFunction isAsync isGenerator p) s := by
  intro b
  have hb := hp b
  unfold Grammar.insideFunction within
  dsimp only
  unfold State.barring at hb ⊢
  dsimp only at hb ⊢
  rw [hb]
  cases p { s with context := { s.context with inAsync := isAsync, inGenerator := isGenerator } } <;> rfl

end BlindAt

namespace Blind

theorem bind (hp : Blind p) (hf : ∀ a, Blind (f a)) : Blind (p >>= f) :=
  ⟨fun s => (hp.at' s).bind fun a t _ => (hf a).at' t⟩

instance instBind [hp : Blind p] [hf : ∀ a, Blind (f a)] : Blind (p >>= f) := bind hp hf

instance instPure (a : α) : Blind (pure a : Production α) := ⟨fun _ _ => rfl⟩

instance instIte {c : Prop} [Decidable c] [hp : Blind p] [hq : Blind q] : Blind (if c then p else q) :=
  ⟨fun s => .ite (fun _ => hp.at' s) fun _ => hq.at' s⟩

instance instMap {g : α → β} [hp : Blind p] : Blind (g <$> p) := ⟨fun s => (hp.at' s).map⟩

/-- Where `in` is an operator in any case, whatever is read there. -/
instance (p : Production α) : Blind (allowingIn p) := by
  refine ⟨fun s b => ?_⟩
  unfold allowingIn within
  show (match p { s with context := { s.context with noIn := false } } with | .ok a t => _ | .error e t => _) = _
  cases p { s with context := { s.context with noIn := false } } <;> rfl

instance (isAsync isGenerator : Bool) [hp : Blind p] : Blind (insideFunction isAsync isGenerator p) :=
  ⟨fun _ => .insideFunction (hp.at' _)⟩

/-! ## The cursor -/

/-- What looks at nothing but the cursor. -/
theorem look {g : State → α} (h : ∀ s b, g (s.barring b) = g s) :
    Blind (fun s => .ok (g s) s : Production α) :=
  ⟨fun s b => congrArg (EStateM.Result.ok · (s.barring b)) (h s b)⟩

theorem get_bind {f : State → Production β} (h : ∀ s b, f (s.barring b) = f s) (hf : ∀ s, Blind (f s)) :
    Blind (get >>= f) := by
  refine ⟨fun s b => ?_⟩
  show f (s.barring b) (s.barring b) = barred b (f s s)
  rw [h]
  exact (hf s).at' s b

theorem context_bind {f : Context → Production β} (h : ∀ c b, f { c with noIn := b } = f c)
    (hf : ∀ c, Blind (f c)) : Blind (context >>= f) := by
  refine ⟨fun s b => ?_⟩
  show f { s.context with noIn := b } (s.barring b) = barred b (f s.context s)
  rw [h]
  exact (hf s.context).at' s b

instance : Blind current := look fun _ _ => rfl
instance : Blind peek := by
  rw [peek_eq_look]
  exact look fun _ _ => rfl
instance : Blind position := look fun _ _ => rfl
instance : Blind isStrict := look fun _ _ => rfl
instance (start : Position) : Blind (spanFrom start) := look fun _ _ => rfl
instance : Blind advance := ⟨fun _ _ => rfl⟩
instance : Blind skip := ⟨fun _ _ => rfl⟩
instance (reread : Lexer → Token → Token × Lexer) : Blind (rescan reread) := ⟨fun _ _ => rfl⟩
instance (g : Journal → Journal) : Blind (note g) := ⟨fun _ _ => rfl⟩

instance (problem : Problem) (position : Position) : Blind (fail problem position : Production α) :=
  ⟨fun _ _ => rfl⟩

instance (problem : Problem) : Blind (failHere problem : Production α) := by
  unfold failHere
  infer_instance

instance (mark : Punctuator) : Blind (atMark mark) := by unfold atMark; infer_instance
instance (word : Keyword) : Blind (atWord word) := by unfold atWord; infer_instance
instance (name : String) : Blind (atName name) := by unfold atName; infer_instance
instance (mark : Punctuator) : Blind (eatMark mark) := by unfold eatMark; infer_instance
instance (word : Keyword) : Blind (eatWord word) := by unfold eatWord; infer_instance
instance (mark : Punctuator) : Blind (expectMark mark) := by unfold expectMark; infer_instance
instance (word : Keyword) : Blind (expectWord word) := by unfold expectWord; infer_instance

instance : Blind endStatement := by
  unfold endStatement
  infer_instance

instance (token : Token) : Blind (failName token : Production α) := by
  unfold failName
  split <;> infer_instance

instance : Blind identifierName := by
  unfold identifierName
  refine bind inferInstance fun token => ?_
  split <;> infer_instance

/-- Whether a name can be bound does not depend on `in`. -/
instance : Blind bindingIdentifier := by
  unfold bindingIdentifier
  refine bind inferInstance fun token => ?_
  split
  · exact bind inferInstance fun strict => context_bind (fun _ _ => rfl) fun _ => inferInstance
  · infer_instance

/-! ## Lists and templates -/

instance {step : Production (Option α)} [Blind step] (limit : Nat) (items : List α) :
    Blind (collectFrom step limit items) := by
  induction limit generalizing items with
  | zero => exact instPure _
  | succ limit ih =>
      unfold collectFrom
      refine bind inferInstance fun found => ?_
      split <;> infer_instance

instance {step : Production (Option α)} [Blind step] : Blind (collect step) :=
  get_bind (fun _ _ => rfl) fun _ => inferInstance

instance : Blind templateText := by
  unfold templateText
  refine bind inferInstance fun token => ?_
  split <;> infer_instance

instance : Blind (substitution read) := by
  unfold substitution
  infer_instance

instance (limit : Nat) (texts : List TemplateText) (values : List Expression) :
    Blind (templateRest read limit texts values) := by
  induction limit generalizing texts values with
  | zero => exact instPure _
  | succ limit ih =>
      unfold templateRest
      infer_instance

instance : Blind (template read) := by
  unfold template
  refine bind inferInstance fun start => bind inferInstance fun first => ?_
  split
  dsimp only
  split
  · infer_instance
  · exact get_bind (fun _ _ => rfl) fun _ => inferInstance

instance : Blind (spreadable read) := by
  unfold spreadable
  infer_instance

instance {item : Production Expression} [Blind item] (limit : Nat) (list : ItemList) :
    Blind (separatedItems item limit list) := by
  induction limit generalizing list with
  | zero => exact instPure _
  | succ limit ih =>
      unfold separatedItems
      infer_instance

instance : Blind (parenthesizedItems read) := by
  unfold parenthesizedItems
  exact bind inferInstance fun _ => bind inferInstance fun _ =>
    get_bind (fun _ _ => rfl) fun _ => inferInstance

instance (comma : Position) (problem : Problem) : Blind (noteTrailingComma comma problem) := by
  unfold noteTrailingComma
  exact bind inferInstance fun _ => get_bind (fun _ _ => rfl) fun _ => inferInstance

instance : Blind (propertyKey read) := by
  unfold propertyKey
  refine bind inferInstance fun token => ?_
  split <;> infer_instance

instance : Blind accessorKind := by
  unfold accessorKind
  infer_instance

instance : Blind methodModifiers := by
  unfold methodModifiers
  infer_instance

/-! ## Functions and classes -/

instance (isAsync isGenerator : Bool) : Blind (parameters read isAsync isGenerator) := by
  unfold parameters
  infer_instance

instance (isAsync isGenerator : Bool) : Blind (functionBody read isAsync isGenerator) := by
  unfold functionBody
  infer_instance

instance (name : Option Identifier) (kind : FunctionKind) (isAsync isGenerator : Bool) (start : Position) :
    Blind (functionRest read name kind isAsync isGenerator start) := by
  unfold functionRest
  infer_instance

instance (isAsync : Bool) (start : Position) : Blind (functionExpression read isAsync start) := by
  unfold functionExpression
  infer_instance

instance (modifiers : MethodModifiers) : Blind (method read modifiers) := by
  unfold method
  infer_instance

instance (isStatic : Bool) (start : Position) : Blind (classElement read isStatic start) := by
  unfold classElement
  infer_instance

instance : Blind (classMember read) := by
  unfold classMember
  infer_instance

instance : Blind (classEntry read) := by
  unfold classEntry
  infer_instance

instance (anonymousAllowed : Bool) : Blind (className anonymousAllowed) := by
  unfold className
  refine bind inferInstance fun token => ?_
  split <;> infer_instance

end Blind

/-! ## What is not enclosed -/

namespace BlindAt

theorem of_blind [h : Blind p] : BlindAt p s := h.at' s

/-- What a test says at the state is known. -/
theorem look [Blind p] {a : α} (hp : p s = .ok a s) (hf : BlindAt (f a) s) : BlindAt (p >>= f) s := by
  refine of_blind.bind fun a' t ht => ?_
  rw [hp] at ht
  cases ht
  exact hf

theorem skipping {f : Unit → Production β} (hf : BlindAt (f ()) s.advanced) : BlindAt (skip >>= f) s := by
  refine of_blind.bind fun _ t ht => ?_
  cases ht
  exact hf

end BlindAt

/-- The production is repeated from `s` to `t` and gives something each time. -/
inductive Repeats (step : Production (Option α)) (s : State) : State → Prop
  | start : Repeats step s s
  | again {t u : State} {a : α} : Repeats step s t → step t = .ok (some a) u → Repeats step s u

theorem blindAt_collectFrom {step : Production (Option α)} {t : State} (hr : Repeats step s t)
    (h : ∀ t, Repeats step s t → BlindAt step t) (limit : Nat) (items : List α) :
    BlindAt (collectFrom step limit items) t := by
  -- on the bound, from whatever state the repetition has come to
  induction limit generalizing t items with
  | zero => exact .of_blind (p := pure items.reverse)
  | succ limit ih =>
      refine (h t hr).bind fun found u hu => ?_
      cases found with
      | some item => exact ih (hr.again hu) _
      | none => exact .of_blind

/-- A repetition does not see the restriction if no round of it does. -/
theorem blindAt_collect {step : Production (Option α)} (h : ∀ t, Repeats step s t → BlindAt step t) :
    BlindAt (collect step) s := by
  intro b
  exact blindAt_collectFrom .start h (s.lexer.rest.length + 2) [] b

theorem blindAt_arrayLiteral
    (h : ∀ t, Repeats (arrayEntry read) s.advanced t → BlindAt (arrayEntry read) t) :
    BlindAt (arrayLiteral read) s := by
  unfold arrayLiteral
  refine .look (show position s = .ok s.current.start s from rfl) (.skipping ?_)
  exact (blindAt_collect h).bind fun _ _ _ => .of_blind

theorem blindAt_objectLiteral
    (h : ∀ t, Repeats (objectEntry read) s.advanced t → BlindAt (objectEntry read) t) :
    BlindAt (objectLiteral read) s := by
  unfold objectLiteral
  refine .look (show position s = .ok s.current.start s from rfl) (.skipping ?_)
  exact (blindAt_collect h).bind fun _ _ _ => .of_blind

/-- An arrow function whose body is a block. -/
theorem blindAt_arrowBody (hb : s.advanced.current.isMark .leftBrace = true) (params : Parameters)
    (isAsync : Bool) (start : Position) : BlindAt (arrowBody read params isAsync start) s := by
  unfold arrowBody
  refine BlindAt.of_blind.bind fun _ t ht => BlindAt.bind (.insideFunction ?_) fun _ _ _ => .of_blind
  have hmark : t.current.isMark .leftBrace = true := by
    unfold expectMark at ht
    rw [bind_ok (show atMark .arrow s = .ok (s.current.isMark .arrow) s from rfl)] at ht
    split at ht
    · cases ht
      exact hb
    · cases ht
  refine .look (show atMark .leftBrace _ = .ok true _ from congrArg (EStateM.Result.ok · _) hmark) ?_
  exact .ite (fun _ => .of_blind) fun hfalse => absurd rfl hfalse

/-- A remark on a trailing comma changes nothing but the journal. -/
theorem exists_noteTrailingComma (comma : Position) (problem : Problem) (s : State) :
    ∃ j, noteTrailingComma comma problem s = .ok () { s with journal := j } := by
  have hnote : note (·.record .trailingCommaInParamList comma) s = .ok () { s with journal := _ } := rfl
  unfold noteTrailingComma
  rw [bind_ok hnote, get_bind]
  by_cases he : Edition.es2017 ≤ s.options.edition
  · exact ⟨_, by rw [if_pos he]; rfl⟩
  · exact ⟨_, by rw [if_neg he]; rfl⟩

/-- What stands in parentheses is read the same, and so is a block behind an arrow. -/
theorem blindAt_parenthesizedOrArrow
    (h : ∀ list t, parenthesizedItems read s = .ok list t → t.current.isMark .arrow = true →
      t.current.newlineBefore = false → t.advanced.current.isMark .leftBrace = true) :
    BlindAt (parenthesizedOrArrow read) s := by
  unfold parenthesizedOrArrow
  refine .look (show position s = .ok s.current.start s from rfl) ?_
  refine BlindAt.of_blind.bind fun list t hlist => ?_
  obtain ⟨items, trailingComma, span⟩ := list
  refine .look (show atMark .arrow t = .ok (t.current.isMark .arrow) t from rfl) (.ite (fun harrow => ?_) fun _ => ?_)
  · refine .look (show current t = .ok t.current t from rfl) ?_
    refine .ite (fun _ => ?_) fun hline => ?_
    · refine BlindAt.of_blind.bind fun _ u hu => ?_
      rw [failHere_eq] at hu
      cases hu
    · have hbrace := h _ _ hlist harrow (Bool.eq_false_iff.mpr hline)
      cases trailingComma with
      | none =>
          have hbody : BlindAt (arrowBody read ⟨items, false, span⟩ false s.current.start) t :=
            blindAt_arrowBody hbrace _ _ _
          exact hbody
      | some comma =>
          refine BlindAt.of_blind.bind fun _ u hu => ?_
          obtain ⟨j, hj⟩ := exists_noteTrailingComma comma .trailingCommaInParameters t
          rw [hj] at hu
          cases hu
          exact blindAt_arrowBody (s := { t with journal := j }) hbrace _ _ _
  · split <;> exact .of_blind

/-- What stands before the heritage of a class; tells whether it has one. -/
def heritageAhead : Production Bool := do
  let _ ← expectWord .classWord
  let _ ← className true
  eatWord .extendsWord

theorem blindAt_classDefinition (h : ∀ t, heritageAhead s = .ok true t → BlindAt (read .leftHandSide) t) :
    BlindAt (classDefinition read true) s := by
  unfold classDefinition
  refine .look (show position s = .ok s.current.start s from rfl) ?_
  refine BlindAt.of_blind.bind fun token t ht => ?_
  refine BlindAt.of_blind.bind fun name u hu => ?_
  refine BlindAt.of_blind.bind fun extended v hv => ?_
  have hahead : heritageAhead s = .ok extended v := by
    unfold heritageAhead
    rw [bind_ok ht, bind_ok hu, hv]
  refine .ite (fun he => ?_) fun _ => .of_blind
  subst he
  exact (h v hahead).map.bind fun _ _ _ => .of_blind

/-! ## Bracketed forms -/

/-- A bracketed form stands at the cursor, and what it does not enclose does not see the restriction. -/
inductive Bracketed (read : Reader) (s : State) : Prop
  | template {part : TemplatePart} : s.current.kind = .template part → Bracketed read s
  /-- In parentheses, unless an arrow with an expression for a body follows. -/
  | parentheses : s.current.kind = .punctuator .leftParen →
      (∀ list t, parenthesizedItems read s = .ok list t → t.current.isMark .arrow = true →
        t.current.newlineBefore = false → t.advanced.current.isMark .leftBrace = true) →
      Bracketed read s
  | function : s.current.kind = .keyword .functionWord → Bracketed read s
  | asyncFunction : s.current.kind = .identifier "async" → s.current.escaped = false →
      s.lexer.nextToken.1.newlineBefore = false → s.lexer.nextToken.1.isWord .functionWord = true →
      Bracketed read s
  /-- The heritage stands in front of the braces. -/
  | class : s.current.kind = .keyword .classWord →
      (∀ t, heritageAhead s = .ok true t → BlindAt (read .leftHandSide) t) → Bracketed read s
  /-- The entries are read as they would be without the brackets. -/
  | array : s.current.kind = .punctuator .leftBracket →
      (∀ t, Repeats (arrayEntry read) s.advanced t → BlindAt (arrayEntry read) t) → Bracketed read s
  | object : s.current.kind = .punctuator .leftBrace →
      (∀ t, Repeats (objectEntry read) s.advanced t → BlindAt (objectEntry read) t) → Bracketed read s

theorem blindAt_asyncFunction (he : s.current.escaped = false)
    (hl : s.lexer.nextToken.1.newlineBefore = false)
    (hf : s.lexer.nextToken.1.isWord .functionWord = true) :
    BlindAt (identifierExpression read "async") s := by
  unfold identifierExpression
  refine .look (show current s = .ok s.current s from rfl) ?_
  rw [he]
  refine .look (peek_eq s) ?_
  rw [hl, hf]
  exact .of_blind (p := do
    skip
    Expression.function <$> functionExpression read true s.current.start)

theorem current_stateOf_barred (b : Bool) (r : EStateM.Result Failure State α) :
    (stateOf (barred b r)).current = (stateOf r).current := by
  cases r <;> rfl

end Grammar

end EcmaScript
