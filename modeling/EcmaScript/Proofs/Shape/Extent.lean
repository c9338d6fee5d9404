import EcmaScript.Proofs.Grammar.Covers
import EcmaScript.Proofs.Layout.Expression

/-!
# What an expression covers

An expression starts at the token under the cursor and ends with the last token that was read, like a
statement. Statements take their region at their end; expressions are put together on the way, from a
receiver or from the operands of a stack. So of a production it is said that its result starts at the
cursor and reaches to the last token (`Extends`), which each further access or operator preserves. That the
result reaches no further than the last token is known from the order of its pieces.

## Contents

* `ExtendsAt`, `Extends`: productions whose results start at the cursor and reach to the last token.
* `extends_assignment` and the lemmas before it, one for each production.
* `Reader.Extends`, `extends_read`: the nonterminals.
* `Extends.span_eq`: the region of an expression.
-/

namespace EcmaScript

/-- A region lies between its own ends. -/
theorem Span.between_start_stop (s : Span) : Span.between s.start s.stop = s := by
  show Span.mk _ _ _ (s.offset + s.length - s.offset) = s
  rw [Nat.add_sub_cancel_left]
  rfl

namespace Grammar

/-- The expression starts at a place and reaches to the last token that was read. -/
structure Reaches (e : Expression) (start : Position) (t : State) : Prop where
  start : e.start = start
  stop : t.lastStop ≤ e.span.stop

theorem Reaches.of_span {e : Expression} {start : Position} {t : State}
    (h : e.span = Span.between start t.lastStop) : Reaches e start t := by
  refine ⟨?_, h ▸ Span.le_stop_between _ _⟩
  unfold Expression.start
  rw [h]
  rfl

/-- At this state the production gives something with an expression that starts at the place and reaches to
the last token that was read. -/
structure ReachesAt {α : Type} (start : Position) (s : State) (made : α → Expression) (p : Production α) :
    Prop where
  run : ∀ {a : α} {t : State}, p s = .ok a t → Reaches (made a) start t

/-- The expression starts at the cursor and reaches to the last token that was read. -/
def Extends (p : Production Expression) : Prop := ∀ s, ReachesAt s.current.start s id p

variable {α β : Type} {s : State} {start : Position} {span : α → Span} {made : α → Expression}

theorem Closes.reachesAt {p : Production Expression} (h : Closes start Expression.span p) :
    ReachesAt start s id p := ⟨fun ht => .of_span (h.run ht)⟩

theorem Covers.extends {p : Production Expression} (h : Covers Expression.span p) : Extends p :=
  fun s => ⟨fun ht => .of_span ((h s).run ht)⟩

namespace ReachesAt

variable {p q : Production α}

theorem look {q : Production β} {b : β} {f : β → Production α} (hq : q s = .ok b s)
    (h : ReachesAt start s made (f b)) : ReachesAt start s made (q >>= f) :=
  ⟨fun ht => h.run ((bind_ok hq).symm.trans ht)⟩

theorem ite {c : Prop} [Decidable c] (hp : ReachesAt start s made p) (hq : ReachesAt start s made q) :
    ReachesAt start s made (if c then p else q) := by
  split
  · exact hp
  · exact hq

theorem bind {q : Production β} {f : β → Production α}
    (h : ∀ {b : β} {u : State}, q s = .ok b u → ReachesAt start u made (f b)) :
    ReachesAt start s made (q >>= f) := by
  refine ⟨fun ht => ?_⟩
  obtain ⟨b, u, hu, ht⟩ := exists_of_bind_ok ht
  exact (h hu).run ht

/-- What follows keeps the extent of the expression. -/
theorem andThen {q : Production β} {f : β → Production α} {made' : β → Expression}
    (hq : ReachesAt start s made' q) (hf : ∀ {b : β} {u : State}, Reaches (made' b) start u →
      ReachesAt start u made (f b)) : ReachesAt start s made (q >>= f) :=
  bind fun hu => hf (hq.run hu)

theorem map {make : β → α} {made' : β → Expression} {q : Production β} (hq : ReachesAt start s made' q)
    (h : ∀ b, made (make b) = made' b) : ReachesAt start s made (make <$> q) := by
  refine ⟨fun ht => ?_⟩
  obtain ⟨b, hb, rfl⟩ := exists_of_map_ok ht
  exact h b ▸ hq.run hb

/-- Nothing more is read. -/
theorem here {a : α} (h : Reaches (made a) start s) : ReachesAt start s made (pure a) :=
  ⟨fun ht => by cases ht; exact h⟩

theorem stopped {e : State → Failure} {q : Production β} {f : β → Production α}
    (h : ∀ s, q s = .error (e s) s) : ReachesAt start s made (q >>= f) :=
  ⟨fun ht => by rw [bind_error (h s)] at ht; cases ht⟩

theorem failHere (problem : Problem) : ReachesAt start s made (failHere problem : Production α) := ⟨nofun⟩

end ReachesAt

/-! ## Productions that read one token -/

/-- What the production gives at the state covers the text from `start` to the last token that was read. -/
structure ClosesAt (start : Position) (s : State) (span : α → Span) (p : Production α) : Prop where
  run : ∀ {a : α} {t : State}, p s = .ok a t → span a = Span.between start t.lastStop

namespace ClosesAt

variable {p : Production α}

theorem of_closes (h : Closes start span p) : ClosesAt start s span p := ⟨h.run⟩

theorem look {q : Production β} {b : β} {f : β → Production α} (hq : q s = .ok b s)
    (h : ClosesAt start s span (f b)) : ClosesAt start s span (q >>= f) :=
  ⟨fun ht => h.run ((bind_ok hq).symm.trans ht)⟩

theorem ite {c : Prop} [Decidable c] {q : Production α} (hp : ClosesAt start s span p)
    (hq : ClosesAt start s span q) : ClosesAt start s span (if c then p else q) := by
  split
  · exact hp
  · exact hq

/-- Nothing more is read. -/
theorem here {a : α} (h : span a = Span.between start s.lastStop) : ClosesAt start s span (pure a) :=
  ⟨fun ht => by cases ht; exact h⟩

theorem fail (problem : Problem) (position : Position) :
    ClosesAt start s span (fail problem position : Production α) := ⟨nofun⟩

theorem failHere (problem : Problem) : ClosesAt start s span (failHere problem : Production α) := ⟨nofun⟩

end ClosesAt

theorem coversAt_advance {f : Token → Production α}
    (h : ClosesAt s.current.start s.advanced span (f s.current)) : CoversAt s span (advance >>= f) := ⟨h.run⟩

theorem coversAt_skip {f : Unit → Production α} (h : ClosesAt s.current.start s.advanced span (f ())) :
    CoversAt s span (skip >>= f) := ⟨h.run⟩

theorem coversAt_token {a : α} (h : span a = s.current.span) :
    CoversAt s span (skip >>= fun _ => pure a) :=
  coversAt_skip (.here (h.trans (Span.between_start_stop _).symm))

theorem coversAt_bind {q : Production β} {f : β → Production α}
    (h : ∀ {b : β} {u : State}, q s = .ok b u → ClosesAt s.current.start u span (f b)) :
    CoversAt s span (q >>= f) := by
  refine ⟨fun ht => ?_⟩
  obtain ⟨b, u, hu, ht⟩ := exists_of_bind_ok ht
  exact (h hu).run ht

theorem coversAt_fail (problem : Problem) (position : Position) :
    CoversAt s span (fail problem position : Production α) := ⟨nofun⟩

theorem coversAt_stopped {e : State → Failure} {q : Production β} {f : β → Production α}
    (h : ∀ s, q s = .error (e s) s) : CoversAt s span (q >>= f) :=
  ⟨fun ht => by rw [bind_error (h s)] at ht; cases ht⟩

/-! ## Primary expressions -/

section Primary

variable (read : Reader)

theorem closes_arrowBody (params : Parameters) (isAsync : Bool) :
    Closes start Expression.span (arrowBody read params isAsync start) :=
  .bind fun _ => .bind fun _ => .close fun _ => rfl

theorem closes_arrowOnLine (params : Parameters) (isAsync : Bool) :
    Closes start Expression.span (arrowOnLine read params isAsync start) :=
  have hbody := closes_arrowBody read params isAsync
  .bind fun _ => .ite (.bind fun _ => hbody) hbody

theorem coversAt_reference (name : String) :
    CoversAt s Expression.span (reference read name s.current) := by
  refine .look (show isStrict s = .ok _ s from rfl) (.look (show context s = .ok s.context s from rfl) ?_)
  refine .ite (coversAt_stopped (fail_eq _ _)) (coversAt_skip ?_)
  refine .look (show atMark .arrow s.advanced = .ok _ s.advanced from rfl) (.ite ?_ ?_)
  · exact .of_closes (closes_arrowOnLine read _ false)
  · exact .here (Span.between_start_stop _).symm

theorem closes_asyncCallOrArrow (asyncSpan : Span) :
    Closes asyncSpan.start Expression.span (asyncCallOrArrow read asyncSpan) :=
  .bind fun _ => .bind fun _ => .bind fun _ => .ite (closes_arrowOnLine read _ true) (.close fun _ => rfl)

theorem closes_asyncArrow : Closes start Expression.span (asyncArrow read start) :=
  have hbody (param : Identifier) :
      Closes start Expression.span (arrowBody read (.single param) true start) :=
    closes_arrowBody read _ true
  .bind fun _ => .bind fun param => .bind fun _ => .ite (hbody param) (.bind fun _ => hbody param)

theorem closes_functionExpression (isAsync : Bool) :
    Closes start Function.span (functionExpression read isAsync start) := by
  have hrest (name : Option Identifier) (isGenerator : Bool) :
      Closes start Function.span (functionRest read name .expression isAsync isGenerator start) :=
    .bind fun _ => .bind fun _ => .close fun _ => rfl
  exact .bind fun _ => .bind fun isGenerator => .bind fun _ => .either fun name => hrest name isGenerator

theorem coversAt_identifierExpression (name : String) :
    CoversAt s Expression.span (identifierExpression read name) := by
  have hreference := coversAt_reference read (s := s) name
  refine .look (show current s = .ok s.current s from rfl) (.ite ?_ hreference)
  refine .look (peek_eq s) (.ite hreference (.ite ?_ ?_))
  · exact .of_closes (.bind fun _ => .map (closes_functionExpression read true) fun _ => rfl)
  · split
    · exact .of_closes (closes_asyncArrow read)
    · exact .of_closes (closes_asyncCallOrArrow read s.current.span)
    · exact hreference

theorem covers_parenthesizedItems : Covers (·.2.2) (parenthesizedItems read) :=
  .noting fun _ => .bind fun _ => .bind fun _ => .bind fun _ => .bind fun _ => .close fun _ => rfl

theorem covers_parenthesizedOrArrow : Covers Expression.span (parenthesizedOrArrow read) := by
  refine fun s => .look (show position s = .ok s.current.start s from rfl) (coversAt_bind ?_)
  rintro ⟨items, comma?, span⟩ u hu
  have hspan : span = _ := (covers_parenthesizedItems read s).run hu
  have hbody (params : Parameters) :
      Closes s.current.start Expression.span (arrowBody read params false s.current.start) :=
    closes_arrowBody read params false
  refine .look (show atMark .arrow u = .ok _ u from rfl) (.ite (.of_closes ?_) ?_)
  · cases comma? with
    | none => exact .bind fun _ => .ite (.bind fun _ => hbody _) (hbody _)
    | some _ => exact .bind fun _ => .ite (.bind fun _ => .bind fun _ => hbody _) (.bind fun _ => hbody _)
  · split
    · exact .here hspan
    · exact .fail _ _

theorem covers_arrayLiteral : Covers Expression.span (arrayLiteral read) :=
  .noting fun _ => .bind fun _ => .bind fun _ => .bind fun _ => .close fun _ => rfl

theorem covers_objectLiteral : Covers Expression.span (objectLiteral read) :=
  .noting fun _ => .bind fun _ => .bind fun _ => .bind fun _ => .close fun _ => rfl

theorem covers_template : Covers (·.2.2) (template read) :=
  .noting fun _ => .bind fun _ => .ite (.bind fun _ => .close fun _ => rfl)
    (.bind fun _ => .bind fun _ => .close fun _ => rfl)

theorem closes_importExpression : Closes start Expression.span (importExpression read start) :=
  .bind fun _ => .bind fun _ => .ite (.bind fun _ => .close fun _ => rfl)
    (.bind fun _ => .bind fun _ => .bind fun _ => .close fun _ => rfl)

theorem coversAt_superReference : CoversAt s Expression.span superReference :=
  coversAt_advance <| .look (show current s.advanced = .ok _ s.advanced from rfl) <|
    .ite (.here (Span.between_start_stop _).symm) (.failHere _)

theorem coversAt_keywordExpression (word : Keyword) :
    CoversAt s Expression.span (keywordExpression read word s.current) := by
  unfold keywordExpression
  split
  case h_5 => exact .of_closes (.map (closes_functionExpression read false) fun _ => rfl)
  case h_6 => exact .map (covers_classDefinition read true s) fun _ => rfl
  case h_7 => exact coversAt_superReference
  case h_8 => exact .of_closes (closes_importExpression read)
  case h_9 => exact coversAt_fail _ _
  all_goals exact coversAt_token rfl

/-- The token that is read again starts where the slash does. -/
theorem coversAt_regExpLiteral : CoversAt s Expression.span regExpLiteral := by
  refine .look (show position s = .ok s.current.start s from rfl) (coversAt_bind fun {_ u} hu => ⟨?_⟩)
  have hstart : u.current.start = s.current.start := by
    cases hu
    rfl
  rw [← hstart]
  refine fun {_ _} ht => (coversAt_advance (s := u) ?_).run ht
  split
  · exact .here (Span.between_start_stop _).symm
  · exact .fail _ _

theorem coversAt_privateOperand (name : String) :
    CoversAt s Expression.span (privateOperand name s.current) := by
  refine .look (show context s = .ok s.context s from rfl) ?_
  refine .look (peek_eq s) ?_
  exact .ite (coversAt_stopped (fail_eq _ _)) (coversAt_token rfl)

/-- An operand without operators, accesses and calls. -/
theorem covers_primary : Covers Expression.span (primary read) := by
  intro s
  refine .look (show current s = .ok s.current s from rfl) ?_
  split
  · exact coversAt_identifierExpression read _
  · exact coversAt_token rfl
  · exact coversAt_token rfl
  · exact coversAt_token rfl
  · exact coversAt_bind fun hu => .here ((covers_template read s).run hu)
  · exact coversAt_regExpLiteral
  · exact coversAt_regExpLiteral
  · exact covers_parenthesizedOrArrow read s
  · exact covers_arrayLiteral read s
  · exact covers_objectLiteral read s
  · exact coversAt_keywordExpression read _
  · exact coversAt_privateOperand _
  · exact coversAt_fail _ _

end Primary

/-! ## Accesses and calls -/

section Suffixes

variable {read : Reader} {receiver : Expression}

theorem covers_identifierName : Covers Identifier.span identifierName := by
  refine fun s => .look (show current s = .ok s.current s from rfl) ?_
  split
  · exact coversAt_token rfl
  · unfold failName
    split <;> exact coversAt_fail _ _

theorem covers_memberName : Covers (·.identifier.span) memberName := by
  refine fun s => .look (show current s = .ok s.current s from rfl) ?_
  split
  · exact coversAt_token rfl
  · exact .map (covers_identifierName s) fun _ => rfl

theorem reachesAt_namedAccess (optional : Bool) :
    ReachesAt receiver.start s id (namedAccess receiver optional) := by
  refine .bind fun {name u} hu => .here ⟨rfl, ?_⟩
  have hspan : name.identifier.span = _ := (covers_memberName s).run hu
  have hstop : u.lastStop ≤ name.identifier.span.stop := hspan ▸ Span.le_stop_between _ _
  show _ ≤ (receiver.span.extendTo name.identifier.span).stop
  rw [Span.stop_extendTo]
  exact Nat.le_trans hstop (Nat.le_max_right _ _)

theorem reachesAt_computedAccess (optional : Bool) :
    ReachesAt receiver.start s id (computedAccess read receiver optional) :=
  Closes.reachesAt <| .bind fun _ => .bind fun _ => .bind fun _ => .close fun _ => rfl

theorem reachesAt_callOf (optional : Bool) :
    ReachesAt receiver.start s id (callOf read receiver optional) :=
  Closes.reachesAt <| .bind fun _ => .close fun _ => rfl

theorem reachesAt_optionalSuffix : ReachesAt receiver.start s id (optionalSuffix read receiver) := by
  refine .look (show current s = .ok s.current s from rfl) ?_
  split
  · exact reachesAt_callOf true
  · exact reachesAt_computedAccess true
  · exact .failHere _
  · exact .failHere _
  · exact reachesAt_namedAccess true

/-- One further access keeps the extent of the receiver, and so does none. -/
theorem reachesAt_suffix? (callsAllowed : Bool) (h : Reaches receiver start s) :
    ReachesAt start s (·.getD receiver) (suffix? read callsAllowed receiver) := by
  obtain rfl := h.start
  have hnone : ReachesAt receiver.start s (·.getD receiver) (pure none : Production (Option Expression)) :=
    .here h
  refine .look (show current s = .ok s.current s from rfl) ?_
  split
  · exact .bind fun _ => .map (reachesAt_namedAccess false) fun _ => rfl
  · refine .ite (.stopped (failHere_eq _)) (.ite (.stopped (failHere_eq _)) (.bind fun _ => ?_))
    exact .map reachesAt_optionalSuffix fun _ => rfl
  · exact .map (reachesAt_computedAccess false) fun _ => rfl
  · exact .ite (.map (reachesAt_callOf false) fun _ => rfl) hnone
  · refine .ite (.stopped (failHere_eq _)) (.bind fun _ => .bind fun hu => .here ?_)
    cases hu
    exact .of_span rfl
  · exact hnone

theorem reachesAt_suffixesFrom (callsAllowed : Bool) (limit : Nat) (h : Reaches receiver start s) :
    ReachesAt start s id (suffixesFrom read callsAllowed limit receiver) := by
  induction limit generalizing s receiver with
  | zero => exact .here h
  | succ limit ih =>
      refine .andThen (reachesAt_suffix? callsAllowed h) fun {found u} hu => ?_
      cases found with
      | some next => exact ih hu
      | none => exact .here hu

theorem reachesAt_suffixes (callsAllowed : Bool) (h : Reaches receiver start s) :
    ReachesAt start s id (suffixes read callsAllowed receiver) :=
  .look (show (get : Production State) s = .ok s s from rfl) (reachesAt_suffixesFrom callsAllowed _ h)

end Suffixes

section Operators

variable {read : Reader}

theorem extends_construction : Extends (construction read) := by
  refine Covers.extends (.noting fun _ => .bind fun _ => .bind fun _ => .ite ?_ ?_)
  · exact .bind fun _ => .close fun _ => rfl
  · exact .bind fun _ => .either fun _ => .bind fun _ => .bind fun _ =>
      .ite (.bind fun _ => .close fun _ => rfl) (.close fun _ => rfl)

theorem extends_leftHandSide : Extends (leftHandSide read) := by
  have hrest {s u : State} {operand : Expression} (h : Reaches operand s.current.start u) :
      ReachesAt s.current.start u id
        (if operand.isArrow then pure operand else suffixes read true operand) :=
    .ite (.here h) (reachesAt_suffixes true h)
  refine fun s => .look (show atWord .newWord s = .ok _ s from rfl) (.ite ?_ ?_)
  · exact .andThen (extends_construction s) hrest
  · exact .andThen ((covers_primary read).extends s) hrest

/-! ## Operators -/

theorem extends_updatable : Extends (updatable read) := by
  refine fun s => .look (show position s = .ok s.current.start s from rfl) ?_
  refine .andThen (extends_leftHandSide s) fun {operand u} hu => ?_
  refine .look (show current u = .ok u.current u from rfl) ?_
  split
  · exact .ite (.here hu) (Closes.reachesAt (.bind fun _ => .close fun _ => rfl))
  · exact .here hu

theorem extends_unary : Extends (unary read) := by
  have operated {s : State} {make : Expression → Span → Expression} (h : ∀ e r, (make e r).span = r) :
      ReachesAt s.current.start s id (do
        skip
        let argument ← read .unary
        return make argument (← spanFrom s.current.start)) :=
    Closes.reachesAt (.bind fun _ => .bind fun e => .close (h e))
  refine fun s => .look (show current s = .ok s.current s from rfl) ?_
  split
  · exact operated fun _ _ => rfl
  · split
    · exact operated fun _ _ => rfl
    · refine .bind fun {isAwait u} hu => ?_
      have hstays := (inferInstance : Stays atAwaitOperator).stays s
      rw [hu] at hstays
      obtain rfl : u = s := hstays
      exact .ite (operated fun _ _ => rfl) (extends_updatable u)

/-- The operand that stands first in the text. -/
def OperatorStack.first (stack : OperatorStack) : Expression :=
  stack.waiting.foldl (fun _ w => w.left) stack.top

/-- The first operand starts at a place, and the last one reaches to the last token that was read. -/
structure OperatorStack.Reaches (stack : OperatorStack) (start : Position) (t : State) : Prop where
  start : stack.first.start = start
  stop : t.lastStop ≤ stack.top.span.stop

variable {stack reduced : OperatorStack} {t : State}

/-- An operator starts with its left operand and ends with its right one. -/
theorem reaches_apply {w : WaitingOperator} {rest : List WaitingOperator} {top e : Expression}
    (he : w.apply top = .ok e) (h : OperatorStack.Reaches ⟨top, w :: rest⟩ start t) :
    OperatorStack.Reaches ⟨e, rest⟩ start t := by
  unfold WaitingOperator.apply at he
  split at he
  · cases he
  · cases he
    refine ⟨?_, Nat.le_trans h.stop (Span.le_stop_between _ _)⟩
    rw [← h.start]
    cases rest <;> rfl

/-- What every operator keeps that is completed, the whole stack keeps. -/
theorem OperatorStack.reduce_induct {P : OperatorStack → Prop} {ready : BinaryOperator → Bool}
    {waiting : List WaitingOperator} {top : Expression}
    (hstack : OperatorStack.reduce ready waiting top = .ok stack)
    (happly : ∀ {w rest right e}, w.apply right = .ok e → P ⟨right, w :: rest⟩ → P ⟨e, rest⟩)
    (h : P ⟨top, waiting⟩) : P stack := by
  -- on the operators that wait, for whatever stands on their right
  induction waiting generalizing top with
  | nil =>
      cases hstack
      exact h
  | cons w rest ih =>
      unfold OperatorStack.reduce at hstack
      split at hstack
      · cases he : w.apply top with
        | error _ =>
            rw [he] at hstack
            cases hstack
        | ok e =>
            rw [he] at hstack
            exact ih hstack (happly he h)
      · cases hstack
        exact h

theorem reduce_of_meet {next : BinaryOperator} (hmeet : stack.meet next = .ok reduced) :
    OperatorStack.reduce (precedes next) stack.waiting stack.top = .ok reduced := by
  unfold OperatorStack.meet at hmeet
  cases hreduce : OperatorStack.reduce (precedes next) stack.waiting stack.top with
  | error _ =>
      rw [hreduce] at hmeet
      cases hmeet
  | ok result =>
      rw [hreduce] at hmeet
      simp only [bind, Except.bind] at hmeet
      split at hmeet
      · split at hmeet <;> cases hmeet
        rfl
      · cases hmeet
        rfl

/-- In the end there is one operand and no operator. -/
theorem OperatorStack.finish_induct {P : OperatorStack → Prop} {e : Expression}
    (hfinish : stack.finish = .ok e)
    (happly : ∀ {w rest right e}, w.apply right = .ok e → P ⟨right, w :: rest⟩ → P ⟨e, rest⟩)
    (h : P stack) : P ⟨e, []⟩ := by
  unfold OperatorStack.finish at hfinish
  cases hreduce : OperatorStack.reduce (fun _ => true) stack.waiting stack.top with
  | error _ =>
      rw [hreduce] at hfinish
      cases hfinish
  | ok whole =>
      rw [hreduce] at hfinish
      cases hfinish
      have hwhole := OperatorStack.reduce_induct hreduce happly h
      rwa [show whole = ⟨whole.top, []⟩ from congrArg (OperatorStack.mk whole.top) (Lays.waiting_of_reduce hreduce)] at hwhole

theorem reaches_finish {e : Expression} (hfinish : stack.finish = .ok e) (h : stack.Reaches start t) :
    Reaches e start t :=
  have hwhole := OperatorStack.finish_induct (P := (·.Reaches start t)) hfinish reaches_apply h
  ⟨hwhole.start, hwhole.stop⟩

theorem reachesAt_finish (h : stack.Reaches start s) : ReachesAt start s id (liftStack stack.finish) := by
  cases hfinish : stack.finish with
  | error failure => exact ⟨nofun⟩
  | ok e => exact .here (reaches_finish hfinish h)

theorem reachesAt_binaryFrom (limit : Nat) (h : stack.Reaches start s) :
    ReachesAt start s id (binaryFrom read limit stack) := by
  -- on the bound, for whatever was read before
  induction limit generalizing s stack with
  | zero => exact reachesAt_finish h
  | succ limit ih =>
      refine .look (show current s = .ok s.current s from rfl) ?_
      refine .look (show context s = .ok s.context s from rfl) ?_
      split
      · exact reachesAt_finish h
      next operator _ =>
        cases hmeet : stack.meet operator with
        | error failure => exact .stopped (e := fun _ => failure) fun _ => rfl
        | ok reduced =>
            have hreduced := OperatorStack.reduce_induct (P := (·.Reaches start s)) (reduce_of_meet hmeet)
              reaches_apply h
            refine .look (b := reduced) rfl <| .bind fun _ => .bind fun {operand u} hu => ih ⟨?_, ?_⟩
            · exact hreduced.start
            · exact ((extends_unary _).run hu).stop

theorem extends_binary : Extends (binary read) := by
  refine fun s => .andThen (extends_unary s) fun {first u} hu => .ite (.here hu) ?_
  exact .look (show (get : Production State) u = .ok u u from rfl)
    (reachesAt_binaryFrom _ ⟨hu.start, hu.stop⟩)

/-! ## Conditions and assignments -/

theorem extends_conditional : Extends (conditional read) := by
  refine fun s => .look (show position s = .ok s.current.start s from rfl) ?_
  refine .andThen (extends_binary s) fun {test u} hu => .ite (.here hu) ?_
  refine .bind fun {hasMark v} hv => ?_
  cases hasMark with
  | true => exact Closes.reachesAt (.bind fun _ => .bind fun _ => .bind fun _ => .close fun _ => rfl)
  | false =>
      obtain ⟨f, heats, -⟩ := (inferInstance : Eats (eatMark .question)).eats
      rw [heats] at hv
      split at hv
      · cases hv
      · cases hv
        exact .here hu

/-- **An expression without commas starts at the cursor and reaches to the last token.** -/
theorem extends_assignment : Extends (assignment read) := by
  refine fun s => .look (show context s = .ok s.context s from rfl) ?_
  refine .look (show atName "yield" s = .ok _ s from rfl) (.ite ?_ ?_)
  · exact Covers.extends (.noting fun _ => .bind fun _ => .bind fun _ => .close fun _ => rfl) s
  · refine .look (show position s = .ok s.current.start s from rfl) ?_
    refine .andThen (extends_conditional s) fun {left u} hu => .ite (.here hu) ?_
    refine .look (show current u = .ok u.current u from rfl) ?_
    split
    · exact .here hu
    · exact Closes.reachesAt (.bind fun _ => .bind fun _ => .close fun _ => rfl)

theorem covers_bindingIdentifier : Covers Identifier.span bindingIdentifier := by
  refine fun s => .look (show current s = .ok s.current s from rfl) ?_
  split
  · refine .look (show isStrict s = .ok _ s from rfl) ?_
    refine .look (show context s = .ok s.context s from rfl) (.ite (coversAt_fail _ _) (coversAt_token rfl))
  · unfold failName
    split <;> exact coversAt_fail _ _

/-- Another context changes nothing about the regions. -/
theorem CoversAt.within {α : Type} {span : α → Span} {p : Production α} {change : Context → Context}
    (h : CoversAt { s with context := change s.context } span p) : CoversAt s span (within change p) := by
  refine ⟨fun {a t} ht => ?_⟩
  unfold Grammar.within at ht
  cases hu : p { s with context := change s.context } with
  | ok b u =>
      rw [hu] at ht
      cases ht
      exact (h.run hu :)
  | error e u =>
      rw [hu] at ht
      cases ht

theorem covers_bindingTarget : Covers Expression.span (bindingTarget read) := by
  refine fun s => .look (show atMark .leftBracket s = .ok _ s from rfl) (.ite ?_ ?_)
  · exact .within (covers_arrayLiteral read _)
  · refine .look (show atMark .leftBrace s = .ok _ s from rfl) (.ite ?_ ?_)
    · exact .within (covers_objectLiteral read _)
    · exact .map (covers_bindingIdentifier s) fun _ => rfl

end Operators

/-! ## The nonterminals -/

/-- All nonterminals that give expressions do. -/
structure Reader.Extends (read : Reader) : Prop where
  assignment : Grammar.Extends (read .assignment)
  unary : Grammar.Extends (read .unary)
  leftHandSide : Grammar.Extends (read .leftHandSide)
  construction : Grammar.Extends (read .construction)
  binding : Grammar.Extends (read .binding)

theorem extends_read (depth : Nat) : (read depth).Extends := by
  cases depth with
  | zero => exact ⟨fun _ => .failHere _, fun _ => .failHere _, fun _ => .failHere _, fun _ => .failHere _,
      fun _ => .failHere _⟩
  | succ depth => exact ⟨extends_assignment, extends_unary, extends_leftHandSide, extends_construction,
      covers_bindingTarget.extends⟩

section Extent

variable {text : List Char} {p : Production Expression} [hl : Lays text Piece.of p] {e : Expression}
  {t : State}

/-- An expression ends with the last token that was read. -/
theorem Reaches.stop_eq (h : Reaches e start t) (hs : s.Standing text) (ht : p s = .ok e t) :
    e.span.stop = t.lastStop := by
  obtain ⟨mid, -, hin, hmid, -⟩ := Laid.part_iff.mp (hl.run hs ht).2
  exact Nat.le_antisymm (Nat.le_trans (Laid.expression e hin).stop hmid) h.stop

/-- **An expression covers what was read of it**, from its first token to its last one. -/
theorem Extends.span_eq (h : Extends p) (hs : s.Standing text) (ht : p s = .ok e t) :
    e.span = Span.between s.current.start t.lastStop := by
  have hreaches := (h s).run ht
  rw [← hreaches.start, ← hreaches.stop_eq hs ht]
  exact (Span.between_start_stop _).symm

end Extent

end Grammar

end EcmaScript
