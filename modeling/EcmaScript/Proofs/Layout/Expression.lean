import EcmaScript.Proofs.Layout.Function

/-!
# Expressions in the order of the text

## Contents

* `primary`: names, literals, parentheses and what a reserved word can start.
* `suffixes`, `leftHandSide`, `construction`: accesses, calls and `new`.
* `stackPieces`, `binaryFrom`: operators that wait for their right operands.
* `assignment`: conditions, assignments and `yield`.
-/

namespace EcmaScript

namespace Grammar

-- An instance for a production is as large as the production.
set_option synthInstance.maxSize 2000

namespace Lays

variable {text : List Char} {closing : Bool} {lo hi : Nat} {read : Reader} [hr : Reader.Lays text read]
  {s : State}

/-! ## Primary expressions -/

theorem arrowOnLine (params : Parameters) (isAsync : Bool) (start : Position) :
    LaysFrom text true start.offset (parametersPieces params) Piece.of
      (Grammar.arrowOnLine read params isAsync start) :=
  .skim fun _ => .ite (.stopped (failHere_eq _)) (arrowBody ..)

/-- A name as a list of parameters. -/
theorem single_parameter (name : Identifier) (h : Laid lo (Piece.identifier name) hi) :
    Laid lo (parametersPieces (.single name)) hi := by
  obtain ⟨hlo, hpos, hhi⟩ := Laid.leaf_iff.mp h
  have hname : Laid name.span.offset (Expression.identifier name).pieces name.span.stop :=
    Laid.leaf_iff.mpr ⟨Nat.le_refl _, hpos, Nat.le_refl _⟩
  exact Laid.region_alone.mpr ⟨hlo, hpos, hname.single name.span.offset_le_stop, hhi⟩

theorem reference (he : s.current.isEnd = false) (name : String) :
    LaysAt text true s s.current.span.offset [] Piece.of (Grammar.reference read name s.current) := by
  refine .look fun _ => .look fun _ => .ite (fun _ => .stopped (fail_eq _ _)) <| .take he <| .skim fun _ => ?_
  refine .ite ?_ (.made rfl)
  exact .reshape _ (single_parameter ⟨name, s.current.span⟩) (arrowOnLine _ _ s.current.start)

theorem asyncArrow (s : State) : LaysAt text true s s.current.span.offset [] Piece.of
    (Grammar.asyncArrow read s.current.start) :=
  .from_start <| .skim fun _ => .bind fun name => .skim fun _ =>
    .ite (.reshape _ (single_parameter name) (arrowBody ..)) (.stopped (failHere_eq _))

/-- The parameters of a call stand behind what is called. -/
theorem arguments_opened {callee : Expression} {items : List Expression} {span : Span}
    (h : Laid lo (Piece.of callee ++ [.region span (Piece.each items)]) hi) :
    Laid lo (Piece.of callee ++ Piece.each items) hi := by
  obtain ⟨mid, hlo, hcallee, hmid, hitems⟩ := Laid.part_iff.mp h
  exact .part hlo hcallee hmid (List.append_nil (Piece.each items) ▸ hitems.opened)

theorem asyncCallOrArrow (he : s.current.isEnd = false) :
    LaysAt text true s s.current.span.offset [] Piece.of
      (Grammar.asyncCallOrArrow read s.current.span) := by
  let start := s.current.span.start
  refine .take he <| .bind fun (items, trailingComma, span) => .skim fun _ => .ite ?_ ?_
  · refine .reshape _ (fun hl => ?_) (arrowOnLine ⟨items, trailingComma, span⟩ true start)
    obtain ⟨hlo, -, -, -, hrest⟩ := Laid.region_iff.mp hl
    exact hrest.mono (Nat.le_trans hlo (Span.offset_le_stop _)) (Nat.le_refl _)
  · let callee : Expression := .identifier ⟨"async", s.current.span⟩
    refine .reshape (Piece.of callee ++ Piece.each items) (fun hl => ?_) ?_
    · obtain ⟨hlo, hpos, -, hstop, hrest⟩ := Laid.region_iff.mp hl
      have hcallee : Laid start.offset callee.pieces s.current.span.stop :=
        Laid.leaf_iff.mpr ⟨hlo, hpos, Nat.le_refl _⟩
      exact arguments_opened (.part (Nat.le_trans hlo (Span.offset_le_stop _)) hcallee hstop hrest)
    · exact .close (k := start) fun _ => rfl

theorem identifierExpression (he : s.current.isEnd = false) (name : String) :
    LaysAt text true s s.current.span.offset [] Piece.of (Grammar.identifierExpression read name) := by
  refine .seeing (.ite (fun _ => .look fun next => ?_) (reference he name))
  refine .ite (fun _ => reference he name) (.ite (fun _ => ?_) ?_)
  · exact .from_start <| .skim fun _ => .wrap (functionExpression ..) fun _ => rfl
  · split
    · exact asyncArrow s
    · exact asyncCallOrArrow he
    · exact reference he name

/-- What a list in parentheses stands for are its items, joined by commas. -/
theorem parenthesized?_eq {items : List Expression} {e : Expression} (he : parenthesized? items = some e) :
    ∃ first others, items = first :: others ∧ e = .joined first others := by
  unfold parenthesized? at he
  cases items with
  | nil => cases he
  | cons first others =>
      dsimp only at he
      split at he
      · cases he
      · refine ⟨first, others, rfl, ?_⟩
        unfold Expression.joined
        cases hlast : others.getLast? with
        | none | some last =>
            rw [hlast] at he
            cases he
            rfl

/-- It stands where the list does. -/
theorem parenthesized {items : List Expression} {e : Expression} (he : parenthesized? items = some e)
    (h : Laid lo (Piece.each items) hi) (hle : lo ≤ hi) : Laid lo (Piece.of e) hi := by
  obtain ⟨first, others, rfl, rfl⟩ := parenthesized?_eq he
  exact h.joined hle

instance : Lays text Piece.of (parenthesizedOrArrow read) := by
  refine .of_opens hr.consumes fun _ => .noting fun start => .bind fun (items, comma?, span) =>
    .skim fun _ => .ite ?_ ?_
  · refine .skim fun _ => .ite (.stopped (failHere_eq _)) ?_
    have hbody : LaysFrom text true start.offset _ Piece.of
        (Grammar.arrowBody read ⟨items, comma?.isSome, span⟩ false start) := arrowBody ..
    cases comma? with
    | some comma => exact .skim fun _ => hbody
    | none => exact hbody
  · split
    next inner he =>
      refine .pure fun _ hl => ?_
      obtain ⟨hlo, hpos, hin, hhi⟩ := Laid.region_alone.mp hl
      have hparen := Laid.region_alone.mpr ⟨hlo, hpos, parenthesized he hin span.offset_le_stop, hhi⟩
      exact Laid.single (p := IsPart.part (Expression.paren inner span)) hparen
        (hl.le (List.cons_ne_nil _ _))
    next => exact .fail _ _

theorem importExpression (s : State) : LaysAt text true s s.current.span.offset [] Piece.of
    (Grammar.importExpression read s.current.start) := by
  refine .from_start <| .skim fun _ => .skim fun _ => .ite ?_ ?_
  · exact .skim fun _ => .close fun _ => rfl
  · exact .skim fun _ => .bind fun _ => .skim fun _ => .close fun _ => rfl

theorem superReference (he : s.current.isEnd = false) :
    LaysAt text closing s s.current.span.offset [] Piece.of Grammar.superReference :=
  .taking he <| .skim fun _ => .ite (.made rfl) (.failHere _)

theorem keywordExpression (he : s.current.isEnd = false) (word : Keyword) :
    LaysAt text true s s.current.span.offset [] Piece.of
      (Grammar.keywordExpression read word s.current) := by
  unfold Grammar.keywordExpression
  split
  case h_5 => exact .from_start <| .wrap (functionExpression ..) fun _ => rfl
  case h_6 => exact .wrap Lays.laysAt fun _ => rfl
  case h_7 => exact superReference he
  case h_8 => exact importExpression s
  case h_9 => exact .fail _ _
  all_goals exact .take he (.made rfl)

theorem regExpLiteral (h : Rereading.regExp.applies s.current = true) :
    LaysAt text closing s s.current.span.offset [] Piece.of Grammar.regExpLiteral := by
  refine .of_eq (Alike.regExpLiteral_eq h) (.look fun _ => .from_here ?_)
  refine .rereading (fun token _ => ?_) fun token hend => ?_
  · split
    · exact .made rfl
    · exact .fail _ _
  · rw [Opens.kind_of_isEnd hend]
    exact .fail _ _

theorem privateOperand (he : s.current.isEnd = false) (name : String) :
    LaysAt text closing s s.current.span.offset [] Piece.of (Grammar.privateOperand name s.current) :=
  .look fun _ => .look fun _ => .ite (fun _ => .stopped (fail_eq _ _)) (.take he (.made rfl))

instance : Lays text Piece.of (primary read) := by
  refine .of_opens hr.consumes fun s => .seeing ?_
  split
  next hk => exact identifierExpression (isEnd_of_kind hk nofun) _
  next hk => exact .take (isEnd_of_kind hk nofun) (.made rfl)
  next hk => exact .take (isEnd_of_kind hk nofun) (.made rfl)
  next hk => exact .take (isEnd_of_kind hk nofun) (.made rfl)
  next hk =>
    refine .bind_opens true hr.consumes (fun _ => isEnd_of_kind hk nofun) (template s) fun _ => ?_
    exact .made rfl
  next hk => exact regExpLiteral (by simp [Rereading.applies, Token.isMark, hk])
  next hk => exact regExpLiteral (by simp [Rereading.applies, Token.isMark, hk])
  next => exact Lays.laysAt
  next => exact arrayLiteral s
  next => exact objectLiteral s
  next hk => exact keywordExpression (isEnd_of_kind hk nofun) _
  next hk => exact privateOperand (isEnd_of_kind hk nofun) _
  next => exact .fail _ _

/-! ## Accesses and calls -/

instance : Lays text (fun n => [.leaf n.identifier.span]) memberName := by
  refine .of_steps fun s => .seeing ?_
  split
  next hk => exact .take (isEnd_of_kind hk nofun) (.done rfl)
  next => exact .map (G := Piece.identifier) Lays.laysAt id

section Suffixes

variable (receiver : Expression) (optional callsAllowed : Bool)

theorem namedAccess : LaysFrom text closing lo (Piece.of receiver) Piece.of
    (Grammar.namedAccess receiver optional) := .bind fun _ => .made rfl

theorem computedAccess : LaysFrom text closing lo (Piece.of receiver) Piece.of
    (Grammar.computedAccess read receiver optional) :=
  .skim fun _ => .bind fun _ => .skim fun _ => .encloseFrom fun _ => .made rfl

theorem callOf : LaysFrom text closing lo (Piece.of receiver) Piece.of
    (Grammar.callOf read receiver optional) :=
  .bind fun _ => .reshape _ arguments_opened (.encloseFrom fun _ => .made rfl)

theorem optionalSuffix : LaysFrom text closing lo (Piece.of receiver) Piece.of
    (Grammar.optionalSuffix read receiver) := by
  refine .skim fun _ => ?_
  split
  · exact callOf ..
  · exact computedAccess ..
  · exact .failHere _
  · exact .failHere _
  · exact namedAccess ..

/-- What there is behind an operand, if there is something. -/
abbrev suffixPieces (receiver : Expression) : Option Expression → List Piece
  | some next => Piece.of next
  | none => Piece.of receiver

theorem suffix? : LaysFrom text closing lo (Piece.of receiver) (suffixPieces receiver)
    (Grammar.suffix? read callsAllowed receiver) := by
  refine ⟨fun s => .seeing ?_⟩
  split
  next => exact .from_here <| .skim fun _ => .map (namedAccess ..) id
  next =>
    refine .from_here <| .ite (.stopped (failHere_eq _)) <| .ite (.stopped (failHere_eq _)) ?_
    exact .skim fun _ => .map (optionalSuffix ..) id
  next => exact .from_here <| .map (computedAccess ..) id
  next => exact .from_here <| .ite (.map (callOf ..) id) (.done rfl)
  next hk =>
    refine .ite (fun _ => .stopped (failHere_eq _)) ?_
    refine .bind_opens true hr.consumes (fun _ => isEnd_of_kind hk nofun) (template s) fun _ => ?_
    exact .encloseFrom fun _ => .formed rfl (.done rfl)
  next => exact .done rfl

theorem suffixesFrom (limit : Nat) (receiver : Expression) :
    LaysFrom text closing lo (Piece.of receiver) Piece.of
      (Grammar.suffixesFrom read callsAllowed limit receiver) := by
  induction limit generalizing receiver with
  | zero => exact .done rfl
  | succ limit ih =>
      refine .andThen (suffix? receiver callsAllowed) fun found => ?_
      cases found with
      | some next => exact ih next
      | none => exact .done rfl

theorem suffixes : LaysFrom text closing lo (Piece.of receiver) Piece.of
    (Grammar.suffixes read callsAllowed receiver) := .skim fun _ => suffixesFrom ..

end Suffixes

instance : Lays text Piece.of (construction read) := by
  refine .of_opens hr.consumes fun _ => .noting fun start => .skim fun _ => .skim fun _ => .ite ?_ ?_
  · exact .skim fun _ => .close fun _ => rfl
  · refine .skim fun _ => .either fun operand => .andThen (suffixes operand false) fun callee => ?_
    refine .skim fun _ => .ite ?_ (.close fun _ => rfl)
    exact .bind fun _ => .reshape _ arguments_opened (.close fun _ => rfl)

instance : Lays text Piece.of (leftHandSide read) :=
  .of_opens hr.consumes fun _ => .from_here <| .skim fun _ => .either fun operand =>
    .ite (.done rfl) (suffixes operand true)

/-! ## Operators on one operand -/

instance : Lays text Piece.of (updatable read) := by
  refine .of_opens hr.consumes fun _ => .noting fun _ => .bind fun _ => .skim fun _ => ?_
  split
  · exact .ite (.done rfl) (.skim fun _ => .close fun _ => rfl)
  · exact .done rfl

theorem isEnd_of_atAwaitOperator {s : State} (h : atAwaitOperator s = .ok true s) :
    s.current.isEnd = false := by
  have hname : atName "await" s = .ok (s.current.isName "await" && !s.current.escaped) s := rfl
  unfold atAwaitOperator at h
  rw [bind_ok hname] at h
  cases hn : s.current.isName "await" with
  | true => exact isEnd_of_isName "await" hn
  | false =>
      rw [hn] at h
      cases h

instance : Lays text Piece.of (unary read) := by
  have operated {s : State} {make : Expression → Span → Expression}
      (h : ∀ e r, (make e r).pieces = [.region r (Piece.of e)]) :
      LaysAt text true s s.current.span.offset [] Piece.of (do
        skip
        let argument ← read .unary
        return make argument (← spanFrom s.current.start)) :=
    .from_start <| .skim fun _ => .bind fun _ => .close fun _ => h _ _
  refine .of_opens hr.consumes fun s => .seeing ?_
  split
  · exact operated fun _ _ => rfl
  · split
    · exact operated fun _ _ => rfl
    · refine .looking fun b hb => .ite (fun h => ?_) Lays.laysAt
      exact .opening (isEnd_of_atAwaitOperator (h ▸ hb)) <| .bind fun _ => .closeWord fun _ => rfl

/-! ## Operators on two operands -/

/-- Operands stand in the text as they stand in the stack. -/
abbrev stackPieces (stack : OperatorStack) : List Piece :=
  stack.waiting.reverse.flatMap (Piece.of ·.left) ++ Piece.of stack.top

theorem apply {w : WaitingOperator} {right e : Expression} (he : w.apply right = .ok e)
    (h : Laid lo (Piece.of w.left ++ Piece.of right) hi) : Laid lo (Piece.of e) hi := by
  have hle := h.le (List.cons_ne_nil _ _)
  unfold WaitingOperator.apply at he
  split at he
  · cases he
  · cases he
    obtain ⟨hlaid, hstop⟩ := h.to_expression hle
    exact (hlaid.from_expression.mono (Nat.le_refl _) hstop).single hle

theorem reduce {ready : BinaryOperator → Bool} {waiting : List WaitingOperator} {top : Expression}
    {stack : OperatorStack} (hstack : OperatorStack.reduce ready waiting top = .ok stack)
    (h : Laid lo (stackPieces ⟨top, waiting⟩) hi) : Laid lo (stackPieces stack) hi := by
  -- on the operators that wait, for whatever stands on their right
  induction waiting generalizing top with
  | nil =>
      cases hstack
      exact h
  | cons w rest ih =>
      unfold OperatorStack.reduce at hstack
      split at hstack
      · cases he : w.apply top with
        | error _ =>
            rw [he] at hstack
            cases hstack
        | ok e =>
            rw [he] at hstack
            have hle := h.le (by simp [stackPieces])
            have hsplit : stackPieces ⟨top, w :: rest⟩ =
                rest.reverse.flatMap (Piece.of ·.left) ++ (Piece.of w.left ++ Piece.of top) := by
              simp [stackPieces]
            rw [hsplit] at h
            exact ih hstack (h.replace hle (apply he))
      · cases hstack
        exact h

theorem meet {stack reduced : OperatorStack} {next : BinaryOperator} (hmeet : stack.meet next = .ok reduced)
    (h : Laid lo (stackPieces stack) hi) : Laid lo (stackPieces reduced) hi := by
  unfold OperatorStack.meet at hmeet
  cases hreduce : OperatorStack.reduce (precedes next) stack.waiting stack.top with
  | error _ =>
      rw [hreduce] at hmeet
      cases hmeet
  | ok top =>
      rw [hreduce] at hmeet
      have htop := reduce hreduce h
      simp only [bind, Except.bind] at hmeet
      split at hmeet
      · split at hmeet <;> cases hmeet
        exact htop
      · cases hmeet
        exact htop

theorem waiting_of_reduce {waiting : List WaitingOperator} {top : Expression} {stack : OperatorStack}
    (h : OperatorStack.reduce (fun _ => true) waiting top = .ok stack) : stack.waiting = [] := by
  induction waiting generalizing top with
  | nil =>
      cases h
      rfl
  | cons w rest ih =>
      cases he : w.apply top with
      | error _ =>
          rw [OperatorStack.reduce, if_pos rfl, he] at h
          cases h
      | ok e =>
          rw [OperatorStack.reduce, if_pos rfl, he] at h
          exact ih h

theorem finish {stack : OperatorStack} {e : Expression} (hfinish : stack.finish = .ok e)
    (h : Laid lo (stackPieces stack) hi) : Laid lo (Piece.of e) hi := by
  unfold OperatorStack.finish at hfinish
  cases hreduce : OperatorStack.reduce (fun _ => true) stack.waiting stack.top with
  | error _ =>
      rw [hreduce] at hfinish
      cases hfinish
  | ok top =>
      rw [hreduce] at hfinish
      cases hfinish
      -- no operator waits any more
      have hempty := waiting_of_reduce hreduce
      have htop := reduce hreduce h
      rwa [stackPieces, hempty] at htop

theorem lifted {α β : Type} {ps : List Piece} {F : α → List Piece} {x : Except Failure β}
    {f : β → Production α} (h : ∀ b, x = .ok b → LaysFrom text closing lo ps F (f b)) :
    LaysFrom text closing lo ps F (liftStack x >>= f) := by
  cases x with
  | ok b => exact .step (h b rfl)
  | error failure => exact .stopped (e := fun _ => failure) fun _ => rfl

theorem binaryFrom (limit : Nat) (stack : OperatorStack) : LaysFrom text closing lo (stackPieces stack)
    Piece.of (Grammar.binaryFrom read limit stack) := by
  have hend (stack : OperatorStack) : LaysFrom text closing lo (stackPieces stack) Piece.of
      (liftStack stack.finish) := by
    rw [← bind_pure (liftStack stack.finish)]
    exact lifted fun e he => .pure fun _ hl => finish he hl
  -- on the bound, for whatever was read before
  induction limit generalizing stack with
  | zero => exact hend stack
  | succ limit ih =>
      refine .skim fun token => .skim fun _ => ?_
      split
      · exact hend stack
      next operator _ =>
        refine lifted fun reduced hmeet => .reshape _ (meet hmeet) <| .skim fun _ => .bind fun operand => ?_
        have hnext := ih ⟨operand, ⟨reduced.top, operator, token.start⟩ :: reduced.waiting⟩
        rw [stackPieces, List.reverse_cons, List.flatMap_append, List.flatMap_singleton] at hnext
        exact hnext

instance : Lays text Piece.of (binary read) :=
  .of_opens hr.consumes fun _ => .from_here <| .bind fun first =>
    .ite (.done rfl) (.skim fun _ => binaryFrom _ ⟨first, []⟩)

/-! ## Conditions and assignments -/

instance : Lays text Piece.of (conditional read) := by
  refine .of_opens hr.consumes fun _ => .noting fun _ => .bind fun _ => .ite (.done rfl) <| .skim fun _ => ?_
  exact .ite (.bind fun _ => .skim fun _ => .bind fun _ => .close fun _ => rfl) (.done rfl)

instance : Lays text (fun x => Piece.maybe Piece.of x.1) (yieldOperand read) := by
  refine .of_steps fun _ => .from_here <| .skim fun _ => .ite (.done rfl) <| .skim fun _ => .ite ?_ ?_
  · exact .skim fun _ => .ite (.bind fun _ => .done rfl) (.stopped (failHere_eq _))
  · exact .skim fun _ => .ite (.bind fun _ => .done rfl) (.done rfl)

theorem yieldExpression (s : State) :
    LaysAt text true s s.current.span.offset [] Piece.of (Grammar.yieldExpression read) :=
  .noting fun _ => .skim fun _ => .bind fun _ => .close fun _ => rfl

instance : Lays text Piece.of (assignment read) := by
  refine .of_opens hr.consumes fun s => .look fun _ => .look fun _ => .ite (fun _ => yieldExpression s) ?_
  refine .noting fun _ => .bind fun left => .ite (.done rfl) <| .skim fun _ => ?_
  split
  · exact .done rfl
  · exact .skim fun _ => .bind fun _ => .close fun _ => rfl

end Lays

end Grammar

end EcmaScript
