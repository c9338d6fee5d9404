import EcmaScript.Proofs.Layout.Module

/-!
# Statements in the order of the text

## Contents

* `declaration`, the loops and branches, `catchClause`: statements by kind.
* `lays_read`: the whole grammar reads in the order of the text.
* `lays_scriptStatement`: so does a statement of the script, also if it fails.
-/

namespace EcmaScript

namespace Grammar

-- An instance for a production is as large as the production.
set_option synthInstance.maxSize 2000

namespace Lays

variable {text : List Char} {closing : Bool} {lo : Nat} {read : Reader} [hr : Reader.Lays text read]
  {s : State}

/-! ## Declarations -/

instance : Opens text .everything false read read (declarator read) (declarator read) := by
  unfold declarator
  infer_instance

instance : Lays text Piece.of (declarator read) :=
  .of_opens hr.consumes fun _ => .noting fun _ => .bind fun _ => .skim fun _ =>
    .optional fun _ => .close fun _ => rfl

instance : Lays text (Piece.maybe Piece.of) (commaDeclarator read) :=
  .of_steps fun _ => .from_here <| .skim fun _ => .ite (.last fun _ => rfl) (.done rfl)

theorem declaration (kind : VariableKind) (s : State) :
    LaysAt text true s s.current.span.offset [] Piece.of (Grammar.declaration read kind) :=
  .noting fun _ => .skim fun _ => .bind fun _ => .bind fun _ => .close fun _ => rfl

theorem declarationStatement (kind : VariableKind) (he : s.current.isEnd = false) :
    LaysAt text true s s.current.span.offset [] Piece.of (Grammar.declarationStatement read kind) := by
  refine .testing (b := s.current.start) rfl <|
    .bind_opens true hr.consumes (fun _ => he) (declaration kind s) fun decl => .skim fun _ => ?_
  obtain ⟨kind, declarators, span⟩ := decl
  refine .reshape (Piece.each declarators) (fun hl => ?_) ?_
  · exact List.append_nil (Piece.each declarators) ▸ hl.unwrap.opened
  · exact .closeWithin (k := s.current.start) (Declaration.mk kind declarators) (fun _ => rfl) fun _ => rfl

/-! ## Loops -/

instance : Lays text (Piece.maybe Piece.of) (loopHead read) := by
  have declared {s : State} (kind : VariableKind) (he : s.current.isEnd = false) :
      LaysAt text false s s.current.span.offset [] (Piece.maybe Piece.of)
        (some <$> LoopHead.declaration <$> Grammar.declaration read kind) :=
    .map (G := Piece.of) (.wrap (.opens true hr.consumes (fun _ => he) (declaration kind s))
      fun _ => rfl) id
  refine .of_steps fun s => .look fun _ => .ite (fun _ => .done rfl) ?_
  refine .testing (b := s.current.isWord .varWord) rfl (.ite (fun h => declared _ (isEnd_of_isWord _ h)) ?_)
  refine .testing (b := s.current.isWord .constWord) rfl (.ite (fun h => declared _ (isEnd_of_isWord _ h)) ?_)
  refine .testing (b := s.current.isName "let" && !s.current.escaped) rfl <| .look fun _ => .ite (fun h => ?_) ?_
  · exact declared _ (isEnd_of_isName "let" (Bool.and_eq_true_iff.mp (Bool.and_eq_true_iff.mp h).1).1)
  · exact .map (G := Piece.of) (.wrap Lays.laysAt fun _ => rfl) id

section Loops

variable (start : Position)

theorem countingLoop (head : Option LoopHead) : LaysFrom text true start.offset
    (.leaf (.ofStart start 1) :: Piece.maybe Piece.of head) Piece.of (Grammar.countingLoop read head start) :=
  .skim fun _ => .skim fun _ => .optionalElse fun _ => .skim fun _ => .skim fun _ =>
    .optionalElse fun _ => .skim fun _ => .bind fun _ => .closeWord fun _ => rfl

theorem keyLoop (head : LoopHead) : LaysFrom text true start.offset
    (.leaf (.ofStart start 1) :: Piece.of head) Piece.of (Grammar.keyLoop read head start) :=
  .skim fun _ => .bind fun _ => .skim fun _ => .bind fun _ => .closeWord fun _ => rfl

theorem valueLoop (head : LoopHead) (isAwait : Bool) : LaysFrom text true start.offset
    (.leaf (.ofStart start 1) :: Piece.of head) Piece.of (Grammar.valueLoop read head isAwait start) :=
  .skim fun _ => .bind fun _ => .skim fun _ => .bind fun _ => .closeWord fun _ => rfl

end Loops

theorem forStatement (he : s.current.isEnd = false) :
    LaysAt text true s s.current.span.offset [] Piece.of (Grammar.forStatement read) := by
  let start := s.current.start
  refine .testing (b := start) rfl <| .opening he <| .skim fun _ => .skim fun _ => .bind fun head => ?_
  cases head with
  | some first =>
      refine .skim fun _ => .ite (keyLoop ..) <| .skim fun _ => .ite (valueLoop ..) ?_
      exact .ite (.failHere _) (countingLoop start (some first))
  | none => exact .ite (.failHere _) (countingLoop start none)

theorem whileStatement (s : State) :
    LaysAt text true s s.current.span.offset [] Piece.of (Grammar.whileStatement read) :=
  .noting fun _ => .skim fun _ => .bind fun _ => .bind fun _ => .close fun _ => rfl

theorem doStatement (s : State) :
    LaysAt text true s s.current.span.offset [] Piece.of (Grammar.doStatement read) :=
  .noting fun _ => .skim fun _ => .bind fun _ => .skim fun _ => .bind fun _ => .skim fun _ =>
    .close fun _ => rfl

/-! ## Branches -/

theorem ifStatement (s : State) :
    LaysAt text true s s.current.span.offset [] Piece.of (Grammar.ifStatement read) :=
  .noting fun _ => .skim fun _ => .bind fun _ => .bind fun _ => .skim fun _ => .optional fun _ =>
    .close fun _ => rfl

instance : Lays text (Piece.maybe Piece.of) (caseTest read) :=
  .of_steps fun _ => .from_here <| .skim fun _ => .ite (.last fun _ => rfl) <| .skim fun _ =>
    .ite (.done rfl) (.failHere _)

instance : Lays text (Piece.maybe Piece.of) (switchCase read) :=
  .of_offers hr.consumes fun _ => .noting fun _ => .skim fun _ => .ite (.done rfl) <| .bind fun _ =>
    .skim fun _ => .bind fun _ => .closeAs fun hl => .single hl (hl.le (List.cons_ne_nil _ _))

theorem switchStatement (s : State) :
    LaysAt text true s s.current.span.offset [] Piece.of (Grammar.switchStatement read) :=
  .noting fun _ => .skim fun _ => .bind fun _ => .skim fun _ => .bind fun _ => .skim fun _ =>
    .close fun _ => rfl

/-- What stands behind the word `catch`. -/
def catchRest (read : Reader) : Production (Option Expression × Block) := do
  let target ←
    if ← eatMark .leftParen then
      let target ← bindingTarget read
      let _ ← expectMark .rightParen
      pure (some target)
    else pure none
  let body ← block read
  return (target, body)

theorem catchRest_bind (f : Option Expression → Block → Production CatchClause) : (do
    let target ←
      if ← eatMark .leftParen then
        let target ← bindingTarget read
        let _ ← expectMark .rightParen
        pure (some target)
      else pure none
    let body ← block read
    f target body) = catchRest read >>= fun (target, body) => f target body := by
  unfold catchRest
  rw [bind_assoc]
  refine bind_congr fun b => ?_
  cases b <;> simp

instance : Lays text (fun x => Piece.maybe Piece.of x.1 ++ Piece.of x.2) (catchRest read) :=
  .of_steps fun _ => .from_here <| .skim fun _ =>
    .ite (.bind fun _ => .skim fun _ => .step (.bind fun _ => .done rfl)) (.step (.bind fun _ => .done rfl))

/-- The gap of a catch clause reaches up to the token behind its word. -/
theorem catchClause (s : State) :
    LaysAt text true s s.current.span.offset [] Piece.of (Grammar.catchClause read) := by
  let word := s.current
  let gapStart : Position := ⟨word.span.line, word.span.column + word.span.length, word.span.stop⟩
  let gap := Span.between gapStart s.advanced.current.span.offset
  have hrun : Grammar.catchClause read s = (catchRest read >>= fun (target, body) => do
      return CatchClause.mk target gap body (← spanFrom word.start)) s.advanced :=
    congrFun (catchRest_bind fun target body => do
      return CatchClause.mk target gap body (← spanFrom word.start)) s.advanced
  refine ⟨fun {t _} hs _ ht => ?_⟩
  rw [hrun] at ht
  obtain ⟨⟨target, body⟩, u, hu, ht⟩ := exists_of_bind_ok ht
  cases ht
  have hm : Moves text s s.advanced := Quiet.run (p := skip) hs rfl
  obtain ⟨hm', hrest⟩ := Lays.run hm.standing hu
  have hstop : gap.stop = s.advanced.current.span.offset := Span.stop_between hm.standing.behind
  have hlaid : Laid word.start.offset (.gap gap :: (Piece.maybe Piece.of target ++ Piece.of body))
      t.lastStop :=
    Laid.gap_iff.mpr ⟨word.span.offset_le_stop, hstop ▸ hrest.le (by simp), hstop.symm ▸ hrest⟩
  exact ⟨hm.trans hm', fun hlt => .single (.between (hlt rfl) hlaid) (Nat.le_of_lt (hlt rfl))⟩

instance : Opens text .everything true read read (Grammar.catchClause read) (Grammar.catchClause read) := by
  unfold Grammar.catchClause
  infer_instance

theorem tryStatement (s : State) :
    LaysAt text true s s.current.span.offset [] Piece.of (Grammar.tryStatement read) := by
  refine .noting fun start => .skim fun _ => .bind fun body => ⟨fun s => ?_⟩
  have hrest (handler : Option CatchClause) : LaysFrom text true start.offset
      (Piece.of body ++ Piece.maybe Piece.of handler) Piece.of (do
        let finalizer ← if ← eatWord .finallyWord then some <$> block read else pure none
        if handler.isNone && finalizer.isNone then failHere (.expected "catch")
        return Statement.try body handler finalizer (← spanFrom start)) :=
    .skim fun _ => .optional fun _ => .ite (.stopped (failHere_eq _)) (.close fun _ => rfl)
  refine .testing (b := s.current.isWord .catchWord) rfl (.ite (fun h => ?_) (.from_here <| .step ?_))
  · have he := isEnd_of_isWord .catchWord h
    exact .bind_opens true (G := Piece.maybe Piece.of) hr.consumes (fun _ => he)
      (.map (G := Piece.of) (catchClause s) id) hrest
  · exact List.append_nil (Piece.of body) ▸ hrest none

/-! ## Jumps -/

instance : Lays text (Piece.maybe Piece.identifier) jumpLabel := by
  refine .of_steps fun _ => .from_here <| .skim fun _ => .ite (.done rfl) ?_
  split
  · exact .last fun _ => rfl
  · exact .failHere _
  · exact .done rfl

theorem jump {make : Option Identifier → Span → Statement}
    (h : ∀ label r, (make label r).pieces = [.region r (Piece.maybe Piece.identifier label)]) (s : State) :
    LaysAt text true s s.current.span.offset [] Piece.of (Grammar.jump make) :=
  .noting fun _ => .skim fun _ => .bind fun _ => .skim fun _ => .close fun _ => h _ _

theorem returnStatement (s : State) :
    LaysAt text true s s.current.span.offset [] Piece.of (Grammar.returnStatement read) :=
  .noting fun _ => .skim fun _ => .skim fun _ => .optionalElse fun _ => .skim fun _ => .close fun _ => rfl

theorem throwStatement (s : State) :
    LaysAt text true s s.current.span.offset [] Piece.of (Grammar.throwStatement read) :=
  .noting fun _ => .skim fun _ => .skim fun _ => .ite (.stopped (failHere_eq _)) <| .bind fun _ =>
    .skim fun _ => .close fun _ => rfl

/-! ## Other statements -/

theorem withStatement (s : State) :
    LaysAt text true s s.current.span.offset [] Piece.of (Grammar.withStatement read) :=
  .noting fun _ => .skim fun _ => .bind fun _ => .bind fun _ => .close fun _ => rfl

theorem debuggerStatement (s : State) :
    LaysAt text true s s.current.span.offset [] Piece.of Grammar.debuggerStatement :=
  .noting fun _ => .skim fun _ => .skim fun _ => .close fun _ => rfl

theorem emptyStatement (s : State) :
    LaysAt text true s s.current.span.offset [] Piece.of Grammar.emptyStatement :=
  .noting fun _ => .skim fun _ => .close fun _ => rfl

instance : Lays text Piece.of (expressionStatement read) :=
  .of_opens hr.consumes fun _ => .noting fun _ => .bind fun _ => .skim fun _ => .close fun _ => rfl

instance : Lays text Piece.of (labeledStatement read) :=
  .of_opens hr.consumes fun _ => .noting fun _ => .bind fun _ => .skim fun _ => .bind fun _ =>
    .close fun _ => rfl

theorem identifierStatement (he : s.current.isEnd = false) (place : Place) (name : String) :
    LaysAt text true s s.current.span.offset [] Piece.of
      (Grammar.identifierStatement read place name) := by
  refine .testing (b := s.current.start) rfl <| .look fun _ => .ite (fun _ => ?_) (.ite (fun _ => ?_) ?_)
  · exact .look fun _ => declarationStatement _ he
  · exact .look fun _ => .from_start <| .skim fun _ => .wrap (functionDeclaration ..) fun _ => rfl
  · exact .ite (fun _ => Lays.laysAt) Lays.laysAt

theorem keywordStatement (he : s.current.isEnd = false) (place : Place) (word : Keyword) :
    LaysAt text true s s.current.span.offset [] Piece.of
      (Grammar.keywordStatement read place word) := by
  unfold Grammar.keywordStatement
  split
  · exact declarationStatement _ he
  · exact .look fun _ => declarationStatement _ he
  · exact ifStatement s
  · exact forStatement he
  · exact whileStatement s
  · exact doStatement s
  · exact jump (fun _ _ => rfl) s
  · exact jump (fun _ _ => rfl) s
  · exact returnStatement s
  · exact withStatement s
  · exact switchStatement s
  · exact throwStatement s
  · exact tryStatement s
  · exact debuggerStatement s
  · exact .noting fun _ => .wrap (functionDeclaration ..) fun _ => rfl
  · exact .look fun _ => .wrap Lays.laysAt fun _ => rfl
  · exact .look fun _ => .ite (fun _ => importDeclaration s) Lays.laysAt
  · exact .ite (fun _ => exportDeclaration s) Lays.laysAt
  · exact Lays.laysAt

instance (place : Place) : Lays text Piece.of (statement read place) := by
  refine .of_opens hr.consumes fun s => .seeing ?_
  split
  · exact .wrap Lays.laysAt fun _ => rfl
  · exact emptyStatement s
  next hk => exact keywordStatement (isEnd_of_kind hk nofun) ..
  next hk => exact .ite (fun _ => Lays.laysAt) (identifierStatement (isEnd_of_kind hk nofun) ..)
  · exact Lays.laysAt

end Lays

/-! ## The whole grammar -/

/-- **Every nonterminal reads in the order of the text**, whatever the depth. -/
instance lays_read {text : List Char} (depth : Nat) : Reader.Lays text (read depth) := by
  induction depth with
  | zero =>
      have (n : Nonterminal) [IsPart n.Result] : Lays text Piece.of (read 0 n) :=
        .of_steps fun _ => .failHere .primaryExpressionExpected
      exact ⟨consumes_read 0, fun place => this (.statement place), this .assignment, this .unary,
        this .leftHandSide, this .construction, this .binding⟩
  | succ depth ih =>
      exact ⟨consumes_read _, fun place => inferInstanceAs (Lays text Piece.of (statement (read depth) place)),
        inferInstanceAs (Lays text Piece.of (assignment (read depth))),
        inferInstanceAs (Lays text Piece.of (unary (read depth))),
        inferInstanceAs (Lays text Piece.of (leftHandSide (read depth))),
        inferInstanceAs (Lays text Piece.of (construction (read depth))),
        inferInstanceAs (Lays text Piece.of (bindingTarget (read depth)))⟩

end Grammar

end EcmaScript
