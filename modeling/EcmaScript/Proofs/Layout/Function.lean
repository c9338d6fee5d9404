import EcmaScript.Proofs.Layout.Literal

/-!
# Functions, objects and classes in the order of the text

## Contents

* `functionRest`, `functionDeclaration`, `functionExpression`, `arrowBody`: functions by kind.
* `objectLiteral`, `bindingTarget`: literals with methods, and what can be bound.
* `classDefinition`: classes.
-/

namespace EcmaScript

namespace Grammar

-- An instance for a production is as large as the production.
set_option synthInstance.maxSize 2000

namespace Lays

variable {text : List Char} {closing : Bool} {lo : Nat} {read : Reader} [hr : Reader.Lays text read]

/-! ## Functions -/

theorem restParameter (start : Position) : LaysFrom text true start.offset []
    (fun x : Expression × Bool => Piece.of x.1) (Grammar.restParameter read start) := by
  refine .bind fun target => .skim fun _ => .ite (.stopped (failHere_eq _)) ?_
  refine .enclose Laid.lt_of_alone fun _ => .formed rfl <| .skim fun _ => .ite ?_ (.done rfl)
  exact .skim fun _ => .skim fun _ => .ite (.stopped (fail_eq _ _)) (.done rfl)

theorem plainParameter (start : Position) :
    LaysFrom text true start.offset [] Piece.of (Grammar.plainParameter read start) :=
  .bind fun _ => .skim fun _ => .ite (.bind fun _ => .close fun _ => rfl) (.done rfl)

theorem parameterItems (limit : Nat) (list : ItemList) : LaysFrom text closing lo (itemPieces list)
    itemPieces (Grammar.parameterItems read limit list) := by
  -- on the bound, for the parameters that were read before
  induction limit generalizing list with
  | zero => exact .done rfl
  | succ limit ih =>
      refine ⟨fun s => .seeing (.ite (fun _ => .done rfl) (.eating (fun hm => ?_) ?_))⟩
      · refine .inner (Token.isEnd_of_isMark hm) (restParameter _) fun (rest, more) => ?_
        exact itemPieces_snoc list rest ▸ .ite (ih _) (.done rfl)
      · refine .bind_opens false hr.consumes nofun (.from_start (plainParameter _)) fun e => ?_
        rw [itemPieces_snoc]
        refine .skim fun _ => .ite (.done rfl) <| .skim fun comma => .skim fun _ => ?_
        exact .ite (.stopped (failHere_eq _)) <| .skim fun _ => .ite (.skim fun _ => .done rfl) (ih _)

/-- Parameters with their region. -/
abbrev parametersPieces (p : Parameters) : List Piece := [.region p.span (Piece.each p.items)]

instance (isAsync isGenerator : Bool) : Opens text .everything false read read
    (parameters read isAsync isGenerator) (parameters read isAsync isGenerator) := by
  have hs := @Alike.parameterItems read read
  unfold parameters insideFunction allowingIn
  refine @Opens.instWithin _ _ _ _ _ _ _ _ _ (@Opens.instWithin _ _ _ _ _ _ _ _ _ ?_)
  refine Opens.look_bind fun start => Opens.bind inferInstance inferInstance fun _ => ?_
  exact Alike.get_bind (fun hl _ => by simp only [hl, and_self]) fun _ => inferInstance

instance (isAsync isGenerator : Bool) :
    Lays text parametersPieces (parameters read isAsync isGenerator) := by
  refine .of_opens hr.consumes fun _ => ?_
  unfold parameters insideFunction allowingIn
  exact .within <| .within <| .noting fun _ => .skim fun _ => .skim fun _ =>
    .andThen (parameterItems _ {}) fun _ => .skim fun _ => .closeAs id

instance (isAsync isGenerator : Bool) : Lays text Piece.of (functionBody read isAsync isGenerator) :=
  inferInstanceAs (Lays text Piece.of (insideFunction isAsync isGenerator (allowingIn (block read))))

theorem functionRest (name : Option Identifier) (kind : FunctionKind) (isAsync isGenerator : Bool)
    (start : Position) : LaysFrom text true start.offset (Piece.maybe Piece.identifier name) Piece.of
      (Grammar.functionRest read name kind isAsync isGenerator start) :=
  .bind fun _ => .bind fun _ => .close fun _ => rfl

theorem functionDeclaration (isAsync : Bool) (start : Position) (anonymousAllowed : Bool) :
    LaysFrom text true start.offset [] Piece.of
      (Grammar.functionDeclaration read isAsync start anonymousAllowed) :=
  .skim fun _ => .skim fun _ => .skim fun _ => .optionalElse fun name => functionRest name ..

theorem functionExpression (isAsync : Bool) (start : Position) :
    LaysFrom text true start.offset [] Piece.of (Grammar.functionExpression read isAsync start) :=
  .skim fun _ => .skim fun _ => .skim fun _ => .optionalElse fun name => functionRest name ..

instance (modifiers : MethodModifiers) : Opens text .everything false read read (method read modifiers)
    (method read modifiers) := by
  unfold method Grammar.functionRest
  infer_instance

instance (modifiers : MethodModifiers) : Lays text Piece.of (method read modifiers) :=
  .of_opens hr.consumes fun _ => .noting fun _ => functionRest none ..

theorem arrowBody (params : Parameters) (isAsync : Bool) (start : Position) :
    LaysFrom text true start.offset (parametersPieces params) Piece.of
      (Grammar.arrowBody read params isAsync start) := by
  have hbody : Lays text FunctionBody.pieces (do
      if ← atMark .leftBrace then .block <$> allowingIn (block read)
      else .expression <$> read .assignment : Production FunctionBody) :=
    .of_steps fun _ => .from_here <| .skim fun _ =>
      .ite (.map (G := Piece.of) (.last fun _ => rfl) id) (.map (G := Piece.of) (.last fun _ => rfl) id)
  refine .skim fun _ => .bind fun body => ?_
  let arrow : Span → Function :=
    .mk none params.items params.trailingComma params.span body .arrow isAsync false
  exact .closeWithin arrow (fun _ => rfl) fun _ => rfl

/-! ## Object literals -/

instance : Lays text Piece.of (objectProperty read) := by
  refine .of_opens hr.consumes fun _ => .noting fun start => .skim fun _ => .ite ?_ ?_
  · exact .bind fun _ => .close fun _ => rfl
  · refine .skim fun modifiers => .bind fun key => ?_
    dsimp only
    split
    · exact .stopped (fail_eq _ _)
    · refine .skim fun _ => .ite (.bind fun _ => .close fun _ => rfl) <| .skim fun _ =>
        .ite (.bind fun _ => .close fun _ => rfl) ?_
      split
      next name _ =>
        refine .reshape (Piece.identifier name) Laid.unwrap <| .skim fun _ => ?_
        exact .ite (.bind fun _ => .close fun _ => rfl) (.step (.close fun _ => rfl))
      next => exact .failHere _

instance : Lays text (Piece.maybe entryPieces) (objectEntry read) :=
  .of_offers hr.consumes fun _ => .from_here <| .skim fun _ => .ite (.done rfl) <| .bind fun _ =>
    .skim fun _ => .ite (.done rfl) (.skim fun _ => .skim fun _ => .done rfl)

theorem objectLiteral (s : State) :
    LaysAt text true s s.current.span.offset [] Piece.of (Grammar.objectLiteral read) :=
  .noting fun _ => .skim fun _ => .bind fun entries => .skim fun _ => .close fun r =>
    congrArg (fun ps => [Piece.region r ps]) (each_entries entries).symm

instance : Lays text Piece.of (bindingTarget read) := by
  refine .of_opens hr.consumes fun s => ?_
  unfold bindingTarget allowingIn
  refine .look fun _ => .ite (fun _ => .within (arrayLiteral _)) ?_
  refine .look fun _ => .ite (fun _ => .within (objectLiteral _)) ?_
  exact .wrap Lays.laysAt fun _ => rfl

/-! ## Classes -/

theorem classElement (isStatic : Bool) (start : Position) :
    LaysFrom text true start.offset [] Piece.of (Grammar.classElement read isStatic start) := by
  refine .skim fun _ => .bind fun key => .skim fun _ => .ite (.bind fun _ => .close fun _ => rfl) ?_
  refine .ite (.stopped (failHere_eq _)) <| .skim fun _ => ?_
  exact .ite (.bind fun _ => .skim fun _ => .close fun _ => rfl) (.step (.skim fun _ => .close fun _ => rfl))

instance : Lays text Piece.of (classMember read) := by
  refine .of_opens hr.consumes fun s => .noting fun start => .skim fun _ => .ite ?_ (classElement _ _)
  refine .skim fun _ => .ite ?_ (.ite (classElement _ _) (.skim fun _ => classElement _ _))
  exact .skim fun _ => .bind fun _ => .made rfl

instance : Lays text (Piece.maybe (Piece.maybe Piece.of)) (classEntry read) := by
  refine .of_steps fun _ => .from_here <| .skim fun _ => .ite (.done rfl) (.ite (.failHere _) ?_)
  exact .skim fun _ => .ite (.done rfl) (.last fun _ => rfl)

instance (anonymousAllowed : Bool) :
    Lays text (Piece.maybe Piece.identifier) (className anonymousAllowed) := by
  refine .of_steps fun s => ?_
  unfold className
  refine .seeing ?_
  split
  · exact Lays.laysAt
  · exact .failHere _
  · exact .ite (fun _ => .done rfl) (.failHere _)

/-- The members of a class with the region of their braces. -/
def classBody (read : Reader) : Production (List (Option ClassMember) × Span) := do
  let start ← position
  let _ ← expectMark .leftBrace
  let members ← collect (classEntry read)
  let _ ← expectMark .rightBrace
  return (members, ← spanFrom start)

theorem filterMap_members (members : List (Option ClassMember)) :
    members.flatMap (Piece.maybe Piece.of) = Piece.each (members.filterMap id) := by
  induction members with
  | nil => rfl
  | cons member rest ih => cases member <;> simp [ih]

theorem classBody_bind (f : List (Option ClassMember) → Span → Production ClassDefinition) :
    (do
      let start ← position
      let _ ← expectMark .leftBrace
      let members ← collect (classEntry read)
      let _ ← expectMark .rightBrace
      f members (← spanFrom start)) = classBody read >>= fun (members, span) => f members span := by
  simp only [classBody, bind_assoc, pure_bind]

instance : Opens text .everything false read read (classBody read) (classBody read) := by
  unfold classBody
  infer_instance

instance : Lays text (fun x => [.region x.2 (Piece.each (x.1.filterMap id))]) (classBody read) :=
  .of_opens hr.consumes fun _ => .noting fun _ => .skim fun _ => .bind fun members =>
    filterMap_members members ▸ .skim fun _ => .closeAs id

instance (anonymousAllowed : Bool) : Lays text Piece.of (classDefinition read anonymousAllowed) := by
  refine .of_opens hr.consumes fun _ => .noting fun start => .skim fun _ => .bind fun name =>
    .skim fun _ => .optional fun heritage => ?_
  have hbody := @classBody_bind read fun members bodySpan => do
    return ClassDefinition.mk name heritage (members.filterMap id) bodySpan (← spanFrom start)
  refine Eq.mpr (congrArg (LaysFrom _ _ _ _ _) hbody) ?_
  exact .bind fun _ => .close fun _ => rfl

end Lays

end Grammar

end EcmaScript
