import EcmaScript.Proofs.Layout.Statement
import EcmaScript.Proofs.Shape.Production

/-!
# The grammar keeps the shapes

One instance for each production, in the order of the grammar. Most of them put constructs together that may
stand by themselves. Three do not, or look twice: accesses and calls go on from whatever stands behind `new`
(`construction`), but from nothing that opens with an arrow function otherwise (`leftHandSide`); an operator
waits for its right operand, which may open with one (`binary`); and an assignment covers the text between
its operands because these cover what was read of them (`assignment`, `plainParameter`).
-/

namespace EcmaScript

open IsPart (part)

namespace Grammar

-- An instance for a production is as large as the production.
set_option synthInstance.maxSize 20000

instance : HasForm ItemList := ⟨fun P list => HasForm.formed P list.reversed⟩

instance : HasForm Parameters := ⟨fun P params => HasForm.formed P params.items⟩

section Lists

variable {items : List Expression} {comma : Option Position} {list : ItemList} {b : Bool} {s : Span}
  {params : Parameters}

instance [hi : InForm items] : InForm (ItemList.mk items comma) := ⟨hi.formed⟩

instance [h : InForm list] : InForm list.reversed := ⟨h.formed⟩

instance [hi : InForm items] : InForm (Parameters.mk items b s) := ⟨hi.formed⟩

instance [h : InForm params] : InForm params.items := ⟨h.formed⟩

end Lists

namespace Forms

variable {text : List Char} {α : Type} [HasForm α]

/-! ## Loops, recovery and blocks -/

theorem collectFrom {step : Production (Option α)} [Forms text step] (limit : Nat) (items : List α)
    [InForm items] : Forms text (Grammar.collectFrom step limit items) := by
  -- on the bound, for whatever was collected before
  induction limit generalizing items with
  | zero => exact instPure
  | succ limit ih =>
      refine bind inferInstance fun ⟨found, hf⟩ => ?_
      cases found with
      | some item =>
          have := Held.some_iff.mp hf
          exact ih _
      | none => exact instPure

instance {step : Production (Option α)} [Forms text step] : Forms text (collect step) :=
  bind inferInstance fun _ => collectFrom _ _

variable {read : Reader} [hr : Reader.Forms text read]

instance : Forms text (commaAssignment read) := by
  unfold commaAssignment
  infer_instance

omit [HasForm α] in
theorem always_collectFrom {step : Production (Option α)} (limit : Nat) {items : List α} (h : items ≠ []) :
    Always (· ≠ []) (Grammar.collectFrom step limit items) := by
  induction limit generalizing items with
  | zero => exact .pure (List.reverse_ne_nil_iff.mpr h)
  | succ limit ih =>
      refine .skim fun found => ?_
      cases found with
      | some item => exact ih (List.cons_ne_nil _ _)
      | none => exact .pure (List.reverse_ne_nil_iff.mpr h)

/-- Behind a comma there is at least one item more. -/
theorem givesAt_items {s : State} (hs : s.Standing text) (hcomma : s.current.isMark .comma = true) :
    GivesAt text s (fun items => InForm items ∧ items ≠ []) (collect (commaAssignment read)) := by
  refine .look (show (get : Production State) s = .ok s s from rfl) ?_
  have hfirst : GivesAt text s (fun found => ∃ e, found = some e ∧ InForm e) (commaAssignment read) := by
    refine .bind (R := (· = true)) ⟨fun ht => ⟨((inferInstance : Forms text (eatMark .comma)).run hs ht).1, ?_⟩⟩ ?_
    · rw [eatMark, bind_ok (show atMark .comma s = .ok true s by rw [← hcomma]; rfl)] at ht
      cases ht
      rfl
    · intro b u _ hu hb
      refine .ite (fun _ => .map (.of_forms hu) fun e he => ⟨e, rfl, he⟩) fun h => absurd hb h
  refine .bind hfirst fun {found u} _ hu hfound => ?_
  obtain ⟨e, rfl, he⟩ := hfound
  refine ⟨fun ht => ?_⟩
  obtain ⟨hstanding, hitems⟩ := (collectFrom _ [e]).run hu ht
  exact ⟨hstanding, hitems, (always_collectFrom _ (List.cons_ne_nil e [])).run ht⟩

instance : Forms text (expression read) := by
  refine ⟨fun {s t e} hs ht => ?_⟩
  -- items joined by commas are in form once it is known that they stand one behind the other
  have hgives : GivesAt text s (fun e => Laid s.current.span.offset (Piece.of e) t.lastStop → InForm e)
      (expression read) := by
    refine .andThen hs fun {first u} _ hu hfirst => ?_
    refine .look (show atMark .comma u = .ok _ u from rfl) (.ite (fun hcomma => ?_) fun _ => .here hu fun _ => hfirst)
    refine .bind (givesAt_items hu hcomma) fun {others v} _ hv ⟨hothers, hne⟩ => .close hv fun hlaid => ?_
    obtain ⟨_, -, hinner, -⟩ := Laid.part_iff.mp hlaid
    exact .sequence (Nat.succ_le_succ (List.length_pos_iff.mpr hne)) hinner
  have hlays : Lays text Piece.of (expression read) := inferInstance
  exact (hgives.run ht).imp_right fun he => he (hlays.run hs ht).2

instance : Forms text (condition read) := by
  unfold condition
  infer_instance

instance : Forms text (listStatement read) := by
  have (start : Position) : Forms text (Composed.placeholder start) := by
    unfold Composed.placeholder
    infer_instance
  rw [Composed.listStatement_eq]
  refine bind inferInstance fun token => ?_
  split
  · exact instPure
  · have hstatement : Composed (read (.statement .list)) := hr.consumes.composed _
    exact reporting inferInstance inferInstance (this _)

instance : Forms text (statementList read) := by
  unfold statementList
  infer_instance

instance : Forms text (block read) := by
  unfold block
  infer_instance

/-! ## Literals -/

/-- The brace behind a substitution is read again as a piece of the template. -/
instance : Forms text (substitution read) := by
  have hc : Alike read read (substitution read) (substitution read) := inferInstance
  refine of_results (hc.composed hr.consumes.composed) fun hs ht => ?_
  rw [Alike.substitution_eq] at ht
  obtain ⟨value, u, hu, ht⟩ := exists_of_bind_ok ht
  have hvalue := (run hs hu).2
  have hgives : Always (fun found => found.1 = value) (Alike.textBehind value) :=
    .skim fun _ => .ite (fun _ => .skim fun _ => .skim fun _ => .pure rfl) fun _ => .failHere _
  exact ⟨(hgives.run ht) ▸ hvalue.formed, True.intro, True.intro⟩

theorem templateRest (limit : Nat) (texts : List TemplateText) (values : List Expression)
    [InForm values] :
    Forms text (Grammar.templateRest read limit texts values) := by
  -- on the bound, for the pieces and substitutions that were read before
  induction limit generalizing texts values with
  | zero => exact instPure
  | succ limit ih =>
      unfold Grammar.templateRest
      infer_instance

instance : Forms text (template read) := by
  have hs := @templateRest text read _
  unfold template
  infer_instance

instance : Forms text (spreadable read) := by
  unfold spreadable
  infer_instance

theorem separatedItems {item : Production Expression} [Forms text item] (limit : Nat) (list : ItemList)
    [InForm list] : Forms text (Grammar.separatedItems item limit list) := by
  -- on the bound, for the items and the comma that were read before
  induction limit generalizing list with
  | zero => exact instPure
  | succ limit ih =>
      unfold Grammar.separatedItems
      infer_instance

instance : Forms text (parenthesizedItems read) := by
  have hs := @separatedItems text (spreadable read) _
  unfold parenthesizedItems
  infer_instance

instance : Forms text (arguments read) := by
  have hs := @separatedItems text (spreadable read) _
  unfold arguments
  refine bind inferInstance fun _ => bind inferInstance fun _ => bind inferInstance fun _ => ?_
  refine bind inferInstance fun ⟨⟨items, comma?⟩, hl⟩ => ?_
  have hi : InForm items := ⟨hl.formed⟩
  cases comma? with
  | some comma => infer_instance
  | none => infer_instance

instance : Forms text (arrayEntry read) := by
  unfold arrayEntry
  infer_instance

instance : Forms text (arrayLiteral read) := by
  unfold arrayLiteral
  infer_instance

instance : Forms text (propertyKey read) := by
  unfold propertyKey
  refine bind inferInstance fun token => ?_
  split <;> infer_instance

/-! ## Functions, objects and classes -/

instance (start : Position) : Forms text (restParameter read start) := by
  unfold restParameter
  infer_instance

/-- The text from the start of an assignment to its end is that between its operands. -/
theorem givesAt_assigned {operator : AssignmentOperator} {left : Expression} {start : Position} {s : State}
    [InForm left] (hstart : left.start = start) (hs : s.Standing text) :
    GivesAt text s InForm (do
      let right ← read .assignment
      return Expression.assignment operator left right (← spanFrom start)) := by
  refine .andThen hs fun {right t} ht hlast hright => .close hlast (Held.assignment ?_)
  have hstop : right.span.stop = t.lastStop := ((hr.extends'.assignment s).run ht).stop_eq hs ht
  rw [hstart, hstop]

/-- A parameter at the cursor. -/
theorem givesAt_plainParameter {s : State} (hs : s.Standing text) :
    GivesAt text s InForm (plainParameter read s.current.start) := by
  refine .andThen hs fun {target u} hu hbound htarget => ?_
  refine .andThen hbound fun {hasDefault v} _ hv _ => .ite (fun _ => ?_) fun _ => .here hv htarget
  exact givesAt_assigned ((hr.extends'.binding s).run hu).start hv

theorem parameterItems (limit : Nat) (list : ItemList) [InForm list] :
    Forms text (Grammar.parameterItems read limit list) := by
  -- on the bound, for the parameters that were read before
  induction limit generalizing list with
  | zero => exact instPure
  | succ limit ih =>
      refine .of_givesAt fun {s} hs => ?_
      refine .look (show current s = .ok s.current s from rfl) (.ite (fun _ => .here hs inferInstance) ?_)
      refine fun _ => .andThen hs fun {found u} hu hnext _ => ?_
      cases found with
      | true => exact .ite (fun _ => .of_forms hnext) fun h => absurd rfl h
      | false =>
          -- nothing was read, so the parameter starts at the token that was looked at
          obtain ⟨f, heats, -⟩ := (inferInstance : Eats (eatMark .ellipsis)).eats
          rw [heats] at hu
          split at hu
          · cases hu
          cases hu
          exact .ite nofun fun _ => .bind (givesAt_plainParameter hs) fun _ hv hitem => .of_forms hv

instance (isAsync isGenerator : Bool) : Forms text (parameters read isAsync isGenerator) := by
  have hs := @parameterItems text read _
  unfold parameters
  infer_instance

instance (isAsync isGenerator : Bool) : Forms text (functionBody read isAsync isGenerator) := by
  unfold functionBody
  infer_instance

section Start

variable (start : Position)

instance (name : Option Identifier) (kind : FunctionKind) (isAsync isGenerator : Bool) :
    Forms text (functionRest read name kind isAsync isGenerator start) := by
  unfold functionRest
  infer_instance

instance (isAsync anonymousAllowed : Bool) :
    Forms text (functionDeclaration read isAsync start anonymousAllowed) := by
  unfold functionDeclaration
  infer_instance

instance (isAsync : Bool) : Forms text (functionExpression read isAsync start) := by
  unfold functionExpression
  infer_instance

instance (params : Parameters) [InForm params] (isAsync : Bool) :
    Forms text (arrowBody read params isAsync start) := by
  unfold arrowBody
  infer_instance

end Start

instance (modifiers : MethodModifiers) : Forms text (method read modifiers) := by
  unfold method
  infer_instance

instance : Forms text (objectProperty read) := by
  unfold objectProperty
  refine bind inferInstance fun start => bind inferInstance fun hasEllipsis => ?_
  split
  · infer_instance
  · refine bind inferInstance fun modifiers => bind inferInstance fun ⟨key, hk⟩ => ?_
    cases key <;> infer_instance

instance : Forms text (objectEntry read) := by
  unfold objectEntry
  infer_instance

instance : Forms text (objectLiteral read) := by
  unfold objectLiteral
  infer_instance

instance : Forms text (bindingTarget read) := by
  unfold bindingTarget
  infer_instance

instance (isStatic : Bool) (start : Position) :
    Forms text (classElement read isStatic start) := by
  unfold classElement
  infer_instance

instance : Forms text (classMember read) := by
  unfold classMember
  infer_instance

instance : Forms text (classEntry read) := by
  unfold classEntry
  infer_instance

instance (anonymousAllowed : Bool) : Forms text (classDefinition read anonymousAllowed) := by
  unfold classDefinition
  refine bind inferInstance fun _ => bind inferInstance fun _ => bind inferInstance fun _ => ?_
  exact bind inferInstance fun _ => inferInstance


/-! ## Primary expressions -/

section Start

variable (start : Position) (token : Token)

instance (params : Parameters) [InForm params] (isAsync : Bool) :
    Forms text (arrowOnLine read params isAsync start) := by
  unfold arrowOnLine
  infer_instance

instance (name : Identifier) : InForm (Parameters.single name) :=
  inferInstanceAs (InForm (Parameters.mk [.identifier name] false name.span))

instance (name : String) : Forms text (reference read name token) := by
  unfold reference
  infer_instance

instance : Forms text (asyncArrow read start) := by
  unfold asyncArrow
  infer_instance

instance (asyncSpan : Span) : Forms text (asyncCallOrArrow read asyncSpan) := by
  unfold asyncCallOrArrow
  refine bind inferInstance fun _ => bind inferInstance fun ⟨(items, trailingComma, span), h⟩ => ?_
  have hi : InForm items := ⟨h.formed.1⟩
  have hcall (s : FormValue Span) :
      InForm (Expression.call (.identifier ⟨"async", asyncSpan⟩) items trailingComma false s.val) := .call rfl
  infer_instance

instance (name : String) : Forms text (identifierExpression read name) := by
  unfold identifierExpression
  refine bind inferInstance fun token => ?_
  split
  · refine bind inferInstance fun next => ?_
    split
    · infer_instance
    · split
      · infer_instance
      · split <;> infer_instance
  · infer_instance

instance : Forms text (parenthesizedOrArrow read) := by
  unfold parenthesizedOrArrow
  refine bind inferInstance fun start => bind_laid inferInstance inferInstance
    fun ⟨(items, comma?, span), h⟩ lo hi hlaid => ?_
  have hitems : Laid span.offset (Piece.each items) span.stop := (Laid.region_alone.mp hlaid).2.2.1
  have hi : InForm items := ⟨h.formed.1⟩
  refine bind inferInstance fun isArrow => ?_
  split
  · cases comma? <;> infer_instance
  · split
    next inner he =>
      obtain ⟨first, others, rfl, rfl⟩ := Lays.parenthesized?_eq he
      have : InForm (Expression.joined first others) := .joined hitems span.offset_le_stop
      infer_instance
    next => infer_instance

instance : Forms text (importExpression read start) := by
  unfold importExpression
  infer_instance

instance : Forms text superReference := by
  unfold superReference
  infer_instance

instance (word : Keyword) : Forms text (keywordExpression read word token) := by
  unfold keywordExpression
  split <;> infer_instance

instance (name : String) : Forms text (privateOperand name token) := by
  unfold privateOperand
  infer_instance

end Start


/-- A slash is read again as the start of a regular expression. -/
theorem always_regExpLiteral : Always InForm regExpLiteral := by
  refine .skim fun start => .skim fun _ => .skim fun token => ?_
  split
  · exact .pure inferInstance
  · exact .fail _ _

theorem givesAt_regExpLiteral {s : State} (hs : s.Standing text)
    (hslash : Rereading.regExp.applies s.current = true) : GivesAt text s InForm regExpLiteral := by
  refine ⟨fun ht => ⟨?_, always_regExpLiteral.run ht⟩⟩
  rw [Alike.regExpLiteral_eq hslash] at ht
  obtain ⟨_, hf⟩ := Composed.forward_of_ok inferInstance hs ht
  exact hf.standing

instance : Forms text (primary read) := by
  refine .of_givesAt fun {s} hs => .look (show current s = .ok s.current s from rfl) ?_
  split
  case h_6 hk | h_7 hk => exact givesAt_regExpLiteral hs (by simp [Rereading.applies, Token.isMark, hk])
  all_goals exact .of_forms hs

/-! ## Accesses and calls -/

section Suffixes

/-- An expression that goes on from another one: it opens with an arrow function if that one does, and
as long as no link is optional it is a chain if that one is. -/
structure Follows (linked : Bool) (receiver e : Expression) : Prop where
  formed : (part e).Formed
  opens : e.opensWithArrow = receiver.opensWithArrow
  chain : linked = false → e.isOptionalChain = receiver.isOptionalChain

variable {linked optional : Bool} {receiver : Expression} {s : State}

theorem givesAt_namedAccess (hs : s.Standing text) (hreceiver : (part receiver).Formed)
    (hlink : linked = false → optional = false) :
    GivesAt text s (Follows linked receiver) (namedAccess receiver optional) :=
  .andThen hs fun _ hu _ => .here hu ⟨.mk True.intro (Held.formed_of_first hreceiver), rfl,
    fun h => by rw [hlink h]; rfl⟩

theorem givesAt_computedAccess (hs : s.Standing text) (hreceiver : (part receiver).Formed)
    (hlink : linked = false → optional = false) :
    GivesAt text s (Follows linked receiver) (computedAccess read receiver optional) := by
  refine .andThen hs fun _ hskipped _ => .andThen hskipped fun {key t} _ ht hkey => ?_
  refine .andThen ht fun _ hu _ => .close hu ⟨.mk hkey.formed.2 (Held.formed_of_first hreceiver), rfl, ?_⟩
  exact fun h => by rw [hlink h]; rfl

theorem givesAt_callOf (hs : s.Standing text) (hreceiver : (part receiver).Formed)
    (hlink : linked = false → optional = false) :
    GivesAt text s (Follows linked receiver) (callOf read receiver optional) := by
  refine .andThen hs fun {b u} _ hu hb => ?_
  obtain ⟨items, trailingComma, span⟩ := b
  have hitems : InForm items := ⟨hb.formed.1⟩
  exact .close hu ⟨.mk (fun e he => (hitems.formed e he).2) (Held.formed_of_first hreceiver), rfl,
    fun h => by rw [hlink h]; rfl⟩

theorem givesAt_optionalSuffix {s : State} (hs : s.Standing text) (hreceiver : (part receiver).Formed) :
    GivesAt text s (Follows true receiver) (optionalSuffix read receiver) := by
  have hlink {optional : Bool} (h : true = false) : optional = false := Bool.noConfusion h
  refine .look (show current s = .ok s.current s from rfl) ?_
  split
  · exact givesAt_callOf hs hreceiver hlink
  · exact givesAt_computedAccess hs hreceiver hlink
  · exact .failHere _
  · exact .failHere _
  · exact givesAt_namedAccess hs hreceiver hlink

/-- One further access goes on from the receiver. Without calls there are no optional links either. -/
theorem givesAt_suffix? (linked : Bool) (hs : s.Standing text) (hreceiver : (part receiver).Formed) :
    GivesAt text s (∀ e ∈ ·, Follows linked receiver e) (suffix? read linked receiver) := by
  have hsome {p : Production Expression} {u : State} (h : GivesAt text u (Follows linked receiver) p) :
      GivesAt text u (∀ e ∈ ·, Follows linked receiver e) (some <$> p) :=
    .map h fun _ hb _ he => Option.mem_some.mp he ▸ hb
  have hnone : GivesAt text s (∀ e ∈ ·, Follows linked receiver e)
      (pure none : Production (Option Expression)) :=
    .here hs fun _ he => (Option.not_mem_none _ he).elim
  refine .look (show current s = .ok s.current s from rfl) ?_
  split
  · exact .andThen hs fun _ hu _ => hsome (givesAt_namedAccess hu hreceiver fun _ => rfl)
  · cases linked with
    | false => exact .stopped (failHere_eq _)
    | true =>
        refine .ite (fun h => absurd h Bool.false_ne_true) fun _ => ?_
        refine .ite (fun _ => .stopped (failHere_eq _)) fun _ => ?_
        exact .andThen hs fun _ hu _ => hsome (givesAt_optionalSuffix hu hreceiver)
  · exact hsome (givesAt_computedAccess hs hreceiver fun _ => rfl)
  · exact .ite (fun _ => hsome (givesAt_callOf hs hreceiver fun _ => rfl)) fun _ => hnone
  · refine .ite (fun _ => .stopped (failHere_eq _)) fun hchain => .andThen hs fun {b u} _ hu hb => ?_
    obtain ⟨texts, values, span⟩ := b
    have hvalues : InForm values := ⟨hb.formed.2.1⟩
    have htag := Bool.eq_false_iff.mpr hchain
    refine .close hu fun e he => Option.mem_some.mp he ▸ ⟨.mk ⟨htag, fun e he =>
      (hvalues.formed e he).2⟩ ?_, rfl, fun _ => htag.symm⟩
    exact List.forall_mem_cons.mpr ⟨(inferInstance : InForm (Part.span _)).formed.1, Held.formed_of_first hreceiver⟩
  · exact hnone

theorem givesAt_suffixesFrom (limit : Nat) (hs : s.Standing text) (hreceiver : (part receiver).Formed) :
    GivesAt text s (Follows linked receiver) (suffixesFrom read linked limit receiver) := by
  -- on the bound, for whatever was read before
  induction limit generalizing s receiver with
  | zero => exact .here hs ⟨hreceiver, rfl, fun _ => rfl⟩
  | succ limit ih =>
      refine .bind (givesAt_suffix? linked hs hreceiver) fun {found u} _ hu hfound => ?_
      cases found with
      | none => exact .here hu ⟨hreceiver, rfl, fun _ => rfl⟩
      | some next =>
          have hnext := hfound next rfl
          refine ⟨fun ht => ?_⟩
          obtain ⟨hstanding, he⟩ := (ih hu hnext.formed).run ht
          exact ⟨hstanding, he.formed, he.opens.trans hnext.opens,
            fun h => (he.chain h).trans (hnext.chain h)⟩

theorem givesAt_suffixes (linked : Bool) (hs : s.Standing text) (hreceiver : (part receiver).Formed) :
    GivesAt text s (Follows linked receiver) (suffixes read linked receiver) :=
  .look (show (get : Production State) s = .ok s s from rfl) (givesAt_suffixesFrom _ hs hreceiver)

end Suffixes

/-! ## Constructions -/

section Primary

/-- The expression is no optional chain. -/
abbrev Unchained (e : Expression) : Prop := e.isOptionalChain = false

theorem always_arrowOnLine (params : Parameters) (isAsync : Bool) (start : Position) :
    Always Unchained (arrowOnLine read params isAsync start) := by
  have hbody : Always Unchained (arrowBody read params isAsync start) :=
    .skim fun _ => .skim fun _ => .skim fun _ => .pure rfl
  exact .skim fun _ => .ite (fun _ => .stopped (failHere_eq _)) fun _ => hbody

theorem always_reference (name : String) (token : Token) : Always Unchained (reference read name token) :=
  .skim fun _ => .skim fun _ => .ite (fun _ => .stopped (fail_eq _ _)) fun _ => .skim fun _ => .skim fun _ =>
    .ite (fun _ => always_arrowOnLine _ _ _) fun _ => .pure rfl

theorem always_identifierExpression (name : String) : Always Unchained (identifierExpression read name) := by
  refine .skim fun token => .ite (fun _ => .skim fun next => ?_) fun _ => always_reference _ _
  refine .ite (fun _ => always_reference _ _) fun _ => .ite (fun _ => .skim fun _ => .made fun _ => rfl) ?_
  intro _
  split
  · exact .skim fun _ => .skim fun _ => .skim fun _ => .ite
      (fun _ => .skim fun _ => .skim fun _ => .skim fun _ => .pure rfl) fun _ => .stopped (failHere_eq _)
  · exact .skim fun _ => .skim fun _ => .skim fun _ =>
      .ite (fun _ => always_arrowOnLine _ _ _) fun _ => .skim fun _ => .pure rfl
  · exact always_reference _ _

theorem always_parenthesizedOrArrow : Always Unchained (parenthesizedOrArrow read) := by
  have hbody (params : Parameters) (start : Position) :
      Always Unchained (arrowBody read params false start) :=
    .skim fun _ => .skim fun _ => .skim fun _ => .pure rfl
  refine .skim fun _ => .skim fun parts => ?_
  obtain ⟨items, comma?, span⟩ := parts
  refine .skim fun _ => .ite (fun _ => ?_) fun _ => ?_
  · refine .skim fun _ => .ite (fun _ => .stopped (failHere_eq _)) fun _ => ?_
    cases comma? with
    | none => exact hbody _ _
    | some comma => exact .skim fun _ => hbody _ _
  · split
    · exact .pure rfl
    · exact .fail _ _

theorem always_keywordExpression (word : Keyword) (token : Token) :
    Always Unchained (keywordExpression read word token) := by
  unfold keywordExpression
  split
  case h_5 | h_6 => exact .made fun _ => rfl
  case h_7 => exact .skim fun _ => .skim fun _ => .ite (fun _ => .pure rfl) fun _ => .failHere _
  case h_8 =>
    exact .skim fun _ => .skim fun _ => .ite (fun _ => .skim fun _ => .skim fun _ => .pure rfl) fun _ =>
      .skim fun _ => .skim fun _ => .skim fun _ => .skim fun _ => .pure rfl
  case h_9 => exact .fail _ _
  all_goals exact .skim fun _ => .pure rfl

/-- An operand without its accesses is no optional chain. -/
theorem always_primary : Always Unchained (primary read) := by
  have hregExp : Always Unchained regExpLiteral := by
    refine .skim fun _ => .skim fun _ => .skim fun _ => ?_
    split
    · exact .pure rfl
    · exact .fail _ _
  refine .skim fun token => ?_
  split
  case h_1 => exact always_identifierExpression _
  case h_6 | h_7 => exact hregExp
  case h_8 => exact always_parenthesizedOrArrow
  case h_9 | h_10 => exact .skim fun _ => .skim fun _ => .skim fun _ => .skim fun _ => .skim fun _ => .pure rfl
  case h_11 => exact always_keywordExpression _ _
  case h_12 =>
    exact .skim fun _ => .skim fun _ => .ite (fun _ => .stopped (fail_eq _ _)) fun _ => .skim fun _ => .pure rfl
  case h_13 => exact .fail _ _
  all_goals exact .skim fun _ => .pure rfl

end Primary

theorem always_construction : Always Unchained (construction read) := by
  refine .skim fun _ => .skim fun _ => .skim fun _ => .ite (fun _ => .skim fun _ => .skim fun _ => .pure rfl) ?_
  refine fun _ => .skim fun _ => .ite (fun _ => .skim fun _ => .skim fun _ => .skim fun _ => ?_)
    fun _ => .skim fun _ => .skim fun _ => .skim fun _ => ?_
  all_goals exact .ite (fun _ => .skim fun _ => .skim fun _ => .pure rfl) fun _ => .skim fun _ => .pure rfl

instance : Forms text (construction read) := by
  refine .of_givesAt fun {s} hs => .look (show position s = .ok s.current.start s from rfl) ?_
  refine .andThen hs fun {_ u} _ hskipped _ => .andThen hskipped fun {hasDot v} _ hv _ => .ite ?_ ?_
  · exact fun _ => .of_forms hv
  intro _
  -- what stands behind `new` is no chain, and without calls it does not become one
  have hrest {operand : Expression} {w : State} (hw : w.Standing text) (hoperand : InForm operand)
      (hchain : operand.isOptionalChain = false) :
      GivesAt text w InForm (do
        let callee ← suffixes read false operand
        if ← atMark .leftParen then
          let (items, trailingComma, _) ← arguments read
          return Expression.construction callee items trailingComma (← spanFrom s.current.start)
        else return Expression.construction callee [] false (← spanFrom s.current.start)) := by
    refine .bind (givesAt_suffixes false hw hoperand.formed.1) fun {callee x} _ hx hcallee => ?_
    have hnone := (hcallee.chain rfl).trans hchain
    refine .andThen hx fun {_ y} _ hy _ => .ite (fun _ => .andThen hy fun {b z} _ hz hb => ?_) fun _ => ?_
    · obtain ⟨items, trailingComma, span⟩ := b
      have hitems : InForm items := ⟨hb.formed.1⟩
      exact .close hz ⟨.mk ⟨hnone, fun e he => (hitems.formed e he).2⟩
        (Held.formed_of_first hcallee.formed), nofun⟩
    · exact .close hy ⟨.mk ⟨hnone, nofun⟩ (Held.formed_of_first hcallee.formed), nofun⟩
  refine .andThen hv fun {hasNew w} _ hw _ => .ite ?_ ?_
  · exact fun _ => .andThen hw fun hx hstanding h => hrest hstanding h (hr.construction_chain.run hx)
  · exact fun _ => .andThen hw fun hx hstanding h => hrest hstanding h (always_primary.run hx)

instance : Forms text (leftHandSide read) := by
  -- what is no arrow function and may stand by itself opens with none
  have hrest {operand : Expression} {u : State} (hu : u.Standing text) (hoperand : InForm operand) :
      GivesAt text u InForm (if operand.isArrow then pure operand else suffixes read true operand) := by
    refine .ite (fun _ => .here hu hoperand) fun harrow => ⟨fun ht => ?_⟩
    obtain ⟨hstanding, he⟩ := (givesAt_suffixes true hu hoperand.formed.1).run ht
    have hopens := he.opens.trans (hoperand.formed.2.opens_eq_false harrow)
    exact ⟨hstanding, he.formed, Expression.separate_of_not_opens hopens⟩
  refine .of_givesAt fun {s} hs => .andThen hs fun {hasNew u} _ hu _ => .ite ?_ ?_
  · exact fun _ => .andThen hu fun _ hstanding h => hrest hstanding h
  · exact fun _ => .andThen hu fun _ hstanding h => hrest hstanding h

/-! ## Operators -/

instance : Forms text (updatable read) := by
  unfold updatable
  refine bind inferInstance fun start => bind inferInstance fun operand => ?_
  refine bind inferInstance fun token => ?_
  split <;> infer_instance

instance : Forms text (unary read) := by
  unfold unary
  refine bind inferInstance fun token => ?_
  split
  · infer_instance
  · split <;> infer_instance


/-- Every operand is formed, and the first one does not open with an arrow function. -/
structure Stacked (stack : OperatorStack) : Prop where
  top : (part stack.top).Formed
  waiting : ∀ w ∈ stack.waiting, (part w.left).Formed
  opens : stack.first.opensWithArrow = false

theorem stacked_apply {w : WaitingOperator} {rest : List WaitingOperator} {right e : Expression}
    (he : w.apply right = .ok e) (h : Stacked ⟨right, w :: rest⟩) : Stacked ⟨e, rest⟩ := by
  unfold WaitingOperator.apply at he
  split at he
  · cases he
  cases he
  obtain ⟨hleft, hrest⟩ := List.forall_mem_cons.mp h.waiting
  refine ⟨.mk rfl ?_, hrest, ?_⟩
  · exact List.forall_mem_cons.mpr ⟨(inferInstance : InForm (Part.span _)).formed.1, by simp [hleft, h.top]⟩
  · have hopens := h.opens
    cases rest <;> exact hopens

theorem givesAt_finish {stack : OperatorStack} {s : State} (hs : s.Standing text) (h : Stacked stack) :
    GivesAt text s InForm (liftStack stack.finish) := by
  cases hfinish : stack.finish with
  | error failure => exact ⟨nofun⟩
  | ok e =>
      have hwhole := OperatorStack.finish_induct (P := Stacked) hfinish stacked_apply h
      exact .here hs ⟨hwhole.top, Expression.separate_of_not_opens hwhole.opens⟩

theorem givesAt_binaryFrom (limit : Nat) {stack : OperatorStack} {s : State} (hs : s.Standing text)
    (h : Stacked stack) : GivesAt text s InForm (binaryFrom read limit stack) := by
  -- on the bound, for whatever was read before
  induction limit generalizing s stack with
  | zero => exact givesAt_finish hs h
  | succ limit ih =>
      refine .look (show current s = .ok s.current s from rfl) ?_
      refine .look (show context s = .ok s.context s from rfl) ?_
      split
      · exact givesAt_finish hs h
      next operator _ =>
        cases hmeet : stack.meet operator with
        | error failure => exact .stopped (e := fun _ => failure) fun _ => rfl
        | ok reduced =>
            have hreduced := OperatorStack.reduce_induct (P := Stacked) (reduce_of_meet hmeet) stacked_apply h
            refine .look (b := reduced) rfl <| .andThen hs fun _ hskipped _ => ?_
            refine .andThen hskipped fun {operand u} _ hu hoperand => ?_
            refine ih hu ⟨hoperand.formed.1, ?_, ?_⟩
            · exact List.forall_mem_cons.mpr ⟨hreduced.top, hreduced.waiting⟩
            · exact hreduced.opens

instance : Forms text (binary read) := by
  refine .of_givesAt fun {s} hs => ?_
  refine .andThen hs fun {first u} _ hu hfirst => .ite (fun _ => .here hu hfirst) fun harrow => ?_
  refine .look (show (get : Production State) u = .ok u u from rfl) (givesAt_binaryFrom _ hu ?_)
  exact ⟨hfirst.formed.1, nofun, hfirst.formed.2.opens_eq_false harrow⟩

instance : Forms text (conditional read) := by
  refine .of_givesAt fun {s} hs => .look (show position s = .ok s.current.start s from rfl) ?_
  refine .andThen hs fun {test u} _ hu htest => .ite (fun _ => .here hu htest) fun harrow => ?_
  have hopens := htest.formed.2.opens_eq_false harrow
  refine .andThen hu fun {hasMark v} _ hv _ => .ite (fun _ => ?_) fun _ => .here hv htest
  refine .andThen hv fun {consequent w} _ hw hconsequent => .andThen hw fun _ hx _ => ?_
  exact .andThen hx fun {alternate y} _ hy halternate => .close hy (Held.conditional hopens)

instance : Forms text (yieldOperand read) := by
  unfold yieldOperand
  infer_instance

instance : Forms text (yieldExpression read) := by
  unfold yieldExpression
  infer_instance

instance : Forms text (assignment read) := by
  refine .of_givesAt fun {s} hs => .look (show context s = .ok s.context s from rfl) ?_
  refine .look (show atName "yield" s = .ok _ s from rfl) (.ite (fun _ => .of_forms hs) fun _ => ?_)
  refine .look (show position s = .ok s.current.start s from rfl) ?_
  refine .andThen hs fun {left u} hu hleft h => .ite (fun _ => .here hleft h) fun _ => ?_
  refine .look (show current u = .ok u.current u from rfl) ?_
  split
  · exact .here hleft h
  · exact .andThen hleft fun _ hskipped _ =>
      givesAt_assigned ((extends_conditional s).run hu).start hskipped

/-! ## Imports and exports -/

instance : Forms text importDeclaration := by
  unfold importDeclaration
  infer_instance

instance : Forms text (exportedDefault read) := by
  unfold exportedDefault
  infer_instance

instance (start : Position) : Forms text (exportAll start) := by
  unfold exportAll
  infer_instance

instance (start : Position) : Forms text (exportNamed start) := by
  unfold exportNamed
  infer_instance

instance : Forms text (exportDeclaration read) := by
  unfold exportDeclaration
  infer_instance

/-! ## Statements -/

instance : Forms text (declarator read) := by
  unfold declarator
  infer_instance

instance : Forms text (commaDeclarator read) := by
  unfold commaDeclarator
  infer_instance

instance (kind : VariableKind) : Forms text (declaration read kind) := by
  unfold declaration
  infer_instance

instance (d : Declaration) (span : Span) [h : InForm d] : InForm (d.withSpan span) := by
  obtain ⟨kind, declarators, s⟩ := d
  have hparts : InForm (Declaration.mk kind declarators s).parts := .parts rfl h.formed
  obtain ⟨-, hinner⟩ := Held.cons_iff.mp hparts
  exact ⟨Held.of_parts rfl (Held.cons_iff.mpr ⟨inferInstance, hinner⟩)⟩

instance (kind : VariableKind) : Forms text (declarationStatement read kind) := by
  unfold declarationStatement
  infer_instance

instance (place : Place) : Forms text (checkPlace place) := by
  unfold checkPlace
  infer_instance

instance : Forms text (loopHead read) := by
  unfold loopHead
  infer_instance

section Loops

variable (start : Position)

instance (head : Option LoopHead) [InForm head] : Forms text (countingLoop read head start) := by
  unfold countingLoop
  exact bind inferInstance fun _ => bind inferInstance fun _ => inferInstance

instance (head : LoopHead) [InForm head] : Forms text (keyLoop read head start) := by
  unfold keyLoop
  infer_instance

instance (head : LoopHead) [InForm head] (isAwait : Bool) :
    Forms text (valueLoop read head isAwait start) := by
  unfold valueLoop
  infer_instance

end Loops

instance : Forms text (forStatement read) := by
  unfold forStatement
  refine bind inferInstance fun start => bind inferInstance fun _ => ?_
  refine bind inferInstance fun isAwait => bind inferInstance fun _ => ?_
  refine bind inferInstance fun ⟨head, hh⟩ => ?_
  cases head with
  | some first =>
      have := Held.some_iff.mp hh
      infer_instance
  | none => infer_instance

instance : Forms text (whileStatement read) := by
  unfold whileStatement
  infer_instance

instance : Forms text (doStatement read) := by
  unfold doStatement
  infer_instance

instance : Forms text (ifStatement read) := by
  unfold ifStatement
  infer_instance

instance : Forms text (caseTest read) := by
  unfold caseTest
  infer_instance

instance : Forms text (switchCase read) := by
  unfold switchCase
  infer_instance

instance : Forms text (switchStatement read) := by
  unfold switchStatement
  infer_instance

instance : Forms text (catchClause read) := by
  unfold catchClause
  infer_instance

instance : Forms text (tryStatement read) := by
  unfold tryStatement
  infer_instance

instance : Forms text jumpLabel := by
  unfold jumpLabel
  refine bind inferInstance fun token => ?_
  split
  · exact instPure
  · split <;> infer_instance

theorem jump {make : Option Identifier → Span → Statement}
    (h : ∀ (label : FormValue (Option Identifier)) (s : FormValue Span),
      InForm (make label.val s.val)) : Forms text (Grammar.jump make) := by
  unfold Grammar.jump
  infer_instance

instance : Forms text (returnStatement read) := by
  unfold returnStatement
  infer_instance

instance : Forms text (throwStatement read) := by
  unfold throwStatement
  infer_instance

instance : Forms text (withStatement read) := by
  unfold withStatement
  infer_instance

instance : Forms text debuggerStatement := by
  unfold debuggerStatement
  infer_instance

instance : Forms text emptyStatement := by
  unfold emptyStatement
  infer_instance

instance : Forms text (expressionStatement read) := by
  unfold expressionStatement
  infer_instance

instance : Forms text (labeledStatement read) := by
  unfold labeledStatement
  infer_instance

instance (place : Place) (name : String) : Forms text (identifierStatement read place name) := by
  unfold identifierStatement
  infer_instance

instance (place : Place) (word : Keyword) : Forms text (keywordStatement read place word) := by
  have hcontinue : Forms text (Grammar.jump .continue) := jump fun _ _ => inferInstance
  have hbreak : Forms text (Grammar.jump .break) := jump fun _ _ => inferInstance
  unfold keywordStatement
  split <;> infer_instance

instance (place : Place) : Forms text (statement read place) := by
  unfold statement
  refine bind inferInstance fun token => ?_
  split <;> infer_instance


end Forms

/-! ## The whole grammar -/

/-- **Every nonterminal keeps the shapes**, whatever the depth. -/
instance forms_read {text : List Char} (depth : Nat) : Reader.Forms text (read depth) := by
  induction depth with
  | zero =>
      have (n : Nonterminal) [HasForm n.Result] : Forms text (read 0 n) :=
        inferInstanceAs (Forms text (failHere .primaryExpressionExpected))
      exact ⟨consumes_read 0, lays_read 0, extends_read 0, fun place => this (.statement place),
        this .assignment, this .unary, this .leftHandSide, this .construction, this .binding, .failHere _⟩
  | succ depth ih =>
      exact ⟨consumes_read _, lays_read _, extends_read _,
        fun place => inferInstanceAs (Forms text (statement (read depth) place)),
        inferInstanceAs (Forms text (assignment (read depth))),
        inferInstanceAs (Forms text (unary (read depth))),
        inferInstanceAs (Forms text (leftHandSide (read depth))),
        inferInstanceAs (Forms text (construction (read depth))),
        inferInstanceAs (Forms text (bindingTarget (read depth))), Forms.always_construction⟩

end Grammar

end EcmaScript
