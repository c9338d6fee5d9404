import EcmaScript.Proofs.Target.Judgement
import EcmaScript.Proofs.Target.Position

/-!
# Which targets are refused

Lowering reads a target once, with the part that each piece of it plays in hand, and says "invalid assignment
target" exactly if some position has an illegal form. What is no pattern is one position, and is lowered like a
value once its form has been checked; a pattern is its entries.

## Contents

* `judges_plain`: a target that is no pattern.
* `judges_expression`, `judges_arrayPattern`, `judges_objectPattern`: the recursion.
* `refusesTarget_expression`: the text is said if and only if a position is illegal.
-/

namespace EcmaScript

namespace Lowering

variable {v : Place} {kind : TargetKind}

/-! ## Forms -/

/-- Some position has an illegal form. -/
def Refused (kind : TargetKind) (ts : List Target) : Prop := ∃ t ∈ ts, t.isLegal kind = false

theorem refused_nil : Refused kind [] ↔ False := iff_of_false (fun ⟨_, ht, _⟩ => nomatch ht) id

theorem refused_cons {t : Target} {ts : List Target} :
    Refused kind (t :: ts) ↔ t.isLegal kind = false ∨ Refused kind ts := by
  simp only [Refused, List.mem_cons, or_and_right, exists_or, exists_eq_left]

theorem refused_append {ts us : List Target} :
    Refused kind (ts ++ us) ↔ Refused kind ts ∨ Refused kind us := by
  simp only [Refused, List.mem_append, or_and_right, exists_or]

/-- What lowering takes for a target are the legal forms. -/
theorem isTarget_eq (kind : TargetKind) (e : Expression) :
    Role.isTarget kind e = (Target.form e).isLegal kind := by
  cases e with
  | identifier | array | object => rfl
  | paren e s =>
      show (kind == .assignment && Expression.isSimpleTarget _) = _
      rw [Expression.isSimpleTarget_eq]
      rfl
  | _ => rfl

theorem judges_checkTarget (v : Place) (kind : TargetKind) (e : Expression) :
    Judges v ((Target.form e).isLegal kind = false) (Role.checkTarget kind e) := by
  unfold Role.checkTarget
  rw [isTarget_eq]
  cases (Target.form e).isLegal kind with
  | true =>
      rw [if_pos rfl]
      exact (Silent.instPure _).congr (by simp)
  | false => exact (Judges.error e.start).congr (by simp)

/-- Whether the expression gives a target its default. -/
def isDefaulted : Expression → Bool
  | .assignment .assign _ _ _ => true
  | _ => false

/-- A role asks for a legal form, unless it takes a default off first. -/
theorem judges_check (v : Place) (kind : TargetKind) (standing : Standing) {e : Expression}
    (hd : standing = .whole ∨ isDefaulted e = false) :
    Judges v ((Target.form e).isLegal kind = false) ((standing.role kind).check e) := by
  have hcheck := judges_checkTarget v kind e
  cases standing with
  | whole => exact hcheck
  | entry =>
      cases e with
      | assignment operator left right span =>
          cases operator with
          | assign => exact absurd hd nofun
          | _ => exact hcheck
      | _ => exact hcheck
  | rest ofObject =>
      cases e with
      | assignment operator left right span =>
          cases operator with
          | assign => exact absurd hd nofun
          | _ => exact Judges.bind_silent inferInstance fun _ => hcheck
      | _ => exact hcheck

instance (node : Node) : Silent v (applyPending [] node) := by
  unfold applyPending
  infer_instance

section Plain

variable (standing : Standing) {e : Expression} (hl : e.isPatternLiteral = false)
  (hd : standing = .whole ∨ isDefaulted e = false)

include hl hd

/-- A target that is no pattern is one position. -/
theorem targets_plain : e.targets standing = [standing.position e] := by
  cases e with
  | array | object => cases hl
  | assignment operator left right span =>
      rcases hd with rfl | hd
      · cases operator <;> rfl
      · cases operator with
        | assign => cases hd
        | _ => rfl
  | _ => rfl

theorem embedded_plain : e.embedded standing = e.accessed := by
  cases e with
  | array | object => cases hl
  | assignment operator left right span =>
      rcases hd with rfl | hd
      · cases operator <;> rfl
      · cases operator with
        | assign => cases hd
        | _ => rfl
  | _ => rfl

/-- A target that is no pattern is lowered like a value, once it has been checked. -/
theorem expression_eq_value :
    expression [] (standing.role kind) e = (do
      (standing.role kind).check e
      expression [] .value e) := by
  rw [expression.eq_def, expression.eq_def [] .value]
  cases e with
  | array | object => cases hl
  | assignment operator left right span =>
      rcases hd with rfl | hd
      · rfl
      · cases operator with
        | assign => cases hd
        | _ => cases standing <;> rfl
  | _ => cases standing <;> rfl

end Plain

instance (e : Expression) : Silent v (Role.value.check e) := Silent.instPure ()

/-- A reference reads its receiver and its index, and nothing else. -/
theorem silent_reference {e : Expression} (he : e.isReference = true)
    (hx : ∀ x ∈ e.accessed, Silent v (expression [] .value x)) : Silent v (expression [] .value e) := by
  cases e with
  | identifier name =>
      rw [expression]
      infer_instance
  | member receiver property optional span =>
      have hr := hx receiver List.mem_cons_self
      rw [expression]
      infer_instance
  | computedMember receiver key optional span =>
      have hr := hx receiver List.mem_cons_self
      have hk := hx key (List.mem_cons_of_mem _ List.mem_cons_self)
      rw [expression]
      infer_instance
  | paren e span =>
      have hi := silent_reference (e := e) he hx
      rw [expression]
      infer_instance
  | _ => cases he

/-- What is no literal is legal if it is a reference at the least. -/
theorem isReference_of_isLegal {e : Expression} (hl : e.isPatternLiteral = false)
    (h : (Target.form e).isLegal kind = true) : e.isReference = true := by
  rw [Target.isLegal, hl, Bool.false_or, Bool.or_eq_true, Bool.and_eq_true] at h
  rcases h with h | ⟨_, h⟩
  · unfold isIdentifier at h
    split at h
    · rfl
    · cases h
  · exact h

/-- Without a literal it does not matter who keeps the rest. -/
theorem isLegal_position (standing : Standing) {e : Expression} (hl : e.isPatternLiteral = false) :
    (standing.position e).isLegal kind = (Target.form e).isLegal kind := by
  cases standing with
  | rest ofObject =>
      cases ofObject with
      | true => rw [Standing.position, Target.isLegal, Target.isLegal, hl, Bool.false_or]
      | false => rfl
  | _ => rfl

/-- A target that is no pattern is judged by its form. -/
theorem judges_plain (standing : Standing) {e : Expression} (hl : e.isPatternLiteral = false)
    (hd : standing = .whole ∨ isDefaulted e = false)
    (hx : ∀ x ∈ e.embedded standing, Silent v (expression [] .value x)) :
    Judges v (Refused kind (e.targets standing)) (expression [] (standing.role kind) e) := by
  have hcheck := judges_check v kind standing hd
  rw [embedded_plain standing hl hd] at hx
  rw [targets_plain standing hl hd, refused_cons, refused_nil, or_false, isLegal_position standing hl,
    expression_eq_value standing hl hd]
  cases h : (Target.form e).isLegal kind with
  | true =>
      have hvalue := silent_reference (isReference_of_isLegal hl h) hx
      rw [h] at hcheck
      exact hcheck.silent_bind fun _ => hvalue
  | false =>
      rw [h] at hcheck
      have hsaid : Judges v True ((standing.role kind).check e) := hcheck.congr (by simp)
      exact (hsaid.said fun _ => Composed.expression Composed.pending_nil .value e).congr (by simp)

/-! ## Patterns -/

/-- A whole literal cannot be what an object keeps its rest in. -/
theorem judges_checkObjectRest (e : Expression) :
    Judges v (e.isPatternLiteral = true) (checkObjectRest e) := by
  cases e with
  | array | object => exact (Judges.error _).congr (by simp [Expression.isPatternLiteral])
  | _ => exact (Silent.instPure _).congr (by simp [Expression.isPatternLiteral])

/-- The rest of an object is kept like that of an array, apart from whole literals. -/
theorem refused_objectRest (e : Expression) :
    Refused kind (e.targets (.rest true)) ↔
      e.isPatternLiteral = true ∨ Refused kind (e.targets (.rest false)) := by
  cases hl : e.isPatternLiteral with
  | true =>
      refine iff_of_true ?_ (.inl rfl)
      cases e with
      | array | object => exact refused_cons.mpr (.inl (by cases kind <;> rfl))
      | _ => cases hl
  | false =>
      rw [or_iff_right Bool.false_ne_true]
      cases hd : isDefaulted e with
      | true =>
          unfold isDefaulted at hd
          split at hd
          · exact Iff.rfl
          · cases hd
      | false =>
          rw [targets_plain _ hl (.inr hd), targets_plain _ hl (.inr hd), refused_cons, refused_cons,
            isLegal_position _ hl, isLegal_position _ hl]

theorem embedded_objectRest (e : Expression) : e.embedded (.rest true) = e.embedded (.rest false) := by
  cases e with
  | assignment operator left right span => cases operator <;> rfl
  | _ => rfl

/-- A literal is a legal form where it is not all that an object keeps its rest in. -/
theorem refused_literal {e : Expression} (standing : Standing) (hl : e.isPatternLiteral = true)
    (hs : standing ≠ .rest true) (ts : List Target) :
    Refused kind (standing.position e :: ts) ↔ Refused kind ts := by
  have hform : standing.position e = .form e := by
    cases standing with
    | rest ofObject => cases ofObject with
      | true => exact absurd rfl hs
      | false => rfl
    | _ => rfl
  rw [refused_cons, hform, Target.isLegal, hl]
  simp

/-- A default that may be missing. -/
theorem silent_optional (default : Option Expression)
    (hx : ∀ x ∈ default.toList, Silent v (expression [] .value x)) : Silent v (optional default) := by
  cases default with
  | none =>
      rw [optional]
      infer_instance
  | some e =>
      have he := hx e List.mem_cons_self
      rw [optional]
      infer_instance

/-! ## The recursion -/

mutual

/-- An expression that stands as a target is refused for its illegal positions. -/
theorem judges_expression (standing : Standing) (hs : standing ≠ .rest true) (e : Expression)
    (hx : ∀ x ∈ e.embedded standing, Silent v (expression [] .value x)) :
    Judges v (Refused kind (e.targets standing)) (expression [] (standing.role kind) e) := by
  have hk : (standing.role kind).targetKind? = some kind := by cases standing <;> rfl
  cases e with
  | array elements trailingComma span =>
      have hcheck :=
        judges_check v kind standing (e := .array elements trailingComma span) (.inr rfl)
      have hp := judges_arrayPattern trailingComma elements hx
      rw [Expression.targets, refused_literal standing rfl hs, expression, hk]
      refine (hcheck.congr (by simp [Target.isLegal, Expression.isPatternLiteral])).bind_silent fun _ => ?_
      exact Judges.bind_silent inferInstance fun _ => hp.silent_bind fun _ => inferInstance
  | object properties trailingComma span =>
      have hcheck :=
        judges_check v kind standing (e := .object properties trailingComma span) (.inr rfl)
      have hp := judges_objectPattern properties hx
      rw [Expression.targets, refused_literal standing rfl hs, expression, hk]
      refine (hcheck.congr (by simp [Target.isLegal, Expression.isPatternLiteral])).bind_silent fun _ => ?_
      exact Judges.bind_silent inferInstance fun _ => hp.silent_bind fun _ => inferInstance
  | assignment operator left right span =>
      cases operator with
      | assign =>
          cases standing with
          | whole => exact judges_plain .whole rfl (.inl rfl) hx
          | entry =>
              have hx := List.forall_mem_append.mp hx
              have hleft := judges_expression .whole nofun left hx.1
              have hright := hx.2 right List.mem_cons_self
              show Judges v (Refused kind (left.targets .whole)) _
              rw [Standing.role, expression]
              refine Judges.bind_silent (Silent.instPure ()) fun _ => hleft.silent_bind fun _ => ?_
              infer_instance
          | rest ofObject =>
              have hleft := judges_expression .whole nofun left hx
              show Judges v (Refused kind (left.targets .whole)) _
              rw [Standing.role, expression]
              exact Judges.bind_silent (inferInstanceAs (Silent v (error span.start .defaultAfterRest)))
                fun _ => hleft
      | _ => exact judges_plain standing rfl (.inr rfl) hx
  | _ => exact judges_plain standing rfl (.inr rfl) hx

theorem judges_arrayPattern (trailingComma : Bool) (elements : List ArrayElement)
    (hx : ∀ x ∈ ArrayElement.embedded elements, Silent v (expression [] .value x)) :
    Judges v (Refused kind (ArrayElement.targets elements)) (arrayPattern kind trailingComma elements) := by
  cases elements with
  | nil =>
      rw [arrayPattern]
      exact (Silent.instPure _).congr refused_nil.symm
  | cons first rest =>
      cases first with
      | hole span =>
          have hrest := judges_arrayPattern trailingComma rest hx
          rw [arrayPattern]
          exact hrest.silent_bind fun _ => inferInstance
      | item e =>
          have hx := List.forall_mem_append.mp hx
          have he := judges_expression .entry nofun e hx.1
          have hrest := judges_arrayPattern trailingComma rest hx.2
          rw [arrayPattern, ArrayElement.targets, refused_append]
          exact he.bind fun _ => hrest.silent_bind fun _ => inferInstance
      | spread argument span =>
          have hx := List.forall_mem_append.mp hx
          have he := judges_expression (.rest false) nofun argument hx.1
          have hrest := judges_arrayPattern trailingComma rest hx.2
          rw [arrayPattern, ArrayElement.targets, refused_append]
          refine Judges.bind_silent inferInstance fun _ => Judges.bind_silent inferInstance fun _ => ?_
          exact he.bind fun _ => hrest.silent_bind fun _ => inferInstance

theorem judges_objectPattern (properties : List Property)
    (hx : ∀ x ∈ Property.embedded properties, Silent v (expression [] .value x)) :
    Judges v (Refused kind (Property.targets properties)) (objectPattern kind properties) := by
  cases properties with
  | nil =>
      rw [objectPattern]
      exact (Silent.instPure _).congr refused_nil.symm
  | cons first rest =>
      cases first with
      | keyValue key value span =>
          cases key with
          | computed k _ =>
              obtain ⟨hk, hx⟩ := List.forall_mem_cons.mp hx
              have hx := List.forall_mem_append.mp hx
              have he := judges_expression .entry nofun value hx.1
              have hrest := judges_objectPattern rest hx.2
              rw [objectPattern, Property.targets, refused_append]
              refine Judges.bind_silent inferInstance fun _ => Judges.bind_silent hk fun _ => ?_
              exact he.bind fun _ => hrest.silent_bind fun _ => inferInstance
          | _ =>
              have hx := List.forall_mem_append.mp hx
              have he := judges_expression .entry nofun value hx.1
              have hrest := judges_objectPattern rest hx.2
              rw [objectPattern, Property.targets, refused_append]
              · refine Judges.bind_silent inferInstance fun _ => ?_
                exact he.bind fun _ => hrest.silent_bind fun _ => inferInstance
              · nofun
      | shorthand name default span =>
          have hx := List.forall_mem_append.mp hx
          have hd := silent_optional default hx.1
          have hrest := judges_objectPattern rest hx.2
          rw [objectPattern, Property.targets, refused_cons, Target.isLegal, or_iff_right Bool.noConfusion]
          refine Silent.shorthand (h := ?_)
          refine Judges.bind_silent inferInstance fun _ => Judges.bind_silent hd fun _ => ?_
          exact hrest.silent_bind fun _ => inferInstance
      | method key f span =>
          have hcomposed := Composed.objectPattern kind rest
          rw [objectPattern, Property.targets, refused_cons]
          refine ((Judges.error span.start).said fun _ => inferInstance).congr ?_
          exact iff_of_true trivial (.inl rfl)
      | spread argument span =>
          have hx := List.forall_mem_append.mp hx
          rw [embedded_objectRest] at hx
          have he := judges_expression (.rest false) nofun argument hx.1
          have hrest := judges_objectPattern rest hx.2
          rw [objectPattern, Property.targets, refused_append, refused_objectRest, or_assoc]
          refine Judges.bind_silent inferInstance fun _ => Judges.bind_silent inferInstance fun _ => ?_
          refine (judges_checkObjectRest argument).bind fun _ => ?_
          exact he.bind fun _ => hrest.silent_bind fun _ => inferInstance

end

/-! ## The result -/

/-- **A target is refused exactly for an illegal form.** If the values inside a target say nothing of the kind,
then lowering it says "invalid assignment target" if and only if one of its positions has a form that is
illegal there. -/
theorem refusesTarget_expression (kind : TargetKind) (e : Expression) (s : State)
    (hx : ∀ x ∈ e.embedded .whole, ∀ t : State, t.place = s.place →
      (expression [] .value x t).2.journal.RefusesTarget → t.journal.RefusesTarget) :
    (expression [] (.target kind) e s).2.journal.RefusesTarget ↔
      s.journal.RefusesTarget ∨ ∃ t ∈ e.targets .whole, t.isLegal kind = false := by
  have hsilent (x : Expression) (h : x ∈ e.embedded .whole) : Silent s.place (expression [] .value x) := by
    have hc := Composed.expression Composed.pending_nil .value x
    refine ⟨hc, fun t ht => ?_⟩
    rw [or_false]
    exact ⟨hx x h t ht, hc.refusesTarget⟩
  exact (judges_expression .whole nofun e hsilent).refusesTarget_iff s rfl

/-- The tree of `[a.b, {...[c]}]`. -/
def literalRest : Expression :=
  .array [
    .item (.member (.identifier ⟨"a", default⟩) (.plain ⟨"b", default⟩) false default),
    .item (.object [.spread (.array [.item (.identifier ⟨"c", default⟩)] false default) default]
      false default)] false default

/-- The literal `[c]` cannot be all that the object keeps its rest in. -/
theorem refusesTarget_literalRest :
    (expression [] (.target .assignment) literalRest
      { journal := ⟨.es2018, .ofName "input", .empty⟩, lineMap := .ofChars [],
        strict := false }).2.journal.RefusesTarget := by
  have hrest : Target.objectRest (.array [.item (.identifier ⟨"c", default⟩)] false default) ∈
      literalRest.targets .whole := by
    simp [literalRest, Expression.targets, ArrayElement.targets, Property.targets, Standing.position]
  refine (refusesTarget_expression .assignment literalRest _ ?_).mpr (.inr ⟨_, hrest, rfl⟩)
  intro x hx t _
  obtain rfl : x = .identifier ⟨"a", default⟩ := List.mem_singleton.mp hx
  have h : Silent t.place (expression [] .value (.identifier ⟨"a", default⟩)) := silent_reference rfl nofun
  exact fun hr => ((h.refusesTarget_iff t rfl).mp hr).resolve_right id

end Lowering

end EcmaScript
