import EcmaScript.Proofs.Grammar.Opens

/-!
# Loops of the grammar end

The loops of the grammar have a limit, which they never come to: each round but the last one reads a
token. `Turns` says this of the body of a loop, and of a loop that consists of such rounds
`settles_of_turns` says that it ends by itself, after at most one round for each token that it reads and
one more. Most loops are a `collect`, whose step `Offers` something only behind a token.

## Contents

* `Settles`: a loop that the limit does not end.
* `Turns`, `settles_of_turns`: from one round to the whole loop.
* `Offers`: the steps of a `collect`.
* The loops of the grammar, one by one.
* `Loop`, `Loop.settles`: all of them.
-/

namespace EcmaScript

namespace Grammar

-- An instance for a production is as large as the production.
set_option synthInstance.maxSize 2000

/-- The loop ends by itself: it has the same result whenever the limit is above the number of tokens
that it reads. -/
def Settles {α : Type} (loop : Nat → Production α) (s : State) : Prop :=
  ∃ tokens result, Reads s tokens (stateOf result) ∧
    ∀ limit, tokens.length < limit → loop limit s = result

variable {text : List Char} {read : Reader}

/-! ## Reading something -/

theorem State.Standing.offset_of_isEnd {s : State} (hs : s.Standing text)
    (he : s.current.isEnd = true) : s.current.span.offset = text.length := by
  obtain ⟨hrest, hlen⟩ := hs.finished he
  have hleft := hs.rest_length
  have hle := hs.position_le
  have hstop := hs.ahead
  rw [hrest, List.length_nil] at hleft
  unfold Span.stop at hstop
  omega

/-- Whoever has come further has read a token. -/
theorem Reads.ne_nil {s t : State} {tokens : List Token} (h : Reads s tokens t)
    (hs : s.Standing text) (hlt : s.current.span.offset < t.current.span.offset) : tokens ≠ [] := by
  induction h with
  | stay => exact absurd hlt (Nat.lt_irrefl _)
  | idle hi _ ih => exact ih (hs.idle hi) (hi.current ▸ hlt)
  | again r _ ih => exact ih (hs.readAgain r) (hs.offset_readAgain r ▸ hlt)
  | @advance s t tokens _ ih =>
      cases he : s.current.isEnd with
      | false =>
          unfold State.taken
          rw [he]
          exact List.cons_ne_nil _ _
      | true =>
          have hend := hs.offset_of_isEnd he
          have hend' := hs.advanced.offset_of_isEnd (hs.isEnd_advanced he)
          exact List.append_ne_nil_of_right_ne_nil _ (ih hs.advanced (by omega))

/-! ## Rounds -/

/-- What a round does that has begun at the offset `start`: the loop is over, or it goes on further
behind. -/
inductive TurnsAt {α β : Type} (loop : Nat → β → Production α) (body : Nat → Production α)
    (start : Nat) (s : State) : Prop where
  | halt (h : ∀ limit, body limit s = body 0 s)
  | again {tokens : List Token} {t : State} (y : β) (reads : Reads s tokens t)
      (lt : start < t.current.span.offset) (h : ∀ limit, body limit s = loop limit y t)

namespace TurnsAt

variable {α β γ : Type} {loop : Nat → β → Production α} {body body' : Nat → Production α}
  {start : Nat} {s : State}

theorem ite {c : Prop} [Decidable c] (h : TurnsAt loop body start s)
    (h' : TurnsAt loop body' start s) :
    TurnsAt loop (fun limit => if c then body limit else body' limit) start s := by
  split
  · exact h
  · exact h'

/-- What the first part of a body comes to is where the second one goes on. -/
theorem bind {p : Production γ} {f : γ → Nat → Production α} (hc : Composed p)
    (hf : ∀ c t, p s = .ok c t → TurnsAt loop (fun limit => f c limit) start t) :
    TurnsAt loop (fun limit => p >>= fun c => f c limit) start s := by
  obtain ⟨tokens, hreads⟩ := hc.reads s
  cases hp : p s with
  | error e t => exact .halt fun limit => by rw [bind_error hp, bind_error hp]
  | ok c t =>
      rw [hp] at hreads
      cases hf c t hp with
      | halt h => exact .halt fun limit => by rw [bind_ok hp, bind_ok hp, h]
      | again y reads lt h =>
          exact .again y (hreads.trans reads) lt fun limit => by rw [bind_ok hp, h]

end TurnsAt

/-- A part of the body of a loop, `body limit` where `limit` further rounds are left. With `moved`, a
token has been read in this round. -/
structure Turns (text : List Char) (read : Reader) (moved : Bool) {α β : Type}
    (loop : Nat → β → Production α) (body : Nat → Production α) : Prop where
  run : ∀ {s : State} {start : Nat}, read.Consumes text → s.Standing text →
    start ≤ s.current.span.offset → (moved = true → start < s.current.span.offset) →
    TurnsAt loop body start s

namespace Turns

variable {moved : Bool} {α β γ : Type} {loop : Nat → β → Production α}
  {body body' : Nat → Production α}

theorem halt (p : Production α) : Turns text read moved loop fun _ => p :=
  ⟨fun _ _ _ _ => .halt fun _ => rfl⟩

theorem again (y : β) : Turns text read true loop fun limit => loop limit y :=
  ⟨fun _ _ _ hlt => .again y (.stay _) (hlt rfl) fun _ => rfl⟩

theorem ite {c : Prop} [Decidable c] (h : Turns text read moved loop body)
    (h' : Turns text read moved loop body') :
    Turns text read moved loop fun limit => if c then body limit else body' limit :=
  ⟨fun hr hs hle hlt => .ite (h.run hr hs hle hlt) (h'.run hr hs hle hlt)⟩

theorem bind {p : Production γ} {f : γ → Nat → Production α} (hc : Alike read read p p)
    (hf : ∀ c, Turns text read moved loop fun limit => f c limit) :
    Turns text read moved loop fun limit => p >>= fun c => f c limit := by
  refine ⟨fun {s start} hr hs hle hlt => TurnsAt.bind (hc.composed hr.composed) fun c t ht => ?_⟩
  obtain ⟨_, hfw⟩ := (hc.composed hr.composed).forward_of_ok hs ht
  exact (hf c).run hr hfw.standing (Nat.le_trans hle hfw.le) fun hm => Nat.lt_of_lt_of_le (hlt hm) hfw.le

/-- A part that reads a token. -/
theorem bind_opens {p : Production γ} {f : γ → Nat → Production α} (hc : Alike read read p p)
    (hp : Opens text .everything false read read p p)
    (hf : ∀ c, Turns text read true loop fun limit => f c limit) :
    Turns text read moved loop fun limit => p >>= fun c => f c limit := by
  refine ⟨fun {s start} hr hs hle _ => TurnsAt.bind (hc.composed hr.composed) fun c t ht => ?_⟩
  obtain ⟨_, hfw⟩ := (hc.composed hr.composed).forward_of_ok hs ht
  have hlt := Nat.lt_of_le_of_lt hle ((hp.opensAt hr hs (.refl s read)).lt c t ht)
  exact (hf c).run hr hfw.standing (Nat.le_of_lt hlt) fun _ => hlt

/-- A round that has read nothing yet begins at the cursor. -/
theorem turnsAt (h : Turns text read false loop body) (hr : read.Consumes text) {s : State}
    (hs : s.Standing text) : TurnsAt loop body s.current.span.offset s :=
  h.run hr hs (Nat.le_refl _) fun hm => absurd hm Bool.false_ne_true

end Turns

/-- **From one round to the whole loop.** Every round reads a token, and there are only so many left. -/
theorem settles_of_turns {α β : Type} {loop : Nat → β → Production α} (hr : read.Consumes text)
    (hc : ∀ limit y, Alike read read (loop limit y) (loop limit y))
    (h : ∀ y, Turns text read false loop fun limit => loop (limit + 1) y) {s : State}
    (hs : s.Standing text) (y : β) : Settles (fun limit => loop limit y) s := by
  induction hn : s.tokensLeft using Nat.strongRecOn generalizing s y with
  | ind n ih =>
      cases (h y).turnsAt hr hs with
      | halt hhalt =>
          obtain ⟨tokens, hreads⟩ := ((hc 1 y).composed hr.composed).reads s
          refine ⟨tokens, loop 1 y s, hreads, fun limit hlt => ?_⟩
          obtain ⟨limit, rfl⟩ := Nat.exists_eq_succ_of_ne_zero (Nat.ne_zero_of_lt hlt)
          exact hhalt limit
      | @again tokens t y' hreads hlt hagain =>
          have hfw := hreads.forward hs
          have hpos := List.length_pos_iff.mpr (hreads.ne_nil hs hlt)
          have hless := hfw.tokensLeft
          obtain ⟨tokens', result, hreads', hends⟩ :=
            ih t.tokensLeft (by omega) hfw.standing y' rfl
          refine ⟨tokens ++ tokens', result, hreads.trans hreads', fun limit hlt => ?_⟩
          rw [List.length_append] at hlt
          obtain ⟨limit, rfl⟩ := Nat.exists_eq_succ_of_ne_zero (Nat.ne_zero_of_lt hlt)
          exact (hagain limit).trans (hends limit (by omega))

/-! ## Parts of the rounds -/

namespace Opens

variable {reach : Reach} {present : Bool} {read' : Reader}

section Assignment

variable [reach.Allows .assignment] [reach.Allows .binding]

instance : Opens text reach present read read' (spreadable read) (spreadable read') := by
  unfold spreadable
  infer_instance

instance (start : Position) :
    Opens text reach present read read' (restParameter read start) (restParameter read' start) := by
  unfold restParameter
  infer_instance

instance (start : Position) :
    Opens text reach present read read' (plainParameter read start) (plainParameter read' start) := by
  unfold plainParameter
  infer_instance

instance : Opens text reach present read read' (substitution read) (substitution read') := by
  rw [Alike.substitution_eq, Alike.substitution_eq]
  infer_instance

end Assignment

instance : Opens text reach present read read' (propertyKey read) (propertyKey read') := by
  unfold propertyKey
  refine current_bind (fun token he => ?_) fun token _ => ?_
  · rw [kind_of_isEnd he]
    infer_instance
  · split <;> infer_instance

instance : Opens text reach present read read' (objectProperty read) (objectProperty read') := by
  unfold objectProperty
  refine look_bind fun start => eat_bind inferInstance (late inferInstance fun modifiers => ?_)
  refine bind inferInstance inferInstance fun key => ?_
  dsimp only
  cases key <;> infer_instance

instance (isStatic : Bool) (start : Position) :
    Opens text reach present read read' (classElement read isStatic start)
      (classElement read' isStatic start) := by
  unfold classElement
  exact late inferInstance fun modifiers => inferInstance

instance : Opens text reach present read read' (classMember read) (classMember read') := by
  unfold classMember
  infer_instance

instance : Opens text reach present read read' (caseTest read) (caseTest read') := by
  unfold caseTest
  infer_instance

instance : Opens text reach present read read' moduleName moduleName := by
  unfold moduleName
  refine current_bind (fun token he => ?_) fun token _ => ?_
  · rw [kind_of_isEnd he]
    infer_instance
  · split <;> infer_instance

instance : Opens text reach present read read' importSpecifier importSpecifier := by
  unfold importSpecifier
  infer_instance

instance : Opens text reach present read read' exportSpecifier exportSpecifier := by
  unfold exportSpecifier
  infer_instance

instance (receiver : Expression) (optional : Bool) :
    Opens text reach true read read' (computedAccess read receiver optional)
      (computedAccess read' receiver optional) := by
  unfold computedAccess
  infer_instance

instance (callee : Expression) (optional : Bool) :
    Opens text reach present read read' (callOf read callee optional)
      (callOf read' callee optional) := by
  unfold callOf
  infer_instance

end Opens

/-! ## Steps of a `collect` -/

/-- The production offers something only when it has read a token. With `present`, a token is supposed
to be there. -/
class Offers (text : List Char) (present : Bool) (read : Reader) {α : Type}
    (step : Production (Option α)) : Prop where
  run : ∀ {s t : State} {a : α}, read.Consumes text → s.Standing text →
    (present = true → s.current.isEnd = false) → step s = .ok (some a) t →
    s.current.span.offset < t.current.span.offset

namespace Offers

variable {present : Bool} {α β : Type} {step step' : Production (Option α)}

instance none : Offers text present read (pure none : Production (Option α)) := ⟨fun _ _ _ h => by cases h⟩

instance (priority := low) of_opens [h : Opens text .everything present read read step step] :
    Offers text present read step :=
  ⟨fun hr hs hpr ht => (h.run hr hs hpr (.refl _ read)).lt _ _ ht⟩

instance instIte {c : Prop} [Decidable c] [h : Offers text present read step]
    [h' : Offers text present read step'] : Offers text present read (if c then step else step') := by
  split
  · exact h
  · exact h'

/-- Without such a token it reads one all the same. -/
theorem lt [h : Offers text false read step] (hr : read.Consumes text) {s t : State}
    (hs : s.Standing text) {a : α} (ht : step s = .ok (some a) t) :
    s.current.span.offset < t.current.span.offset :=
  h.run hr hs (fun hp => absurd hp Bool.false_ne_true) ht

theorem look_bind {p : Production β} {f : β → Production (Option α)} [hp : Looks p]
    (hf : ∀ b, Offers text present read (f b)) : Offers text present read (p >>= f) := by
  obtain ⟨g, hg⟩ := hp.looks
  refine ⟨fun {s t a} hr hs hpr ht => ?_⟩
  rw [bind_ok (hg s)] at ht
  exact (hf (g s)).run hr hs hpr ht

instance instLook {p : Production β} {f : β → Production (Option α)} [Looks p]
    [hf : ∀ b, Offers text present read (f b)] : Offers text present read (p >>= f) := look_bind hf

instance instEat {eat : Production Bool} [he : Eats eat] [hp : Alike read read step step]
    [hq : Offers text present read step'] :
    Offers text present read (eat >>= fun b => if b = true then step else step') := by
  obtain ⟨f, hf, hend⟩ := he.eats
  refine ⟨fun {s t a} hr hs hpr ht => ?_⟩
  cases hfs : f s with
  | true =>
      rw [bind_ok ((hf s).trans (if_pos hfs))] at ht
      have hlt := Opens.lt_advanced hs (hend s hfs)
      obtain ⟨_, hfw⟩ := (hp.composed hr.composed).forward_of_ok hs.advanced ht
      exact Nat.lt_of_lt_of_le hlt hfw.le
  | false =>
      rw [bind_ok ((hf s).trans (if_neg (by rw [hfs]; exact Bool.false_ne_true)))] at ht
      exact hq.run hr hs hpr ht

theorem current_bind {f : Token → Production (Option α)}
    (hend : ∀ token : Token, token.isEnd = true → Offers text present read (f token))
    (h : ∀ token : Token, token.isEnd = false → Offers text true read (f token)) :
    Offers text present read (current >>= f) := by
  refine ⟨fun {s t a} hr hs hpr ht => ?_⟩
  rw [bind_ok (show current s = .ok s.current s from rfl)] at ht
  cases he : s.current.isEnd with
  | true => exact (hend s.current he).run hr hs hpr ht
  | false => exact (h s.current he).run hr hs (fun _ => he) ht

instance : Offers text present read (commaAssignment read) := by
  unfold commaAssignment
  infer_instance

theorem isMark_of_isEnd {token : Token} (mark : Punctuator) (h : token.isEnd = true) :
    token.isMark mark = false := by
  unfold Token.isMark
  rw [Opens.kind_of_isEnd h]

instance : Offers text present read (arrayEntry read) := by
  unfold arrayEntry
  refine current_bind (fun token he => ?_) fun token _ => inferInstance
  rw [isMark_of_isEnd _ he, isMark_of_isEnd _ he, if_neg Bool.false_ne_true, if_neg Bool.false_ne_true]
  infer_instance

instance : Offers text present read (objectEntry read) := by
  unfold objectEntry
  infer_instance

instance : Offers text present read (classEntry read) := by
  unfold classEntry
  infer_instance

instance : Offers text present read (switchCase read) := by
  unfold switchCase
  infer_instance

instance : Offers text present read (commaDeclarator read) := by
  unfold commaDeclarator
  infer_instance

/-- What is offered behind a call or an access. -/
instance (callsAllowed : Bool) (receiver : Expression) :
    Offers text present read (suffix? read callsAllowed receiver) := by
  unfold suffix?
  refine current_bind (fun token he => ?_) fun token _ => ?_
  · rw [Opens.kind_of_isEnd he]
    exact none
  · split <;> infer_instance

end Offers

/-! ## Recovery -/

section Recovery

variable {s t u : State}

/-- There is still something to be read before the end of the text. -/
theorem State.Standing.lt_of_isEnd (hs : s.Standing text) (he : s.current.isEnd = false)
    (ht : t.Standing text) (he' : t.current.isEnd = true) :
    s.current.span.offset < t.current.span.offset := by
  have hlen := hs.current.pos he
  have hle : s.current.span.stop ≤ text.length := hs.current.span.2
  rw [ht.offset_of_isEnd he']
  unfold Span.stop at hle
  omega

theorem Composed.le {α : Type} {p : Production α} (h : Composed p) (hs : s.Standing text) :
    (stateOf (p s)).Standing text ∧
      s.current.span.offset ≤ (stateOf (p s)).current.span.offset := by
  obtain ⟨_, hf⟩ := h.forward hs
  exact ⟨hf.standing, hf.le⟩

/-- Reading on to a likely end of a statement reads a token if there is one. -/
theorem synchronize_lt (topLevel : Bool) (hs : s.Standing text) (he : s.current.isEnd = false) :
    s.current.span.offset < (stateOf (synchronize topLevel s)).current.span.offset := by
  have hlt := Opens.lt_advanced hs he
  have hskip : skip s = .ok () s.advanced := rfl
  show _ < (stateOf (synchronizeFrom topLevel s.current.span.offset
    (s.lexer.rest.length + 1 + 1) s)).current.span.offset
  unfold synchronizeFrom
  rw [bind_ok (show current s = .ok s.current s from rfl), he, if_neg Bool.false_ne_true]
  split
  · exact hlt
  · split
    · rw [if_pos (by rw [beq_self_eq_true, Bool.or_true])]
      exact hlt
    · rw [bind_ok hskip]
      have hrest := Composed.synchronizeFrom topLevel s.current.span.offset
        (s.lexer.rest.length + 1)
      exact Nat.lt_of_lt_of_le hlt (Composed.le inferInstance hs.advanced).2

/-- Wherever a statement fails, reading on leads further than its first token. -/
theorem lt_synchronize (topLevel : Bool) (hs : s.Standing text) (he : s.current.isEnd = false)
    (ht : t.Standing text) (hle : s.current.span.offset ≤ t.current.span.offset) :
    s.current.span.offset < (stateOf (synchronize topLevel t)).current.span.offset := by
  cases he' : t.current.isEnd with
  | false => exact Nat.lt_of_le_of_lt hle (synchronize_lt topLevel ht he')
  | true =>
      exact Nat.lt_of_lt_of_le (hs.lt_of_isEnd he ht he') (Composed.le inferInstance ht).2

end Recovery

/-- **A statement of a list reads a token**, also if it fails. -/
instance (present : Bool) : Offers text present read (listStatement read) := by
  refine ⟨fun {s t a} hr hs _ h => ?_⟩
  rw [Composed.listStatement_eq, bind_ok (show current s = .ok s.current s from rfl)] at h
  split at h
  · cases h
  next hstart =>
    have he : s.current.isEnd = false := by
      cases he : s.current.isEnd with
      | false => rfl
      | true => simp [he] at hstart
    have hc : Composed (some <$> read (.statement .list)) :=
      have := hr.composed (.statement .list)
      inferInstance
    unfold reporting at h
    cases hp : (some <$> read (.statement .list)) s with
    | ok found u =>
        rw [hp] at h
        cases h
        obtain ⟨statement, hstatement, -⟩ := exists_of_map_ok hp
        exact hr.lt (.statement .list) hs hstatement
    | error e u =>
        have hu := hc.le hs
        rw [hp] at h hu
        dsimp only at h
        split at h
        · obtain ⟨_, v, hv, ht⟩ := exists_of_bind_ok h
          cases ht
          have hlt := lt_synchronize false hs he (hu.1.idle (u.idle_journal (u.journal.failure e))) hu.2
          rwa [hv] at hlt
        · cases h

/-! ## The loops -/

namespace Turns

variable {moved : Bool} {α β γ : Type} {loop : Nat → β → Production α}

/-- A step that ends the loop when it offers nothing. -/
theorem bind_offers {step : Production (Option γ)} {f : Option γ → Nat → Production α}
    (hc : Alike read read step step) (ho : Offers text false read step)
    (hhalt : ∀ limit, f none limit = f none 0)
    (hf : ∀ c, Turns text read true loop fun limit => f (some c) limit) :
    Turns text read moved loop fun limit => step >>= fun found => f found limit := by
  refine ⟨fun {s start} hr hs hle _ => TurnsAt.bind (hc.composed hr.composed) fun found t ht => ?_⟩
  cases found with
  | none => exact .halt fun limit => by rw [hhalt]
  | some c =>
      have hlt := Nat.lt_of_le_of_lt hle (ho.lt hr hs ht)
      obtain ⟨_, hfw⟩ := (hc.composed hr.composed).forward_of_ok hs ht
      exact (hf c).run hr hfw.standing (Nat.le_of_lt hlt) fun _ => hlt

end Turns

section Settles

variable {s : State} {α : Type}

theorem settles_collectFrom {step : Production (Option α)} [hc : Alike read read step step]
    [ho : Offers text false read step] (hr : read.Consumes text) (hs : s.Standing text)
    (items : List α) : Settles (fun limit => collectFrom step limit items) s :=
  settles_of_turns hr Alike.collectFrom
    (fun _ => .bind_offers hc ho (fun _ => rfl) fun item => .again (item :: _)) hs items

theorem settles_separatedItems (hr : read.Consumes text) (hs : s.Standing text) (list : ItemList) :
    Settles (fun limit => separatedItems (spreadable read) limit list) s := by
  refine settles_of_turns hr Alike.separatedItems (fun list => ?_) hs list
  refine .bind inferInstance fun closed => .ite (.halt _) ?_
  refine .bind_opens inferInstance inferInstance fun item => ?_
  refine .bind inferInstance fun closed => .ite (.halt _) ?_
  refine .bind inferInstance fun comma => .bind inferInstance fun closed => ?_
  exact .ite (.halt _) (.again _)

theorem settles_parameterItems (hr : read.Consumes text) (hs : s.Standing text) (list : ItemList) :
    Settles (fun limit => parameterItems read limit list) s := by
  refine settles_of_turns hr Alike.parameterItems (fun list => ?_) hs list
  refine .bind inferInstance fun token => .ite (.halt _) ?_
  refine .bind inferInstance fun isRest => .ite ?_ ?_
  · refine .bind_opens inferInstance inferInstance fun (rest, more) => ?_
    exact .ite (.again _) (.halt _)
  · refine .bind_opens inferInstance inferInstance fun parameter => ?_
    refine .bind inferInstance fun closed => .ite (.halt _) ?_
    refine .bind inferInstance fun comma => .bind inferInstance fun twice => ?_
    refine .ite (.bind inferInstance fun _ => ?_) ?_ <;>
      exact .bind inferInstance fun closed => .ite (.halt _) (.again _)

theorem settles_templateRest (hr : read.Consumes text) (hs : s.Standing text)
    (texts : List TemplateText) (values : List Expression) :
    Settles (fun limit => templateRest read limit texts values) s := by
  let loop (limit : Nat) (x : List TemplateText × List Expression) := templateRest read limit x.1 x.2
  refine @settles_of_turns _ _ _ _ loop hr (fun limit x => Alike.templateRest limit x.1 x.2)
    (fun x => ?_) _ hs (texts, values)
  refine .bind_opens (p := substitution read) inferInstance inferInstance fun (value, text, tail) => ?_
  exact .ite (.halt _) (.again (text :: x.1, value :: x.2))

theorem settles_suffixesFrom (hr : read.Consumes text) (hs : s.Standing text) (callsAllowed : Bool)
    (receiver : Expression) :
    Settles (fun limit => suffixesFrom read callsAllowed limit receiver) s := by
  refine settles_of_turns hr (Alike.suffixesFrom callsAllowed) (fun receiver => ?_) hs receiver
  have hc : Alike read read (suffix? read callsAllowed receiver)
    (suffix? read callsAllowed receiver) := inferInstance
  exact .bind_offers hc inferInstance (fun _ => rfl) .again

theorem settles_binaryFrom (hr : read.Consumes text) (hs : s.Standing text) (stack : OperatorStack) :
    Settles (fun limit => binaryFrom read limit stack) s := by
  refine settles_of_turns hr Alike.binaryFrom (fun stack => ?_) hs stack
  unfold binaryFrom
  refine .bind inferInstance fun token => .bind inferInstance fun context => ?_
  cases binaryOperator? context.noIn token with
  | none => exact .halt _
  | some operator =>
      refine .bind (.same (.liftStack (Composed.reports_meet stack _))) fun reduced => ?_
      refine .bind inferInstance fun _ => ?_
      exact .bind_opens inferInstance inferInstance fun operand => .again _

theorem settles_specifiersFrom {specifier : Production α} [hc : Composed specifier]
    (ho : Opens text .everything false read read specifier specifier) (hr : read.Consumes text)
    (hs : s.Standing text) (items : List α) :
    Settles (fun limit => specifiersFrom specifier limit items) s := by
  refine settles_of_turns hr (fun limit items => .same (Alike.specifiersFrom limit items))
    (fun items => ?_) hs items
  refine .bind inferInstance fun closed => .ite (.halt _) ?_
  refine .bind_opens inferInstance ho fun item => .bind inferInstance fun more => ?_
  exact .ite (.again _) (.halt _)

theorem settles_synchronizeFrom (hs : s.Standing text) (topLevel : Bool) (start : Nat) :
    Settles (fun limit => synchronizeFrom topLevel start limit) s := by
  let loop (limit : Nat) (_ : Unit) := synchronizeFrom topLevel start limit
  refine @settles_of_turns text (Grammar.read 0) _ _ loop (consumes_read 0)
    (fun limit _ => .same (Composed.synchronizeFrom _ _ limit)) (fun _ => ?_) _ hs ()
  refine ⟨fun {s offset} hr hs hle _ => ?_⟩
  refine TurnsAt.bind (p := current) inferInstance fun token t ht => ?_
  cases ht
  cases he : s.current.isEnd with
  | true => exact .halt fun _ => rfl
  | false =>
      -- The last round reads a token as well, if it ends with one.
      refine .ite (.halt fun _ => rfl) (.ite (.halt fun _ => rfl) (.ite (.halt fun _ => rfl) ?_))
      refine TurnsAt.bind (p := skip) inferInstance fun _ t ht => ?_
      cases ht
      have behind : Turns text (Grammar.read 0) true loop fun limit => (do
          let next ← current
          if next.newlineBefore && startsStatement next then return
          else synchronizeFrom topLevel start limit) :=
        .bind inferInstance fun next => .ite (.halt _) (.again ())
      have hlt := Nat.lt_of_le_of_lt hle (Opens.lt_advanced hs he)
      exact behind.run hr hs.advanced (Nat.le_of_lt hlt) fun _ => hlt

end Settles

/-- The loops of the grammar over the nonterminals `read`, each at any of its rounds. -/
inductive Loop (read : Reader) : {α : Type} → (Nat → Production α) → Prop where
  | expressions (items : List Expression) :
    Loop read fun limit => collectFrom (commaAssignment read) limit items
  | statements (items : List Statement) :
    Loop read fun limit => collectFrom (listStatement read) limit items
  | elements (items : List (ArrayElement × Bool)) :
    Loop read fun limit => collectFrom (arrayEntry read) limit items
  | properties (items : List (Property × Bool)) :
    Loop read fun limit => collectFrom (objectEntry read) limit items
  | members (items : List (Option ClassMember)) :
    Loop read fun limit => collectFrom (classEntry read) limit items
  | cases (items : List SwitchCase) :
    Loop read fun limit => collectFrom (switchCase read) limit items
  | declarators (items : List Declarator) :
    Loop read fun limit => collectFrom (commaDeclarator read) limit items
  | arguments (list : ItemList) : Loop read fun limit => separatedItems (spreadable read) limit list
  | parameters (list : ItemList) : Loop read fun limit => parameterItems read limit list
  | substitutions (texts : List TemplateText) (values : List Expression) :
    Loop read fun limit => templateRest read limit texts values
  | suffixes (callsAllowed : Bool) (receiver : Expression) :
    Loop read fun limit => suffixesFrom read callsAllowed limit receiver
  | operators (stack : OperatorStack) : Loop read fun limit => binaryFrom read limit stack
  | imports (items : List ImportSpecifier) :
    Loop read fun limit => specifiersFrom importSpecifier limit items
  | exports (items : List ExportSpecifier) :
    Loop read fun limit => specifiersFrom exportSpecifier limit items
  | recovery (topLevel : Bool) (start : Nat) :
    Loop read fun limit => synchronizeFrom topLevel start limit

/-- **Every loop ends by itself.** -/
theorem Loop.settles {α : Type} {loop : Nat → Production α} (h : Loop read loop) (hr : read.Consumes text)
    {s : State} (hs : s.Standing text) : Settles loop s := by
  cases h with
  | expressions items => exact settles_collectFrom hr hs items
  | statements items => exact settles_collectFrom hr hs items
  | elements items => exact settles_collectFrom hr hs items
  | properties items => exact settles_collectFrom hr hs items
  | members items => exact settles_collectFrom hr hs items
  | cases items => exact settles_collectFrom hr hs items
  | declarators items => exact settles_collectFrom hr hs items
  | arguments list => exact settles_separatedItems hr hs list
  | parameters list => exact settles_parameterItems hr hs list
  | substitutions texts values => exact settles_templateRest hr hs texts values
  | suffixes callsAllowed receiver => exact settles_suffixesFrom hr hs callsAllowed receiver
  | operators stack => exact settles_binaryFrom hr hs stack
  | imports items => exact settles_specifiersFrom inferInstance hr hs items
  | exports items => exact settles_specifiersFrom inferInstance hr hs items
  | recovery topLevel start => exact settles_synchronizeFrom hs topLevel start

theorem State.tokensLeft_le (s : State) : s.tokensLeft ≤ s.lexer.rest.length + 1 := by
  unfold tokensLeft
  split
  · exact Nat.zero_le _
  · exact Nat.le_refl _

/-- The limit that the loops are given is never what ends them. -/
theorem Settles.eq_of_le {α : Type} {loop : Nat → Production α} {s : State} (h : Settles loop s)
    (hs : s.Standing text) {limit : Nat} (hl : s.lexer.rest.length + 2 ≤ limit) :
    loop limit s = loop (s.lexer.rest.length + 2) s := by
  obtain ⟨tokens, result, hreads, hends⟩ := h
  have hleft := (hreads.forward hs).tokensLeft
  have hle := s.tokensLeft_le
  exact (hends limit (by omega)).trans (hends _ (by omega)).symm

end Grammar

end EcmaScript
