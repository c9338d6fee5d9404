import EcmaScript.Proofs.Grammar.Composed

/-!
# What productions make of a reader

A production that recurs is handed a reader for its nonterminals. All it can do with the reader is to
run one of the nonterminals. So the same production over two readers is put together in the same way from
the same composed productions, and differs only where one of the nonterminals is run: `Alike`. What holds
of a production whatever its reader is an induction over these cases.

## Contents

* `Alike`: the same production over two readers.
* `Alike.composed`: over composed nonterminals such a production is composed.
* Its closure under binds, branches, loops and looks at the state.
-/

namespace EcmaScript

namespace Grammar

/-- Two productions that are put together in the same way, the one over `read`, the other over
`read'`. -/
class inductive Alike (read read' : Reader) : {α : Type} → Production α → Production α → Prop where
  | same {α : Type} {p : Production α} : Composed p → Alike read read' p p
  | nonterminal (n : Nonterminal) : Alike read read' (read n) (read' n)
  | bind {α β : Type} {p p' : Production α} {f f' : α → Production β} :
      Alike read read' p p' → (∀ a, Alike read read' (f a) (f' a)) →
      Alike read read' (p >>= f) (p' >>= f')
  | within {α : Type} {p p' : Production α} (change : Context → Context) :
      Alike read read' p p' → Alike read read' (within change p) (within change p')
  | reporting {α : Type} {p p' handler handler' : Production α} :
      Alike read read' p p' → Alike read read' handler handler' →
      Alike read read' (reporting p handler) (reporting p' handler')

namespace Alike

variable {read read' : Reader} {α β : Type} {p p' : Production α}

/-- **What is put together over composed nonterminals is composed.** -/
theorem composed (h : Alike read read' p p') (hr : ∀ n, Composed (read n)) : Composed p := by
  induction h with
  | same hp => exact hp
  | nonterminal n => exact hr n
  | bind _ _ ihp ihf => exact .bind ihp ihf
  | within change _ ih => exact .within change ih
  | reporting _ _ ihp ihh => exact .reporting ihp ihh

/-! ## Combinators -/

instance instSame [h : Composed p] : Alike read read' p p := same h

/-! Each nonterminal has an instance of its own, at the type of its result. -/

instance (place : Place) : @Alike read read' Statement (read (.statement place))
    (read' (.statement place)) := nonterminal (.statement place)

instance : @Alike read read' Expression (read .assignment) (read' .assignment) :=
  nonterminal .assignment

instance : @Alike read read' Expression (read .unary) (read' .unary) := nonterminal .unary

instance : @Alike read read' Expression (read .leftHandSide) (read' .leftHandSide) :=
  nonterminal .leftHandSide

instance : @Alike read read' Expression (read .construction) (read' .construction) :=
  nonterminal .construction

instance : @Alike read read' Expression (read .binding) (read' .binding) := nonterminal .binding

instance instBind {f f' : α → Production β} [hp : Alike read read' p p']
    [hf : ∀ a, Alike read read' (f a) (f' a)] : Alike read read' (p >>= f) (p' >>= f') := bind hp hf

instance instMap {f : α → β} [h : Alike read read' p p'] :
    Alike read read' (f <$> p) (f <$> p') := by
  have e (q : Production α) : f <$> q = q >>= fun a => Pure.pure (f a) := by
    funext s
    show EStateM.map f q s = EStateM.bind q (fun a => Pure.pure (f a)) s
    unfold EStateM.map EStateM.bind
    cases q s <;> rfl
  rw [e, e]
  exact bind h fun a => same (.pure (f a))

instance instIte {c : Prop} [Decidable c] {q q' : Production α} [hp : Alike read read' p p']
    [hq : Alike read read' q q'] :
    Alike read read' (if c then p else q) (if c then p' else q') := by
  split
  · exact hp
  · exact hq

instance instWithin (change : Context → Context) [h : Alike read read' p p'] :
    Alike read read' (Grammar.within change p) (Grammar.within change p') := within change h

instance instAllowingIn [h : Alike read read' p p'] :
    Alike read read' (allowingIn p) (allowingIn p') := within _ h

instance instInsideFunction (isAsync isGenerator : Bool) [h : Alike read read' p p'] :
    Alike read read' (insideFunction isAsync isGenerator p) (insideFunction isAsync isGenerator p') :=
  within _ h

/-- A production that looks at the lexer and the token under the cursor, and at nothing else. -/
theorem get_bind {f f' : State → Production α}
    (hf : ∀ {s t : State}, s.lexer = t.lexer → s.current = t.current → f s = f t ∧ f' s = f' t)
    (h : ∀ s, Alike read read' (f s) (f' s)) : Alike read read' (get >>= f) (get >>= f') := by
  let rebuilt (c : Cursor) : State := ⟨c.lexer, c.current, 0, {}, default, {}⟩
  have e : get >>= f = look id >>= fun c => f (rebuilt c) := by
    funext s
    show f s s = f (rebuilt s.cursor) s
    rw [(@hf s (rebuilt s.cursor) rfl rfl).1]
  have e' : get >>= f' = look id >>= fun c => f' (rebuilt c) := by
    funext s
    show f' s s = f' (rebuilt s.cursor) s
    rw [(@hf s (rebuilt s.cursor) rfl rfl).2]
  rw [e, e']
  exact bind (same (.look id)) fun c => h _

/-- Two productions that are put together in the same way, as far as they run on the token. -/
def OnToken (read read' : Reader) (token : Token) (p p' : Production α) : Prop :=
  ∃ q q' : Production α, Alike read read' q q' ∧
    ∀ s, s.current = token → p s = q s ∧ p' s = q' s

theorem onToken {token : Token} (h : Alike read read' p p') : OnToken read read' token p p' :=
  ⟨p, p', h, fun _ _ => ⟨rfl, rfl⟩⟩

/-- A production may count on the token that it has found under the cursor. -/
theorem current_bind {f f' : Token → Production α}
    (h : ∀ token, OnToken read read' token (f token) (f' token)) :
    Alike read read' (current >>= f) (current >>= f') := by
  let q (token : Token) : Production α := (h token).choose
  let q' (token : Token) : Production α := (h token).choose_spec.choose
  have hq (token : Token) : Alike read read' (q token) (q' token) :=
    (h token).choose_spec.choose_spec.1
  have e : current >>= f = current >>= q := by
    funext s
    exact ((h s.current).choose_spec.choose_spec.2 s rfl).1
  have e' : current >>= f' = current >>= q' := by
    funext s
    exact ((h s.current).choose_spec.choose_spec.2 s rfl).2
  rw [e, e']
  exact bind (same inferInstance) hq

end Alike

end Grammar

end EcmaScript
