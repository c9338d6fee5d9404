import EcmaScript.Grammar.Script
import EcmaScript.Proofs.LexerLog
import EcmaScript.Proofs.Remarks

/-!
# What productions are made of

A production can look at its cursor, read on, fail, note a trailing comma, change the context for a
part of itself, and recover from the failure of a part when the parse is to go on. It can do nothing
else: in particular it never looks at the journal, and at the edition only to decide whether a comma is
worth an error. `Composed` says so once, and every property of the whole grammar that the later modules
state is an induction over its cases.

The class is closed under the combinators by instances, so a production is shown to be composed by
unfolding it and by splitting where it looks at a token.

## Contents

* `Cursor`, `look`, `reporting`: what a production sees, and how it recovers.
* `Rereading`, `reread`: the two tokens that the grammar has the lexer read again.
* `Composed`: the class of productions.
* Its closure under binds, branches, loops and looks at the state.
* `Always`: what a production gives satisfies a property, from any state.
-/

namespace EcmaScript

namespace Grammar

/-- What a production can see of its state. -/
structure Cursor where
  lexer : Lexer
  current : Token
  lastStop : Nat
  context : Context
  strict : Bool

def State.cursor (s : State) : Cursor :=
  ⟨s.lexer, s.current, s.lastStop, s.context, s.options.isStrict⟩

/-- Reads something off the cursor. -/
def look {α : Type} (f : Cursor → α) : Production α := fun s => .ok (f s.cursor) s

/-- Runs a production. When it fails and the parse is to go on, the failure is reported and `handler`
takes over from where it happened. -/
def reporting {α : Type} (p handler : Production α) : Production α := fun s =>
  match p s with
  | .ok a t => .ok a t
  | .error e t =>
    if t.options.keepGoing then handler { t with journal := t.journal.failure e } else .error e t

/-- The tokens that the grammar asks the lexer to read again, as the start of something longer. -/
inductive Rereading where
  /-- A slash, as the start of a regular expression. -/
  | regExp
  /-- A closing brace, as the start of a piece of template text. -/
  | template

/-- Whether a token is one that the grammar reads again. -/
def Rereading.applies : Rereading → Token → Bool
  | regExp, token => token.isMark .slash || token.isMark .slashAssign
  | template, token => token.isMark .rightBrace

def Rereading.read : Rereading → Lexer → Token → Token × Lexer
  | regExp => Lexer.rescanRegExp
  | template => Lexer.rescanTemplate

theorem Rereading.grows (r : Rereading) (s : Lexer) (token : Token) :
    s.Grows (r.read s token).2 := by
  cases r with
  | regExp => exact s.grows_rescanRegExp token
  | template => exact s.grows_rescanTemplate token

/-- The state with the token under the cursor read again, if that is called for. -/
def State.readAgain (s : State) (r : Rereading) : State :=
  if r.applies s.current then
    { s with lexer := (r.read s.lexer s.current).2, current := (r.read s.lexer s.current).1 }
  else s

/-- The state behind the token under the cursor. -/
def State.advanced (s : State) : State :=
  { s with lexer := s.lexer.nextToken.2, current := s.lexer.nextToken.1,
           lastStop := s.current.span.stop }

theorem advance_eq (s : State) : advance s = .ok s.current s.advanced := rfl

/-- Reads the token under the cursor, in the new form if it is one to be read again. -/
def reread (r : Rereading) : Production Token := fun s => advance (s.readAgain r)

/-- **Looking at the token after the one under the cursor changes nothing.** -/
theorem peek_eq (s : State) : peek s = .ok s.lexer.nextToken.1 s := by
  unfold peek
  rw [s.lexer.lookAhead_eq]

theorem peek_eq_look : peek = look (·.lexer.nextToken.1) := funext peek_eq

theorem reread_eq (r : Rereading) (s : State) :
    reread r s = .ok (s.readAgain r).current (s.readAgain r).advanced := rfl

/-- What the grammar does where it has found the token: it has the token read again, and reads it. -/
theorem reread_bind {α : Type} {r : Rereading} {s : State} (h : r.applies s.current = true)
    (f : Token → Production α) :
    (reread r >>= f) s = (rescan r.read >>= fun _ => advance >>= f) s := by
  show f (s.readAgain r).current (s.readAgain r).advanced = _
  unfold State.readAgain
  rw [if_pos h]
  rfl

/-! ## Running a production -/

section Run

variable {α β : Type} {p : Production α} {f : α → Production β} {a : α} {e : Failure} {s t : State}

theorem bind_ok (h : p s = .ok a t) : (p >>= f) s = f a t := by
  show EStateM.bind p f s = f a t
  unfold EStateM.bind
  rw [h]

theorem bind_error (h : p s = .error e t) : (p >>= f) s = .error e t := by
  show EStateM.bind p f s = .error e t
  unfold EStateM.bind
  rw [h]

theorem exists_of_bind_ok {b : β} (h : (p >>= f) s = .ok b t) :
    ∃ a u, p s = .ok a u ∧ f a u = .ok b t := by
  cases hp : p s with
  | ok a u =>
      rw [bind_ok hp] at h
      exact ⟨a, u, rfl, h⟩
  | error e u =>
      rw [bind_error hp] at h
      cases h

theorem exists_of_map_ok {g : α → β} {b : β} (h : (g <$> p) s = .ok b t) :
    ∃ a, p s = .ok a t ∧ b = g a := by
  have h : EStateM.map g p s = .ok b t := h
  unfold EStateM.map at h
  cases hp : p s with
  | ok a u =>
      rw [hp] at h
      cases h
      exact ⟨a, rfl, rfl⟩
  | error e u =>
      rw [hp] at h
      cases h

theorem get_bind {g : State → Production β} : (get >>= g) s = g s s := rfl

variable {p' : Production α} {f' : α → Production β}

/-- Two productions that agree in a state, with the same behind them. -/
theorem bind_congr_at (hp : p s = p' s)
    (hf : ∀ a t, p' s = .ok a t → f a t = f' a t) : (p >>= f) s = (p' >>= f') s := by
  cases h : p' s with
  | ok a t =>
      rw [bind_ok (hp.trans h), bind_ok h]
      exact hf a t h
  | error e t => rw [bind_error (hp.trans h), bind_error h]

theorem within_congr_at {change : Context → Context}
    (h : p { s with context := change s.context } = p' { s with context := change s.context }) :
    within change p s = within change p' s := by
  unfold within
  rw [h]

theorem map_congr_at {g : α → β} (h : p s = p' s) : (g <$> p) s = (g <$> p') s := by
  show EStateM.map g p s = EStateM.map g p' s
  unfold EStateM.map
  rw [h]

theorem reporting_congr_at {handler handler' : Production α} (hp : p s = p' s)
    (hh : ∀ e t, p' s = .error e t →
      handler { t with journal := t.journal.failure e } =
        handler' { t with journal := t.journal.failure e }) :
    reporting p handler s = reporting p' handler' s := by
  unfold reporting
  rw [hp]
  cases ht : p' s with
  | ok a t => rfl
  | error e t => exact ite_congr rfl (fun _ => hh e t ht) fun _ => rfl

theorem fail_eq (q : Problem) (position : Position) (s : State) :
    (fail q position : Production α) s = .error (.unexpected q.message position) s := rfl

theorem failHere_eq (q : Problem) (s : State) :
    (failHere q : Production α) s = .error (.unexpected q.message s.current.start) s := rfl
end Run

/-! ## The class -/

/-- The productions that are put together from the operations of the cursor. -/
class inductive Composed : {α : Type} → Production α → Prop where
  | pure {α : Type} (a : α) : Composed (pure a : Production α)
  | bind {α β : Type} {p : Production α} {f : α → Production β} :
      Composed p → (∀ a, Composed (f a)) → Composed (p >>= f)
  | look {α : Type} (f : Cursor → α) : Composed (look f)
  | advance : Composed advance
  | reread (r : Rereading) : Composed (reread r)
  | fail {α : Type} (p : Problem) (position : Position) :
      p.EndsProduction → Composed (fail p position : Production α)
  | trailingComma (comma : Position) (place : CommaPlace) :
      Composed (noteTrailingComma comma place.problem)
  | within {α : Type} {p : Production α} (change : Context → Context) :
      Composed p → Composed (within change p)
  | reporting {α : Type} {p handler : Production α} :
      Composed p → Composed handler → Composed (reporting p handler)

namespace Composed

attribute [instance] Composed.pure Composed.look Composed.advance Composed.reread

variable {α β : Type} {p : Production α}

/-! ## Combinators -/

instance instBind {f : α → Production β} [hp : Composed p] [hf : ∀ a, Composed (f a)] :
    Composed (p >>= f) := bind hp hf

instance instFail (q : Problem) (position : Position) [h : q.EndsProduction] :
    Composed (Grammar.fail q position : Production α) := fail q position h

instance instWithin (change : Context → Context) [h : Composed p] :
    Composed (Grammar.within change p) := within change h

instance instMap {f : α → β} [h : Composed p] : Composed (f <$> p) := by
  have e : f <$> p = p >>= fun a => Pure.pure (f a) := by
    funext s
    show EStateM.map f p s = EStateM.bind p (fun a => Pure.pure (f a)) s
    unfold EStateM.map EStateM.bind
    cases p s <;> rfl
  rw [e]
  infer_instance

instance instMapConst {b : β} [h : Composed p] : Composed (Functor.mapConst b p) :=
  instMap (f := Function.const α b)

instance instIte {c : Prop} [Decidable c] {q : Production α} [hp : Composed p] [hq : Composed q] :
    Composed (if c then p else q) := by
  split
  · exact hp
  · exact hq

/-- A production that looks at the lexer and the token under the cursor, and at nothing else. -/
theorem get_bind {f : State → Production α}
    (hf : ∀ {s t : State}, s.lexer = t.lexer → s.current = t.current → f s = f t)
    (h : ∀ s, Composed (f s)) : Composed (get >>= f) := by
  let rebuilt (c : Cursor) : State := ⟨c.lexer, c.current, 0, {}, default, {}⟩
  have e : get >>= f = Grammar.look id >>= fun c => f (rebuilt c) := by
    funext s
    show f s s = f (rebuilt s.cursor) s
    rw [@hf s (rebuilt s.cursor) rfl rfl]
  rw [e]
  exact bind (look id) fun c => h _

instance instForM {f : β → Production PUnit} [hf : ∀ b, Composed (f b)] (bs : List β) :
    Composed (bs.forM f) := by
  induction bs with
  | nil => exact pure _
  | cons b bs ih => exact bind (hf b) fun _ => ih

/-! ## The cursor -/

instance : Composed context := look (·.context)

instance : Composed isStrict := look (·.strict)

instance : Composed current := look (·.current)

instance : Composed peek := by
  rw [peek_eq_look]
  exact look _

instance : Composed position := look (·.current.start)

instance (start : Position) : Composed (spanFrom start) :=
  look fun c => Span.between start c.lastStop

instance : Composed skip := by
  unfold skip discard
  infer_instance

instance (q : Problem) [q.EndsProduction] : Composed (failHere q : Production α) := by
  unfold failHere
  infer_instance

instance [Composed p] : Composed (allowingIn p) := by
  unfold allowingIn
  infer_instance

instance (isAsync isGenerator : Bool) [Composed p] :
    Composed (insideFunction isAsync isGenerator p) := by
  unfold insideFunction
  infer_instance

instance (comma : Position) : Composed (noteTrailingComma comma .trailingCommaInParameters) :=
  trailingComma comma .parameters

instance (comma : Position) : Composed (noteTrailingComma comma .trailingCommaInArguments) :=
  trailingComma comma .arguments

/-! ## Tokens -/

section Tokens

variable (mark : Punctuator) (word : Keyword) (name : String)

instance : Composed (atMark mark) := by
  unfold atMark
  infer_instance

instance : Composed (atWord word) := by
  unfold atWord
  infer_instance

instance : Composed (atName name) := by
  unfold atName
  infer_instance

instance : Composed atEnd := by
  unfold atEnd
  infer_instance

instance : Composed (eatMark mark) := by
  unfold eatMark
  infer_instance

instance : Composed (eatWord word) := by
  unfold eatWord
  infer_instance

instance : Composed (eatName name) := by
  unfold eatName
  infer_instance

instance : Composed (expectMark mark) := by
  unfold expectMark
  infer_instance

instance : Composed (expectWord word) := by
  unfold expectWord
  infer_instance

instance : Composed (expectName name) := by
  unfold expectName
  infer_instance

instance : Composed endStatement := by
  unfold endStatement
  infer_instance

instance (token : Token) : Composed (failName token : Production α) := by
  unfold failName
  split <;> infer_instance

instance : Composed bindingIdentifier := by
  unfold bindingIdentifier
  refine bind inferInstance fun token => ?_
  split <;> infer_instance

instance : Composed identifierName := by
  unfold identifierName
  refine bind inferInstance fun token => ?_
  split <;> infer_instance

end Tokens

end Composed

/-! ## What productions give

Some properties of a construct depend on nothing but the way it was put together. There is one rule for each way to
put productions together. -/

/-- What the production gives satisfies `P`. -/
structure Always {α : Type} (P : α → Prop) (p : Production α) : Prop where
  run : ∀ {s t : State} {a : α}, p s = .ok a t → P a

namespace Always

variable {α β : Type} {P : α → Prop} {Q : β → Prop} {p p' : Production α} {q : Production β}
  {f : β → Production α}

theorem pure {a : α} (h : P a) : Always P (Pure.pure a) :=
  ⟨fun ht => by cases ht; exact h⟩

theorem bind (hq : Always Q q) (hf : ∀ b, Q b → Always P (f b)) : Always P (q >>= f) := by
  refine ⟨fun ht => ?_⟩
  obtain ⟨b, u, hu, ht⟩ := exists_of_bind_ok ht
  exact (hf b (hq.run hu)).run ht

/-- Nothing has to be known of the first part. -/
theorem skim (hf : ∀ b, Always P (f b)) : Always P (q >>= f) :=
  bind (Q := fun _ => True) ⟨fun _ => trivial⟩ fun b _ => hf b

/-- What is given at once. -/
theorem step {b : β} (h : Always P (f b)) : Always P (Pure.pure b >>= f) := h

theorem ite {c : Prop} [Decidable c] (h : c → Always P p) (h' : ¬c → Always P p') :
    Always P (if c then p else p') := by
  split
  next hc => exact h hc
  next hc => exact h' hc

theorem map {make : β → α} (hq : Always Q q) (h : ∀ b, Q b → P (make b)) : Always P (make <$> q) := by
  refine ⟨fun ht => ?_⟩
  obtain ⟨b, hb, rfl⟩ := exists_of_map_ok ht
  exact h b (hq.run hb)

/-- Nothing has to be known of what is wrapped. -/
theorem made {make : β → α} (h : ∀ b, P (make b)) : Always P (make <$> q) :=
  map (Q := fun _ => True) ⟨fun _ => trivial⟩ fun b _ => h b

theorem mono {P' : α → Prop} (hp : Always P p) (h : ∀ a, P a → P' a) : Always P' p :=
  ⟨fun ht => h _ (hp.run ht)⟩

theorem within {change : Context → Context} (hp : Always P p) : Always P (Grammar.within change p) := by
  refine ⟨fun {s t a} ht => ?_⟩
  unfold Grammar.within at ht
  cases hu : p { s with context := change s.context } with
  | ok b u =>
      rw [hu] at ht
      cases ht
      exact hp.run hu
  | error e u =>
      rw [hu] at ht
      cases ht

theorem fail (problem : Problem) (position : Position) :
    Always P (Grammar.fail problem position : Production α) :=
  ⟨fun ht => by rw [fail_eq] at ht; cases ht⟩

theorem failHere (problem : Problem) : Always P (Grammar.failHere problem : Production α) :=
  ⟨fun ht => by rw [failHere_eq] at ht; cases ht⟩

/-- Behind a failure nothing comes. -/
theorem stopped {e : State → Failure} (h : ∀ s, q s = .error (e s) s) : Always P (q >>= f) :=
  ⟨fun {s _ _} ht => by rw [bind_error (h s)] at ht; cases ht⟩

end Always

end Grammar

end EcmaScript
