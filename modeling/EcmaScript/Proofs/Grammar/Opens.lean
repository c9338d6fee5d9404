import EcmaScript.Proofs.Grammar.Cursor

/-!
# Productions start with a token

A construct of the grammar is not empty: a production that has a result has read a token. And it does
not recur before that, except that a statement may start with an expression. `Opens` says both of a
production over two readers. That it does not recur too early is said by letting the readers differ at
the cursor, where they are not to be asked: the production does the same over both.

A production that reads its first token without looking at it counts on a token being there. `Opens` has
a flag for this.

## Contents

* `Reader.Consumes`, `Reach`, `Agree`: what is supposed of the readers.
* `Alike.agree`: readers that agree from the cursor on.
* `Opens`: the class of productions, and its closure under the combinators.
* One instance for each production that can start a nonterminal.
* `consumes_read`, `read_eq_read`: all nonterminals, and that their depth does not matter.
-/

namespace EcmaScript

namespace Grammar

-- An instance for a production is as large as the production.
set_option synthInstance.maxSize 2000

/-! ## Readers -/

/-- Whatever has a result has read a token. -/
structure Reader.Consumes (text : List Char) (read : Reader) : Prop where
  composed : ∀ n, Composed (read n)
  lt : ∀ (n : Nonterminal) {s t : State} {a : n.Result}, s.Standing text → read n s = .ok a t →
    s.current.span.offset < t.current.span.offset

/-- The nonterminals that a production may start with. -/
inductive Reach where
  | nothing
  | assignment
  | everything

class inductive Reach.Allows : Reach → Nonterminal → Prop where
  | assignment : Allows .assignment .assignment
  | everything (n : Nonterminal) : Allows .everything n

attribute [instance] Reach.Allows.assignment Reach.Allows.everything

/-- The readers agree behind the cursor, and on what a production may start with also at the cursor. -/
def Agree (text : List Char) (reach : Reach) (s : State) (read read' : Reader) : Prop :=
  ∀ (n : Nonterminal) (t : State), t.Standing text →
    s.current.span.offset < t.current.span.offset ∨
      reach.Allows n ∧ s.current.span.offset ≤ t.current.span.offset →
    read n t = read' n t

section Readers

variable {text : List Char} {reach : Reach} {read read' : Reader} {s t : State}

/-- The readers agree no less in a state further on. -/
theorem Agree.mono (h : Agree text reach s read read')
    (ho : s.current.span.offset ≤ t.current.span.offset) : Agree text reach t read read' :=
  fun n u hu hn => h n u hu (hn.imp (Nat.lt_of_le_of_lt ho) fun ⟨ha, hle⟩ => ⟨ha, Nat.le_trans ho hle⟩)

/-- Behind a token they agree on everything. -/
theorem Agree.behind (h : Agree text reach s read read')
    (ho : s.current.span.offset < t.current.span.offset) : Agree text .everything t read read' :=
  fun n u hu hn => h n u hu (.inl (hn.elim (Nat.lt_trans ho) fun ⟨_, hle⟩ => Nat.lt_of_lt_of_le ho hle))

theorem Agree.refl (s : State) (read : Reader) : Agree text reach s read read := fun _ _ _ _ => rfl

/-- **Over readers that agree from the cursor on a production does the same.** -/
theorem Alike.agree {α : Type} {p p' : Production α} (h : Alike read read' p p')
    (hr : ∀ n, Composed (read n)) (hs : s.Standing text)
    (ha : Agree text .everything s read read') : p s = p' s := by
  induction h generalizing s with
  | same => rfl
  | nonterminal n => exact ha n s hs (.inr ⟨inferInstance, Nat.le_refl _⟩)
  | @bind α β p p' f f' hp _ ihp ihf =>
      have hpp := ihp hs ha
      refine bind_congr_at hpp fun a t ht => ?_
      obtain ⟨_, hf⟩ := (hp.composed hr).forward_of_ok hs (hpp.trans ht)
      exact ihf a hf.standing (ha.mono hf.le)
  | within change _ ih => exact within_congr_at (ih (hs.idle (s.idle_context _)) ha)
  | @reporting α p p' handler handler' hp _ ihp ihh =>
      refine reporting_congr_at (ihp hs ha) fun e t ht => ?_
      have hf := (hp.composed hr).forward hs
      rw [ihp hs ha, ht] at hf
      obtain ⟨_, hf⟩ := hf
      have hle := hf.le
      exact ihh (hf.standing.idle (t.idle_journal _)) (ha.mono hle)

end Readers

/-! ## The class -/

/-- At this state two productions do the same, and with a result they have read a token. -/
structure OpensAt (s : State) {α : Type} (p p' : Production α) : Prop where
  same : p s = p' s
  lt : ∀ a t, p s = .ok a t → s.current.span.offset < t.current.span.offset

namespace OpensAt

variable {text : List Char} {read read' : Reader} {s t : State} {α β : Type}
  {p p' q q' : Production α}

theorem of_eq (hp : p s = q s) (hp' : p' s = q' s) (h : OpensAt s q q') : OpensAt s p p' :=
  ⟨by rw [hp, hp', h.same], fun a t ht => h.lt a t (hp ▸ ht)⟩

theorem look_bind {f f' : β → Production α} {p : Production β} {b : β} (hp : p s = .ok b s)
    (h : OpensAt s (f b) (f' b)) : OpensAt s (p >>= f) (p >>= f') :=
  h.of_eq (bind_ok hp) (bind_ok hp)

/-- Whatever was read before, there is still a token to come. -/
theorem after {f f' : β → Production α} {p : Production β} {b : β} (hp : p s = .ok b t)
    (hle : s.current.span.offset ≤ t.current.span.offset) (h : OpensAt t (f b) (f' b)) :
    OpensAt s (p >>= f) (p >>= f') := by
  refine ⟨by rw [bind_ok hp, bind_ok hp, h.same], fun a u hu => ?_⟩
  rw [bind_ok hp] at hu
  exact Nat.lt_of_le_of_lt hle (h.lt a u hu)

/-- Behind a token anything may follow. -/
theorem behind (hp : p s = q t) (hp' : p' s = q' t) (ht : t.Standing text)
    (hlt : s.current.span.offset < t.current.span.offset) (hc : Composed q) (he : q t = q' t) :
    OpensAt s p p' := by
  refine ⟨by rw [hp, hp', he], fun a u hu => ?_⟩
  obtain ⟨_, hf⟩ := hc.forward_of_ok ht (hp ▸ hu)
  exact Nat.lt_of_lt_of_le hlt hf.le

end OpensAt

/-- The production reads a token before it has a result and, but for what it may start with, before it
recurs. With `present`, a token is supposed to be there. -/
class Opens (text : List Char) (reach : Reach) (present : Bool) (read read' : Reader) {α : Type}
    (p p' : Production α) : Prop where
  run : ∀ {s : State}, read.Consumes text → s.Standing text →
    (present = true → s.current.isEnd = false) → Agree text reach s read read' → OpensAt s p p'

/-- A production that only looks. -/
class Looks {α : Type} (p : Production α) : Prop where
  looks : ∃ f : State → α, ∀ s, p s = .ok (f s) s

instance : Looks current := ⟨_, fun _ => rfl⟩

instance : Looks position := ⟨_, fun _ => rfl⟩

instance : Looks context := ⟨_, fun _ => rfl⟩

instance : Looks isStrict := ⟨_, fun _ => rfl⟩

instance : Looks peek := ⟨_, peek_eq⟩

/-- A test of the token under the cursor that the end of the text does not pass. -/
class Tests (test : Production Bool) : Prop where
  tests : ∃ f : State → Bool, (∀ s, test s = .ok (f s) s) ∧
    ∀ s, f s = true → s.current.isEnd = false

instance (priority := low) {test : Production Bool} [h : Tests test] : Looks test :=
  have ⟨f, hf, _⟩ := h.tests
  ⟨f, hf⟩

/-- Reading the token under the cursor if it passes such a test. -/
class Eats (eat : Production Bool) : Prop where
  eats : ∃ f : State → Bool, (∀ s, eat s = if f s = true then .ok true s.advanced else .ok false s) ∧
    ∀ s, f s = true → s.current.isEnd = false

section Tests

variable (mark : Punctuator) (word : Keyword) (name : String) {token : Token}

theorem isEnd_of_isWord (h : token.isWord word = true) : token.isEnd = false := by
  unfold Token.isWord at h
  unfold Token.isEnd
  split at h
  next hk => rw [hk]
  next => cases h

theorem isEnd_of_isName (h : token.isName name = true) : token.isEnd = false := by
  unfold Token.isName at h
  unfold Token.isEnd
  split at h
  next hk => rw [hk]
  next => cases h

instance : Tests (atMark mark) :=
  ⟨fun s => s.current.isMark mark, fun _ => rfl, fun _ => Token.isEnd_of_isMark⟩

instance : Tests (atWord word) :=
  ⟨fun s => s.current.isWord word, fun _ => rfl, fun _ => isEnd_of_isWord word⟩

instance : Tests (atName name) :=
  ⟨fun s => s.current.isName name && !s.current.escaped, fun _ => rfl, fun _ h =>
    isEnd_of_isName name (Bool.and_eq_true_iff.mp h).1⟩

theorem atMark_of_isEnd {s : State} (h : s.current.isEnd = true) :
    atMark mark s = .ok false s := by
  show EStateM.Result.ok (s.current.isMark mark) s = _
  cases hm : s.current.isMark mark with
  | false => rfl
  | true => cases (Token.isEnd_of_isMark hm).symm.trans h

theorem atWord_of_isEnd {s : State} (h : s.current.isEnd = true) :
    atWord word s = .ok false s := by
  show EStateM.Result.ok (s.current.isWord word) s = _
  cases hw : s.current.isWord word with
  | false => rfl
  | true => cases (isEnd_of_isWord word hw).symm.trans h

theorem eatMark_of_isEnd {s : State} (h : s.current.isEnd = true) :
    eatMark mark s = .ok false s := bind_ok (atMark_of_isEnd mark h)

/-- Reading behind a test. -/
theorem eats_of_tests {test eat : Production Bool} [h : Tests test]
    (he : eat = do
      if ← test then
        skip
        return true
      else return false) : Eats eat := by
  obtain ⟨f, hf, hend⟩ := h.tests
  refine ⟨f, fun s => ?_, hend⟩
  rw [he, bind_ok (hf s)]
  split <;> rfl

instance : Tests atAwaitOperator := by
  refine ⟨fun s => (s.current.isName "await" && !s.current.escaped) &&
    (s.context.inAsync || (!s.lexer.nextToken.1.newlineBefore &&
      makesAwaitOperator s.lexer.nextToken.1)), fun s => ?_, fun s h => ?_⟩
  · have found : atName "await" s = .ok (s.current.isName "await" && !s.current.escaped) s := rfl
    have inside : context s = .ok s.context s := rfl
    unfold atAwaitOperator
    rw [bind_ok found]
    dsimp only
    cases s.current.isName "await" && !s.current.escaped with
    | false => rfl
    | true =>
        rw [if_neg (by decide), bind_ok inside]
        cases s.context.inAsync with
        | false => exact bind_ok (peek_eq s)
        | true => rfl
  · simp only [Bool.and_eq_true] at h
    exact isEnd_of_isName "await" h.1.1

instance : Eats (eatMark mark) := @eats_of_tests (atMark mark) _ _ rfl

instance : Eats (eatWord word) := @eats_of_tests (atWord word) _ _ rfl

instance : Eats (eatName name) := @eats_of_tests (atName name) _ _ rfl

end Tests

namespace Opens

variable {text : List Char} {reach : Reach} {present : Bool} {read read' : Reader} {α β : Type}
  {p p' q q' : Production α}

/-! ## Combinators -/

/-- What does not count on a token can be run anywhere. -/
theorem opensAt {s : State} (h : Opens text reach false read read' p p') (hr : read.Consumes text)
    (hs : s.Standing text) (ha : Agree text reach s read read') : OpensAt s p p' :=
  h.run hr hs (fun hp => absurd hp Bool.false_ne_true) ha

/-- Behind the first token anything may follow. -/
theorem bind {f f' : α → Production β} (hp : Opens text reach present read read' p p')
    (hc : Alike read read' p p') (hf : ∀ a, Alike read read' (f a) (f' a)) :
    Opens text reach present read read' (p >>= f) (p' >>= f') := by
  constructor
  intro s hr hs hpr ha
  obtain ⟨he, hlt⟩ := hp.run hr hs hpr ha
  have hcp := hc.composed hr.composed
  constructor
  · refine bind_congr_at he fun a t ht => ?_
    obtain ⟨_, hfw⟩ := hcp.forward_of_ok hs (he.trans ht)
    exact (hf a).agree hr.composed hfw.standing (ha.behind (hlt a t (he.trans ht)))
  · intro b u hu
    obtain ⟨a, t, ht, hu⟩ := exists_of_bind_ok hu
    obtain ⟨_, hfw⟩ := hcp.forward_of_ok hs ht
    obtain ⟨_, hfu⟩ := ((hf a).composed hr.composed).forward_of_ok hfw.standing hu
    exact Nat.lt_of_lt_of_le (hlt a t ht) hfu.le

instance instBind {f f' : α → Production β} [hp : Opens text reach present read read' p p']
    [hc : Alike read read' p p'] [hf : ∀ a, Alike read read' (f a) (f' a)] :
    Opens text reach present read read' (p >>= f) (p' >>= f') := bind hp hc hf

/-- A look at the state before the first token. -/
theorem look_bind {p : Production α} {f f' : α → Production β} [hp : Looks p]
    (hf : ∀ a, Opens text reach present read read' (f a) (f' a)) :
    Opens text reach present read read' (p >>= f) (p >>= f') := by
  obtain ⟨g, hg⟩ := hp.looks
  constructor
  intro s hr hs hpr ha
  exact .look_bind (hg s) ((hf (g s)).run hr hs hpr ha)

instance instLook {p : Production α} {f f' : α → Production β} [Looks p]
    [hf : ∀ a, Opens text reach present read read' (f a) (f' a)] :
    Opens text reach present read read' (p >>= f) (p >>= f') := look_bind hf

/-- Whatever was read before, there is still a token to come. -/
theorem late {p : Production α} {f f' : α → Production β} (hp : Composed p)
    (hf : ∀ a, Opens text reach false read read' (f a) (f' a)) :
    Opens text reach present read read' (p >>= f) (p >>= f') := by
  constructor
  intro s hr hs _ ha
  have hfw {a : α} {t : State} (ht : p s = .ok a t) :
      t.Standing text ∧ s.current.span.offset ≤ t.current.span.offset := by
    obtain ⟨_, h⟩ := hp.forward_of_ok hs ht
    exact ⟨h.standing, h.le⟩
  constructor
  · refine bind_congr_at rfl fun a t ht => ?_
    exact ((hf a).opensAt hr (hfw ht).1 (ha.mono (hfw ht).2)).1
  · intro b u hu
    obtain ⟨a, t, ht, hu⟩ := exists_of_bind_ok hu
    exact Nat.lt_of_le_of_lt (hfw ht).2
      (((hf a).opensAt hr (hfw ht).1 (ha.mono (hfw ht).2)).2 b u hu)

instance instMap {f : α → β} [hp : Opens text reach present read read' p p'] :
    Opens text reach present read read' (f <$> p) (f <$> p') := by
  constructor
  intro s hr hs hpr ha
  obtain ⟨he, hlt⟩ := hp.run hr hs hpr ha
  refine ⟨map_congr_at he, fun b u hu => ?_⟩
  obtain ⟨a, ht, -⟩ := exists_of_map_ok hu
  exact hlt a u ht

instance instMapConst {b : β} [Opens text reach present read read' p p'] :
    Opens text reach present read read' (Functor.mapConst b p) (Functor.mapConst b p') :=
  instMap (f := Function.const α b)

instance instIte {c : Prop} [Decidable c] [hp : Opens text reach present read read' p p']
    [hq : Opens text reach present read read' q q'] :
    Opens text reach present read read' (if c then p else q) (if c then p' else q') := by
  split
  · exact hp
  · exact hq

instance instWithin (change : Context → Context) [hp : Opens text reach present read read' p p'] :
    Opens text reach present read read' (within change p) (within change p') := by
  constructor
  intro s hr hs hpr ha
  obtain ⟨he, hlt⟩ := hp.run hr (hs.idle (s.idle_context (change s.context))) hpr ha
  refine ⟨within_congr_at he, fun a t ht => ?_⟩
  unfold within at ht
  cases hu : p { s with context := change s.context } with
  | ok b u =>
      rw [hu] at ht
      cases ht
      exact hlt _ u hu
  | error e u =>
      rw [hu] at ht
      cases ht

instance [Opens text reach present read read' p p'] :
    Opens text reach present read read' (allowingIn p) (allowingIn p') := by
  unfold allowingIn
  infer_instance

/-! ## The first token -/

instance (q : Problem) (position : Position) :
    Opens text reach present read read' (fail q position : Production α) (fail q position) :=
  ⟨fun _ _ _ _ => ⟨rfl, fun _ _ h => by rw [fail_eq] at h; cases h⟩⟩

instance (q : Problem) :
    Opens text reach present read read' (failHere q : Production α) (failHere q) :=
  ⟨fun _ _ _ _ => ⟨rfl, fun _ _ h => by rw [failHere_eq] at h; cases h⟩⟩

/-- A token that is there can be read. -/
theorem lt_advanced {s : State} (hs : s.Standing text) (he : s.current.isEnd = false) :
    s.current.span.offset < s.advanced.current.span.offset := by
  have ho := hs.offset_advanced
  unfold State.taken at ho
  rw [he, if_neg Bool.false_ne_true, List.length_singleton] at ho
  exact ho

instance : Opens text reach true read read' advance advance := by
  constructor
  intro s _ hs he _
  refine ⟨rfl, fun a t ht => ?_⟩
  rw [advance_eq] at ht
  cases ht
  exact lt_advanced hs (he rfl)

instance : Opens text reach true read read' skip skip := by
  unfold skip discard
  infer_instance

instance (r : Rereading) : Opens text reach true read read' (reread r) (reread r) := by
  constructor
  intro s _ hs he _
  refine ⟨rfl, fun a t ht => ?_⟩
  rw [reread_eq] at ht
  cases ht
  rw [← hs.offset_readAgain r]
  exact lt_advanced (hs.readAgain r) ((hs.isEnd_readAgain r).trans (he rfl))

/-! ## Tests of the first token -/

/-- Where the test succeeds, a token is there. -/
theorem test_bind {test : Production Bool} {f f' : Bool → Production α} [ht : Tests test]
    (hp : Opens text reach true read read' (f true) (f' true))
    (hq : Opens text reach present read read' (f false) (f' false)) :
    Opens text reach present read read' (test >>= f) (test >>= f') := by
  obtain ⟨g, hg, hend⟩ := ht.tests
  constructor
  intro s hr hs hpr ha
  refine .look_bind (hg s) ?_
  cases hgs : g s with
  | true => exact hp.run hr hs (fun _ => hend s hgs) ha
  | false => exact hq.run hr hs hpr ha

instance instTest {test : Production Bool} [Tests test]
    [hp : Opens text reach true read read' p p'] [hq : Opens text reach present read read' q q'] :
    Opens text reach present read read' (test >>= fun b => if b = true then p else q)
      (test >>= fun b => if b = true then p' else q') := test_bind hp hq

/-- Where the token is read, anything may follow. -/
theorem eat_bind {eat : Production Bool} [he : Eats eat] (hp : Alike read read' p p')
    (hq : Opens text reach present read read' q q') :
    Opens text reach present read read' (eat >>= fun b => if b = true then p else q)
      (eat >>= fun b => if b = true then p' else q') := by
  obtain ⟨f, hf, hend⟩ := he.eats
  constructor
  intro s hr hs hpr ha
  cases hfs : f s with
  | true =>
      have hes : eat s = .ok true s.advanced := by rw [hf, if_pos hfs]
      have hlt := lt_advanced hs (hend s hfs)
      exact .behind (bind_ok hes) (bind_ok hes) hs.advanced hlt (hp.composed hr.composed)
        (hp.agree hr.composed hs.advanced (ha.behind hlt))
  | false =>
      have hes : eat s = .ok false s := by rw [hf, if_neg (by rw [hfs]; exact Bool.false_ne_true)]
      exact .look_bind hes (hq.run hr hs hpr ha)

instance instEat {eat : Production Bool} [Eats eat] [hp : Alike read read' p p']
    [hq : Opens text reach present read read' q q'] :
    Opens text reach present read read' (eat >>= fun b => if b = true then p else q)
      (eat >>= fun b => if b = true then p' else q') := eat_bind hp hq

/-- The first token is looked at: at the end of the text, and where it is there. -/
theorem current_bind {f f' : Token → Production α}
    (hend : ∀ token : Token, token.isEnd = true →
      Opens text reach present read read' (f token) (f' token))
    (h : ∀ token : Token, token.isEnd = false →
      Opens text reach true read read' (f token) (f' token)) :
    Opens text reach present read read' (current >>= f) (current >>= f') := by
  constructor
  intro s hr hs hpr ha
  refine .look_bind (show current s = .ok s.current s from rfl) ?_
  cases he : s.current.isEnd with
  | true => exact (hend s.current he).run hr hs hpr ha
  | false => exact (h s.current he).run hr hs (fun _ => he) ha

/-! ## Names and nonterminals -/

section Tokens

variable (mark : Punctuator) (word : Keyword) (name : String)

instance : Opens text reach present read read' (expectMark mark) (expectMark mark) := by
  unfold expectMark
  infer_instance

instance : Opens text reach present read read' (expectWord word) (expectWord word) := by
  unfold expectWord
  infer_instance

instance : Opens text reach present read read' (expectName name) (expectName name) := by
  unfold expectName
  infer_instance

instance (token : Token) :
    Opens text reach present read read' (failName token : Production α) (failName token) := by
  unfold failName
  split <;> infer_instance

end Tokens

theorem kind_of_isEnd {token : Token} (h : token.isEnd = true) : token.kind = .endOfText := by
  unfold Token.isEnd at h
  split at h
  · assumption
  · cases h

instance : Opens text reach present read read' bindingIdentifier bindingIdentifier := by
  unfold bindingIdentifier
  refine current_bind (fun token he => ?_) fun token _ => ?_
  · rw [kind_of_isEnd he]
    infer_instance
  · split <;> infer_instance

instance : Opens text reach present read read' identifierName identifierName := by
  unfold identifierName
  refine current_bind (fun token he => ?_) fun token _ => ?_
  · unfold Token.propertyName?
    rw [kind_of_isEnd he]
    infer_instance
  · split <;> infer_instance

theorem nonterminal (n : Nonterminal) [h : reach.Allows n] :
    Opens text reach present read read' (read n) (read' n) :=
  ⟨fun hr hs _ ha => ⟨ha n _ hs (.inr ⟨h, Nat.le_refl _⟩), fun _ _ => hr.lt n hs⟩⟩

instance [reach.Allows .assignment] :
    @Opens text reach present read read' Expression (read .assignment) (read' .assignment) :=
  nonterminal .assignment

instance [reach.Allows .binding] :
    @Opens text reach present read read' Expression (read .binding) (read' .binding) :=
  nonterminal .binding

instance (place : Place) [reach.Allows (.statement place)] :
    @Opens text reach present read read' Statement (read (.statement place))
      (read' (.statement place)) := nonterminal (.statement place)

instance [reach.Allows .assignment] :
    Opens text reach present read read' (expression read) (expression read') := by
  unfold expression
  infer_instance

instance : Opens text reach present read read' (block read) (block read') := by
  unfold block
  infer_instance

/-! ## Literals and functions -/

instance : Opens text reach true read read' (template read) (template read') := by
  have first : Opens text reach true read read' templateText templateText :=
    (inferInstance : Opens text reach true read read' (advance >>= Alike.textOf)
      (advance >>= Alike.textOf))
  unfold template
  infer_instance

instance : Opens text reach present read read' (parenthesizedItems read)
    (parenthesizedItems read') := by
  unfold parenthesizedItems
  infer_instance

instance : Opens text reach present read read' (arguments read) (arguments read') := by
  rw [Alike.arguments_eq, Alike.arguments_eq]
  infer_instance

instance : Opens text reach true read read' (arrayLiteral read) (arrayLiteral read') := by
  unfold arrayLiteral
  infer_instance

instance : Opens text reach true read read' (objectLiteral read) (objectLiteral read') := by
  unfold objectLiteral
  infer_instance

instance : Opens text reach present read read' (bindingTarget read) (bindingTarget read') := by
  unfold bindingTarget
  infer_instance

instance (isAsync : Bool) (start : Position) (anonymousAllowed : Bool) :
    Opens text reach present read read' (functionDeclaration read isAsync start anonymousAllowed)
      (functionDeclaration read' isAsync start anonymousAllowed) := by
  unfold functionDeclaration
  infer_instance

instance (isAsync : Bool) (start : Position) :
    Opens text reach present read read' (functionExpression read isAsync start)
      (functionExpression read' isAsync start) := by
  unfold functionExpression
  infer_instance

instance (anonymousAllowed : Bool) :
    Opens text reach present read read' (classDefinition read anonymousAllowed)
      (classDefinition read' anonymousAllowed) := by
  unfold classDefinition
  infer_instance

/-! ## Operands -/

instance (name : String) (token : Token) :
    Opens text reach true read read' (reference read name token) (reference read' name token) := by
  unfold reference
  infer_instance

instance (start : Position) :
    Opens text reach true read read' (asyncArrow read start) (asyncArrow read' start) := by
  unfold asyncArrow
  infer_instance

instance (asyncSpan : Span) :
    Opens text reach true read read' (asyncCallOrArrow read asyncSpan)
      (asyncCallOrArrow read' asyncSpan) := by
  unfold asyncCallOrArrow
  infer_instance

instance (name : String) :
    Opens text reach true read read' (identifierExpression read name)
      (identifierExpression read' name) := by
  have behindAsync (token next : Token) : Opens text reach true read read'
      (match next.kind with
        | .identifier _ => asyncArrow read token.start
        | .punctuator .leftParen => asyncCallOrArrow read token.span
        | _ => reference read name token)
      (match next.kind with
        | .identifier _ => asyncArrow read' token.start
        | .punctuator .leftParen => asyncCallOrArrow read' token.span
        | _ => reference read' name token) := by
    split <;> infer_instance
  unfold identifierExpression
  infer_instance

instance : Opens text reach present read read' (parenthesizedOrArrow read)
    (parenthesizedOrArrow read') := by
  unfold parenthesizedOrArrow
  refine look_bind fun start => bind inferInstance inferInstance fun (items, comma?, span) => ?_
  refine .bind inferInstance fun isArrow => ?_
  split
  · dsimp only
    cases comma? <;> infer_instance
  · split <;> infer_instance

instance (start : Position) :
    Opens text reach true read read' (importExpression read start) (importExpression read' start) := by
  unfold importExpression
  infer_instance

instance : Opens text reach true read read' superReference superReference := by
  unfold superReference
  infer_instance

instance (word : Keyword) (token : Token) :
    Opens text reach true read read' (keywordExpression read word token)
      (keywordExpression read' word token) := by
  unfold keywordExpression
  split <;> infer_instance

instance (name : String) (token : Token) :
    Opens text reach true read read' (privateOperand name token) (privateOperand name token) := by
  unfold privateOperand
  infer_instance

instance : Opens text reach true read read' Alike.slashExpression Alike.slashExpression := by
  unfold Alike.slashExpression
  refine look_bind fun start => bind inferInstance inferInstance fun token => ?_
  split <;> infer_instance

/-- A slash is read again as the start of a regular expression. -/
theorem regExpLiteral_at {s : State} (h : Rereading.regExp.applies s.current = true)
    (hr : read.Consumes text) (hs : s.Standing text) (ha : Agree text reach s read read') :
    OpensAt s regExpLiteral regExpLiteral := by
  have hl : OpensAt s Alike.slashExpression Alike.slashExpression :=
    (inferInstance : Opens text reach true read read' Alike.slashExpression Alike.slashExpression).run
      hr hs (fun _ => State.Standing.isEnd_of_applies h) ha
  exact hl.of_eq (Alike.regExpLiteral_eq h) (Alike.regExpLiteral_eq h)

instance : Opens text reach present read read' (primary read) (primary read') := by
  constructor
  intro s hr hs hpr ha
  have run {p p' : Production Expression} (h : Opens text reach true read read' p p')
      (he : s.current.isEnd = false) : OpensAt s p p' := h.run hr hs (fun _ => he) ha
  unfold primary
  refine .look_bind (show current s = .ok s.current s from rfl) ?_
  split
  case h_6 h => exact regExpLiteral_at (by simp [Rereading.applies, Token.isMark, h]) hr hs ha
  case h_7 h => exact regExpLiteral_at (by simp [Rereading.applies, Token.isMark, h]) hr hs ha
  case h_13 => exact (inferInstance : Opens text reach false read read' _ _).opensAt hr hs ha
  all_goals exact run inferInstance (by simp [Token.isEnd, *])

/-! ## Operators -/

theorem construction_present : Opens text reach true read read' (construction read)
    (construction read') := by
  unfold construction
  infer_instance

/-- At the end of the text no further `new` follows. -/
instance : Opens text reach present read read' (construction read) (construction read') := by
  constructor
  intro s hr hs _ ha
  cases he : s.current.isEnd with
  | false => exact construction_present.run hr hs (fun _ => he) ha
  | true =>
      have he' : s.advanced.current.isEnd = true := hs.isEnd_advanced he
      have hle := hs.le_advanced
      unfold construction
      refine .look_bind (show position s = .ok s.current.start s from rfl) ?_
      refine .after (show skip s = .ok () s.advanced from rfl) hle ?_
      refine .look_bind (eatMark_of_isEnd .dot he') (.look_bind (atWord_of_isEnd .newWord he') ?_)
      have operated {f f' : Expression → Production Expression}
          (hf : ∀ operand, Alike read read' (f operand) (f' operand)) :
          OpensAt s.advanced (primary read >>= f) (primary read' >>= f') :=
        (bind inferInstance inferInstance hf : Opens text reach false read read' _ _).opensAt hr
          hs.advanced (ha.mono hle)
      exact operated fun operand => inferInstance

instance : Opens text reach present read read' (leftHandSide read) (leftHandSide read') := by
  unfold leftHandSide
  infer_instance

instance : Opens text reach present read read' (updatable read) (updatable read') := by
  unfold updatable
  refine look_bind fun start => bind inferInstance inferInstance fun operand => ?_
  refine .bind inferInstance fun token => ?_
  split <;> infer_instance

instance : Opens text reach present read read' (unary read) (unary read') := by
  unfold unary
  refine current_bind (fun token he => ?_) fun token _ => ?_
  · unfold unaryOperator? updateOperator?
    rw [kind_of_isEnd he]
    infer_instance
  · split
    · infer_instance
    · split <;> infer_instance

instance : Opens text reach present read read' (binary read) (binary read') := by
  unfold binary
  infer_instance

instance : Opens text reach present read read' (conditional read) (conditional read') := by
  unfold conditional
  infer_instance

instance : Opens text reach true read read' (yieldExpression read) (yieldExpression read') := by
  unfold yieldExpression
  infer_instance

instance : Opens text reach present read read' (assignment read) (assignment read') := by
  have operated (present : Bool) : Opens text reach present read read'
      (do
        let start ← position
        let left ← conditional read
        if left.isArrow then return left
        else match assignmentOperator? (← current) with
          | none => return left
          | some operator =>
            skip
            let right ← read .assignment
            return .assignment operator left right (← spanFrom start))
      (do
        let start ← position
        let left ← conditional read'
        if left.isArrow then return left
        else match assignmentOperator? (← current) with
          | none => return left
          | some operator =>
            skip
            let right ← read' .assignment
            return .assignment operator left right (← spanFrom start)) := by
    refine look_bind fun start => bind inferInstance inferInstance fun left => ?_
    split
    · infer_instance
    · refine .bind inferInstance fun token => ?_
      split <;> infer_instance
  unfold assignment
  refine look_bind fun context => test_bind ?_ ?_
  · split
    · infer_instance
    · exact operated true
  · rw [Bool.and_false]
    exact operated present

/-! ## Statements -/

instance (kind : VariableKind) :
    Opens text reach true read read' (declaration read kind) (declaration read' kind) := by
  unfold declaration
  infer_instance

instance (kind : VariableKind) :
    Opens text reach true read read' (declarationStatement read kind)
      (declarationStatement read' kind) := by
  unfold declarationStatement
  infer_instance

/-- A declaration out of place is refused before anything is read. -/
instance (place : Place) [h : Opens text reach present read read' p p'] :
    Opens text reach present read read' (checkPlace place >>= fun _ => p)
      (checkPlace place >>= fun _ => p') := by
  unfold checkPlace
  split
  · refine ⟨fun _ _ _ _ => ⟨rfl, fun a t ht => ?_⟩⟩
    obtain ⟨_, _, hu, _⟩ := exists_of_bind_ok ht
    rw [failHere_eq] at hu
    cases hu
  · exact h

instance : Opens text reach true read read' (forStatement read) (forStatement read') := by
  unfold forStatement
  refine look_bind fun start => bind inferInstance inferInstance fun _ => ?_
  refine .bind inferInstance fun isAwait => .bind inferInstance fun _ => ?_
  refine .bind inferInstance fun head => ?_
  split <;> infer_instance

instance : Opens text reach true read read' (whileStatement read) (whileStatement read') := by
  unfold whileStatement
  infer_instance

instance : Opens text reach true read read' (doStatement read) (doStatement read') := by
  unfold doStatement
  infer_instance

instance : Opens text reach true read read' (ifStatement read) (ifStatement read') := by
  unfold ifStatement
  infer_instance

instance : Opens text reach true read read' (switchStatement read) (switchStatement read') := by
  unfold switchStatement
  infer_instance

instance : Opens text reach true read read' (tryStatement read) (tryStatement read') := by
  unfold tryStatement
  infer_instance

instance (make : Option Identifier → Span → Statement) :
    Opens text reach true read read' (jump make) (jump make) := by
  unfold jump
  infer_instance

instance : Opens text reach true read read' (returnStatement read) (returnStatement read') := by
  unfold returnStatement
  infer_instance

instance : Opens text reach true read read' (throwStatement read) (throwStatement read') := by
  unfold throwStatement
  infer_instance

instance : Opens text reach true read read' (withStatement read) (withStatement read') := by
  unfold withStatement
  infer_instance

instance : Opens text reach true read read' debuggerStatement debuggerStatement := by
  unfold debuggerStatement
  infer_instance

instance : Opens text reach true read read' emptyStatement emptyStatement := by
  unfold emptyStatement
  infer_instance

instance : Opens text reach true read read' importDeclaration importDeclaration := by
  unfold importDeclaration
  infer_instance

instance : Opens text reach true read read' (exportDeclaration read) (exportDeclaration read') := by
  unfold exportDeclaration
  infer_instance

instance : Opens text reach present read read' (labeledStatement read) (labeledStatement read') := by
  unfold labeledStatement
  infer_instance

section Assignment

variable [reach.Allows .assignment]

instance : Opens text reach present read read' (expressionStatement read)
    (expressionStatement read') := by
  unfold expressionStatement
  infer_instance

instance (place : Place) (name : String) :
    Opens text reach true read read' (identifierStatement read place name)
      (identifierStatement read' place name) := by
  unfold identifierStatement
  infer_instance

instance (place : Place) (word : Keyword) :
    Opens text reach true read read' (keywordStatement read place word)
      (keywordStatement read' place word) := by
  unfold keywordStatement
  split <;> infer_instance

/-- Only a statement starts with another nonterminal. -/
instance (place : Place) :
    Opens text reach present read read' (statement read place) (statement read' place) := by
  unfold statement
  refine current_bind (fun token he => ?_) fun token _ => ?_
  · rw [kind_of_isEnd he]
    infer_instance
  · split <;> infer_instance

end Assignment

end Opens

/-! ## The whole grammar -/

/-- What a nonterminal may start with. -/
def Nonterminal.reach : Nonterminal → Reach
  | statement _ => .assignment
  | _ => .nothing

section Whole

variable {text : List Char}

theorem opens_read (depth depth' : Nat) (n : Nonterminal) :
    Opens text n.reach false (read depth) (read depth') (read (depth + 1) n)
      (read (depth' + 1) n) := by
  cases n with
  | statement place =>
      show Opens text .assignment _ _ _ (statement (read depth) place)
        (statement (read depth') place)
      infer_instance
  | assignment =>
      show Opens text .nothing _ _ _ (assignment (read depth)) (assignment (read depth'))
      infer_instance
  | unary =>
      show Opens text .nothing _ _ _ (unary (read depth)) (unary (read depth'))
      infer_instance
  | leftHandSide =>
      show Opens text .nothing _ _ _ (leftHandSide (read depth)) (leftHandSide (read depth'))
      infer_instance
  | construction =>
      show Opens text .nothing _ _ _ (construction (read depth)) (construction (read depth'))
      infer_instance
  | binding =>
      show Opens text .nothing _ _ _ (bindingTarget (read depth)) (bindingTarget (read depth'))
      infer_instance

/-- **Whatever has a result has read a token**, whatever the depth. -/
theorem consumes_read (depth : Nat) : (read depth).Consumes text := by
  induction depth with
  | zero =>
      refine ⟨composed_read 0, fun n s t a _ ht => ?_⟩
      have ht : failHere .primaryExpressionExpected s = .ok a t := ht
      rw [failHere_eq] at ht
      cases ht
  | succ depth ih =>
      exact ⟨composed_read _, fun n s t a hs ht =>
        ((opens_read depth depth n).opensAt ih hs (.refl s _)).lt a t ht⟩

/-- A nonterminal starts with those below it. -/
def Nonterminal.rank : Nonterminal → Nat
  | statement _ => 1
  | _ => 0

theorem Nonterminal.rank_le (n : Nonterminal) : n.rank ≤ 1 := by
  cases n <;> simp only [rank, Nat.le_refl, Nat.zero_le]

theorem Nonterminal.rank_lt {n m : Nonterminal} (h : n.reach.Allows m) : m.rank < n.rank := by
  cases n <;> cases h
  exact Nat.zero_lt_one

/-- The depth that a nonterminal needs where `left` characters are left. -/
def Nonterminal.depth (n : Nonterminal) (left : Nat) : Nat := 2 * left + n.rank + 1

/-- **A nonterminal that has the depth it needs does not use up more.** -/
theorem read_eq_read {depth depth' : Nat} (n : Nonterminal) {s : State} (hs : s.Standing text)
    (hd : n.depth (text.length - s.current.span.offset) ≤ depth)
    (hd' : n.depth (text.length - s.current.span.offset) ≤ depth') :
    read depth n s = read depth' n s := by
  induction depth generalizing depth' n s with
  | zero => exact absurd hd (Nat.not_succ_le_zero _)
  | succ depth ih =>
      cases depth' with
      | zero => exact absurd hd' (Nat.not_succ_le_zero _)
      | succ depth' =>
          refine ((opens_read depth depth' n).opensAt (consumes_read depth) hs ?_).same
          intro m t ht hm
          have hle : t.current.span.offset ≤ text.length := ht.current.span.1.offset_le
          have hrank := m.rank_le
          have need : m.depth (text.length - t.current.span.offset) <
              n.depth (text.length - s.current.span.offset) := by
            unfold Nonterminal.depth
            obtain hlt | ⟨ha, hle'⟩ := hm
            · omega
            · have := Nonterminal.rank_lt ha
              omega
          exact ih m ht (by omega) (by omega)

end Whole

end Grammar

end EcmaScript
