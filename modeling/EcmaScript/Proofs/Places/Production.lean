import EcmaScript.Proofs.Grammar.Cursor
import EcmaScript.Proofs.Places.Remarks

/-!
# Productions at places of the text

A production that starts with a lexer and a token of the text gives a construct of the text, or fails at a
place of the text, and in both cases it leaves such a lexer and token behind and has made sound remarks.
`Sound` is the class of these productions, closed under the combinators by instances: in a bind the second
part may count on what the first one gives, which is why it is tested on a `TextValue`.

## Contents

* `State.Sound`, `Leads`: states over the text, and the way from one to the next.
* `Sound`: the class of productions.
* Its closure under binds, branches, contexts, recovery and the operations of the cursor.
-/

namespace EcmaScript

/-- The failure of a production at a place of the text. -/
def Failure.Sound (text : List Char) (e : Failure) : Prop :=
  ∃ (p : Problem) (position : Position), p.EndsProduction ∧ position.Located text ∧
    e = .unexpected p.message position

namespace Grammar

/-- The cursor stands in the text, and the edition of the journal is that of the options. -/
structure State.Sound (text : List Char) (s : State) : Prop extends State.Standing text s where
  synced : s.Synced

/-- The state `t` stands in the text, and sound remarks lead from `s` to it. -/
structure Leads (text : List Char) (s t : State) : Prop where
  sound : t.Sound text
  options : t.options = s.options
  journal : s.journal.Adds text t.journal

/-- What a run from the state `s` may end in. -/
def Ends (text : List Char) {α : Type} [HasPlaces α] (s : State) :
    EStateM.Result Failure State α → Prop
  | .ok a t => InText text a ∧ Leads text s t
  | .error e t => e.Sound text ∧ Leads text s t

/-- The production stays in the text when it is run from the state `s`. -/
def Yields (text : List Char) {α : Type} [HasPlaces α] (s : State) (p : Production α) : Prop :=
  Ends text s (p s)

/-- The productions that stay in the text. -/
class Sound (text : List Char) {α : Type} [HasPlaces α] (p : Production α) : Prop where
  run : ∀ {s : State}, s.Sound text → Yields text s p

instance : HasPlaces Context := .trivial _

instance : HasPlaces State := .trivial _

instance {text : List Char} (c : Context) : InText text c := ⟨True.intro⟩

section Leads

variable {text : List Char} {s t u : State}

theorem State.Sound.lastStop (h : s.Sound text) : s.lastStop ≤ text.length :=
  Nat.le_trans h.behind h.current.span.1.offset_le

theorem Leads.refl (h : s.Sound text) : Leads text s s := ⟨h, rfl, .refl _⟩

theorem Leads.trans (h : Leads text s t) (h' : Leads text t u) : Leads text s u :=
  ⟨h'.sound, h'.options.trans h.options, h.journal.trans h'.journal⟩

/-- Another journal over the same cursor. -/
theorem Leads.noting (h : Leads text s t) {j : Journal} (hj : t.journal.Adds text j) :
    Leads text s { t with journal := j } :=
  ⟨⟨h.sound.idle (t.idle_journal j), hj.edition.trans h.sound.synced⟩, h.options, h.journal.trans hj⟩

/-- The token under the cursor is read. -/
theorem Leads.advanced (h : s.Sound text) : Leads text s s.advanced :=
  ⟨⟨h.toStanding.advanced, h.synced⟩, rfl, .refl _⟩

/-- A run that goes on from where another one has ended. -/
theorem Leads.ends {α : Type} [HasPlaces α] {r : EStateM.Result Failure State α}
    (h : Leads text s t) (h' : Ends text t r) : Ends text s r := by
  cases r with
  | ok a u => exact ⟨h'.1, h.trans h'.2⟩
  | error e u => exact ⟨h'.1, h.trans h'.2⟩

end Leads

namespace Sound

variable {text : List Char} {α β : Type} [HasPlaces α] [HasPlaces β] {p : Production α}

/-! ## Combinators -/

omit [HasPlaces α] in
/-- One run behind another whose result is known. -/
theorem yields_behind {f : α → Production β} {s t : State} {a : α} (h : p s = .ok a t)
    (hl : Leads text s t) (hf : Yields text t (f a)) : Yields text s (p >>= f) := by
  rw [Yields, bind_ok h]
  exact hl.ends hf

/-- One run behind another, which may count on what the first one has come to. -/
theorem yields_then {f : α → Production β} {s : State} (hp : Yields text s p)
    (hf : ∀ a t, p s = .ok a t → InText text a → t.Sound text → Yields text t (f a)) :
    Yields text s (p >>= f) := by
  unfold Yields at hp
  cases h : p s with
  | ok a t =>
      rw [h] at hp
      exact yields_behind h hp.2 (hf a t h hp.1 hp.2.sound)
  | error e t =>
      rw [h] at hp
      rw [Yields, bind_error h]
      exact hp

/-- One run behind another. -/
theorem yields_bind {f : α → Production β} {s : State} (hp : Yields text s p)
    (hf : ∀ a : TextValue text α, Sound text (f a.val)) : Yields text s (p >>= f) :=
  yields_then hp fun a _ _ ha ht => (hf ⟨a, ha⟩).run ht

theorem bind {f : α → Production β} (hp : Sound text p)
    (hf : ∀ a : TextValue text α, Sound text (f a.val)) : Sound text (p >>= f) :=
  ⟨fun hs => yields_bind (hp.run hs) hf⟩

instance instBind {f : α → Production β} [hp : Sound text p]
    [hf : ∀ a : TextValue text α, Sound text (f a.val)] : Sound text (p >>= f) := bind hp hf

instance instPure {a : α} [ha : InText text a] : Sound text (pure a : Production α) :=
  ⟨fun hs => ⟨ha, .refl hs⟩⟩

/-- Looks at the state. -/
theorem look {f : State → α} (h : ∀ s, s.Sound text → InText text (f s)) :
    Sound text (fun s => .ok (f s) s : Production α) := ⟨fun hs => ⟨h _ hs, .refl hs⟩⟩

instance : Sound text (get : Production State) := look fun _ _ => ⟨True.intro⟩

theorem yields_map {f : α → β} {s : State} (hp : Yields text s p)
    (hf : ∀ a : TextValue text α, InText text (f a.val)) : Yields text s (f <$> p) := by
  unfold Yields at hp
  show Ends text s (EStateM.map f p s)
  unfold EStateM.map
  cases h : p s with
  | ok a t =>
      rw [h] at hp
      exact ⟨hf ⟨a, hp.1⟩, hp.2⟩
  | error e t =>
      rw [h] at hp
      exact hp

instance instMap {f : α → β} [hp : Sound text p] [hf : ∀ a : TextValue text α, InText text (f a.val)] :
    Sound text (f <$> p) := ⟨fun hs => yields_map (hp.run hs) hf⟩

instance instMapConst {b : β} [Sound text p] [InText text b] : Sound text (Functor.mapConst b p) :=
  have (a : TextValue text α) : InText text (Function.const α b a.val) := inferInstanceAs (InText text b)
  instMap (f := Function.const α b)

instance instIte {c : Prop} [Decidable c] {q : Production α} [hp : Sound text p]
    [hq : Sound text q] : Sound text (if c then p else q) := by
  split
  · exact hp
  · exact hq

theorem forM {f : β → Production PUnit} {bs : List β}
    (hf : ∀ b : TextValue text β, Sound text (f b.val)) (h : InText text bs) :
    Sound text (bs.forM f) := by
  induction bs with
  | nil => exact instPure
  | cons b bs ih =>
      obtain ⟨hb, hbs⟩ := InText.cons_iff.mp h
      exact bind (hf ⟨b, hb⟩) fun _ => ih hbs

instance instFail (q : Problem) (position : Position) [hq : q.EndsProduction]
    [hp : InText text position] : Sound text (fail q position : Production α) :=
  ⟨fun hs => ⟨⟨q, position, hq, InText.position_iff.mp hp, rfl⟩, .refl hs⟩⟩

instance instWithin (change : Context → Context) [h : Sound text p] :
    Sound text (within change p) := by
  constructor
  intro s hs
  -- neither the state under the changed context nor the one under the old context is a new place
  have hrun : Ends text { s with context := change s.context } (p { s with context := change s.context }) :=
    h.run ⟨hs.idle (s.idle_context _), hs.synced⟩
  have back {t : State} (ht : Leads text { s with context := change s.context } t) :
      Leads text s { t with context := s.context } :=
    ⟨⟨ht.sound.idle (t.idle_context _), ht.sound.synced⟩, ht.options, ht.journal⟩
  unfold Yields within
  cases hp : p { s with context := change s.context } with
  | ok a t =>
      rw [hp] at hrun
      exact ⟨hrun.1, back hrun.2⟩
  | error e t =>
      rw [hp] at hrun
      exact ⟨hrun.1, back hrun.2⟩

/-- A failure that is caught has been remarked at its place. -/
theorem reporting {handler : Production α} (hp : Sound text p) (hh : Sound text handler) :
    Sound text (reporting p handler) := by
  constructor
  intro s hs
  have hrun : Ends text s (p s) := hp.run hs
  unfold Yields Grammar.reporting
  cases h : p s with
  | ok a t =>
      rw [h] at hrun
      exact hrun
  | error e t =>
      rw [h] at hrun
      dsimp only
      split
      · obtain ⟨⟨q, position, hq, hl, rfl⟩, ht⟩ := hrun
        have hn := ht.noting (Journal.Adds.error (.refl t.journal) hl hq.isObjection)
        exact hn.ends (hh.run hn.sound)
      · exact hrun

/-! ## The cursor -/

instance : Sound text context := look fun _ _ => inferInstance

instance : Sound text isStrict := look fun _ _ => inferInstance

instance : Sound text current := look fun _ hs => ⟨hs.current⟩

instance : Sound text peek := by
  rw [peek_eq_look]
  exact look fun _ hs => ⟨hs.reads ▸ hs.lexer.gives_nextToken.token⟩

instance : Sound text position := look fun _ hs => InText.position_iff.mpr hs.current.span.1

instance (start : Position) [h : InText text start] : Sound text (spanFrom start) :=
  look fun _ hs => h.between hs.lastStop

instance : Sound text advance := ⟨fun hs => ⟨⟨hs.current⟩, .advanced hs⟩⟩

instance : Sound text skip := by
  unfold skip discard
  infer_instance

instance (q : Problem) [q.EndsProduction] : Sound text (failHere q : Production α) := by
  unfold failHere
  infer_instance

/-- Behind a failure nothing is read, whatever stands there. -/
instance {γ : Type} (q : Problem) [hq : q.EndsProduction] {f : γ → Production α} :
    Sound text (failHere q >>= f) :=
  ⟨fun hs => ⟨⟨q, _, hq, hs.current.span.1, rfl⟩, .refl hs⟩⟩

instance [Sound text p] : Sound text (allowingIn p) := by
  unfold allowingIn
  infer_instance

instance (isAsync isGenerator : Bool) [Sound text p] :
    Sound text (insideFunction isAsync isGenerator p) := by
  unfold insideFunction
  infer_instance

/-- A token is read again only if it is there. -/
theorem yields_rescan {r : Rereading} {s : State} (hs : s.Sound text)
    (hr : r.applies s.current = true) : Yields text s (rescan r.read) := by
  have ht := hs.toStanding.readAgain r
  unfold State.readAgain at ht
  rw [if_pos hr] at ht
  exact ⟨inferInstance, ⟨ht, hs.synced⟩, rfl, .refl _⟩

theorem trailingComma (comma : Position) (place : CommaPlace) [hc : InText text comma] :
    Sound text (noteTrailingComma comma place.problem) := by
  constructor
  intro s hs
  have hrun := noteTrailingComma_noting s s.journal comma place
  rw [State.noting_journal hs.synced] at hrun
  rw [Yields, hrun]
  have hj : s.journal.Adds text (s.journal.notes [.trailingComma comma place]) :=
    .remark (.refl _) ⟨InText.position_iff.mp hc, nofun, nofun⟩
  have ho : { s.options with edition := s.journal.edition } = s.options := by rw [hs.synced]
  exact ⟨inferInstance, ⟨hs.idle ⟨.inl rfl, rfl, rfl, ho⟩, rfl⟩, ho, hj⟩

instance (comma : Position) [InText text comma] :
    Sound text (noteTrailingComma comma .trailingCommaInParameters) := trailingComma comma .parameters

instance (comma : Position) [InText text comma] :
    Sound text (noteTrailingComma comma .trailingCommaInArguments) := trailingComma comma .arguments

/-! ## Tokens -/

section Tokens

variable (mark : Punctuator) (word : Keyword) (name : String)

instance : Sound text (atMark mark) := by
  unfold atMark
  infer_instance

instance : Sound text (atWord word) := by
  unfold atWord
  infer_instance

instance : Sound text (atName name) := by
  unfold atName
  infer_instance

instance : Sound text (eatMark mark) := by
  unfold eatMark
  infer_instance

instance : Sound text (eatWord word) := by
  unfold eatWord
  infer_instance

instance : Sound text (eatName name) := by
  unfold eatName
  infer_instance

instance : Sound text (expectMark mark) := by
  unfold expectMark
  infer_instance

instance : Sound text (expectWord word) := by
  unfold expectWord
  infer_instance

instance : Sound text (expectName name) := by
  unfold expectName
  infer_instance

instance : Sound text endStatement := by
  unfold endStatement
  infer_instance

instance (token : Token) [InText text token] : Sound text (failName token : Production α) := by
  unfold failName
  split <;> infer_instance

instance : Sound text bindingIdentifier := by
  unfold bindingIdentifier
  refine bind inferInstance fun token => ?_
  split <;> infer_instance

instance : Sound text identifierName := by
  unfold identifierName
  refine bind inferInstance fun token => ?_
  split <;> infer_instance

end Tokens

end Sound

end Grammar

end EcmaScript
