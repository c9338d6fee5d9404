import EcmaScript.Proofs.Grammar.Loops
import EcmaScript.Proofs.Grammar.Presence
import EcmaScript.Proofs.Layout.Concrete

/-!
# Productions that read in the order of the text

What a production gives is made of what it has read, piece after piece, from the cursor on and up to the
last token that was read. While it is still reading, the pieces that were gathered lie between a place
`lo`, where the construct begins, and the last token; the region that the production takes at its end
encloses them all. `LaysFrom lo ps F p` says of a production that it makes of the pieces `ps`, which were
gathered before, and of those that it reads itself, the pieces `F a` of its result. There is one rule for
each way to go on. That a construct has a region with something in it follows once and for all from the
fact that productions read a token (`Lays.of_opens`).

## Contents

* `Moves`: the way of the cursor.
* `Lays`: productions whose result lies from the cursor on.
* `LaysFrom`, `LaysAt`: productions that go on with what was gathered, from any state or from one.
* `Lays.of_opens`, `Lays.of_offers`: whole productions.
-/

namespace EcmaScript

namespace Grammar

/-! ## The way of the cursor -/

/-- The cursor stands in the text and no further back; when it has moved on, a token was read. -/
structure Moves (text : List Char) (s t : State) : Prop where
  standing : t.Standing text
  le : s.current.span.offset ≤ t.current.span.offset
  lastStop : s.lastStop ≤ t.lastStop
  lt : s.current.span.offset < t.current.span.offset → s.current.span.offset < t.lastStop

namespace Moves

variable {text : List Char} {s t u : State}

theorem of_reads {tokens : List Token} (h : Reads s tokens t) (hs : s.Standing text) :
    Moves text s t := by
  have hf := h.forward hs
  refine ⟨hf.standing, hf.le, hf.lastStop, fun hlt => ?_⟩
  obtain ⟨token, hm⟩ := List.exists_mem_of_ne_nil tokens (h.ne_nil hs hlt)
  obtain ⟨hlocated, hend, hle, hstop⟩ := hf.within token hm
  exact Nat.lt_of_lt_of_le (Nat.lt_of_le_of_lt hle (Nat.lt_add_of_pos_right (hlocated.pos hend))) hstop

theorem refl (hs : s.Standing text) : Moves text s s := .of_reads (.stay s) hs

theorem trans (h : Moves text s t) (h' : Moves text t u) : Moves text s u := by
  refine ⟨h'.standing, Nat.le_trans h.le h'.le, Nat.le_trans h.lastStop h'.lastStop, fun hlt => ?_⟩
  rcases Nat.lt_or_ge s.current.span.offset t.current.span.offset with hmoved | hstays
  · exact Nat.lt_of_lt_of_le (h.lt hmoved) h'.lastStop
  · exact Nat.lt_of_le_of_lt h.le (h'.lt (Nat.lt_of_le_of_lt hstays hlt))

end Moves

/-! ## What is said of productions -/

/-- The pieces that were gathered lie between `lo` and the last token that was read. -/
structure Behind (lo : Nat) (ps : List Piece) (s : State) : Prop where
  start : lo ≤ s.current.span.offset
  laid : Laid lo ps s.lastStop

/-- A production that gathers nothing. -/
class Quiet (text : List Char) {α : Type} (p : Production α) : Prop where
  run : ∀ {s t : State} {a : α}, s.Standing text → p s = .ok a t → Moves text s t

/-- **The pieces of what the production gives lie from the cursor on**, up to the last token that was
read. -/
class Lays (text : List Char) {α : Type} (F : outParam (α → List Piece)) (p : Production α) : Prop where
  run : ∀ {s t : State} {a : α}, s.Standing text → p s = .ok a t →
    Moves text s t ∧ Laid s.current.span.offset (F a) t.lastStop

/-- At this state the production makes the pieces of its result of those that were gathered and of what
it reads. With `closing`, something is supposed to be read. -/
structure LaysAt (text : List Char) (closing : Bool) (s : State) (lo : Nat) (ps : List Piece) {α : Type}
    (F : α → List Piece) (p : Production α) : Prop where
  run : ∀ {t : State} {a : α}, s.Standing text → Behind lo ps s → p s = .ok a t →
    Moves text s t ∧ ((closing = true → lo < t.lastStop) → Laid lo (F a) t.lastStop)

/-- So it does at every state. -/
structure LaysFrom (text : List Char) (closing : Bool) (lo : Nat) (ps : List Piece) {α : Type}
    (F : α → List Piece) (p : Production α) : Prop where
  at' : ∀ s, LaysAt text closing s lo ps F p

variable {text : List Char} {closing : Bool} {lo : Nat} {ps qs : List Piece} {α β : Type} {s t : State}
  {F : α → List Piece} {G : β → List Piece} {p : Production α} {q : Production β}
  {f : β → Production α}

instance (priority := low) Quiet.of_composed [h : Composed p] : Quiet text p := by
  refine ⟨fun {s t a} hs ht => ?_⟩
  obtain ⟨tokens, hreads⟩ := h.reads s
  rw [ht] at hreads
  exact .of_reads hreads hs

namespace Lays

instance instSome [hq : Lays text G q] : Lays text (Piece.maybe G) (some <$> q) := by
  refine ⟨fun hs ht => ?_⟩
  obtain ⟨b, hb, rfl⟩ := exists_of_map_ok ht
  exact hq.run hs hb

instance instWithin (change : Context → Context) [hp : Lays text F p] :
    Lays text F (within change p) := by
  refine ⟨fun {s t a} hs ht => ?_⟩
  have hi := s.idle_context (change s.context)
  unfold within at ht
  cases hu : p { s with context := change s.context } with
  | ok b u =>
      rw [hu] at ht
      cases ht
      obtain ⟨hm, hlaid⟩ := hp.run (hs.idle hi) hu
      exact ⟨⟨hm.standing.idle (u.idle_context _), hm.le, hm.lastStop, hm.lt⟩, hlaid⟩
  | error e u =>
      rw [hu] at ht
      cases ht

instance [Lays text F p] : Lays text F (allowingIn p) := instWithin _

instance (isAsync isGenerator : Bool) [Lays text F p] :
    Lays text F (insideFunction isAsync isGenerator p) := instWithin _

end Lays

instance : Quiet text (get : Production State) := ⟨fun hs ht => by cases ht; exact .refl hs⟩

/-- Further pieces behind those that were gathered. -/
theorem Behind.append (h : Behind lo ps s) (hs : s.Standing text) (hm : Moves text s t)
    (hq : Laid s.current.span.offset qs t.lastStop) : Behind lo (ps ++ qs) t :=
  ⟨Nat.le_trans h.start hm.le, h.laid.append hq h.start hs.behind hm.lastStop⟩

theorem Behind.moved (h : Behind lo ps s) (hm : Moves text s t) : Behind lo ps t :=
  ⟨Nat.le_trans h.start hm.le, h.laid.mono (Nat.le_refl _) hm.lastStop⟩

/-- At the cursor nothing was gathered. -/
theorem Behind.nil (s : State) : Behind s.current.span.offset [] s := ⟨Nat.le_refl _, .nil⟩

/-! ## Going on from any state -/

namespace LaysFrom

/-- The result is made of what was gathered. -/
theorem pure {a : α}
    (h : ∀ {hi : Nat}, (closing = true → lo < hi) → Laid lo ps hi → Laid lo (F a) hi) :
    LaysFrom text closing lo ps F (Pure.pure a) := by
  refine ⟨fun s => ⟨fun hs hb ht => ?_⟩⟩
  cases ht
  exact ⟨.refl hs, fun hlt => h hlt hb.laid⟩

/-- The result is what was gathered. -/
theorem done {a : α} (h : F a = ps) : LaysFrom text closing lo ps F (Pure.pure a) := .pure fun _ hl => h ▸ hl

/-- The result is a construct that is made of what was gathered. -/
theorem made [IsPart α] {a : α} {q : Piece} (h : (IsPart.part a).pieces = q :: ps) :
    LaysFrom text closing lo (q :: ps) Piece.of (Pure.pure a) :=
  .pure fun _ hl => .single (h ▸ hl) (hl.le (List.cons_ne_nil _ _))

theorem behind (hb : ∀ {s t : State} {b : β}, s.Standing text → Behind lo ps s → q s = .ok b t →
      Moves text s t ∧ ∃ qs, Behind lo qs t ∧ LaysAt text closing t lo qs F (f b)) :
    LaysFrom text closing lo ps F (q >>= f) := by
  refine ⟨fun s => ⟨fun hs hbehind ht => ?_⟩⟩
  obtain ⟨b, u, hu, ht⟩ := exists_of_bind_ok ht
  obtain ⟨hm, qs, hqs, hf⟩ := hb hs hbehind hu
  obtain ⟨hm', hlaid⟩ := hf.run hm.standing hqs ht
  exact ⟨hm.trans hm', hlaid⟩

/-- The pieces of one production come behind what was gathered. -/
theorem bind [hq : Lays text G q] (hf : ∀ b, LaysFrom text closing lo (ps ++ G b) F (f b)) :
    LaysFrom text closing lo ps F (q >>= f) :=
  behind fun hs hb hu =>
    have ⟨hm, hlaid⟩ := hq.run hs hu
    ⟨hm, _, hb.append hs hm hlaid, (hf _).at' _⟩

/-- What is given at once. -/
theorem step {b : β} (h : LaysFrom text closing lo ps F (f b)) :
    LaysFrom text closing lo ps F (Pure.pure b >>= f) := h

/-- Nothing is gathered. -/
theorem skim [hq : Quiet text q] (hf : ∀ b, LaysFrom text closing lo ps F (f b)) :
    LaysFrom text closing lo ps F (q >>= f) :=
  behind fun hs hb hu =>
    have hm := hq.run hs hu
    ⟨hm, ps, hb.moved hm, (hf _).at' _⟩

/-- The production makes one thing of what was gathered, and it goes on with that. -/
theorem andThen (hq : LaysFrom text false lo ps G q) (hf : ∀ b, LaysFrom text closing lo (G b) F (f b)) :
    LaysFrom text closing lo ps F (q >>= f) :=
  behind fun {s _ _} hs hb hu => by
    obtain ⟨hm, hlaid⟩ := (hq.at' s).run hs hb hu
    exact ⟨hm, _, ⟨Nat.le_trans hb.start hm.le, hlaid fun hc => absurd hc Bool.false_ne_true⟩, (hf _).at' _⟩

theorem ite {c : Prop} [Decidable c] {p' : Production α} (h : LaysFrom text closing lo ps F p)
    (h' : LaysFrom text closing lo ps F p') : LaysFrom text closing lo ps F (if c then p else p') := by
  split
  · exact h
  · exact h'

/-- Two ways that come together. -/
theorem either {c : Prop} [Decidable c] {q' : Production β} [Lays text G q] [Lays text G q']
    (hf : ∀ b, LaysFrom text closing lo (ps ++ G b) F (f b)) :
    LaysFrom text closing lo ps F (if c then q >>= f else q' >>= f) := .ite (.bind hf) (.bind hf)

/-- A part that may be missing. -/
theorem optional {c : Prop} [Decidable c] {q : Production β} {f : Option β → Production α} [Lays text G q]
    (hf : ∀ b, LaysFrom text closing lo (ps ++ Piece.maybe G b) F (f b)) :
    LaysFrom text closing lo ps F (if c then some <$> q >>= f else Pure.pure none >>= f) :=
  .ite (.bind hf) (List.append_nil ps ▸ hf none)

theorem optionalElse {c : Prop} [Decidable c] {q : Production β} {f : Option β → Production α}
    [Lays text G q] (hf : ∀ b, LaysFrom text closing lo (ps ++ Piece.maybe G b) F (f b)) :
    LaysFrom text closing lo ps F (if c then Pure.pure none >>= f else some <$> q >>= f) :=
  .ite (List.append_nil ps ▸ hf none) (.bind hf)

/-- What was gathered is seen in another way. -/
theorem reshape (qs : List Piece) (h : ∀ {hi : Nat}, Laid lo ps hi → Laid lo qs hi)
    (hp : LaysFrom text closing lo qs F p) :
    LaysFrom text closing lo ps F p :=
  ⟨fun s => ⟨fun hs hb ht => (hp.at' s).run hs ⟨hb.start, h hb.laid⟩ ht⟩⟩

/-- What was gathered last is a construct. -/
theorem formed [IsPart β] {b : β} {r : Piece} (h : (IsPart.part b).pieces = r :: ps)
    (hp : LaysFrom text closing lo (Piece.of b) F p) : LaysFrom text closing lo (r :: ps) F p :=
  .reshape _ (fun hl => .single (h ▸ hl) (hl.le (List.cons_ne_nil _ _))) hp

/-- The last part of a production. -/
theorem last {H : α → List Piece} [hp : Lays text H p] (h : ∀ a, F a = ps ++ H a) :
    LaysFrom text closing lo ps F p := by
  refine ⟨fun s => ⟨fun hs hb ht => ?_⟩⟩
  obtain ⟨hm, hlaid⟩ := hp.run hs ht
  exact ⟨hm, fun _ => h _ ▸ (hb.append hs hm hlaid).laid⟩

theorem map {make : β → α} (hq : LaysFrom text closing lo ps G q)
    (h : ∀ {b : β} {hi : Nat}, Laid lo (G b) hi → Laid lo (F (make b)) hi) :
    LaysFrom text closing lo ps F (make <$> q) := by
  refine ⟨fun s => ⟨fun hs hb ht => ?_⟩⟩
  obtain ⟨b, hb', rfl⟩ := exists_of_map_ok ht
  obtain ⟨hm, hlaid⟩ := (hq.at' s).run hs hb hb'
  exact ⟨hm, fun hlt => h (hlaid hlt)⟩

/-- A construct that is made of another one. -/
theorem wrap [IsPart α] {make : β → α} (hq : LaysFrom text closing lo ps G q)
    (h : ∀ b, (IsPart.part (make b)).pieces = G b)
    (hne : ∀ b, G b ≠ [] := by exact fun _ => List.cons_ne_nil _ _) :
    LaysFrom text closing lo ps Piece.of (make <$> q) :=
  hq.map fun {b _} hl => .single (h _ ▸ hl) (hl.le (hne b))

theorem within {change : Context → Context} (hp : LaysFrom text closing lo ps F p) :
    LaysFrom text closing lo ps F (Grammar.within change p) := by
  refine ⟨fun s => ⟨fun {t a} hs hb ht => ?_⟩⟩
  have hi := s.idle_context (change s.context)
  unfold Grammar.within at ht
  cases hu : p { s with context := change s.context } with
  | ok b u =>
      rw [hu] at ht
      cases ht
      obtain ⟨hm, hlaid⟩ := (hp.at' _).run (hs.idle hi) ⟨hb.start, hb.laid⟩ hu
      exact ⟨⟨hm.standing.idle (u.idle_context _), hm.le, hm.lastStop, hm.lt⟩, hlaid⟩
  | error e u =>
      rw [hu] at ht
      cases ht

theorem failHere (problem : Problem) : LaysFrom text closing lo ps F (failHere problem : Production α) :=
  ⟨fun _ => ⟨fun _ _ ht => by rw [failHere_eq] at ht; cases ht⟩⟩

theorem fail (problem : Problem) (position : Position) :
    LaysFrom text closing lo ps F (fail problem position : Production α) :=
  ⟨fun _ => ⟨fun _ _ ht => by rw [fail_eq] at ht; cases ht⟩⟩

/-- Behind a failure nothing comes. -/
theorem stopped {e : State → Failure} (h : ∀ s, q s = .error (e s) s) :
    LaysFrom text closing lo ps F (q >>= f) :=
  ⟨fun s => ⟨fun _ _ ht => by rw [bind_error (h s)] at ht; cases ht⟩⟩

/-- The token under the cursor is read, whatever it is. -/
theorem advancing {f : Token → Production α}
    (h : ∀ token : Token, token.isEnd = false →
      LaysFrom text closing lo (ps ++ [.leaf token.span]) F (f token))
    (hend : ∀ token : Token, token.isEnd = true → LaysFrom text closing lo ps F (f token)) :
    LaysFrom text closing lo ps F (advance >>= f) :=
  behind fun {s _ _} hs hb hu => by
    have hm : Moves text s s.advanced := Quiet.run (p := skip) hs rfl
    cases hu
    cases he : s.current.isEnd with
    | true => exact ⟨hm, ps, hb.moved hm, (hend s.current he).at' _⟩
    | false =>
        refine ⟨hm, _, hb.append hs hm ?_, (h s.current he).at' _⟩
        exact Laid.leaf_iff.mpr ⟨Nat.le_refl _, hs.current.pos he, Nat.le_refl _⟩

/-- The token under the cursor is read in another way, if it can be. -/
theorem rereading {r : Rereading} {f : Token → Production α}
    (h : ∀ token : Token, token.isEnd = false →
      LaysFrom text closing lo (ps ++ [.leaf token.span]) F (f token))
    (hend : ∀ token : Token, token.isEnd = true → LaysFrom text closing lo ps F (f token)) :
    LaysFrom text closing lo ps F (reread r >>= f) := by
  refine ⟨fun s => ⟨fun hs hb ht => ?_⟩⟩
  have hagain := hs.readAgain r
  have hoffset := hs.offset_readAgain r
  obtain ⟨hm, hlaid⟩ := ((advancing h hend).at' (s.readAgain r)).run hagain
    ⟨hoffset.symm ▸ hb.start, (s.lastStop_readAgain r).symm ▸ hb.laid⟩ ht
  exact ⟨⟨hm.standing, hoffset ▸ hm.le, s.lastStop_readAgain r ▸ hm.lastStop, hoffset ▸ hm.lt⟩, hlaid⟩

/-! ### Taking a region -/

/-- The region from the start of the construct on, where that is known to hold something. -/
theorem enclose {start : Position} {f : Span → Production α}
    (hps : ∀ {hi : Nat}, Laid start.offset ps hi → start.offset < hi)
    (h : ∀ r, LaysFrom text closing start.offset [.region r ps] F (f r)) :
    LaysFrom text closing start.offset ps F (spanFrom start >>= f) :=
  behind fun {s _ _} hs hb hu => by
    cases hu
    have hlt := hps hb.laid
    exact ⟨.refl hs, _, ⟨hb.start, .between hlt hb.laid⟩, (h _).at' _⟩

/-- The region from the start of an expression on. -/
theorem encloseFrom {e : Expression} {f : Span → Production α}
    (h : ∀ r, LaysFrom text closing lo [.region r (Piece.of e ++ qs)] F (f r)) :
    LaysFrom text closing lo (Piece.of e ++ qs) F (spanFrom e.start >>= f) :=
  behind fun {s _ _} hs hb hu => by
    cases hu
    exact ⟨.refl hs, _, ⟨hb.start, .from_expression hb.laid⟩, (h _).at' _⟩

/-- The region of the whole construct. -/
theorem closeAs {start : Position} {make : Span → α}
    (h : ∀ {r : Span} {hi : Nat}, Laid start.offset [.region r ps] hi → Laid start.offset (F (make r)) hi) :
    LaysFrom text true start.offset ps F (spanFrom start >>= fun r => Pure.pure (make r)) := by
  refine ⟨fun s => ⟨fun hs hb ht => ?_⟩⟩
  cases ht
  exact ⟨.refl hs, fun hlt => h (.between (hlt rfl) hb.laid)⟩

/-- The region of the whole construct, if that is all there is to the construct. -/
theorem close [IsPart α] {k : Position} {make : Span → α}
    (h : ∀ r, (IsPart.part (make r)).pieces = [.region r ps]) :
    LaysFrom text true k.offset ps Piece.of (spanFrom k >>= fun r => Pure.pure (make r)) :=
  closeAs fun hl => .single (h _ ▸ hl) (hl.le (List.cons_ne_nil _ _))

/-- The region of the whole construct, which begins with a word. -/
theorem closeWord [IsPart α] {k : Position} {make : Span → α}
    (h : ∀ r, (IsPart.part (make r)).pieces = [.region r (.word r :: ps)]) :
    LaysFrom text true k.offset (.leaf (.ofStart k 1) :: ps) Piece.of
      (spanFrom k >>= fun r => Pure.pure (make r)) := by
  refine ⟨fun s => ⟨fun hs hb ht => ?_⟩⟩
  cases ht
  refine ⟨.refl hs, fun hlt => .single ?_ (Nat.le_of_lt (hlt rfl))⟩
  rw [h]
  exact .between (hlt rfl) hb.laid

/-- The region of the whole construct, which stands for another one. -/
theorem closeWithin [IsPart α] [IsPart β] {k : Position} (inner : Span → β) {make : Span → α}
    (h : ∀ r, (IsPart.part (make r)).pieces = Piece.of (inner r))
    (hinner : ∀ r, (IsPart.part (inner r)).pieces = [.region r ps]) :
    LaysFrom text true k.offset ps Piece.of (spanFrom k >>= fun r => Pure.pure (make r)) :=
  closeAs fun hl =>
    have hle := hl.le (List.cons_ne_nil _ _)
    .single (h _ ▸ .single (hinner _ ▸ hl) hle) hle

end LaysFrom

/-! ## Going on from one state -/

namespace LaysAt

theorem from_here (h : LaysFrom text closing lo ps F p) : LaysAt text closing s lo ps F p := h.at' s

/-- The token under the cursor is where the construct begins. -/
theorem from_start (h : LaysFrom text closing s.current.start.offset [] F p) :
    LaysAt text closing s s.current.span.offset [] F p := h.at' s

theorem done {a : α} (h : F a = ps) : LaysAt text closing s lo ps F (Pure.pure a) :=
  (LaysFrom.done h).at' s

/-- The state is looked at, and left as it is. -/
theorem look [hq : Stays q] (hf : ∀ b, LaysAt text closing s lo ps F (f b)) :
    LaysAt text closing s lo ps F (q >>= f) := by
  refine ⟨fun hs hb ht => ?_⟩
  obtain ⟨b, u, hu, hnext⟩ := exists_of_bind_ok ht
  have hstays := hq.stays s
  rw [hu] at hstays
  obtain rfl : u = s := hstays
  exact (hf b).run hs hb hnext

theorem looking [hq : Stays q] (hf : ∀ b, q s = .ok b s → LaysAt text closing s lo ps F (f b)) :
    LaysAt text closing s lo ps F (q >>= f) := by
  refine ⟨fun hs hb ht => ?_⟩
  obtain ⟨b, u, hu, hnext⟩ := exists_of_bind_ok ht
  have hstays := hq.stays s
  rw [hu] at hstays
  obtain rfl : u = s := hstays
  exact (hf b hu).run hs hb hnext

/-- What is seen is known. -/
theorem testing {b : β} (hq : q s = .ok b s) (h : LaysAt text closing s lo ps F (f b)) :
    LaysAt text closing s lo ps F (q >>= f) := ⟨fun hs hb ht => h.run hs hb ((bind_ok hq).symm.trans ht)⟩

/-- The token under the cursor is looked at. -/
theorem seeing {f : Token → Production α} (h : LaysAt text closing s lo ps F (f s.current)) :
    LaysAt text closing s lo ps F (current >>= f) := testing rfl h

/-- The place of the token under the cursor is noted, where the construct begins. -/
theorem noting {f : Position → Production α} (h : ∀ start, LaysFrom text closing start.offset [] F (f start)) :
    LaysAt text closing s s.current.span.offset [] F (position >>= f) := ⟨((h s.current.start).at' s).run⟩

/-- The token under the cursor is read and gathered. -/
theorem taking {f : Token → Production α} (he : s.current.isEnd = false)
    (h : LaysFrom text closing lo (ps ++ [.leaf s.current.span]) F (f s.current)) :
    LaysAt text closing s lo ps F (advance >>= f) := by
  refine ⟨fun hs hb ht => ?_⟩
  have hm : Moves text s s.advanced := Quiet.run (p := skip) hs rfl
  have hleaf : Laid s.current.span.offset [.leaf s.current.span] s.advanced.lastStop :=
    Laid.leaf_iff.mpr ⟨Nat.le_refl _, hs.current.pos he, Nat.le_refl _⟩
  obtain ⟨hm', hlaid⟩ := (h.at' _).run hm.standing (hb.append hs hm hleaf) ht
  exact ⟨hm.trans hm', hlaid⟩

/-- The construct begins with the token under the cursor, a word of its own. -/
theorem opening {f : Unit → Production α} (he : s.current.isEnd = false)
    (h : LaysFrom text closing s.current.start.offset [.leaf (.ofStart s.current.start 1)] F (f ())) :
    LaysAt text closing s s.current.span.offset [] F (skip >>= f) :=
  ⟨(taking (f := fun _ => f ()) he (.reshape _ .first h)).run⟩

theorem take {f : Unit → Production α} (he : s.current.isEnd = false)
    (h : LaysFrom text closing lo (ps ++ [.leaf s.current.span]) F (f ())) :
    LaysAt text closing s lo ps F (skip >>= f) := ⟨(taking (f := fun _ => f ()) he h).run⟩

theorem stopped {e : State → Failure} (h : ∀ s, q s = .error (e s) s) :
    LaysAt text closing s lo ps F (q >>= f) := (LaysFrom.stopped h).at' s

theorem of_eq {p' : Production α} (h : p s = p' s) (hp : LaysAt text closing s lo ps F p') :
    LaysAt text closing s lo ps F p := ⟨fun hs hb ht => hp.run hs hb (h ▸ ht)⟩

/-- A production that reads a token encloses something. -/
theorem opens (present : Bool) {read : Reader} (hr : read.Consumes text)
    [ho : Opens text .everything present read read p p] (he : present = true → s.current.isEnd = false)
    (hp : LaysAt text true s s.current.span.offset [] F p) :
    LaysAt text closing s s.current.span.offset [] F p := by
  refine ⟨fun hs hb ht => ?_⟩
  obtain ⟨hm, hlaid⟩ := hp.run hs hb ht
  exact ⟨hm, fun _ => hlaid fun _ => hm.lt ((ho.run hr hs he (.refl s read)).lt _ _ ht)⟩

/-- The pieces of one production come behind what was gathered, if it reads a token. -/
theorem bind_opens (present : Bool) {read : Reader} (hr : read.Consumes text)
    [ho : Opens text .everything present read read q q] (he : present = true → s.current.isEnd = false)
    (hq : LaysAt text true s s.current.span.offset [] G q)
    (hf : ∀ b, LaysFrom text closing lo (ps ++ G b) F (f b)) : LaysAt text closing s lo ps F (q >>= f) := by
  refine ⟨fun hs hb ht => ?_⟩
  obtain ⟨b, u, hu, ht⟩ := exists_of_bind_ok ht
  have hopens : LaysAt text false s s.current.span.offset [] G q := opens present hr he hq
  obtain ⟨hm, hlaid⟩ := hopens.run hs (.nil s) hu
  have hqs := hlaid fun hc => absurd hc Bool.false_ne_true
  obtain ⟨hm', hlaid'⟩ := ((hf b).at' u).run hm.standing (hb.append hs hm hqs) ht
  exact ⟨hm.trans hm', hlaid'⟩

theorem ite {c : Prop} [Decidable c] {p' : Production α} (h : c → LaysAt text closing s lo ps F p)
    (h' : LaysAt text closing s lo ps F p') : LaysAt text closing s lo ps F (if c then p else p') := by
  split
  next hc => exact h hc
  · exact h'

theorem map {make : β → α} (hq : LaysAt text closing s lo ps G q)
    (h : ∀ {b : β} {hi : Nat}, Laid lo (G b) hi → Laid lo (F (make b)) hi) :
    LaysAt text closing s lo ps F (make <$> q) := by
  refine ⟨fun hs hb ht => ?_⟩
  obtain ⟨b, hb', rfl⟩ := exists_of_map_ok ht
  obtain ⟨hm, hlaid⟩ := hq.run hs hb hb'
  exact ⟨hm, fun hlt => h (hlaid hlt)⟩

/-- A construct that is made of another one. -/
theorem wrap [IsPart α] {make : β → α} (hq : LaysAt text closing s lo ps G q)
    (h : ∀ b, (IsPart.part (make b)).pieces = G b)
    (hne : ∀ b, G b ≠ [] := by exact fun _ => List.cons_ne_nil _ _) :
    LaysAt text closing s lo ps Piece.of (make <$> q) :=
  hq.map fun {b _} hl => .single (h _ ▸ hl) (hl.le (hne b))

theorem within {change : Context → Context}
    (hp : LaysAt text closing { s with context := change s.context } lo ps F p) :
    LaysAt text closing s lo ps F (Grammar.within change p) := by
  refine ⟨fun {t a} hs hb ht => ?_⟩
  have hi := s.idle_context (change s.context)
  unfold Grammar.within at ht
  cases hu : p { s with context := change s.context } with
  | ok b u =>
      rw [hu] at ht
      cases ht
      obtain ⟨hm, hlaid⟩ := hp.run (hs.idle hi) ⟨hb.start, hb.laid⟩ hu
      exact ⟨⟨hm.standing.idle (u.idle_context _), hm.le, hm.lastStop, hm.lt⟩, hlaid⟩
  | error e u =>
      rw [hu] at ht
      cases ht

/-- A mark is read, if it stands under the cursor. -/
theorem eating {mark : Punctuator} {f : Bool → Production α}
    (h : s.current.isMark mark = true → LaysAt text closing s lo ps F (skip >>= fun _ => f true))
    (h' : LaysAt text closing s lo ps F (f false)) : LaysAt text closing s lo ps F (eatMark mark >>= f) := by
  have heat : eatMark mark s =
      if s.current.isMark mark = true then .ok true s.advanced else .ok false s := by
    unfold eatMark
    rw [bind_ok (show atMark mark s = .ok (s.current.isMark mark) s from rfl)]
    split <;> rfl
  refine ⟨fun hs hb ht => ?_⟩
  by_cases hm : s.current.isMark mark = true
  · rw [bind_ok (heat.trans (if_pos hm))] at ht
    exact (h hm).run hs hb ht
  · rw [bind_ok (heat.trans (if_neg hm))] at ht
    exact h'.run hs hb ht

/-- A part that begins with the token under the cursor, which is read before. -/
theorem inner (he : s.current.isEnd = false) (hq : LaysFrom text true s.current.start.offset [] G q)
    (hf : ∀ b, LaysFrom text closing lo (ps ++ G b) F (f b)) :
    LaysAt text closing s lo ps F (skip >>= fun _ => q >>= f) := by
  refine ⟨fun hs hb ht => ?_⟩
  obtain ⟨b, u, hu, ht⟩ := exists_of_bind_ok (show (q >>= f) s.advanced = _ from ht)
  have hm : Moves text s s.advanced := Quiet.run (p := skip) hs rfl
  obtain ⟨hm', hlaid⟩ := (hq.at' _).run hm.standing ⟨hm.le, .nil⟩ hu
  have hstop : s.current.span.offset < s.advanced.lastStop :=
    Nat.lt_add_of_pos_right (hs.current.pos he)
  have hqs := hlaid fun _ => Nat.lt_of_lt_of_le hstop hm'.lastStop
  obtain ⟨hm'', hlaid'⟩ := ((hf b).at' u).run hm'.standing (hb.append hs (hm.trans hm') hqs) ht
  exact ⟨(hm.trans hm').trans hm'', hlaid'⟩

theorem fail (problem : Problem) (position : Position) :
    LaysAt text closing s lo ps F (fail problem position : Production α) :=
  (LaysFrom.fail problem position).at' s

theorem failHere (problem : Problem) : LaysAt text closing s lo ps F (failHere problem : Production α) :=
  (LaysFrom.failHere problem).at' s

end LaysAt

/-! ## Whole productions -/

namespace Lays

variable {read : Reader}

/-- What takes no region at its end need not read a token. -/
theorem of_steps (h : ∀ s : State, LaysAt text false s s.current.span.offset [] F p) : Lays text F p := by
  refine ⟨fun {s t a} hs ht => ?_⟩
  obtain ⟨hm, hlaid⟩ := (h s).run hs (.nil s) ht
  exact ⟨hm, hlaid fun hc => absurd hc Bool.false_ne_true⟩

/-- **What reads a token encloses something.** -/
theorem of_opens (hr : read.Consumes text) [ho : Opens text .everything false read read p p]
    (h : ∀ s : State, LaysAt text true s s.current.span.offset [] F p) : Lays text F p := by
  refine ⟨fun {s t a} hs ht => ?_⟩
  obtain ⟨hm, hlaid⟩ := (h s).run hs (.nil s) ht
  exact ⟨hm, hlaid fun _ => hm.lt ((ho.opensAt hr hs (.refl s read)).lt a t ht)⟩

/-- So does what a production offers, if it offers something. -/
theorem of_offers {H : α → List Piece} {p : Production (Option α)} (hr : read.Consumes text)
    [ho : Offers text false read p]
    (h : ∀ s : State, LaysAt text true s s.current.span.offset [] (Piece.maybe H) p) :
    Lays text (Piece.maybe H) p := by
  refine ⟨fun {s t a} hs ht => ?_⟩
  obtain ⟨hm, hlaid⟩ := (h s).run hs (.nil s) ht
  cases a with
  | none => exact ⟨hm, .nil⟩
  | some a => exact ⟨hm, hlaid fun _ => hm.lt (ho.lt hr hs ht)⟩

/-- A construct that is made of another one. -/
theorem wrap [IsPart α] {make : β → α} [hq : Lays text G q]
    (h : ∀ b, (IsPart.part (make b)).pieces = G b)
    (hne : ∀ b, G b ≠ [] := by exact fun _ => List.cons_ne_nil _ _) :
    Lays text Piece.of (make <$> q) := by
  refine ⟨fun hs ht => ?_⟩
  obtain ⟨b, hb, rfl⟩ := exists_of_map_ok ht
  obtain ⟨hm, hl⟩ := hq.run hs hb
  exact ⟨hm, .single (h b ▸ hl) (hl.le (hne b))⟩

/-- The last part of a production. -/
theorem laysAt [hp : Lays text F p] : LaysAt text closing s s.current.span.offset [] F p :=
  ⟨fun hs _ ht => (hp.run hs ht).imp_right fun hl _ => hl⟩

end Lays

/-! ## Names -/

theorem isEnd_of_kind {token : Token} {kind : TokenKind} (hk : token.kind = kind)
    (h : kind ≠ .endOfText) : token.isEnd = false := by
  unfold Token.isEnd
  split
  next he => exact absurd (hk.symm.trans he) h
  next => rfl

namespace Lays

/-- Names may be all that a production reads. -/
theorem failName (token : Token) : LaysAt text closing s lo ps F (failName token : Production α) := by
  unfold Grammar.failName
  split
  · exact .fail _ _
  · exact .fail _ _

instance : Lays text Piece.identifier bindingIdentifier := by
  refine of_opens (consumes_read 0) fun s => ?_
  unfold bindingIdentifier
  refine .seeing ?_
  split
  next hk =>
    exact .look fun _ => .look fun _ => .ite (fun _ => .fail _ _)
      (.take (isEnd_of_kind hk nofun) (.done rfl))
  next => exact failName _

instance : Lays text Piece.identifier identifierName := by
  refine of_opens (consumes_read 0) fun s => ?_
  unfold identifierName
  refine .seeing ?_
  split
  next hk =>
    refine .take ?_ (.done rfl)
    cases he : s.current.isEnd with
    | false => rfl
    | true =>
        unfold Token.propertyName? at hk
        rw [Opens.kind_of_isEnd he] at hk
        cases hk
  next => exact failName _

end Lays

end Grammar

end EcmaScript
