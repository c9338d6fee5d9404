import EcmaScript.Doc.Parser
import EcmaScript.Proofs.LexerReads

/-!
# Warnings about documentation comments

The text of a documentation comment is read again, with places that are counted anew from the start of the
comment. They are not those of the lexer: the carriage return of a pair takes no column, so the line feed
behind it is given the place of the carriage return. Line and column are still those of an offset of the
text (`Position.Shown`), and this is all that a report shows of a place.

Readers of types, tags and comments pass on the places of the characters they are given, whatever holds of
these. So the counting of places, `Region.shown_ofComment`, is separate from what is done with them, and the
latter is stated for any property of places.

## Contents

* `Region.All`, `TypeReader.Keeps`: what holds of all places of a region, and readers that keep it.
* `allStand_parse`, `allStand_parseInlineType`: warnings stand where characters of the comment stand.
* `Comment.Located.shown_parse`: warnings about a comment of the text.
-/

namespace EcmaScript

/-- Line and column are those of a place of the text. -/
def Position.Shown (text : List Char) (p : Position) : Prop :=
  ∃ q : Position, q.Located text ∧ p.line = q.line ∧ p.column = q.column

theorem Position.Located.shown {text : List Char} {p : Position} (h : p.Located text) :
    p.Shown text := ⟨p, h, rfl, rfl⟩

namespace Doc

/-! ## Regions -/

namespace Region

/-- All characters of the region stand at places with the property, and so does what follows. -/
structure All (P : Position → Prop) (r : Region) : Prop where
  chars : ∀ x ∈ r.chars, P x.2
  stop : P r.stop

variable {P : Position → Prop} {r : Region}

theorem All.position (h : r.All P) : P r.position := by
  unfold Region.position
  split
  · exact h.stop
  · next hc => exact h.chars _ (hc ▸ List.mem_cons_self)

/-- A part of the region. -/
theorem All.part (h : r.All P) {cs : List (Char × Position)} (hc : cs ⊆ r.chars) :
    All P ⟨cs, r.stop⟩ := ⟨fun x hx => h.chars x (hc hx), h.stop⟩

theorem All.tail (h : r.All P) : r.tail.All P := h.part (List.tail_sublist _).subset

theorem All.dropWhile (h : r.All P) (p : Char → Bool) : (r.dropWhile p).All P :=
  h.part (List.dropWhile_sublist _).subset

theorem All.skipBlank (h : r.All P) : r.skipBlank.All P := h.dropWhile _

end Region

/-! ## Readers of types -/

namespace TypeReader

/-- A reader leaves places of the region that it was given, and fails at one of them. -/
class Keeps (P : Position → Prop) {α : Type} (p : TypeReader α) : Prop where
  run : ∀ {r : Region}, r.All P →
    match p r with
    | .ok x => x.2.All P
    | .error e => P e.position

namespace Keeps

variable {P : Position → Prop} {α β : Type} {p : TypeReader α}

/-- Readers that do not fail. -/
theorem total {f : Region → α × Region} (h : ∀ r, r.All P → (f r).2.All P) :
    Keeps P (fun r => .ok (f r) : TypeReader α) := ⟨fun hr => h _ hr⟩

instance (a : α) : Keeps P (pure a : TypeReader α) := total fun _ hr => hr

theorem bind {f : α → TypeReader β} (hp : Keeps P p) (hf : ∀ a, Keeps P (f a)) :
    Keeps P (p >>= f) := by
  constructor
  intro r hr
  have hrun := hp.run hr
  show match (p r >>= fun x => f x.1 x.2 : Except TypeError (β × Region)) with
    | .ok x => x.2.All P
    | .error e => P e.position
  cases h : p r with
  | ok x =>
      rw [h] at hrun
      exact (hf x.1).run hrun
  | error e =>
      rw [h] at hrun
      exact hrun

instance {f : α → TypeReader β} [hp : Keeps P p] [hf : ∀ a, Keeps P (f a)] : Keeps P (p >>= f) :=
  bind hp hf

/-- A region that was kept may be set again. -/
theorem look {f : Region → TypeReader α} (hf : ∀ r, r.All P → Keeps P (f r)) : Keeps P (get >>= f) :=
  ⟨fun {r} hr => (hf r hr).run hr⟩

theorem set {r : Region} (hr : r.All P) : Keeps P (MonadStateOf.set r : TypeReader PUnit) :=
  ⟨fun _ => hr⟩

instance {f : α → β} [Keeps P p] : Keeps P (f <$> p) :=
  inferInstanceAs (Keeps P (p >>= fun a => pure (f a)))

instance {c : Prop} [Decidable c] {q : TypeReader α} [hp : Keeps P p] [hq : Keeps P q] :
    Keeps P (if c then p else q) := by
  split
  · exact hp
  · exact hq

instance (fault : TypeFault) : Keeps P (fail fault : TypeReader α) := ⟨fun hr => hr.position⟩

instance : Keeps P peek := total fun _ hr => hr.skipBlank

instance : Keeps P skip := total fun _ hr => hr.tail

instance (c : Char) : Keeps P (eat c) := by
  constructor
  intro r hr
  unfold eat
  by_cases h : r.skipBlank.head? == some c
  · rw [if_pos h]
    exact hr.skipBlank.tail
  · rw [if_neg h]
    exact hr.skipBlank

instance (word : List Char) : Keeps P (eatWord word) := by
  constructor
  intro r hr
  unfold eatWord
  dsimp only
  by_cases h : word.isPrefixOf r.skipBlank.rawText
  · rw [if_pos h]
    exact hr.skipBlank.part (List.drop_subset _ _)
  · rw [if_neg h]
    exact hr.skipBlank

instance : Keeps P name? := by
  constructor
  intro r hr
  unfold name?
  dsimp only
  cases r.skipBlank.takeWhile isTypeNameChar with
  | nil => exact hr.skipBlank
  | cons => exact hr.skipBlank.dropWhile _

instance (c : Char) : Keeps P (fun r => .ok (String.ofList (r.tail.takeWhile (· != c)),
    (r.tail.dropWhile (· != c)).tail) : TypeReader String) :=
  total fun _ hr => (hr.tail.dropWhile _).tail

instance : Keeps P fieldKey := by
  unfold fieldKey
  have hname (name : Option String) : Keeps P (match name with
      | some name => pure name
      | none => fail .notRecognized : TypeReader String) := by
    split <;> infer_instance
  refine bind inferInstance fun next => ?_
  split <;> infer_instance

/-! The recursion, on the bound -/

variable (P)

mutual

theorem readParamType : (depth : Nat) → Keeps P (TypeReader.readParamType depth)
  | 0 => by
      rw [TypeReader.readParamType]
      infer_instance
  | depth + 1 => by
      have := readTopLevel depth
      rw [TypeReader.readParamType]
      refine bind inferInstance fun dots => ?_
      split
      · refine bind inferInstance fun next => ?_
        split <;> infer_instance
      · infer_instance

theorem readTopLevel : (depth : Nat) → Keeps P (TypeReader.readTopLevel depth)
  | 0 => by
      rw [TypeReader.readTopLevel]
      infer_instance
  | depth + 1 => by
      have := readTypeExpression depth
      have := readAlternatives depth
      rw [TypeReader.readTopLevel]
      infer_instance

theorem readAlternatives : (depth : Nat) → Keeps P (TypeReader.readAlternatives depth)
  | 0 => by
      rw [TypeReader.readAlternatives]
      infer_instance
  | depth + 1 => by
      have := readTypeExpression depth
      have := readAlternatives depth
      rw [TypeReader.readAlternatives]
      infer_instance

theorem readTypeExpression : (depth : Nat) → Keeps P (TypeReader.readTypeExpression depth)
  | 0 => by
      rw [TypeReader.readTypeExpression]
      infer_instance
  | depth + 1 => by
      have := readBasic depth
      rw [TypeReader.readTypeExpression]
      refine bind inferInstance fun next => ?_
      split
      · refine bind inferInstance fun _ => bind inferInstance fun behind => ?_
        split <;> infer_instance
      all_goals infer_instance

theorem readBasic : (depth : Nat) → Keeps P (TypeReader.readBasic depth)
  | 0 => by
      rw [TypeReader.readBasic]
      infer_instance
  | depth + 1 => by
      have := readTopLevel depth
      have := readRecord depth
      have := readArguments depth
      have := readFunction depth
      rw [TypeReader.readBasic]
      refine bind inferInstance fun next => ?_
      split
      iterate 3 infer_instance
      · split
        · refine look fun start hstart => ?_
          have := set hstart
          have hname (name : Option String) : Keeps P (match name with
              | some target => pure (.typeOf target)
              | none => fail .notRecognized : TypeReader TypeExpr) := by
            split <;> infer_instance
          infer_instance
        · infer_instance
      · infer_instance

theorem readArguments : (depth : Nat) → Keeps P (TypeReader.readArguments depth)
  | 0 => by
      rw [TypeReader.readArguments]
      infer_instance
  | depth + 1 => by
      have := readTopLevel depth
      have := readArguments depth
      rw [TypeReader.readArguments]
      infer_instance

theorem readRecord : (depth : Nat) → Keeps P (TypeReader.readRecord depth)
  | 0 => by
      rw [TypeReader.readRecord]
      infer_instance
  | depth + 1 => by
      have := readFields depth
      rw [TypeReader.readRecord]
      infer_instance

theorem readFields : (depth : Nat) → Keeps P (TypeReader.readFields depth)
  | 0 => by
      rw [TypeReader.readFields]
      infer_instance
  | depth + 1 => by
      have := readTopLevel depth
      have := readFields depth
      rw [TypeReader.readFields]
      infer_instance

theorem readFunction : (depth : Nat) → Keeps P (TypeReader.readFunction depth)
  | 0 => by
      rw [TypeReader.readFunction]
      infer_instance
  | depth + 1 => by
      have := readParameters depth
      have := readTypeExpression depth
      rw [TypeReader.readFunction]
      have hrest (x : Option TypeExpr × Option TypeExpr × List TypeExpr) : Keeps P (do
          let result ← if ← eat ':' then some <$> TypeReader.readTypeExpression depth else pure none
          return TypeExpr.function x.1 x.2.1 x.2.2 result) := inferInstance
      infer_instance

theorem readParameters : (depth : Nat) → (receiver constructs : Option TypeExpr) →
    (params : List TypeExpr) → Keeps P (TypeReader.readParameters depth receiver constructs params)
  | 0, _, _, _ => by
      rw [TypeReader.readParameters]
      infer_instance
  | depth + 1, receiver, constructs, params => by
      have := readTopLevel depth
      have := readParamType depth
      have := readParameters depth
      have hrest (x : Option TypeExpr × Option TypeExpr × List TypeExpr) : Keeps P (do
          if ← eat ',' then TypeReader.readParameters depth x.1 x.2.1 x.2.2
          else return (x.1, x.2.1, x.2.2.reverse)) := inferInstance
      rw [TypeReader.readParameters]
      infer_instance

end

instance (depth : Nat) : Keeps P (readBraced depth) := by
  have := readParamType P depth
  unfold readBraced
  infer_instance

instance (depth : Nat) : Keeps P (readAll depth) := by
  have := readParamType P depth
  unfold readAll
  refine bind inferInstance fun t => bind inferInstance fun next => ?_
  split <;> infer_instance

end Keeps

end TypeReader

/-! ## Tags -/

namespace Tag

/-- The tag and its text stand at places with the property. -/
structure All (P : Position → Prop) (tag : Tag) : Prop where
  position : P tag.position
  body : tag.body.All P

variable {P : Position → Prop}

/-- The pieces of a text have no other characters than the text. -/
theorem all_cut (blankBefore : Bool) {cs : List (Char × Position)} (h : ∀ x ∈ cs, P x.2) :
    (∀ x ∈ (cut blankBefore cs).1, P x.2) ∧ ∀ piece ∈ (cut blankBefore cs).2, ∀ x ∈ piece, P x.2 := by
  induction cs generalizing blankBefore with
  | nil => exact ⟨nofun, nofun⟩
  | cons x rest ih =>
      obtain ⟨hx, hrest⟩ := List.forall_mem_cons.mp h
      obtain ⟨hpiece, hpieces⟩ := ih (Unicode.isWhiteSpace x.1) hrest
      have hlonger : ∀ y ∈ x :: (cut (Unicode.isWhiteSpace x.1) rest).1, P y.2 :=
        List.forall_mem_cons.mpr ⟨hx, hpiece⟩
      unfold cut
      dsimp only
      split
      · exact ⟨nofun, List.forall_mem_cons.mpr ⟨hlonger, hpieces⟩⟩
      · exact ⟨hlonger, hpieces⟩

theorem all_ofPiece {piece : List (Char × Position)} {stop : Position} (h : Region.All P ⟨piece, stop⟩) :
    All P (ofPiece piece stop) := ⟨h.position, h.tail.dropWhile _⟩

theorem all_ofPieces {stop : Position} {pieces : List (List (Char × Position))}
    (h : ∀ piece ∈ pieces, ∀ x ∈ piece, P x.2) (hs : P stop) :
    ∀ tag ∈ ofPieces stop pieces, All P tag := by
  fun_induction ofPieces stop pieces with
  | case1 => nofun
  | case2 piece =>
      intro tag ht
      cases List.mem_singleton.mp ht
      exact all_ofPiece ⟨h piece List.mem_cons_self, hs⟩
  | case3 piece next rest ih =>
      obtain ⟨hpiece, hrest⟩ := List.forall_mem_cons.mp h
      have hnext : Region.All P ⟨next, stop⟩ := ⟨hrest next List.mem_cons_self, hs⟩
      exact List.forall_mem_cons.mpr ⟨all_ofPiece ⟨hpiece, hnext.position⟩, ih hrest⟩

theorem all_split {text : Region} (h : text.All P) : ∀ tag ∈ (split text).2, All P tag :=
  all_ofPieces (all_cut true h.chars).2 h.stop

end Tag

/-! ## Comments -/

/-- The warnings stand at places with the property. -/
def AllStand (P : Position → Prop) (ws : List Warning) : Prop := ∀ w ∈ ws, P w.position

section Warnings

variable {P : Position → Prop}

theorem allStand_nil : AllStand P [] := nofun

theorem allStand_single {p : Position} (h : P p) (q : Problem) : AllStand P [⟨p, q⟩] :=
  List.forall_mem_singleton.mpr h

theorem AllStand.append {ws vs : List Warning} (h : AllStand P ws) (h' : AllStand P vs) :
    AllStand P (ws ++ vs) := List.forall_mem_append.mpr ⟨h, h'⟩

theorem AllStand.ite {α : Type} {c : Prop} [Decidable c] {x y : Noted α} (hx : AllStand P x.2)
    (hy : AllStand P y.2) : AllStand P (if c then x else y).2 := by
  split
  · exact hx
  · exact hy

theorem subset_skipBraced (nesting : Nat) (cs : List (Char × Position)) :
    skipBraced nesting cs ⊆ cs := by
  fun_induction skipBraced nesting cs with
  | case1 => exact List.Subset.refl _
  | case3 => exact List.subset_cons_self _ _
  | _ => exact List.subset_cons_of_subset _ ‹_›

theorem allStand_bracedType {r : Region} (h : r.All P) :
    AllStand P (bracedType r).2 ∧ (bracedType r).1.2.All P := by
  have hrun := (inferInstance : TypeReader.Keeps P (TypeReader.readBraced (TypeReader.depth r))).run h
  unfold bracedType
  split
  next hr =>
    rw [hr] at hrun
    exact ⟨allStand_nil, hrun⟩
  next hr =>
    rw [hr] at hrun
    exact ⟨allStand_single hrun _, h.skipBlank.part (subset_skipBraced _ _)⟩

section Tag

variable {tag : Tag} (h : tag.All P)
include h

theorem allStand_anyType : AllStand P (anyType tag).2 := by
  have hrun := (TypeReader.Keeps.readTopLevel P (TypeReader.depth tag.body)).run h.body
  unfold anyType
  split
  · exact (allStand_bracedType h.body).1
  · split
    · exact allStand_single h.position _
    · split
      next hr => exact allStand_nil
      next hr =>
        rw [hr] at hrun
        exact allStand_single hrun _

theorem allStand_optionalType : AllStand P (optionalType tag).2 := by
  unfold optionalType
  split
  · exact (allStand_bracedType h.body).1
  · exact allStand_nil

theorem allStand_templateTag : AllStand P (templateTag tag).2 := by
  unfold templateTag
  dsimp only
  split
  · exact (allStand_bracedType h.body).1
  · exact allStand_nil

theorem allStand_conflictWarning (conflict : Bool) : AllStand P (conflictWarning tag conflict) := by
  unfold conflictWarning
  split
  · exact allStand_single h.position _
  · exact allStand_nil

theorem allStand_paramTag (options : Options) (info : Info) :
    AllStand P (paramTag options tag info).2 := by
  have hconflict := allStand_conflictWarning h info.conflictsWithSignature
  have hbraced : AllStand P
      (if tag.body.startsWithBrace then bracedType tag.body else ((none, tag.body), [])).2 :=
    .ite (allStand_bracedType h.body).1 allStand_nil
  unfold paramTag
  -- which region the name is read from does not matter
  generalize (if tag.body.startsWithBrace then bracedType tag.body else ((none, tag.body), [])) = braced
    at hbraced ⊢
  exact .ite ((hconflict.append hbraced).append (allStand_single h.position _))
    (hconflict.append hbraced)

theorem allStand_suppressTag (info : Info) : AllStand P (suppressTag tag info).2 := by
  unfold suppressTag
  refine .ite ?_ (allStand_single h.position _)
  dsimp only
  split
  · exact allStand_single h.position _
  · exact allStand_nil

/-- A tag is objected to at its place, or its type where the type is at fault. -/
theorem allStand_apply (options : Options) (info : Info) : AllStand P (tag.apply options info).2 := by
  have hany := allStand_anyType h
  have hoptional := allStand_optionalType h
  have hhere (c : Prop) [Decidable c] (q : Problem) :
      AllStand P (if c then [] else [⟨tag.position, q⟩]) ∧
        AllStand P (if c then [⟨tag.position, q⟩] else []) := by
    split
    · exact ⟨allStand_nil, allStand_single h.position q⟩
    · exact ⟨allStand_single h.position q, allStand_nil⟩
  unfold Tag.apply
  dsimp only
  split
  -- in order: type, param, return and returns, then those without a rule of their own
  case h_1 => exact .ite (allStand_single h.position _) ((allStand_conflictWarning h _).append hany)
  case h_2 => exact allStand_paramTag h options info
  case h_3 | h_4 => exact (allStand_conflictWarning h _).append hoptional
  all_goals first
    | exact hany
    | exact hoptional
    | exact allStand_nil
    | exact allStand_templateTag h
    | exact allStand_suppressTag h info
    | exact (hhere _ _).1
    | skip
  all_goals
    split
    · exact allStand_nil
    · exact (hhere _ _).2

end Tag

theorem allStand_applyTags (options : Options) {tags : List Tag} (h : ∀ tag ∈ tags, tag.All P)
    (info : Info) : AllStand P (applyTags options tags info).2 := by
  induction tags generalizing info with
  | nil => exact allStand_nil
  | cons tag tags ih =>
      obtain ⟨htag, htags⟩ := List.forall_mem_cons.mp h
      exact (allStand_apply htag options info).append (ih htags _)

/-- What is said about a comment is said where its characters stand. -/
theorem allStand_parse (options : Options) {comment : String} {start : Position}
    (h : (Region.ofComment comment start).All P) : AllStand P (parse options comment start).2 := by
  unfold parse
  exact .ite allStand_nil (allStand_applyTags options (Tag.all_split h) _)

theorem allStand_parseInlineType {comment : String} {start : Position}
    (h : (Region.ofComment comment start).All P) : AllStand P (parseInlineType comment start).2 := by
  have hrun := (inferInstance : TypeReader.Keeps P (TypeReader.readAll
    (TypeReader.depth (Region.ofComment comment start)))).run h
  unfold parseInlineType
  refine .ite allStand_nil ?_
  split
  · exact allStand_nil
  · split
    next hr => exact allStand_nil
    next hr =>
      rw [hr] at hrun
      exact allStand_single hrun _

end Warnings

/-! ## Counting anew -/

/-- The place `p` is shown, and it is the one before `raw` but for the column of a line feed. -/
structure Tracks (text : List Char) (p : Position) (raw : List Char) : Prop where
  shown : p.Shown text
  place : raw ≠ [] → ∃ (q : Position) (tail : List Char), q.Located text ∧
    text.drop q.offset = raw ++ tail ∧ p.line = q.line ∧ (p.column = q.column ∨ raw.head? = some '\n')

/-- One character on. Only three things can happen: the column grows, a line ends, or the carriage
return of a pair is passed over. -/
theorem Tracks.after {text : List Char} {p : Position} {c : Char} {rest : List Char}
    (h : Tracks text p (c :: rest)) : Tracks text (Region.after p c rest) rest := by
  obtain ⟨q, tail, hq, hdrop, hline, hcolumn⟩ := h.place nofun
  have hq' : (q.after c (rest ++ tail)).Located text := hq.after hdrop
  have hdrop' : text.drop (q.after c (rest ++ tail)).offset = rest ++ tail := by
    rw [Position.offset_after, ← List.drop_drop, hdrop]
    rfl
  -- where the next places agree, nothing else has to be said
  have agree {p' : Position} (hl : p'.line = (q.after c (rest ++ tail)).line)
      (hc : p'.column = (q.after c (rest ++ tail)).column) : Tracks text p' rest :=
    ⟨⟨_, hq', hl, hc⟩, fun _ => ⟨_, tail, hq', hdrop', hl, Or.inl hc⟩⟩
  by_cases hbreak : isLineTerminator c = true
  · by_cases hpair : c = '\r' ∧ (rest ++ tail).head? = some '\n'
    · obtain ⟨rfl, hnext⟩ := hpair
      have hsame : p.column = q.column := hcolumn.resolve_right (by simp)
      have hplace : q.after '\r' (rest ++ tail) = ⟨q.line, q.column + 1, q.offset + 1⟩ := by
        simp [Position.after, isLineTerminator, hnext]
      cases rest with
      | nil =>
          -- the comment ends between the two characters
          obtain ⟨tail', rfl⟩ : ∃ tail', tail = '\n' :: tail' := by
            cases tail with
            | nil => cases hnext
            | cons d tail' => exact ⟨tail', by simpa using hnext⟩
          refine ⟨⟨_, hq'.after hdrop', ?_, ?_⟩, fun hne => absurd rfl hne⟩
          · rw [hplace]
            simp [Region.after, Region.breaksLine, Position.after, isLineTerminator, hline]
          · rw [hplace]
            simp [Region.after, Region.breaksLine, Position.after, isLineTerminator]
      | cons d rest =>
          obtain rfl : d = '\n' := by simpa using hnext
          have hafter : Region.after p '\r' ('\n' :: rest) = ⟨p.line, p.column, p.offset + 1⟩ := by
            simp [Region.after, Region.breaksLine, isLineTerminator]
          rw [hafter]
          refine ⟨⟨q, hq, hline, hsame⟩, fun _ => ⟨_, tail, hq', hdrop', ?_, Or.inr rfl⟩⟩
          rw [hplace]
          exact hline
    · have hlexer : q.after c (rest ++ tail) = ⟨q.line + 1, 0, q.offset + 1⟩ := by
        unfold Position.after
        rw [if_pos]
        simpa [hbreak, Decidable.imp_iff_not_or] using hpair
      have hafter : Region.after p c rest = ⟨p.line + 1, 0, p.offset + 1⟩ := by
        unfold Region.after Region.breaksLine
        rw [if_pos]
        cases rest with
        | nil => simp [hbreak]
        | cons d rest => simpa [hbreak, Decidable.imp_iff_not_or] using hpair
      exact agree (by rw [hafter, hlexer, hline]) (by rw [hafter, hlexer])
  · have hplain : isLineTerminator c = false := Bool.eq_false_iff.mpr hbreak
    have hsame : p.column = q.column := hcolumn.resolve_right (by
      rw [List.head?_cons, Option.some.injEq]
      rintro rfl
      exact hbreak rfl)
    have hafter : Region.after p c rest = ⟨p.line, p.column + 1, p.offset + 1⟩ := by
      simp [Region.after, Region.breaksLine, hplain]
    rw [hafter]
    refine agree ?_ ?_
    · rw [Position.after_of_not_isLineTerminator q hplain]
      exact hline
    · rw [Position.after_of_not_isLineTerminator q hplain, hsame]

namespace Region

theorem shown_collect {text : List Char} {raw : List Char} (first last i : Nat) {p : Position}
    (atLineStart : Bool) (h : Tracks text p raw) :
    (∀ x ∈ (collect first last i p atLineStart raw).1, x.2.Shown text) ∧
      (collect first last i p atLineStart raw).2.Shown text := by
  induction raw generalizing i p atLineStart with
  | nil => exact ⟨nofun, h.shown⟩
  | cons c rest ih =>
      have hnext (atLineStart : Bool) := ih (i + 1) atLineStart h.after
      have hplace (d : Char) (atLineStart : Bool) :
          ∀ x ∈ (d, p) :: (collect first last (i + 1) (after p c rest) atLineStart rest).1,
            x.2.Shown text :=
        List.forall_mem_cons.mpr ⟨h.shown, (hnext atLineStart).1⟩
      unfold collect
      split
      · split
        · dsimp only
          split
          · exact ⟨hplace '\n' true, (hnext true).2⟩
          · exact hnext true
        · split
          · exact hnext true
          · split
            · exact hnext false
            · exact ⟨hplace c false, (hnext false).2⟩
      · exact hnext atLineStart

/-- Every character of a comment of the text is shown where a place of the text is. -/
theorem shown_ofComment {text : List Char} {c : Comment} (h : c.Located text) :
    (ofComment c.text c.span.start).All (·.Shown text) := by
  have hraw : c.text.toList = c.span.slice text := by rw [h.verbatim, String.toList_ofList]
  have htracks : Tracks text c.span.start c.text.toList := by
    refine ⟨h.span.1.shown, fun _ => ⟨c.span.start, (text.drop c.span.offset).drop c.span.length,
      h.span.1, ?_, rfl, Or.inl rfl⟩⟩
    rw [hraw]
    exact (List.take_append_drop _ _).symm
  obtain ⟨hchars, hstop⟩ := shown_collect _ _ 0 false htracks
  exact ⟨hchars, hstop⟩

end Region

end Doc

/-- **Warnings about a comment of the text** are shown at places of the text. -/
theorem Comment.Located.shown_parse {text : List Char} {c : Comment} (h : c.Located text)
    (options : Doc.Options) :
    Doc.AllStand (·.Shown text) (Doc.parse options c.text c.span.start).2 :=
  Doc.allStand_parse options (Doc.Region.shown_ofComment h)

theorem Comment.Located.shown_parseInlineType {text : List Char} {c : Comment} (h : c.Located text) :
    Doc.AllStand (·.Shown text) (Doc.parseInlineType c.text c.span.start).2 :=
  Doc.allStand_parseInlineType (Doc.Region.shown_ofComment h)

end EcmaScript
