import EcmaScript.Proofs.Await.Site

/-!
# Uses of `await` in the order of the text

The sites right below a site stand one behind the other in its region, and a use of `await` begins with a word
of its own. So no two uses of `await` begin at one offset (`Site.eq_of_offset`), neither in one construct nor
in several that stand in a row.

## Contents

* `InText.shown`: what the pieces of a construct show is in the text with it.
* `Laid.parts`, `Laid.sublist`: constructs in a row.
* `Site.inner_sublist`: the sites right below a site are some of its parts.
* `Site.located_within`, `Site.located_await`: a use of `await` is at a place of the text.
* `Site.offset_within`: a use of `await` begins in the region.
* `Site.eq_of_offset`, `Site.eq_of_offset_all`: the offset of a use of `await` tells which one it is.
-/

namespace EcmaScript

open IsPart (part)

namespace Piece

/-! ## The constructs that pieces show -/

@[simp] theorem partsAll_nil : partsAll [] = [] := rfl

@[simp] theorem partsAll_region (s : Span) (inner rest : List Piece) :
    partsAll (.region s inner :: rest) = partsAll inner ++ partsAll rest := rfl

@[simp] theorem partsAll_gap (s : Span) (rest : List Piece) : partsAll (.gap s :: rest) = partsAll rest := rfl

@[simp] theorem partsAll_part (p : Part) (rest : List Piece) :
    partsAll (.part p :: rest) = p :: partsAll rest := rfl

@[simp] theorem partsAll_maybe {α : Type} [IsPart α] (a : Option α) :
    partsAll (maybe of a) = a.toList.map IsPart.part := by
  cases a <;> rfl

/-- Names and literals show no constructs. -/
theorem partsAll_maybe_leaf {α : Type} (span : α → Span) (a : Option α) :
    partsAll (maybe (fun a => [leaf (span a)]) a) = [] := by
  cases a <;> rfl

@[simp] theorem partsAll_identifier (i : Option Identifier) : partsAll (maybe Piece.identifier i) = [] :=
  partsAll_maybe_leaf _ i

@[simp] theorem partsAll_moduleName (n : Option ModuleName) : partsAll (maybe Piece.moduleName n) = [] :=
  partsAll_maybe_leaf _ n

@[simp] theorem partsAll_string (literal : Option StringLiteral) :
    partsAll (maybe Piece.string literal) = [] := partsAll_maybe_leaf _ literal

/-- A template shows its substitutions, in so far as there are texts between them. -/
theorem partsAll_template_subset (texts : List TemplateText) (es : List Expression) :
    partsAll (template texts es) ⊆ es.map IsPart.part := by
  induction texts, es using template.induct with
  | case1 texts => simp [template, partsAll_texts]
  | case2 => simp [template]
  | case3 text texts e es ih =>
      simp only [template, partsAll_region, partsAll_part, partsAll_nil, List.nil_append, List.map_cons]
      exact List.cons_subset_cons _ ih

end Piece

/-! ## They are in the text -/

namespace InText

variable {text : List Char}

theorem template_shown {texts : List TemplateText} {es : List Expression} (h : InText text es) :
    InText text (Piece.partsAll (Piece.template texts es)) := by
  refine ⟨fun x hx => ?_⟩
  obtain ⟨e, he, rfl⟩ := List.mem_map.mp (Piece.partsAll_template_subset texts es hx)
  exact h.located e he

theorem expression_shown : {e : Expression} → InText text e.parts → InText text (Piece.partsAll e.pieces)
  | .template _ _ _, h => by
      simp only [cons_iff, append_iff, map_part_iff] at h
      simpa [Expression.pieces] using template_shown h.2.2
  | .taggedTemplate _ _ _ _ _, h => by
      simp only [cons_iff, append_iff, map_part_iff] at h
      simpa [Expression.pieces, h] using template_shown h.2.2.2.2
  | .sequence [] _, _ => .nil
  | .sequence (_ :: _) _, h => by simpa [Expression.pieces] using (cons_iff.mp h).2
  | .identifier _, _ | .privateName _, _ | .string _, _ | .this _, _ | .super _, _ | .null _, _
  | .boolean _ _, _ | .number _ _, _ | .bigint _ _, _ | .regexp _ _ _, _ | .newTarget _, _
  | .importMeta _, _ => .nil
  | .array _ _ _, h | .object _ _ _, h | .function _, h | .classExpression _, h | .unary _ _ _, h
  | .update _ _ _ _, h | .binary _ _ _ _, h | .assignment _ _ _ _, h | .conditional _ _ _ _, h
  | .computedMember _ _ _ _, h | .call _ _ _ _ _, h | .construction _ _ _ _, h | .spread _ _, h
  | .yield _ _ _, h | .await _ _, h | .dynamicImport _ _, h | .member _ _ _ _, h | .paren _ _, h => by
      simp [Expression.pieces] at h ⊢
      simp [h]

theorem statement_shown {s : Statement} (h : InText text s.parts) :
    InText text (Piece.partsAll s.pieces) := by
  cases s <;> simp [Statement.pieces] at h ⊢ <;> simp [h]

theorem function_shown {f : Function} (h : InText text f.parts) : InText text (Piece.partsAll f.pieces) := by
  obtain ⟨_, items, _, _, body, _, _, _, _⟩ := f
  simp only [cons_iff, append_iff, map_part_iff, part_iff] at h
  obtain ⟨-, -, hbody, -, hitems⟩ := h
  have hbody : InText text body.parts := hbody.inner
  cases body <;> simpa [Function.pieces, FunctionBody.pieces, hitems] using hbody

theorem importDeclaration_shown {d : ImportDeclaration} (h : InText text d.parts) :
    InText text (Piece.partsAll d.pieces) := by
  obtain ⟨_, bindings, _, _⟩ := d
  simp only [cons_iff, part_iff] at h
  obtain ⟨-, -, hbindings, -⟩ := h
  have hbindings : InText text bindings.parts := hbindings.inner
  cases bindings <;> simp_all [ImportDeclaration.pieces, ImportBindings.pieces]

/-- **What the pieces of a construct show** is in the text with it. -/
theorem shown {p : Part} (h : InText text p.parts) : InText text (Piece.partsAll p.pieces) := by
  cases p with
  | expression => exact expression_shown h
  | statement => exact statement_shown h
  | function => exact function_shown h
  | importDeclaration => exact importDeclaration_shown h
  | position | span | templateText => exact .nil
  | importBindings x | element x | property x | key x | functionBody x | classMember x | loopHead x =>
      cases x <;> simp_all [Part.pieces, ImportBindings.pieces, ArrayElement.pieces, Property.pieces,
        PropertyKey.pieces, FunctionBody.pieces, ClassMember.pieces, LoopHead.pieces]
  | importSpecifier x | exportSpecifier x | classDefinition x | block x | declarator x | declaration x
  | switchCase x | catchClause x =>
      cases x
      simp_all [Part.pieces, ImportSpecifier.pieces, ExportSpecifier.pieces, ClassDefinition.pieces,
        Block.pieces, Declarator.pieces, Declaration.pieces, SwitchCase.pieces, CatchClause.pieces]

end InText

namespace Laid

variable {lo hi : Nat} {ps qs : List Piece}

/-- The constructs that the pieces show stand in the same order. -/
theorem parts (h : Laid lo ps hi) : Laid lo ((Piece.partsAll ps).map .part) hi := by
  induction h with
  | nil => exact .nil
  | @region lo hi s _ _ hlo _ _ hstop _ ihin ihrest =>
      rw [Piece.partsAll, List.map_append, Piece.parts]
      exact (ihin.mono hlo (Nat.le_refl _)).append ihrest (Nat.le_trans hlo s.offset_le_stop)
        (Nat.le_refl _) hstop
  | @gap lo hi s _ hlo _ _ ihrest => exact ihrest.mono (Nat.le_trans hlo s.offset_le_stop) (Nat.le_refl _)
  | part hlo hp hmid _ _ ihrest => exact .part hlo hp hmid ihrest

theorem tail {p : Piece} (h : Laid lo (p :: ps) hi) : Laid lo ps hi := by
  cases h with
  | @region _ _ s _ _ hlo _ _ _ hrest => exact hrest.mono (Nat.le_trans hlo s.offset_le_stop) (Nat.le_refl _)
  | @gap _ _ s _ hlo _ hrest => exact hrest.mono (Nat.le_trans hlo s.offset_le_stop) (Nat.le_refl _)
  | part hlo _ _ hrest => exact hrest.mono hlo (Nat.le_refl _)

/-- What comes behind a leaf stands behind its end. -/
theorem behind_leaf {s : Span} (h : Laid lo (.leaf s :: ps) hi) : Laid s.stop ps hi :=
  (region_iff.mp h).2.2.2.2

/-- Some of the pieces, in the same order. -/
theorem sublist (hs : qs.Sublist ps) (h : Laid lo ps hi) : Laid lo qs hi := by
  induction hs generalizing lo with
  | slnil => exact h
  | cons _ _ ih => exact ih h.tail
  | cons_cons _ _ ih =>
      cases h with
      | region hlo hlen hin hstop hrest => exact .region hlo hlen hin hstop (ih hrest)
      | gap hlo hstop hrest => exact .gap hlo hstop (ih hrest)
      | part hlo hp hmid hrest => exact .part hlo hp hmid (ih hrest)

end Laid

namespace Site

variable {lo hi : Nat} {q u v : Site} {qs : List Site} {x y : Position} {r t : Problem}

/-- A site as a piece of what stands in the text. -/
abbrev piece (q : Site) : Piece := .part q.construct

/-! ## The sites right below -/

/-- The sites right below a site are some of the constructs that its pieces show. -/
theorem inner_sublist (q : Site) : (q.inner.map construct).Sublist (Piece.partsAll q.construct.pieces) := by
  obtain ⟨c, reading, p⟩ := q
  unfold inner
  dsimp only
  split <;> try split
  all_goals simp [Part.pieces, Expression.pieces, ArrayElement.pieces, Property.pieces, Function.pieces,
    ClassMember.pieces, Declarator.pieces, CatchClause.pieces, LoopHead.pieces, Statement.pieces,
    Piece.partsAll, Piece.parts, IsPart.part, Function.comp_def]

/-- **The sites in a site are in the text** if it is. -/
theorem located_within {text : List Char} (h : InText text q.construct) (hu : u ∈ q.within) :
    InText text u.construct := by
  induction hu with
  | self => exact h
  | @inner q r _ hr _ ih =>
      have hshown : InText text (Piece.partsAll q.construct.pieces) := .shown ⟨h.located.inner⟩
      exact ih ⟨hshown.located _ (q.inner_sublist.subset (List.mem_map_of_mem hr))⟩

/-- A use of `await` is at a place of the text. -/
theorem located_await {text : List Char} (h : InText text u.construct) (hx : u.await? = some (x, r)) :
    x.Located text := by
  have hparts : InText text u.construct.parts := ⟨h.located.inner⟩
  -- the region of either construct is the first of its parts
  have at_start {s : Span} {rest : List Part} (hp : u.construct.parts = part s :: rest) (hs : s.start = x) :
      x.Located text := by
    rw [hp] at hparts
    subst hs
    exact (InText.span_iff.mp (InText.part_iff.mp (InText.cons_iff.mp hparts).1)).1
  unfold await? at hx
  split at hx
  next hc =>
    cases hx
    exact at_start (congrArg Part.parts hc) rfl
  next hc =>
    cases hx
    exact at_start (congrArg Part.parts hc) rfl
  · cases hx

/-- The sites right below a site stand in a row where the site does. -/
theorem laid_inner (h : Laid lo q.construct.pieces hi) : Laid lo (q.inner.map piece) hi := by
  have hrow := h.parts.sublist (q.inner_sublist.map Piece.part)
  rwa [List.map_map] at hrow

/-- **A use of `await` begins with a word**, behind which its parts stand. -/
theorem laid_await (h : Laid lo q.construct.pieces hi) (ha : q.await? = some (x, r)) :
    lo ≤ x.offset ∧ x.offset < hi ∧ Laid (x.offset + 1) (q.inner.map piece) hi := by
  -- both constructs are one region, which the word opens
  have behind {s : Span} {ps : List Piece} (hp : q.construct.pieces = [.region s (.word s :: ps)])
      (hx : s.start = x) : lo ≤ x.offset ∧ x.offset < hi ∧ Laid (x.offset + 1) (q.inner.map piece) hi := by
    rw [hp] at h
    obtain ⟨hlo, hlen, hin, hstop⟩ := Laid.region_alone.mp h
    have hshown : (q.inner.map construct).Sublist (Piece.partsAll ps) := by
      have hsub := q.inner_sublist
      rw [hp] at hsub
      simpa [Piece.partsAll, Piece.parts] using hsub
    have hrow := hin.behind_leaf.parts.sublist (hshown.map Piece.part)
    rw [List.map_map] at hrow
    subst hx
    exact ⟨hlo, Nat.lt_of_lt_of_le (Nat.lt_add_of_pos_right hlen) hstop, hrow.mono (Nat.le_refl _) hstop⟩
  unfold await? at ha
  split at ha
  next hq =>
    cases ha
    exact behind (congrArg Part.pieces hq) rfl
  next hq =>
    cases ha
    exact behind (congrArg Part.pieces hq) rfl
  · cases ha

theorem laid_of_mem (h : Laid lo (qs.map piece) hi) (hq : q ∈ qs) : Laid lo q.construct.pieces hi := by
  induction qs generalizing lo with
  | nil => cases hq
  | cons p qs ih =>
      obtain ⟨mid, hlo, hp, hmid, hrest⟩ := Laid.part_iff.mp h
      rcases List.mem_cons.mp hq with rfl | hq
      · exact hp.mono (Nat.le_refl _) hmid
      · exact (ih hrest hq).mono hlo (Nat.le_refl _)

/-- A use of `await` in a site begins where the site stands. -/
theorem offset_within (h : Laid lo q.construct.pieces hi) (hu : u ∈ q.within)
    (hx : u.await? = some (x, r)) : lo ≤ x.offset ∧ x.offset < hi := by
  induction hu with
  | self q => exact ⟨(laid_await h hx).1, (laid_await h hx).2.1⟩
  | inner hp _ ih => exact ih (laid_of_mem (laid_inner h) hp) hx

/-! ## The offset tells the site -/

/-- In a row the offset of a use of `await` tells in which site it is. -/
theorem eq_of_row (h : Laid lo (qs.map piece) hi) {p p' : Site} (hp : p ∈ qs) (hp' : p' ∈ qs)
    (hu : u ∈ p.within) (hv : v ∈ p'.within) (hx : u.await? = some (x, r)) (hy : v.await? = some (y, t))
    (hxy : x.offset = y.offset) : p = p' := by
  induction qs generalizing lo with
  | nil => cases hp
  | cons q qs ih =>
      obtain ⟨mid, -, hq, -, hrest⟩ := Laid.part_iff.mp h
      -- one use in the first site, and the other one in a site behind it
      have apart {u v : Site} {p : Site} {x y : Position} {r t : Problem} (hu : u ∈ q.within) (hp : p ∈ qs)
          (hv : v ∈ p.within) (hx : u.await? = some (x, r)) (hy : v.await? = some (y, t)) :
          x.offset < y.offset :=
        Nat.lt_of_lt_of_le (offset_within hq hu hx).2 (offset_within (laid_of_mem hrest hp) hv hy).1
      rcases List.mem_cons.mp hp with rfl | hin <;> rcases List.mem_cons.mp hp' with rfl | hin'
      · rfl
      · exact absurd hxy (Nat.ne_of_lt (apart hu hin' hv hx hy))
      · exact absurd hxy.symm (Nat.ne_of_lt (apart hv hin hu hy hx))
      · exact ih hrest hin hin'

/-- **No two uses of `await` in a site begin at one offset.** -/
theorem eq_of_offset (h : Laid lo q.construct.pieces hi) (hu : u ∈ q.within) (hv : v ∈ q.within)
    (hx : u.await? = some (x, r)) (hy : v.await? = some (y, t)) (hxy : x.offset = y.offset) : u = v := by
  have below {p : Site} (hp : p ∈ q.inner) : Laid lo p.construct.pieces hi := laid_of_mem (laid_inner h) hp
  induction hu with
  | self q =>
      cases hv with
      | self => rfl
      | inner hp hv =>
          -- what is below a use of `await` stands behind its word
          have hlt := (offset_within (laid_of_mem (laid_await h hx).2.2 hp) hv hy).1
          omega
  | @inner q p u hp hu ih =>
      cases hv with
      | self =>
          have hlt := (offset_within (laid_of_mem (laid_await h hy).2.2 hp) hu hx).1
          omega
      | inner hp' hv =>
          obtain rfl := eq_of_row (laid_inner h) hp hp' hu hv hx hy hxy
          exact ih (below hp) hv hx fun hp => laid_of_mem (laid_inner (below ‹_›)) hp

theorem eq_of_offset_all (h : Laid lo (qs.map piece) hi) (hu : u ∈ withinAll qs) (hv : v ∈ withinAll qs)
    (hx : u.await? = some (x, r)) (hy : v.await? = some (y, t)) (hxy : x.offset = y.offset) : u = v := by
  obtain ⟨p, hp, hu⟩ := hu
  obtain ⟨p', hp', hv⟩ := hv
  obtain rfl := eq_of_row h hp hp' hu hv hx hy hxy
  exact eq_of_offset (laid_of_mem h hp) hu hv hx hy hxy

end Site

end EcmaScript
