import EcmaScript.Doc.Parser

/-!
# The record of a file

All file-level comments of a source are merged into one record, one after the other. The result can be read off
the list: everything is that of the first record, except what accumulates. Suppressions are an ordered union,
licenses are put one behind the other, and a marker is set if one record sets it.

A step adds the new suppressions one by one, so the ordered union is first shown for one step (`Info.merge_some`),
and a list is an induction that merges its first two records.

## Contents

* `unseen`, `joinedLicense`: what is added to the suppressions, and the licenses together.
* `Info.mergeAll`: the records of a file, merged.
* `nodup_parse`: the record of a comment names no suppression twice.
* `mergeAll_closed_form`: the record of a file.
-/

namespace EcmaScript.Doc

/-! ## An ordered union -/

/-- The entries of `later` that are not among those of `first`, each where it is seen first. -/
def unseen (first later : List String) : List String := (later.filter (!first.contains ·)).eraseDups

section

variable {first later : List String} {name : String}

@[simp] theorem unseen_nil (first : List String) : unseen first [] = [] := rfl

@[simp] theorem mem_unseen : name ∈ unseen first later ↔ name ∈ later ∧ name ∉ first := by
  simp [unseen, List.mem_eraseDups]

theorem unseen_cons_of_mem (h : name ∈ first) (later : List String) :
    unseen first (name :: later) = unseen first later := by
  unfold unseen
  rw [List.filter_cons_of_neg (by simpa using h)]

/-- An entry that is seen first is not added again. -/
theorem unseen_cons_of_not_mem (h : name ∉ first) (later : List String) :
    unseen first (name :: later) = name :: unseen (first ++ [name]) later := by
  unfold unseen
  rw [List.filter_cons_of_pos (by simpa using h), List.eraseDups_cons, List.filter_filter]
  congr 2
  refine List.filter_congr fun other _ => Bool.eq_iff_iff.mpr ?_
  simp [and_comm]

/-- What is added in two steps is what is added in one. -/
theorem unseen_append (first xs ys : List String) :
    unseen first (xs ++ ys) = unseen first xs ++ unseen (first ++ unseen first xs) ys := by
  induction xs generalizing first with
  | nil => simp
  | cons name xs ih =>
      rw [List.cons_append]
      by_cases h : name ∈ first
      · rw [unseen_cons_of_mem h, unseen_cons_of_mem h, ih]
      · rw [unseen_cons_of_not_mem h, unseen_cons_of_not_mem h, ih]
        simp

/-- Entries that are seen anyway may be left out before. -/
theorem unseen_unseen {first seen : List String} (h : first ⊆ seen) (later : List String) :
    unseen seen (unseen first later) = unseen seen later := by
  induction later generalizing first seen with
  | nil => rfl
  | cons name later ih =>
      by_cases hfirst : name ∈ first
      · rw [unseen_cons_of_mem hfirst, unseen_cons_of_mem (h hfirst), ih h]
      rw [unseen_cons_of_not_mem hfirst]
      by_cases hseen : name ∈ seen
      · have hboth : first ++ [name] ⊆ seen := List.append_subset.mpr ⟨h, by simpa using hseen⟩
        rw [unseen_cons_of_mem hseen, unseen_cons_of_mem hseen, ih hboth]
      · have hboth : first ++ [name] ⊆ seen ++ [name] :=
          List.append_subset.mpr ⟨List.subset_append_of_subset_left _ h, List.subset_append_right _ _⟩
        rw [unseen_cons_of_not_mem hseen, unseen_cons_of_not_mem hseen, ih hboth]

/-- A union of three lists does not depend on the two that are united first. -/
theorem unseen_append_unseen (first xs ys : List String) :
    unseen first (xs ++ unseen xs ys) = unseen first (xs ++ ys) := by
  rw [unseen_append, unseen_append]
  congr 1
  refine unseen_unseen (fun name h => ?_) ys
  by_cases hfirst : name ∈ first <;> simp [h, hfirst]

end

/-! ## Licenses -/

/-- The licenses that are present, one behind the other; none if none is. -/
def joinedLicense (licenses : List (Option String)) : Option String :=
  match licenses.filterMap id with
  | [] => none
  | texts => some (String.join texts)

@[simp] theorem joinedLicense_none_cons (licenses : List (Option String)) :
    joinedLicense (none :: licenses) = joinedLicense licenses := rfl

theorem joinedLicense_some_cons (text : String) (licenses : List (Option String)) :
    joinedLicense (some text :: licenses) = some (text ++ (joinedLicense licenses).getD "") := by
  have htexts : (some text :: licenses).filterMap id = text :: licenses.filterMap id := rfl
  unfold joinedLicense
  rw [htexts]
  cases licenses.filterMap id with
  | nil => simp
  | cons other texts => simp

@[simp] theorem joinedLicense_singleton (license : Option String) : joinedLicense [license] = license := by
  cases license with
  | none => rfl
  | some text => rw [joinedLicense_some_cons]; simp [joinedLicense]

/-- The first two may be joined before the others. -/
theorem joinedLicense_cons_pair (a b : Option String) (licenses : List (Option String)) :
    joinedLicense (joinedLicense [a, b] :: licenses) = joinedLicense (a :: b :: licenses) := by
  cases a with
  | none => simp
  | some a =>
      rw [joinedLicense_some_cons, joinedLicense_some_cons, joinedLicense_some_cons]
      cases b with
      | none => simp
      | some b => simp [joinedLicense_some_cons, String.append_assoc]

/-- The last two may be joined before the first. -/
theorem joinedLicense_pair_pair (a b c : Option String) :
    joinedLicense [a, joinedLicense [b, c]] = joinedLicense [a, b, c] := by
  cases a with
  | none => simp
  | some a => simp [joinedLicense_some_cons]

namespace Info

/-! ## One step -/

/-- Adding names one by one adds those that are not there yet. -/
theorem foldl_addSuppression (names : List String) (i : Info) :
    names.foldl addSuppression i = { i with suppressions := i.suppressions ++ unseen i.suppressions names } := by
  induction names generalizing i with
  | nil => simp
  | cons name names ih =>
      rw [List.foldl_cons, ih]
      unfold addSuppression
      by_cases h : name ∈ i.suppressions
      · simp [h, unseen_cons_of_mem h]
      · simp [h, unseen_cons_of_not_mem h]

/-- A license, if there is one, goes behind the one that is there. -/
theorem elim_addLicense (i : Info) (license : Option String) :
    license.elim i i.addLicense = { i with license := joinedLicense [i.license, license] } := by
  have hjoined (text : String) : joinedLicense [i.license, some text] = some (i.license.getD "" ++ text) := by
    cases i.license <;> simp [joinedLicense_some_cons]
  cases license with
  | none =>
      have hsame : joinedLicense [i.license, none] = i.license := by
        cases i.license <;> simp [joinedLicense]
      rw [hsame]
      rfl
  | some text =>
      rw [hjoined]
      rfl

/-- **One step**: a record behind an earlier one. -/
theorem merge_some (first new : Info) :
    merge (some first) new =
      { first with
        suppressions := first.suppressions ++ unseen first.suppressions new.suppressions
        license := joinedLicense [first.license, new.license]
        isExterns := first.isExterns || new.isExterns
        isTypeSummary := first.isTypeSummary || new.isTypeSummary
        hasFileOverview := first.hasFileOverview || new.hasFileOverview } := by
  unfold merge
  dsimp only
  rw [foldl_addSuppression, elim_addLicense]

/-- **Merging is associative.** -/
theorem merge_assoc (a b c : Info) : merge (some (merge (some a) b)) c = merge (some a) (merge (some b) c) := by
  simp only [merge_some, List.append_assoc, Bool.or_assoc, joinedLicense_cons_pair, joinedLicense_pair_pair]
  rw [unseen_append_unseen, unseen_append]

/-! ## The records of a file -/

/-- The records of a file in order, merged into one; none if there is none. -/
def mergeAll (records : List Info) : Option Info :=
  records.foldl (fun merged new => some (merge merged new)) none

/-- The first two records may be merged before the others. -/
theorem mergeAll_cons_pair (a b : Info) (records : List Info) :
    mergeAll (a :: b :: records) = mergeAll (merge (some a) b :: records) := rfl

/-- **The record of a file**, by induction on the records behind the first one. -/
theorem mergeAll_cons (first : Info) (others : List Info) :
    mergeAll (first :: others) = some { first with
      suppressions := first.suppressions ++ unseen first.suppressions (others.flatMap (·.suppressions))
      license := joinedLicense ((first :: others).map (·.license))
      isExterns := (first :: others).any (·.isExterns)
      isTypeSummary := (first :: others).any (·.isTypeSummary)
      hasFileOverview := (first :: others).any (·.hasFileOverview) } := by
  induction others generalizing first with
  | nil =>
      simp only [List.flatMap_nil, unseen_nil, List.append_nil, List.map_cons, List.map_nil, joinedLicense_singleton,
        List.any_cons, List.any_nil, Bool.or_false]
      rfl
  | cons second others ih =>
      rw [mergeAll_cons_pair, ih, merge_some]
      simp only [List.flatMap_cons, unseen_append, List.append_assoc, List.map_cons, joinedLicense_cons_pair,
        List.any_cons, Bool.or_assoc]

/-! ## No suppression twice -/

theorem nodup_addSuppression {i : Info} (h : i.suppressions.Nodup) (name : String) :
    (i.addSuppression name).suppressions.Nodup := by
  unfold addSuppression
  split
  · exact h
  next hnew =>
    refine List.nodup_append.mpr ⟨h, List.pairwise_singleton _ name, fun other hother _ hname => ?_⟩
    rw [List.mem_singleton.mp hname]
    rintro rfl
    exact hnew (List.contains_iff_mem.mpr hother)

theorem nodup_foldl_addSuppression {i : Info} (h : i.suppressions.Nodup) (names : List String) :
    (names.foldl addSuppression i).suppressions.Nodup :=
  List.foldlRecOn (motive := fun i : Info => i.suppressions.Nodup) names addSuppression h
    fun _ hi name _ => nodup_addSuppression hi name

end Info

section

variable (options : Options) (tag : Tag) {info : Info}

theorem suppressions_paramTag (info : Info) : (paramTag options tag info).1.suppressions = info.suppressions := by
  unfold paramTag
  dsimp only
  rw [apply_ite Prod.fst, apply_ite Info.suppressions]
  exact ite_self _

theorem nodup_suppressTag (h : info.suppressions.Nodup) : (suppressTag tag info).1.suppressions.Nodup := by
  unfold suppressTag
  split
  · dsimp only
    split
    · exact h
    · exact Info.nodup_foldl_addSuppression h _
  · exact h

/-- **One tag**: it adds to the suppressions what it names, or leaves them alone. -/
theorem Tag.nodup_apply (h : info.suppressions.Nodup) : (tag.apply options info).1.suppressions.Nodup := by
  unfold Tag.apply
  dsimp only
  split
  case h_1 => split <;> exact h
  case h_2 => exact suppressions_paramTag options tag info ▸ h
  -- the others leave them alone, but for the one that names them
  all_goals first
    | exact h
    | exact nodup_suppressTag tag h
    | (split <;> exact h)

end

theorem nodup_applyTags (options : Options) (tags : List Tag) {info : Info} (h : info.suppressions.Nodup) :
    (applyTags options tags info).1.suppressions.Nodup := by
  induction tags generalizing info with
  | nil => exact h
  | cons tag tags ih => exact ih (tag.nodup_apply options h)

/-- **The record of a comment** names no suppression twice. -/
theorem nodup_parse {options : Options} {comment : String} {start : Position} {info : Info}
    (h : (parse options comment start).1 = some info) : info.suppressions.Nodup := by
  unfold parse at h
  dsimp only at h
  split at h
  · cases h
  · cases h
    exact nodup_applyTags options _ List.nodup_nil

/-! ## The result -/

/-- **Merging the records of a file.** The record of a file is that of its first file-level comment in everything
except for what accumulates: behind its suppressions stand those of the other records that were not there yet, in
the order in which they are first seen; its license is what licenses there are, one behind the other; and a marker
is set if one of the records sets it. Which two neighbours are merged first makes no difference. If the records are
those of comments, no suppression is named twice. -/
theorem mergeAll_closed_form (first : Info) (others : List Info) :
    let merged : Info := { first with
      suppressions := first.suppressions ++ unseen first.suppressions (others.flatMap (·.suppressions))
      license := joinedLicense ((first :: others).map (·.license))
      isExterns := (first :: others).any (·.isExterns)
      isTypeSummary := (first :: others).any (·.isTypeSummary)
      hasFileOverview := (first :: others).any (·.hasFileOverview) }
    Info.mergeAll (first :: others) = some merged ∧
      (∀ a b c : Info, .merge (some (.merge (some a) b)) c = Info.merge (some a) (.merge (some b) c)) ∧
      ((∀ record ∈ first :: others, ∃ options comment start, (parse options comment start).1 = some record) →
        merged.suppressions.Nodup) := by
  intro merged
  refine ⟨Info.mergeAll_cons first others, Info.merge_assoc, fun h => ?_⟩
  obtain ⟨_, _, _, hfirst⟩ := h first List.mem_cons_self
  have hnodup := Info.nodup_foldl_addSuppression (nodup_parse hfirst) (others.flatMap (·.suppressions))
  rw [Info.foldl_addSuppression] at hnodup
  exact hnodup

/-- Two comments that both name one of the suppressions. -/
theorem mergeAll_closed_form_comments :
    ∃ first second merged : Info,
      (parse {} "/** @fileoverview One @suppress \x7bb|a\x7d */" .start).1 = some first ∧
      (parse {} "/** @externs @suppress \x7ba, c\x7d */" .start).1 = some second ∧
      Info.mergeAll [first, second] = some merged ∧ merged.fileOverview = some "One" ∧
      merged.suppressions = ["b", "a", "c"] ∧ merged.suppressions.Nodup ∧ merged.isExterns = true := by
  have hread : (parse {} "/** @fileoverview One @suppress \x7bb|a\x7d */" .start).1.map
        (fun i => (i.fileOverview, i.suppressions)) = some (some "One", ["b", "a"]) ∧
      (parse {} "/** @externs @suppress \x7ba, c\x7d */" .start).1.map
        (fun i => (i.isExterns, i.suppressions)) = some (true, ["a", "c"]) := by decide +kernel
  obtain ⟨first, hfirst, hfirst'⟩ := Option.map_eq_some_iff.mp hread.1
  obtain ⟨second, hsecond, hsecond'⟩ := Option.map_eq_some_iff.mp hread.2
  rw [Prod.mk.injEq] at hfirst' hsecond'
  obtain ⟨hmerged, -, hnodup⟩ := mergeAll_closed_form first [second]
  refine ⟨first, second, _, hfirst, hsecond, hmerged, hfirst'.1, ?_, hnodup ?_, ?_⟩
  · simp only [List.flatMap_cons, List.flatMap_nil, List.append_nil, hfirst'.2, hsecond'.2]
    decide
  · exact List.forall_mem_cons.mpr ⟨⟨_, _, _, hfirst⟩, List.forall_mem_singleton.mpr ⟨_, _, _, hsecond⟩⟩
  · simp [hsecond'.1]

end EcmaScript.Doc
