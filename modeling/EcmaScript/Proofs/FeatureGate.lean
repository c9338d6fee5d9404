import EcmaScript.Proofs.GateTexts
import EcmaScript.Proofs.Places.Script

/-!
# Objections to features are exact

A feature is objected to if and only if the source uses it and the edition lacks it (`parse_gates`). Both
ways lead through the remarks of the parse. A use of a feature is a remark, and for that remark every
edition without the feature reports one of its texts. Conversely a text of the feature that is in the sink
was reported for some remark, and only remarks of its use are reported with such a text. The sink may drop a
repetition but then it holds the same text at the same place, which was reported for a use of the feature
too.

## Contents

* `FeatureSet.contains_ofEdition`, `FeatureSet.containsAll_iff`, `FeatureSet.minimumEdition_le_iff`: sets of
  features.
* `Remark.Sound.gate_of_report`, `Remark.Sound.exists_report`: what is reported of one remark.
* `parse_gates`: the whole parse.
-/

namespace EcmaScript

/-! ## Sets of features -/

theorem Edition.newer_le_iff {a b e : Edition} : a.newer b ≤ e ↔ a ≤ e ∧ b ≤ e := by
  unfold newer
  have trans {a b c : Edition} (h : a ≤ b) (h' : b ≤ c) : a ≤ c := Nat.le_trans h h'
  split
  next h => exact ⟨fun hb => ⟨trans h hb, hb⟩, And.right⟩
  next h =>
    have hba : b ≤ a := Nat.le_of_not_le h
    exact ⟨fun ha => ⟨ha, trans hba ha⟩, And.left⟩

namespace FeatureSet

theorem contains_ofEdition {e : Edition} {f : Feature} :
    (ofEdition e).contains f = true ↔ f.minimumEdition ≤ e := by
  simp [ofEdition, contains, f.mem_all]

theorem containsAll_iff {s t : FeatureSet} :
    s.containsAll t = true ↔ ∀ f, t.contains f = true → s.contains f = true := by
  simp [containsAll, contains]

/-- An edition is not older than the oldest one with all features of a set if it has them all. -/
theorem minimumEdition_le_iff {s : FeatureSet} {e : Edition} :
    s.minimumEdition ≤ e ↔ ∀ f ∈ s.members, f.minimumEdition ≤ e := by
  have hfold (fs : List Feature) (first : Edition) :
      fs.foldl (fun e f => e.newer f.minimumEdition) first ≤ e ↔
        first ≤ e ∧ ∀ f ∈ fs, f.minimumEdition ≤ e := by
    induction fs generalizing first with
    | nil => simp
    | cons f fs ih => rw [List.foldl_cons, ih, Edition.newer_le_iff, List.forall_mem_cons, and_assoc]
  have holdest : Edition.es3 ≤ e := Nat.zero_le _
  exact (hfold s.members .es3).trans (and_iff_right holdest)

/-- **The editions that accept a set** are those from its oldest one on. -/
theorem containsAll_ofEdition {s : FeatureSet} {e : Edition} :
    (ofEdition e).containsAll s = true ↔ s.minimumEdition ≤ e := by
  rw [containsAll_iff, minimumEdition_le_iff]
  refine forall_congr' fun f => ?_
  rw [contains_ofEdition]
  simp [contains]

end FeatureSet

/-! ## What is reported of one remark -/

/-- Whether the diagnostic objects to the feature. -/
def Diagnostic.gates (d : Diagnostic) (f : Feature) : Bool :=
  f.gateTexts.contains d.message && d.severity == f.gateSeverity

namespace Remark.Sound

variable {text : List Char} {r : Remark} {e : Edition} {q : Report} {f : Feature}

/-- **A text of a feature is reported for a use of the feature only**, and only if the edition lacks it. -/
theorem gate_of_report (h : r.Sound text) (hq : r.report? e = some q) (hm : q.message ∈ f.gateTexts) :
    r.feature? = some f ∧ ¬f.minimumEdition ≤ e ∧ q.severity = f.gateSeverity := by
  have hf := GateText.feature?_of_mem hm
  have other {α : Prop} (hn : GateText.feature? q.message = none) : α := nomatch hn.symm.trans hf
  cases r with
  | lexical d =>
      cases hq
      exact other (GateText.feature?_lexical d.problem)
  | problem position p =>
      cases hq
      exact other (GateText.feature?_problem (h.problem rfl))
  | duplicate position name =>
      cases hq
      exact other (GateText.feature?_problem rfl)
  | feature g position =>
      simp only [report?] at hq
      split at hq
      next => cases hq
      next he =>
        obtain ⟨⟨message, severity⟩, ho, rfl⟩ := Option.map_eq_some_iff.mp hq
        obtain ⟨hg, hs⟩ := Feature.mem_gateTexts_of_objection ho
        obtain rfl : g = f := Option.some.inj ((GateText.feature?_of_mem hg).symm.trans hf)
        exact ⟨rfl, he, hs⟩
  | trailingComma comma place =>
      simp only [report?] at hq
      split at hq
      next => cases hq
      next he =>
        cases hq
        obtain rfl : .trailingCommaInParamList = f :=
          Option.some.inj ((GateText.feature?_of_mem (Feature.mem_gateTexts_comma place)).symm.trans hf)
        exact ⟨rfl, he, rfl⟩
  | shorthand position strict name place =>
      simp only [report?] at hq
      split at hq
      next =>
        cases hq
        exact other (GateText.feature?_problem (by cases place <;> rfl))
      next => cases hq

/-- **A use of a feature is objected to** if the edition lacks the feature. -/
theorem exists_report (h : r.Sound text) (hf : r.feature? = some f) (he : ¬f.minimumEdition ≤ e) :
    ∃ q, r.report? e = some q ∧ q.message ∈ f.gateTexts := by
  cases r with
  | feature g position =>
      cases hf
      obtain ⟨message, severity, ho⟩ := Feature.exists_objection (h.feature rfl)
      refine ⟨⟨position, message, severity⟩, ?_, (Feature.mem_gateTexts_of_objection ho).1⟩
      simp only [report?]
      rw [if_neg he, ho]
      rfl
  | trailingComma comma place =>
      cases hf
      exact ⟨⟨comma, place.problem.message, .error⟩, if_neg he, Feature.mem_gateTexts_comma place⟩
  | lexical _ | problem _ _ | duplicate _ _ | shorthand _ _ _ _ => cases hf

end Remark.Sound

/-! ## What is reported of all findings -/

namespace Findings.Sound

variable {text : List Char} {f : Findings} {name : String} {e : Edition} {g : Feature}

theorem gate_of_mem (h : f.Sound text) {d : Diagnostic} (hd : d ∈ (f.sink name e).reported)
    (hm : d.message ∈ g.gateTexts) :
    g ∈ Remark.features f.remarks ∧ ¬g.minimumEdition ≤ e ∧ d.severity = g.gateSeverity := by
  rcases Sink.mem_reports.mp hd with hd | ⟨_, q, hq, rfl⟩
  · rcases Sink.mem_reports.mp hd with hd | ⟨_, q, hq, rfl⟩
    · exact nomatch hd
    · obtain ⟨r, hr, hreport⟩ := Remark.mem_reports.mp (List.mem_of_find?_eq_some hq)
      obtain ⟨hf, hgate⟩ := (h.remarks r hr).gate_of_report hreport hm
      exact ⟨List.mem_filterMap.mpr ⟨r, hr, hf⟩, hgate⟩
  · -- a warning about documentation, whose texts object to no feature
    obtain ⟨w, _, rfl⟩ := List.mem_map.mp (List.mem_of_find?_eq_some hq)
    exact nomatch (GateText.feature?_doc w.problem).symm.trans (GateText.feature?_of_mem hm)

theorem exists_gate (h : f.Sound text) (hg : g ∈ Remark.features f.remarks)
    (he : ¬g.minimumEdition ≤ e) : ∃ d ∈ (f.sink name e).reported, d.message ∈ g.gateTexts := by
  obtain ⟨r, hr, hf⟩ := List.mem_filterMap.mp hg
  obtain ⟨q, hq, hm⟩ := (h.remarks r hr).exists_report hf he
  -- whichever report came first under the key of this one, its text is the same
  obtain ⟨d, hd, hk⟩ := Sink.seen_iff.mp
    (Sink.seen_reports_of_mem (s := Sink.ofName name) (Remark.mem_reports.mpr ⟨r, hr, hq⟩))
  exact ⟨d, Sink.mem_reports_of_mem hd, Report.message_eq_of_key hk ▸ hm⟩

theorem gates_iff (h : f.Sound text) :
    (∃ d ∈ (f.sink name e).reported, d.gates g = true) ↔
      g ∈ Remark.features f.remarks ∧ ¬g.minimumEdition ≤ e := by
  constructor
  · rintro ⟨d, hd, hgate⟩
    obtain ⟨hm, _⟩ := Bool.and_eq_true_iff.mp hgate
    obtain ⟨hg, he, _⟩ := h.gate_of_mem hd (List.contains_iff_mem.mp hm)
    exact ⟨hg, he⟩
  · rintro ⟨hg, he⟩
    obtain ⟨d, hd, hm⟩ : ∃ d ∈ (f.sink name e).reported, d.message ∈ g.gateTexts := h.exists_gate hg he
    obtain ⟨_, _, hs⟩ := h.gate_of_mem hd hm
    exact ⟨d, hd, Bool.and_eq_true_iff.mpr ⟨List.contains_iff_mem.mpr hm, beq_iff_eq.mpr hs⟩⟩

end Findings.Sound

/-! ## The whole parse -/

/-- The features of a parse are those of its remarks. -/
theorem Findings.contains_features (f : Findings) (name : String) (o : Options) (g : Feature) :
    (f.result name o).features.contains g = true ↔ g ∈ Remark.features f.remarks := by
  let start : Journal := { edition := o.edition, sink := .ofName name }
  have hempty : ¬start.features.contains g = true := by
    simp [start, FeatureSet.empty, FeatureSet.contains]
  have hnotes : (start.notes f.remarks).features.contains g = true ↔
      start.features.contains g = true ∨ g ∈ Remark.features f.remarks := Journal.contains_notes
  exact hnotes.trans (or_iff_right hempty)

/-- **Feature gating is exact.** A feature is objected to if and only if the source uses it and the edition
lacks it, always with the severity that goes with the feature. So nothing is objected to if and only if the
edition has all features that the source uses, which is so if and only if it is not older than the oldest
edition that has them. -/
theorem parse_gates (name source : String) (o : Options) :
    let result := parse name source o
    (∀ f : Feature, (∃ d ∈ result.sink.reported, d.gates f = true) ↔
      result.features.contains f = true ∧ (FeatureSet.ofEdition o.edition).contains f = false) ∧
    (∀ f : Feature, ∀ d ∈ result.sink.reported, d.message ∈ f.gateTexts → d.severity = f.gateSeverity) ∧
    ((∀ f : Feature, ∀ d ∈ result.sink.reported, d.gates f = false) ↔
      (FeatureSet.ofEdition o.edition).containsAll result.features = true) ∧
    ∀ (s : FeatureSet) (e : Edition),
      (FeatureSet.ofEdition e).containsAll s = true ↔ s.minimumEdition ≤ e := by
  obtain ⟨f, hf, hparse⟩ := exists_sound_findings name source o
  have hgates (g : Feature) : (∃ d ∈ (f.result name o).sink.reported, d.gates g = true) ↔
      (f.result name o).features.contains g = true ∧
        (FeatureSet.ofEdition o.edition).contains g = false := by
    rw [Findings.contains_features, Bool.eq_false_iff, ne_eq, FeatureSet.contains_ofEdition]
    exact hf.gates_iff
  intro result
  rw [show result = f.result name o from hparse]
  refine ⟨hgates, fun g d hd hm => (hf.gate_of_mem hd hm).2.2, ?_,
    fun _ _ => FeatureSet.containsAll_ofEdition⟩
  rw [FeatureSet.containsAll_iff]
  refine forall_congr' fun g => ?_
  constructor
  · intro hnone hg
    refine Bool.of_not_eq_false fun hlacks => ?_
    obtain ⟨d, hd, hgate⟩ := (hgates g).mpr ⟨hg, hlacks⟩
    exact Bool.false_ne_true ((hnone d hd).symm.trans hgate)
  · intro hall d hd
    refine Bool.of_not_eq_true fun hgate => ?_
    obtain ⟨hg, hlacks⟩ := (hgates g).mp ⟨d, hd, hgate⟩
    exact Bool.false_ne_true (hlacks.symm.trans (hall hg))

end EcmaScript
