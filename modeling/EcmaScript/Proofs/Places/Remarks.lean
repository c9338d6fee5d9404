import EcmaScript.Proofs.Places.Concrete
import EcmaScript.Proofs.Remarks

/-!
# Remarks about places of the text

A remark is sound if it is made about a place of the text and keeps features and problems apart: it does
not pass an objection to a feature off as a problem of every edition, and does not record a feature that
nobody then objects to. Lexer, grammar and static rules make no other remarks, so what is reported about a
source is reported at its places, and it is said of the features that were recorded and of no other.

## Contents

* `Remark.position`, `Remark.Sound`: the place of a remark, and remarks that may be made.
* `Journal.Adds`: a journal and what sound remarks make of it.
-/

namespace EcmaScript

/-- The problems that object to a feature, which is recorded where they are reported. -/
@[reducible] def Problem.isObjection : Problem → Bool
  | .trailingCommaInLiteral | .keywordAsProperty | .reservedIdentifier | .trailingCommaInParameters
  | .trailingCommaInArguments => true
  | _ => false

/-- No production fails with an objection. -/
theorem Problem.EndsProduction.isObjection {p : Problem} (h : p.EndsProduction) :
    p.isObjection = false := by
  cases h <;> rfl

/-- Whether it is left to a list in parentheses to object to the feature. -/
@[reducible] def Feature.isObjectedByList : Feature → Bool
  | .trailingCommaInParamList => true
  | _ => false

/-- To all other features the edition objects itself. -/
theorem Feature.exists_objection {f : Feature} (h : f.isObjectedByList = false) :
    ∃ message severity, f.objection? = some (message, severity) := by
  cases f <;> first | exact ⟨_, _, rfl⟩ | cases h

theorem Feature.isObjectedByList_of_isSpelling {f : Feature} (h : f.isSpelling = true) :
    f.isObjectedByList = false := by
  cases f <;> first | rfl | cases h

/-- A test that fails, as a hypothesis that instances can settle for a value that is written out. -/
class Fails (b : Bool) : Prop where
  eq_false : b = false

instance : Fails false := ⟨rfl⟩

/-- Where a parse reports problems, objections are reported for features only. -/
instance : HasPlaces Problem := ⟨fun _ p => p.isObjection = false⟩

/-- Where a parse records features, none is left to a list. -/
instance : HasPlaces Feature := ⟨fun _ f => f.isObjectedByList = false⟩

instance {text : List Char} {p : Problem} [h : Fails p.isObjection] : InText text p := ⟨h.eq_false⟩

instance {text : List Char} {f : Feature} [h : Fails f.isObjectedByList] : InText text f := ⟨h.eq_false⟩

instance {text : List Char} {c : Prop} [Decidable c] {p q : Problem} [hp : InText text p]
    [hq : InText text q] : InText text (if c then p else q) := by
  split
  · exact hp
  · exact hq

namespace Remark

/-- The place that a remark is about. -/
def position : Remark → Position
  | lexical d => d.position
  | problem position _ => position
  | duplicate position _ => position
  | feature _ position => position
  | trailingComma comma _ => comma
  | shorthand position _ _ _ => position

/-- A remark that a parse of the text may make. -/
structure Sound (text : List Char) (r : Remark) : Prop where
  place : r.position.Located text
  problem : ∀ {position : Position} {p : Problem}, r = .problem position p → p.isObjection = false
  feature : ∀ {f : Feature} {position : Position}, r = .feature f position → f.isObjectedByList = false

/-- What is reported for a remark is reported at its place. -/
theorem position_report {r : Remark} {e : Edition} {q : Report} (h : r.report? e = some q) :
    q.position = r.position := by
  cases r with
  | lexical d => cases h; rfl
  | problem position p => cases h; rfl
  | duplicate position name => cases h; rfl
  | feature f position =>
      simp only [report?] at h
      split at h
      · cases h
      · obtain ⟨_, _, rfl⟩ := Option.map_eq_some_iff.mp h
        rfl
  | trailingComma comma place =>
      simp only [report?] at h
      split at h <;> cases h
      rfl
  | shorthand position strict name place =>
      simp only [report?] at h
      split at h <;> cases h
      rfl

end Remark

/-- The journal `k` is what sound remarks make of `j`. -/
def Journal.Adds (text : List Char) (j k : Journal) : Prop :=
  ∃ rs, (∀ r ∈ rs, Remark.Sound text r) ∧ k = j.notes rs

namespace Journal.Adds

variable {text : List Char} {j k l : Journal} {r : Remark} {p : Position}

theorem refl (j : Journal) : Adds text j j := ⟨[], nofun, rfl⟩

theorem trans (h : Adds text j k) (h' : Adds text k l) : Adds text j l := by
  obtain ⟨rs, hr, rfl⟩ := h
  obtain ⟨qs, hq, rfl⟩ := h'
  exact ⟨rs ++ qs, List.forall_mem_append.mpr ⟨hr, hq⟩, notes_notes j rs qs⟩

theorem edition (h : Adds text j k) : k.edition = j.edition := by
  obtain ⟨rs, _, rfl⟩ := h
  rfl

/-- One more remark. -/
theorem remark (h : Adds text j k) (hr : r.Sound text) : Adds text j (k.notes [r]) :=
  h.trans ⟨[r], fun _ hm => List.mem_singleton.mp hm ▸ hr, rfl⟩

theorem record (h : Adds text j k) {f : Feature} (hf : f.isObjectedByList = false)
    (hp : p.Located text) : Adds text j (k.record f p) :=
  record_eq k f p ▸ h.remark ⟨hp, nofun, fun e => by cases e; exact hf⟩

theorem lexical (h : Adds text j k) {d : LexicalDiagnostic} (hd : d.position.Located text) :
    Adds text j (k.lexical d) := h.remark (r := .lexical d) ⟨hd, nofun, nofun⟩

theorem error (h : Adds text j k) {q : Problem} (hp : p.Located text) (hq : q.isObjection = false) :
    Adds text j (k.error p q) :=
  h.remark (r := .problem p q) ⟨hp, fun e => by cases e; exact hq, nofun⟩

end Journal.Adds

end EcmaScript
