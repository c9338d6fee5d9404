import EcmaScript.Proofs.Reports
import EcmaScript.Proofs.Texts
import EcmaScript.Token.Keyword

/-!
# What a parse has to say

Lexer, grammar and static rules write into the journal in six ways. A `Remark` is one such entry,
recorded before anybody has asked which edition the source is written for: the edition decides only
what is reported for a remark (`Remark.report?`), never which feature it notes (`Remark.feature?`).
`Journal.notes` writes a list of remarks, and every function that writes into a journal is an instance
of it. So a statement about what is reported, in which order and in which edition, becomes one about
the list of remarks.

## Contents

* `Remark`, `Remark.report?`, `Remark.feature?`: an entry and what comes of it.
* `Journal.notes`: a journal after a list of remarks.
* `Journal.contains_notes`: the features of a journal.
* `Remark.Grammatical`, `Remark.Flushed`: the remarks of productions and those of the lexer, with
  the voices of their reports.
* `Sink.Unmasked`: no failure is lost in the sink.
-/

namespace EcmaScript

/-- A list in parentheses that may end in a comma. -/
inductive CommaPlace where
  | parameters
  | arguments
  deriving DecidableEq, Repr

/-- What is said about the comma in an edition without it. -/
def CommaPlace.problem : CommaPlace → Problem
  | parameters => .trailingCommaInParameters
  | arguments => .trailingCommaInArguments

/-- Where a property is written as a name only. -/
inductive ShorthandPlace where
  | literal
  | pattern
  deriving DecidableEq, Repr

/-- What is said about a reserved word in that place. -/
def ShorthandPlace.problem (name : String) : ShorthandPlace → Problem
  | literal => .keywordInShorthand
  | pattern => .keywordNotAllowed name

/-- One entry of a journal, before an edition is consulted. -/
inductive Remark where
  /-- A problem of the lexer. -/
  | lexical (d : LexicalDiagnostic)
  /-- A problem in every edition. -/
  | problem (position : Position) (p : Problem)
  /-- A parameter that has the name of an earlier one. -/
  | duplicate (position : Position) (name : String)
  /-- A use of a feature. -/
  | feature (f : Feature) (position : Position)
  /-- A comma before a closing parenthesis, a feature that its list objects to. -/
  | trailingComma (comma : Position) (place : CommaPlace)
  /-- A property written as a name only, which may be reserved. -/
  | shorthand (position : Position) (strict : Bool) (name : String) (place : ShorthandPlace)
  deriving Repr

/-- Whether a shorthand cannot have this name in an edition. -/
def reservedShorthand (strict : Bool) (name : String) (e : Edition) : Bool :=
  (Keyword.ofSpelling? name).isSome ||
    ((strict || !decide (Feature.extendedObjectLiterals.minimumEdition ≤ e)) &&
      strictReservedWords.contains name)

namespace Remark

/-- What an edition reports for a remark. -/
def report? (e : Edition) : Remark → Option Report
  | lexical d => some ⟨d.position, d.problem.message, d.severity⟩
  | problem position p => some ⟨position, p.message, .error⟩
  | duplicate position name => some ⟨position, (Problem.duplicateParameter name).message, .warning⟩
  | feature f position =>
    if f.minimumEdition ≤ e then none
    else f.objection?.map fun (message, severity) => ⟨position, message, severity⟩
  | trailingComma comma place =>
    if .es2017 ≤ e then none else some ⟨comma, place.problem.message, .error⟩
  | shorthand position strict name place =>
    if reservedShorthand strict name e then
      some ⟨position, (place.problem name).message, .error⟩
    else none

/-- The feature that a remark notes, in every edition. -/
def feature? : Remark → Option Feature
  | feature f _ => some f
  | trailingComma _ _ => some .trailingCommaInParamList
  | _ => none

/-- What an edition reports for a list of remarks. -/
def reports (e : Edition) (rs : List Remark) : List Report := rs.filterMap (report? e)

/-- The features that a list of remarks notes. -/
def features (rs : List Remark) : List Feature := rs.filterMap feature?

theorem reports_append (e : Edition) (rs qs : List Remark) :
    reports e (rs ++ qs) = reports e rs ++ reports e qs := List.filterMap_append

theorem mem_reports {e : Edition} {rs : List Remark} {q : Report} :
    q ∈ reports e rs ↔ ∃ r ∈ rs, r.report? e = some q := List.mem_filterMap

end Remark

namespace Journal

/-- The journal after a list of remarks. -/
def notes (j : Journal) (rs : List Remark) : Journal :=
  ⟨j.edition, j.sink.reports (Remark.reports j.edition rs),
    (Remark.features rs).foldl .insert j.features⟩

@[simp] theorem notes_nil (j : Journal) : j.notes [] = j := rfl

@[simp] theorem edition_notes (j : Journal) (rs : List Remark) : (j.notes rs).edition = j.edition :=
  rfl

@[simp] theorem sink_notes (j : Journal) (rs : List Remark) :
    (j.notes rs).sink = j.sink.reports (Remark.reports j.edition rs) := rfl

/-- Remarks are written one after another. -/
@[simp] theorem notes_notes (j : Journal) (rs qs : List Remark) :
    (j.notes rs).notes qs = j.notes (rs ++ qs) := by
  simp only [notes, Remark.reports_append, Sink.reports_append, Remark.features,
    List.filterMap_append, List.foldl_append]

/-! ## Ways to write into a journal -/

theorem lexical_eq (j : Journal) (d : LexicalDiagnostic) : j.lexical d = j.notes [.lexical d] := rfl

theorem error_eq (j : Journal) (position : Position) (p : Problem) :
    j.error position p = j.notes [.problem position p] := rfl

theorem record_eq (j : Journal) (f : Feature) (position : Position) :
    j.record f position = j.notes [.feature f position] := by
  unfold record supports
  by_cases h : f.minimumEdition ≤ j.edition
  · simp [h, notes, Remark.reports, Remark.features, Remark.report?, Remark.feature?]
  · cases ho : f.objection? with
    | none => simp [h, ho, notes, Remark.reports, Remark.features, Remark.report?, Remark.feature?]
    | some o =>
        simp [h, ho, notes, Remark.reports, Remark.features, Remark.report?, Remark.feature?]
        rfl

/-- A comma before a closing parenthesis is noted as a feature, and objected to by the list. -/
theorem record_trailingComma (j : Journal) (comma : Position) (place : CommaPlace) :
    (if Edition.es2017 ≤ j.edition then j.record .trailingCommaInParamList comma
      else (j.record .trailingCommaInParamList comma).error comma place.problem) =
      j.notes [.trailingComma comma place] := by
  rw [record_eq]
  by_cases h : Edition.es2017 ≤ j.edition
  · simp [h, notes, Remark.reports, Remark.features, Remark.report?, Remark.feature?,
      Feature.minimumEdition]
  · rw [if_neg h, error_eq, notes_notes]
    simp [h, notes, Remark.reports, Remark.features, Remark.report?, Remark.feature?,
      Feature.minimumEdition, Feature.objection?]
    rfl

/-- A reserved shorthand is objected to. -/
theorem error_shorthand (j : Journal) (position : Position) (strict : Bool) (name : String)
    (place : ShorthandPlace) :
    (if reservedShorthand strict name j.edition then j.error position (place.problem name) else j) =
      j.notes [.shorthand position strict name place] := by
  cases h : reservedShorthand strict name j.edition with
  | false =>
      simp [h, notes, Remark.reports, Remark.features, Remark.report?]
      rfl
  | true =>
      simp [h, notes, Remark.reports, Remark.features, Remark.report?, error_eq]
      rfl

end Journal

/-! ## Features -/

theorem FeatureSet.mem_insertRanked {f g : Feature} {fs : List Feature} :
    g ∈ insertRanked f fs ↔ g = f ∨ g ∈ fs := by
  induction fs with
  | nil => simp [insertRanked]
  | cons h fs ih =>
      unfold insertRanked
      split
      · simp
      · simp only [List.mem_cons, ih]
        exact or_left_comm

theorem FeatureSet.contains_insert {s : FeatureSet} {f g : Feature} :
    (s.insert f).contains g = true ↔ g = f ∨ s.contains g = true := by
  unfold insert
  split
  next h =>
    constructor
    · exact Or.inr
    · rintro (rfl | hg)
      · exact h
      · exact hg
  next => simp [contains, mem_insertRanked]

/-- The features of a journal are those it had and those that the remarks note. -/
theorem Journal.contains_notes {j : Journal} {rs : List Remark} {f : Feature} :
    (j.notes rs).features.contains f = true ↔
      j.features.contains f = true ∨ f ∈ Remark.features rs := by
  show ((Remark.features rs).foldl .insert j.features).contains f = true ↔ _
  generalize Remark.features rs = fs
  induction fs generalizing j with
  | nil => simp
  | cons g fs ih =>
      have step := @ih { j with features := j.features.insert g }
      rw [List.foldl_cons, step, FeatureSet.contains_insert, List.mem_cons]
      exact or_assoc.trans or_left_comm

/-! ## The voice of a remark -/

namespace Remark

/-- The remarks of productions: the problem that one fails with, and a comma that it goes on
behind. -/
inductive Grammatical : Remark → Prop where
  | problem (position : Position) (p : Problem) : p.EndsProduction → Grammatical (.problem position p)
  | trailingComma (comma : Position) (place : CommaPlace) : Grammatical (.trailingComma comma place)

/-- The remarks that are passed on from the lexer. -/
inductive Flushed : Remark → Prop where
  | lexical (d : LexicalDiagnostic) : Flushed (.lexical d)
  | feature (f : Feature) (position : Position) : Flushed (.feature f position)

/-- A production speaks for the grammar, and in errors only. -/
theorem Grammatical.report {r : Remark} (h : r.Grammatical) {e : Edition} {q : Report}
    (hq : r.report? e = some q) : Speaker.ofText q.message = .grammar ∧ q.severity = .error := by
  cases h with
  | problem position p hp => cases hq; exact ⟨Speaker.ofText_endsProduction hp, rfl⟩
  | trailingComma comma place =>
      simp only [report?] at hq
      split at hq <;> cases hq
      cases place <;> exact ⟨Speaker.ofText_literal rfl, rfl⟩

theorem report_of_feature {f : Feature} {position : Position} {e : Edition} {q : Report}
    (hq : (feature f position).report? e = some q) : Speaker.ofText q.message = .edition := by
  simp only [report?] at hq
  split at hq
  · cases hq
  · obtain ⟨⟨message, severity⟩, ho, rfl⟩ := Option.map_eq_some_iff.mp hq
    exact Speaker.ofText_objection ho

/-- What the lexer passes on never speaks for the grammar. -/
theorem Flushed.report {r : Remark} (h : r.Flushed) {e : Edition} {q : Report}
    (hq : r.report? e = some q) : Speaker.ofText q.message ≠ .grammar := by
  cases h with
  | lexical d =>
      cases hq
      rw [Speaker.ofText_lexical]
      decide
  | feature f position =>
      rw [report_of_feature hq]
      decide

/-- **No warning speaks for the grammar.** Whoever makes a remark, if its text could be that of a
failed production then it is an error. -/
theorem severity_of_grammar {r : Remark} {e : Edition} {q : Report} (hq : r.report? e = some q)
    (h : Speaker.ofText q.message = .grammar) : q.severity = .error := by
  cases r with
  | lexical d => exact absurd h ((Flushed.lexical d).report hq)
  | feature f position => exact absurd h ((Flushed.feature f position).report hq)
  | problem position p => cases hq; rfl
  | duplicate position name =>
      cases hq
      rw [Speaker.ofText_duplicateParameter] at h
      cases h
  | trailingComma comma place =>
      simp only [report?] at hq
      split at hq <;> cases hq
      rfl
  | shorthand position strict name place =>
      simp only [report?] at hq
      split at hq <;> cases hq
      rfl

end Remark

/-! ## Failures in the sink -/

namespace Sink

/-- Whatever has a text of the grammar is an error, so that no failure can be taken for the repetition
of a warning. -/
def Unmasked (s : Sink) : Prop :=
  ∀ d ∈ s.reported, Speaker.ofText d.message = .grammar → d.isError = true

namespace Unmasked

variable {s : Sink}

theorem ofName (name : String) : (Sink.ofName name).Unmasked := fun _ hd => nomatch hd

/-- Remarks keep it so. -/
theorem reports (h : s.Unmasked) (e : Edition) (rs : List Remark) :
    (s.reports (Remark.reports e rs)).Unmasked := by
  intro d hd ht
  rcases mem_reports.mp hd with hd | ⟨_, q, hq, rfl⟩
  · exact h d hd ht
  · obtain ⟨r, _, hr⟩ := Remark.mem_reports.mp (List.mem_of_find?_eq_some hq)
    show (q.severity == .error) = true
    rw [Remark.severity_of_grammar hr ht]
    rfl

/-- A text of the grammar that has been seen was an error. -/
theorem error_of_seen (h : s.Unmasked) {q : Report} (ht : Speaker.ofText q.message = .grammar)
    (hs : s.seen q.key = true) : ∃ d ∈ s.reported, d.isError = true := by
  obtain ⟨d, hd, hk⟩ := seen_iff.mp hs
  refine ⟨d, hd, h d hd ?_⟩
  rw [Report.message_eq_of_key hk]
  exact ht

/-- A failure that is remarked leaves an error in the sink, be it that failure or what was there before
it. -/
theorem error_of_failure (h : s.Unmasked) (e : Edition) {rs : List Remark} {position : Position}
    {p : Problem} (hp : p.EndsProduction) (hm : Remark.problem position p ∈ rs) :
    ∃ d ∈ (s.reports (Remark.reports e rs)).reported, d.isError = true := by
  let failure : Report := ⟨position, p.message, .error⟩
  have hf : failure ∈ Remark.reports e rs := Remark.mem_reports.mpr ⟨_, hm, rfl⟩
  have ht : Speaker.ofText failure.message = .grammar := Speaker.ofText_endsProduction hp
  exact (h.reports e rs).error_of_seen ht (seen_reports_of_mem hf)

end Unmasked

end Sink

end EcmaScript
