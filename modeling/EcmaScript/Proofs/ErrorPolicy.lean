import EcmaScript.Proofs.Script.Parting

/-!
# Stopping at errors and going on

What a parse that stops reports and notes, a parse that goes on reports and notes as well, and with no
error the two give the same result (`parse_keepGoing`). Where they part, at a failure inside a list of
statements, the same reports come in another order: the failure comes before what the lexer had noted. The
sink lets the first report of each key through, so the order could matter; but the reports that change
places have different speakers, and reports of different speakers never have the same key.

The order does matter for the error that comes first. If the lexer had noted an error, that error comes
first in the parse that stops, and the failure in the one that goes on. This is the only case in which the
first errors differ (`firstError_parse`).

## Contents

* `Remark.voiced`: the reports of one speaker.
* `Grammar.Parted.reported`, `Grammar.Parted.features`: nothing is lost where the parses part.
* `Sink.firstError?`, `Grammar.State.overtakes`: the first error, and when it differs.
-/

namespace EcmaScript

/-! ## The reports of one speaker -/

namespace Remark

/-- The reports of one speaker. -/
def voiced (e : Edition) (k : Speaker) (rs : List Remark) : List Report :=
  (reports e rs).filter (Speaker.ofText ·.message == k)

variable {e : Edition} {k : Speaker} {rs : List Remark}

theorem voiced_append (e : Edition) (k : Speaker) (rs qs : List Remark) :
    voiced e k (rs ++ qs) = voiced e k rs ++ voiced e k qs := by
  unfold voiced
  rw [reports_append, List.filter_append]

/-- Remarks that others make. -/
theorem voiced_eq_nil (h : ∀ r ∈ rs, ∀ q, r.report? e = some q → Speaker.ofText q.message ≠ k) :
    voiced e k rs = [] := by
  unfold voiced
  rw [List.filter_eq_nil_iff]
  intro q hq
  obtain ⟨r, hr, hrq⟩ := mem_reports.mp hq
  rw [beq_iff_eq]
  exact h r hr q hrq

theorem voiced_grammatical (h : ∀ r ∈ rs, r.Grammatical) (hk : k ≠ .grammar) : voiced e k rs = [] :=
  voiced_eq_nil fun r hr _ hq hs => hk (hs.symm.trans ((h r hr).report hq).1)

theorem voiced_lexical (ds : List LexicalDiagnostic) (hk : k ≠ .other) :
    voiced e k (ds.map .lexical) = [] := by
  refine voiced_eq_nil fun r hr q hq hs => ?_
  obtain ⟨d, _, rfl⟩ := List.mem_map.mp hr
  cases hq
  exact hk (hs.symm.trans (Speaker.ofText_lexical d.problem))

theorem voiced_feature (fs : List (Feature × Position)) (hk : k ≠ .edition) :
    voiced e k (fs.map fun (f, position) => .feature f position) = [] := by
  refine voiced_eq_nil fun r hr q hq hs => ?_
  obtain ⟨⟨f, position⟩, _, rfl⟩ := List.mem_map.mp hr
  exact hk (hs.symm.trans (report_of_feature hq))

end Remark

/-! ## Nothing is lost where the parses part -/

namespace Grammar

variable {t v : State}

/-- What the lexer has noted later begins, for each speaker, with what it had noted before. -/
theorem voiced_pending (e : Edition) (k : Speaker) (h : t.lexer.Grows v.lexer) :
    Remark.voiced e k t.pending <+: Remark.voiced e k v.pending := by
  obtain ⟨ds, hd⟩ := h.diagnostics
  obtain ⟨fs, hf⟩ := h.features
  unfold State.pending
  rw [Remark.voiced_append, Remark.voiced_append, ← hd, ← hf, List.map_append, List.map_append,
    Remark.voiced_append, Remark.voiced_append]
  -- a speaker other than the grammar speaks in one of the two halves only
  cases k with
  | grammar =>
      simp only [Remark.voiced_lexical _ (show Speaker.grammar ≠ .other by decide),
        Remark.voiced_feature _ (show Speaker.grammar ≠ .edition by decide)]
      exact List.prefix_refl _
  | edition =>
      simp only [Remark.voiced_lexical _ (show Speaker.edition ≠ .other by decide), List.nil_append]
      exact List.prefix_append _ _
  | other =>
      simp only [Remark.voiced_feature _ (show Speaker.other ≠ .edition by decide), List.append_nil]
      exact List.prefix_append _ _

/-- Notes of the lexer stay. -/
theorem mem_pending (h : t.lexer.Grows v.lexer) {r : Remark} (hr : r ∈ t.pending) : r ∈ v.pending := by
  rcases List.mem_append.mp hr with hr | hr
  · exact List.mem_append_left _ (List.map_subset _ h.diagnostics.subset hr)
  · exact List.mem_append_right _ (List.map_subset _ h.features.subset hr)

section Parted

variable {q : Problem} {position : Position}

/-- Moving a failure before what the lexer had noted keeps the order of each speaker's reports. -/
theorem voiced_failed (e : Edition) (k : Speaker) {gs : List Remark} (hq : q.EndsProduction)
    (hgs : ∀ r ∈ gs, r.Grammatical) (h : t.lexer.Grows v.lexer) (rs : List Remark) :
    Remark.voiced e k (t.pending ++ [.problem position q]) <+:
      Remark.voiced e k (.problem position q :: (gs ++ v.pending) ++ rs) := by
  have hcons : Remark.problem position q :: (gs ++ v.pending) ++ rs =
      [Remark.problem position q] ++ (gs ++ (v.pending ++ rs)) := by simp
  rw [hcons, Remark.voiced_append, Remark.voiced_append]
  by_cases hk : k = .grammar
  · -- the failure is the only report of the grammar on the left
    have hp : Remark.voiced e k t.pending = [] :=
      Remark.voiced_eq_nil fun r hr _ hs => hk ▸ (t.flushed_of_pending r hr).report hs
    rw [hp, List.nil_append]
    exact List.prefix_append _ _
  · -- the failure does not count, and what the lexer had noted is all there is on the left
    have hf : Remark.voiced e k [.problem position q] = [] := by
      refine Remark.voiced_grammatical (fun r hr => ?_) hk
      rw [List.mem_singleton.mp hr]
      exact .problem position q hq
    rw [hf, List.append_nil, List.nil_append, Remark.voiced_append,
      Remark.voiced_grammatical hgs hk, List.nil_append, Remark.voiced_append]
    exact (voiced_pending e k h).trans (List.prefix_append _ _)

/-- What a caught failure leaves in the journal, as remarks behind the point of failure. -/
theorem Growth.journal_flushed (h : Growth (t.failed (.unexpected q.message position)).goingOn v) :
    ∃ gs, (∀ r ∈ gs, Remark.Grammatical r) ∧
      v.journal = t.journal.notes (.problem position q :: gs) ∧
      v.flushed.journal = t.journal.notes (.problem position q :: (gs ++ v.pending)) := by
  obtain ⟨gs, hgs, hj⟩ := h.journal
  have hv : v.journal = t.journal.notes (.problem position q :: gs) := by
    rw [hj]
    exact Journal.notes_notes t.journal [.problem position q] gs
  refine ⟨gs, hgs, hv, ?_⟩
  show v.journal.notes v.pending = _
  rw [hv, Journal.notes_notes, List.cons_append]

/-- **No diagnostic is lost.** -/
theorem Parted.reported {j : Journal} (hq : q.EndsProduction)
    (h : Parted t (.unexpected q.message position) v j) {d : Diagnostic}
    (hd : d ∈ (t.flushed.failed (.unexpected q.message position)).journal.sink.reported) :
    d ∈ j.sink.reported := by
  cases h with
  | uncaught rs _ => exact Sink.mem_reports_of_mem hd
  | caught rs hg =>
      -- only reports of the speaker of `d` can hide it
      obtain ⟨gs, hgs, _, hj⟩ := hg.journal_flushed
      let k := Speaker.ofText d.message
      let e := t.journal.edition
      have hd' : d ∈ (t.journal.sink.reports
          (Remark.reports e (t.pending ++ [Remark.problem position q]))).reported := by
        rw [Remark.reports_append, Sink.reports_append]
        exact hd
      rw [hj, Journal.notes_notes]
      refine Sink.mem_reports_of_prefix (Speaker.ofText · == k) (beq_self_eq_true k) ?_ hd'
      exact voiced_failed e k hq hgs hg.lexer rs

/-- **No feature is lost.** -/
theorem Parted.features {j : Journal} (h : Parted t (.unexpected q.message position) v j) {f : Feature}
    (hf : (t.flushed.failed (.unexpected q.message position)).journal.features.contains f = true) :
    j.features.contains f = true := by
  cases h with
  | uncaught rs _ => exact Journal.contains_notes.mpr (Or.inl hf)
  | caught rs hg =>
      obtain ⟨gs, _, _, hj⟩ := hg.journal_flushed
      have hf' : (t.journal.notes t.pending).features.contains f = true := hf
      rw [hj, Journal.notes_notes, Journal.contains_notes]
      rcases Journal.contains_notes.mp hf' with ht | ht
      · exact Or.inl ht
      · right
        obtain ⟨r, hr, hrf⟩ := List.mem_filterMap.mp ht
        refine List.mem_filterMap.mpr ⟨r, ?_, hrf⟩
        have hv : r ∈ v.pending := mem_pending hg.lexer hr
        simp [hv]

/-- The failure, or an error that was there before it, is in the sink. -/
theorem exists_error_failed (hq : q.EndsProduction) (position : Position)
    (ht : t.journal.sink.Unmasked) :
    ∃ d ∈ (t.flushed.failed (.unexpected q.message position)).journal.sink.reported,
      d.isError = true := by
  have hm : Remark.problem position q ∈ [Remark.problem position q] := List.mem_singleton_self _
  exact (ht.reports t.journal.edition t.pending).error_of_failure t.journal.edition hq hm

end Parted

end Grammar

/-- **Going on refines stopping.** Every diagnostic and every feature of the parse that stops is one of
the parse that goes on; either both report an error or none does; and if none does then they give the same
result, with the same diagnostics in the same order. -/
theorem parse_keepGoing (name source : String) (o : Options) :
    let stop := parse name source { o with onError := .stopOnError }
    let go := parse name source { o with onError := .keepGoing }
    (∀ d ∈ stop.sink.reported, d ∈ go.sink.reported) ∧
      (∀ f, stop.features.contains f = true → go.features.contains f = true) ∧
      stop.sink.reported.any Diagnostic.isError = go.sink.reported.any Diagnostic.isError ∧
      (go.sink.reported.any Diagnostic.isError = false → stop = go) := by
  intro stop go
  have hcount : 0 < go.sink.errorCount ↔ go.sink.reported.any Diagnostic.isError = true :=
    (counted_parse name source { o with onError := .keepGoing }).errorCount_pos_iff
  rcases parse_parts name source o with ⟨_, heq⟩ | ⟨u, q, position, t, j, _, h⟩
  · have hstop : stop = { go with root := if 0 < go.sink.errorCount then none else go.root } := heq
    rw [hstop]
    refine ⟨fun d hd => hd, fun f hf => hf, rfl, fun hnone => ?_⟩
    rw [if_neg]
    rw [hcount, hnone]
    exact Bool.false_ne_true
  · obtain ⟨rs, hgo⟩ := h.goSink
    have hreported : ∀ d ∈ stop.sink.reported, d ∈ go.sink.reported := by
      intro d hd
      rw [show stop.sink = _ from h.stopSink] at hd
      rw [show go.sink = _ from hgo]
      exact Sink.mem_reports_of_mem (h.parted.reported h.problem hd)
    obtain ⟨d, hd, he⟩ := Grammar.exists_error_failed h.problem position h.unmasked
    rw [← h.stopSink] at hd
    have hs : stop.sink.reported.any Diagnostic.isError = true := Array.any_eq_true'.mpr ⟨d, hd, he⟩
    have hg : go.sink.reported.any Diagnostic.isError = true :=
      Array.any_eq_true'.mpr ⟨d, hreported d hd, he⟩
    refine ⟨hreported, fun f hf => ?_, hs.trans hg.symm, fun hnone => ?_⟩
    · rw [show stop.features = _ from h.stopFeatures] at hf
      rw [show go.features = _ from h.goFeatures]
      exact h.parted.features hf
    · rw [hg] at hnone
      cases hnone

/-- A declaration that the third edition warns about gives the same result in both. -/
theorem parse_keepGoing_let :
    let stop := parse "a.js" "let x = 1;" { edition := .es3, onError := .stopOnError }
    let go := parse "a.js" "let x = 1;" { edition := .es3, onError := .keepGoing }
    stop.sink.reported.size = 1 ∧ (∀ d ∈ stop.sink.reported, d ∈ go.sink.reported) ∧
      stop.features.contains .letDeclarations = true ∧
      go.features.contains .letDeclarations = true ∧
      go.sink.reported.any Diagnostic.isError = false ∧ stop = go := by
  intro stop go
  obtain ⟨hreported, hfeatures, _, hsame⟩ := parse_keepGoing "a.js" "let x = 1;" { edition := .es3 }
  obtain ⟨hsize, hlet, hnone⟩ : stop.sink.reported.size = 1 ∧ stop.features.contains .letDeclarations = true ∧
      go.sink.reported.any Diagnostic.isError = false := by
    decide +kernel
  exact ⟨hsize, hreported, hlet, hfeatures _ hlet, hnone, hsame hnone⟩

/-! ## The first error -/

/-- The first error that was let through. -/
def Sink.firstError? (s : Sink) : Option Diagnostic := s.reported.toList.find? Diagnostic.isError

namespace Sink

variable {s : Sink}

theorem firstError?_eq_none : s.firstError? = none ↔ ∀ d ∈ s.reported, d.isError = false := by
  simp [firstError?]

theorem exists_firstError? (h : ∃ d ∈ s.reported, d.isError = true) : ∃ d, s.firstError? = some d := by
  cases hs : s.firstError? with
  | some d => exact ⟨d, rfl⟩
  | none =>
      obtain ⟨d, hd, he⟩ := h
      rw [firstError?_eq_none.mp hs d hd] at he
      cases he

/-- What comes later does not change the first error. -/
theorem firstError?_reports {d : Diagnostic} (h : s.firstError? = some d) (rs : List Report) :
    (s.reports rs).firstError? = some d := by
  obtain ⟨more, hmore⟩ := s.prefix_reports rs
  unfold firstError? at *
  rw [← hmore, List.find?_append, h]
  rfl

end Sink

namespace Journal

variable {j : Journal} {d : Diagnostic}

theorem firstError?_notes (h : j.sink.firstError? = some d) (rs : List Remark) :
    (j.notes rs).sink.firstError? = some d := Sink.firstError?_reports h _

/-- A failure is the first error if there was none before it. -/
theorem firstError?_failure (hj : j.sink.Unmasked) (hn : j.sink.firstError? = none) {p : Problem}
    (hp : p.EndsProduction) (position : Position) (rs : List Remark) :
    ∃ d, (j.notes (.problem position p :: rs)).sink.firstError? = some d ∧ d.message = p.message := by
  let failure : Report := ⟨position, p.message, .error⟩
  have hvoice : Speaker.ofText failure.message = .grammar := Speaker.ofText_endsProduction hp
  have hnew : j.sink.seen failure.key = false := by
    refine Bool.eq_false_iff.mpr fun hseen => ?_
    obtain ⟨d, hd⟩ := Sink.exists_firstError? (hj.error_of_seen hvoice hseen)
    rw [hn] at hd
    cases hd
  have hfirst : (j.sink.reports [failure]).firstError? = some (failure.diagnostic j.sink.sourceName) := by
    unfold Sink.firstError? at *
    rw [Sink.reports_cons, Sink.reports_nil, Sink.reported_emit_of_new hnew, Array.toList_push,
      List.find?_append, hn]
    rfl
  have hnotes : j.notes (.problem position p :: rs) = (j.notes [.problem position p]).notes rs :=
    (notes_notes j [.problem position p] rs).symm
  refine ⟨failure.diagnostic j.sink.sourceName, ?_, rfl⟩
  rw [hnotes]
  exact firstError?_notes hfirst rs

end Journal

namespace Grammar

/-- Whether, in the statement behind `s`, a caught failure is reported before an error that came first.
When the parse that stops failed there was no error; its lexer holds one; and the parse that goes on has
reported one before the end of the statement, where the lexer is asked. -/
def State.overtakes (depth : Nat) (s : State) : Bool :=
  let stop := stateOf (read depth (.statement .topLevel) s)
  let go := stateOf (read depth (.statement .topLevel) s.goingOn)
  stop.journal.sink.firstError?.isNone && stop.flushed.journal.sink.firstError?.isSome &&
    go.journal.sink.firstError?.isSome

section FirstError

variable {t v : State} {q : Problem} {position : Position}

/-- An error that the lexer held does not have the text of a failure. -/
theorem ofText_firstError?_flushed {d : Diagnostic} (hn : t.journal.sink.firstError? = none)
    (hd : t.flushed.journal.sink.firstError? = some d) : Speaker.ofText d.message ≠ .grammar := by
  have hm : d ∈ (t.journal.sink.reports (Remark.reports t.journal.edition t.pending)).reported :=
    Array.mem_toList_iff.mp (List.mem_of_find?_eq_some hd)
  have he : d.isError = true := List.find?_some hd
  rcases Sink.mem_reports.mp hm with hold | ⟨_, p, hp, rfl⟩
  · rw [Sink.firstError?_eq_none.mp hn d hold] at he
    cases he
  · obtain ⟨r, hr, hrp⟩ := Remark.mem_reports.mp (List.mem_of_find?_eq_some hp)
    exact (t.flushed_of_pending r hr).report hrp

/-- All that was written before the parses part is in both. -/
theorem Parted.exists_notes {j : Journal} (h : Parted t (.unexpected q.message position) v j) :
    ∃ rs, j = t.journal.notes rs := by
  cases h with
  | uncaught rs _ =>
      refine ⟨t.pending ++ ([Remark.problem position q] ++ rs), ?_⟩
      rw [← Journal.notes_notes, ← Journal.notes_notes]
      rfl
  | caught rs hg =>
      obtain ⟨gs, _, _, hj⟩ := hg.journal_flushed
      rw [hj, Journal.notes_notes]
      exact ⟨_, rfl⟩

/-- A caught failure is the first error of the parse that goes on. In the parse that stops the lexer is
asked before the failure is reported, so the first errors agree if the lexer holds no error. -/
theorem Growth.firstError? (hq : q.EndsProduction) (ht : t.journal.sink.Unmasked)
    (hold : t.journal.sink.firstError? = none)
    (hg : Growth (t.failed (.unexpected q.message position)).goingOn v) (rs : List Remark)
    (qs : List Report) :
    v.journal.sink.firstError?.isSome = true ∧
      ((t.flushed.failed (.unexpected q.message position)).journal.sink.firstError?.map (·.message) =
          ((v.flushed.journal.notes rs).sink.reports qs).firstError?.map (·.message) ↔
        t.flushed.journal.sink.firstError?.isSome = false) := by
  let failed := t.flushed.failed (.unexpected q.message position)
  obtain ⟨gs, _, hv, _⟩ := hg.journal_flushed
  obtain ⟨d, hd, hmessage⟩ := Journal.firstError?_failure ht hold hq position gs
  rw [← hv] at hd
  have hgo : ((v.flushed.journal.notes rs).sink.reports qs).firstError? = some d :=
    Sink.firstError?_reports (Journal.firstError?_notes (Journal.firstError?_notes hd v.pending) rs) qs
  rw [hd, hgo]
  refine ⟨rfl, ?_⟩
  cases hlexer : t.flushed.journal.sink.firstError? with
  | none =>
      have hpending : t.flushed.journal.sink.Unmasked := ht.reports t.journal.edition t.pending
      obtain ⟨d', hstop, hsame⟩ := Journal.firstError?_failure hpending hlexer hq position []
      rw [show failed.journal.sink.firstError? = _ from hstop]
      simp [hsame, hmessage]
  | some d' =>
      have hstop : failed.journal.sink.firstError? = some d' :=
        Journal.firstError?_notes hlexer [.problem position q]
      have hne : d'.message ≠ d.message := by
        intro heq
        apply ofText_firstError?_flushed hold hlexer
        rw [heq, hmessage]
        exact Speaker.ofText_endsProduction hq
      rw [show failed.journal.sink.firstError? = _ from hstop]
      simp [hne]

/-- **The first errors agree unless a failure overtakes the lexer.** -/
theorem Parted.firstError? {j : Journal} (hq : q.EndsProduction) (ht : t.journal.sink.Unmasked)
    (h : Parted t (.unexpected q.message position) v j) (qs : List Report) :
    (t.flushed.failed (.unexpected q.message position)).journal.sink.firstError?.map (·.message) =
        (j.sink.reports qs).firstError?.map (·.message) ↔
      (t.journal.sink.firstError?.isNone && t.flushed.journal.sink.firstError?.isSome &&
        v.journal.sink.firstError?.isSome) = false := by
  let failed := t.flushed.failed (.unexpected q.message position)
  cases hold : t.journal.sink.firstError? with
  | some d =>
      -- an error from before the failure is the first one in both
      have hstop : failed.journal.sink.firstError? = some d :=
        Journal.firstError?_notes (Journal.firstError?_notes hold t.pending) [.problem position q]
      have hgo : (j.sink.reports qs).firstError? = some d := by
        obtain ⟨rs, hj⟩ := h.exists_notes
        rw [hj]
        exact Sink.firstError?_reports (Journal.firstError?_notes hold rs) qs
      rw [show failed.journal.sink.firstError? = _ from hstop, hgo]
      simp
  | none =>
      cases h with
      | uncaught rs hv =>
          -- the parse that goes on has reported all that the other has, in the same order
          obtain ⟨d, hstop⟩ := Sink.exists_firstError? (exists_error_failed hq position ht)
          have hgo := Sink.firstError?_reports (Journal.firstError?_notes hstop rs) qs
          have hnone : v.journal.sink.firstError? = none := by
            rw [hv]
            exact hold
          rw [hstop, hgo, hnone]
          simp
      | caught rs hg =>
          obtain ⟨hsome, hiff⟩ := Growth.firstError? hq ht hold hg rs qs
          rw [hiff, hsome]
          simp

end FirstError

end Grammar

/-- Whether a caught failure is reported before an error that came first. -/
def failureOvertakes (name source : String) (o : Options) : Bool :=
  match failing? name source o with
  | some s => s.grammar.overtakes (4 * (source.length + 4))
  | none => false

/-- **When the first errors agree.** The parse that stops and the parse that goes on report the same error
first, unless the latter catches a failure while the lexer holds an error. -/
theorem firstError_parse (name source : String) (o : Options) :
    (parse name source { o with onError := .stopOnError }).sink.firstError?.map (·.message) =
        (parse name source { o with onError := .keepGoing }).sink.firstError?.map (·.message) ↔
      failureOvertakes name source o = false := by
  unfold failureOvertakes
  rcases parse_parts name source o with ⟨hnone, heq⟩ | ⟨u, q, position, t, j, hsome, h⟩
  · rw [hnone, heq]
    exact ⟨fun _ => rfl, fun _ => rfl⟩
  · obtain ⟨rs, hgo⟩ := h.goSink
    rw [hsome, h.stopSink, hgo, h.parted.firstError? h.problem h.unmasked rs]
    dsimp only
    unfold Grammar.State.overtakes
    rw [h.fails]
    rfl

/-- The lexer objects to `@` before the grammar misses a name, but inside a block the parse that goes on
reports the missing name first. -/
theorem firstError_parse_block :
    (parse "a.js" "\x7b@var;\x7d" { onError := .stopOnError }).sink.firstError?.map (·.message) =
        some "Character '@' (U+0040) is not a valid identifier start char" ∧
      (parse "a.js" "\x7b@var;\x7d" { onError := .keepGoing }).sink.firstError?.map (·.message) =
        some "'identifier' expected" := by
  decide +kernel

end EcmaScript
