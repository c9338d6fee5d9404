import EcmaScript.Diagnostic

/-!
# Reports on their way through the sink

A sink is fed reports one by one and lets the first of each key through. This module says what a
whole list of reports does to a sink, in the three forms that the later theory uses:

* `Sink.mem_reports`: which diagnostics are in the sink afterwards, each one the first report of its
  key;
* `Sink.prefix_reports`: nothing that was let through is ever taken back;
* `Sink.kept_reports`: the diagnostics whose text passes a test depend only on the reports whose text
  passes it. Since the key holds the text, reports that fail the test can neither hide one that
  passes nor let it through twice.

`Sink.Counted` ties the two counters to the list.
-/

namespace EcmaScript

/-- A problem on its way to the sink. -/
structure Report where
  position : Position
  message : String
  severity : Severity
  deriving DecidableEq, Repr, Inhabited

namespace Report

/-- What the sink compares. -/
def key (r : Report) : Nat × Nat × String := (r.position.line, r.position.column, r.message)

/-- The diagnostic about the source `name` that the sink lets through for the report. -/
def diagnostic (name : String) (r : Report) : Diagnostic :=
  ⟨name, r.position.line, r.position.column, r.message, r.severity⟩

@[simp] theorem key_diagnostic (name : String) (r : Report) : (r.diagnostic name).key = r.key := rfl

@[simp] theorem message_diagnostic (name : String) (r : Report) :
    (r.diagnostic name).message = r.message := rfl

/-- Equal keys have equal texts. -/
theorem message_eq_of_key {r : Report} {d : Diagnostic} (h : d.key = r.key) :
    d.message = r.message := by
  simp only [Diagnostic.key, key, Prod.mk.injEq] at h
  exact h.2.2

end Report

namespace Sink

/-- The sink after a list of reports. -/
def reports (s : Sink) (rs : List Report) : Sink :=
  rs.foldl (fun s r => s.emit r.position r.message r.severity) s

@[simp] theorem reports_nil (s : Sink) : s.reports [] = s := rfl

theorem reports_cons (s : Sink) (r : Report) (rs : List Report) :
    s.reports (r :: rs) = (s.emit r.position r.message r.severity).reports rs := rfl

theorem reports_append (s : Sink) (rs qs : List Report) :
    s.reports (rs ++ qs) = (s.reports rs).reports qs := List.foldl_append

/-! ## One report -/

theorem seen_iff {s : Sink} {k : Nat × Nat × String} :
    s.seen k = true ↔ ∃ d ∈ s.reported, d.key = k := by
  simp only [seen, Array.any_eq_true', beq_iff_eq]

@[simp] theorem sourceName_emit (s : Sink) (p : Position) (m : String) (v : Severity) :
    (s.emit p m v).sourceName = s.sourceName := by
  unfold emit
  split
  · rfl
  · cases v <;> rfl

/-- A report of a key that was seen leaves the sink alone. -/
theorem emit_of_seen {s : Sink} {r : Report} (h : s.seen r.key = true) :
    s.emit r.position r.message r.severity = s := if_pos h

/-- A report of a new key is let through at the end. -/
theorem reported_emit_of_new {s : Sink} {r : Report} (h : s.seen r.key = false) :
    (s.emit r.position r.message r.severity).reported =
      s.reported.push (r.diagnostic s.sourceName) := by
  obtain ⟨p, m, v⟩ := r
  have hk : ¬s.seen (p.line, p.column, m) = true := fun hc => Bool.false_ne_true (h.symm.trans hc)
  unfold emit
  rw [if_neg hk]
  cases v <;> rfl

/-- The diagnostics after one report are those before it and, for a new key, the report itself. -/
theorem mem_emit {s : Sink} {r : Report} {d : Diagnostic} :
    d ∈ (s.emit r.position r.message r.severity).reported ↔
      d ∈ s.reported ∨ (s.seen r.key = false ∧ r.diagnostic s.sourceName = d) := by
  cases h : s.seen r.key with
  | true => simp [emit_of_seen h]
  | false => simp [reported_emit_of_new h, eq_comm]

/-- A key is seen after a report if it was seen before, or is the key of the report. -/
theorem seen_emit {s : Sink} {r : Report} {k : Nat × Nat × String} :
    (s.emit r.position r.message r.severity).seen k = true ↔ s.seen k = true ∨ r.key = k := by
  simp only [seen_iff, mem_emit]
  constructor
  · rintro ⟨d, hd | ⟨_, rfl⟩, rfl⟩
    · exact Or.inl ⟨d, hd, rfl⟩
    · exact Or.inr rfl
  · rintro (⟨d, hd, rfl⟩ | rfl)
    · exact ⟨d, Or.inl hd, rfl⟩
    · cases h : s.seen r.key with
      | true =>
          obtain ⟨d, hd, hk⟩ := seen_iff.mp h
          exact ⟨d, Or.inl hd, hk⟩
      | false => exact ⟨_, Or.inr ⟨rfl, rfl⟩, rfl⟩

/-! ## Lists of reports -/

@[simp] theorem sourceName_reports (s : Sink) (rs : List Report) :
    (s.reports rs).sourceName = s.sourceName := by
  induction rs generalizing s with
  | nil => rfl
  | cons r rs ih => rw [reports_cons, ih, sourceName_emit]

/-- **First occurrences.** What is in the sink after a list of reports was there before, or is the
first report of a key that was not there before. -/
theorem mem_reports {s : Sink} {rs : List Report} {d : Diagnostic} :
    d ∈ (s.reports rs).reported ↔
      d ∈ s.reported ∨
        (s.seen d.key = false ∧
          ∃ r, rs.find? (·.key == d.key) = some r ∧ r.diagnostic s.sourceName = d) := by
  induction rs generalizing s with
  | nil => simp
  | cons r rs ih =>
      rw [reports_cons, ih, mem_emit, sourceName_emit]
      by_cases hk : r.key = d.key
      · -- the head has the key of `d`: nothing behind it can matter
        have hs : (s.emit r.position r.message r.severity).seen d.key = true :=
          seen_emit.mpr (Or.inr hk)
        have hf : (r :: rs).find? (·.key == d.key) = some r := by simp [hk]
        rw [hf, hs, ← hk]
        constructor
        · rintro ((hd | ⟨hn, he⟩) | ⟨hn, _⟩)
          · exact Or.inl hd
          · exact Or.inr ⟨hn, r, rfl, he⟩
          · exact absurd hn (by simp)
        · rintro (hd | ⟨hn, q, hq, he⟩)
          · exact Or.inl (Or.inl hd)
          · cases hq
            exact Or.inl (Or.inr ⟨hn, he⟩)
      · have hf : (r :: rs).find? (·.key == d.key) = rs.find? (·.key == d.key) := by simp [hk]
        have hs : (s.emit r.position r.message r.severity).seen d.key = s.seen d.key := by
          rw [Bool.eq_iff_iff, seen_emit]
          exact or_iff_left hk
        have hne : r.diagnostic s.sourceName ≠ d := fun he => hk (he ▸ rfl)
        rw [hf, hs]
        simp only [hne, and_false, or_false]

/-- The key of every report in the list is seen afterwards. -/
theorem seen_reports_of_mem {s : Sink} {rs : List Report} {r : Report} (h : r ∈ rs) :
    (s.reports rs).seen r.key = true := by
  induction rs generalizing s with
  | nil => cases h
  | cons q rs ih =>
      rw [reports_cons]
      rcases List.mem_cons.mp h with rfl | hr
      · rw [seen_iff]
        obtain ⟨d, hd, hk⟩ := seen_iff.mp (seen_emit.mpr (Or.inr rfl) :
          (s.emit r.position r.message r.severity).seen r.key = true)
        exact ⟨d, mem_reports.mpr (Or.inl hd), hk⟩
      · exact ih hr

/-- What a list of reports adds to the sink are some of these reports. -/
theorem exists_reports_append (s : Sink) (rs : List Report) :
    ∃ ds, (s.reports rs).reported.toList = s.reported.toList ++ ds ∧
      ∀ d ∈ ds, ∃ r ∈ rs, d = r.diagnostic s.sourceName := by
  induction rs generalizing s with
  | nil => exact ⟨[], (List.append_nil _).symm, nofun⟩
  | cons r rs ih =>
      obtain ⟨ds, hds, hmem⟩ := ih (s.emit r.position r.message r.severity)
      have hmem (d : Diagnostic) (hd : d ∈ ds) : ∃ q ∈ r :: rs, d = q.diagnostic s.sourceName := by
        obtain ⟨q, hq, rfl⟩ := hmem d hd
        rw [sourceName_emit]
        exact ⟨q, List.mem_cons_of_mem _ hq, rfl⟩
      rw [reports_cons, hds]
      cases h : s.seen r.key with
      | true =>
          rw [emit_of_seen h]
          exact ⟨ds, rfl, hmem⟩
      | false =>
          rw [reported_emit_of_new h, Array.toList_push, List.append_assoc]
          refine ⟨_, rfl, List.forall_mem_append.mpr ⟨fun d hd => ?_, hmem⟩⟩
          exact ⟨r, List.mem_cons_self, List.mem_singleton.mp hd⟩

/-- **The sink only grows.** -/
theorem prefix_reports (s : Sink) (rs : List Report) :
    s.reported.toList <+: (s.reports rs).reported.toList :=
  have ⟨ds, h, _⟩ := s.exists_reports_append rs
  ⟨ds, h.symm⟩

theorem mem_reports_of_mem {s : Sink} {rs : List Report} {d : Diagnostic} (h : d ∈ s.reported) :
    d ∈ (s.reports rs).reported := mem_reports.mpr (Or.inl h)

/-! ## The diagnostics whose text passes a test -/

/-- The diagnostics whose text passes the test `keep`, in report order. -/
def kept (keep : String → Bool) (s : Sink) : List Diagnostic :=
  s.reported.toList.filter (keep ·.message)

/-- Adds the report `r` to a list of diagnostics unless the list has its key. -/
def accept (name : String) (ds : List Diagnostic) (r : Report) : List Diagnostic :=
  if ds.any (·.key == r.key) then ds else ds ++ [r.diagnostic name]

/-- A key whose text passes the test is seen exactly when it is among the diagnostics that pass. -/
theorem any_kept {keep : String → Bool} {s : Sink} {r : Report} (h : keep r.message = true) :
    (s.kept keep).any (·.key == r.key) = s.seen r.key := by
  rw [Bool.eq_iff_iff, seen_iff]
  simp only [kept, List.any_eq_true, List.mem_filter, Array.mem_toList_iff, beq_iff_eq]
  constructor
  · rintro ⟨d, ⟨hd, _⟩, hk⟩
    exact ⟨d, hd, hk⟩
  · rintro ⟨d, hd, hk⟩
    exact ⟨d, ⟨hd, by rw [Report.message_eq_of_key hk]; exact h⟩, hk⟩

theorem kept_emit {keep : String → Bool} {s : Sink} {r : Report} :
    (s.emit r.position r.message r.severity).kept keep =
      if keep r.message then accept s.sourceName (s.kept keep) r else s.kept keep := by
  cases h : s.seen r.key with
  | true =>
      -- nothing is let through: `accept` finds the key among the diagnostics that pass
      rw [emit_of_seen h]
      split
      next hk => rw [accept, any_kept hk, h, if_pos rfl]
      next => rfl
  | false =>
      have hr := reported_emit_of_new h
      simp only [kept, hr, Array.toList_push, List.filter_append] at *
      cases hk : keep r.message with
      | true =>
          have ha : (s.kept keep).any (·.key == r.key) = false := by rw [any_kept hk, h]
          rw [kept] at ha
          simp [accept, ha, hk]
      | false => simp [hk]

/-- **Tests on texts commute with the sink.** The diagnostics that pass a test on their text are what
the reports that pass it leave behind. -/
theorem kept_reports (keep : String → Bool) (s : Sink) (rs : List Report) :
    (s.reports rs).kept keep =
      (rs.filter (keep ·.message)).foldl (accept s.sourceName) (s.kept keep) := by
  induction rs generalizing s with
  | nil => rfl
  | cons r rs ih =>
      rw [reports_cons, ih, kept_emit, sourceName_emit, List.filter_cons]
      split <;> rfl

/-- A diagnostic survives when the reports are moved about, provided that those whose text passes a test
that its own text passes still come first among such reports. -/
theorem mem_reports_of_prefix (keep : String → Bool) {s : Sink} {rs qs : List Report} {d : Diagnostic}
    (hk : keep d.message = true)
    (h : rs.filter (keep ·.message) <+: qs.filter (keep ·.message))
    (hd : d ∈ (s.reports rs).reported) : d ∈ (s.reports qs).reported := by
  obtain ⟨more, hmore⟩ := h
  have hpass : more.filter (keep ·.message) = more := by
    rw [List.filter_eq_self]
    intro r hr
    have hq : r ∈ qs.filter (keep ·.message) := hmore ▸ List.mem_append_right _ hr
    exact (List.mem_filter.mp hq).2
  have hkept : (s.reports qs).kept keep = (s.reports (rs ++ more)).kept keep := by
    rw [kept_reports, kept_reports, List.filter_append, hpass, hmore]
  have hm : d ∈ (s.reports (rs ++ more)).kept keep := by
    rw [reports_append]
    exact List.mem_filter.mpr ⟨Array.mem_toList_iff.mpr (mem_reports_of_mem hd), hk⟩
  rw [← hkept] at hm
  exact Array.mem_toList_iff.mp (List.mem_filter.mp hm).1

/-! ## Counters -/

/-- Both counters agree with the list. -/
def Counted (s : Sink) : Prop :=
  s.errorCount = s.reported.countP Diagnostic.isError ∧
    s.warningCount = s.reported.countP (!·.isError)

theorem counted_ofName (name : String) : (ofName name).Counted := ⟨rfl, rfl⟩

theorem Counted.emit {s : Sink} (h : s.Counted) (r : Report) :
    (s.emit r.position r.message r.severity).Counted := by
  obtain ⟨he, hw⟩ := h
  unfold Sink.emit
  split
  · exact ⟨he, hw⟩
  · cases r.severity with
    | error =>
        simp only [Counted, Array.countP_push]
        exact ⟨by simp [he, Diagnostic.isError], by simp [hw, Diagnostic.isError]⟩
    | warning =>
        simp only [Counted, Array.countP_push]
        exact ⟨by simp [he, Diagnostic.isError], by simp [hw, Diagnostic.isError]⟩

theorem Counted.reports {s : Sink} (h : s.Counted) (rs : List Report) : (s.reports rs).Counted := by
  induction rs generalizing s with
  | nil => exact h
  | cons r rs ih => exact ih (h.emit r)

/-- The counter of errors is positive exactly when an error was let through. -/
theorem Counted.errorCount_pos_iff {s : Sink} (h : s.Counted) :
    0 < s.errorCount ↔ s.reported.any Diagnostic.isError = true := by
  rw [h.1, Array.countP_pos_iff, Array.any_eq_true']

end Sink

end EcmaScript
