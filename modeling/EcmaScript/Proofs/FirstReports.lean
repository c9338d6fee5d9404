import EcmaScript.Proofs.Reports
import Mathlib.Data.Finset.Card
import Mathlib.Data.List.Induction

/-!
# The first report of each key

A sink asks the reports it has let through whether it has seen a key. A sink that keeps the keys in a set of
their own, beside the list and the two counters, gives the same answers: a key enters the set exactly when its
first report enters the list and one of the counters grows (`KeyedSink.Mirrors.serve`), so the three cannot come
apart, whatever is called (`KeyedSink.mirrors_serveAll`). What is let through is compared with the calls alone:
`firstReports` keeps those whose key no earlier one has.

## Contents

* `Sink.Call`, `Sink.serveAll`: calls to a sink, one after the other.
* `KeyedSink`: the sink with a set of keys.
* `firstReports`: the first report of each key.
* `Sink.reported_serveAll`: what a list of calls leaves behind.
-/

namespace EcmaScript

/-! ## Calls -/

/-- A call to a sink. -/
inductive Sink.Call where
  | emit (position : Position) (message : String) (severity : Severity)
  | error (position : Position) (message : String)
  | warning (position : Position) (message : String)

/-- What the call reports. -/
def Sink.Call.report : Call → Report
  | emit position message severity => ⟨position, message, severity⟩
  | error position message => ⟨position, message, .error⟩
  | warning position message => ⟨position, message, .warning⟩

namespace Sink

/-- Serves one call. -/
def serve (s : Sink) : Call → Sink
  | .emit position message severity => s.emit position message severity
  | .error position message => s.error position message
  | .warning position message => s.warning position message

/-- Serves the calls one after the other. -/
def serveAll (s : Sink) (calls : List Call) : Sink := calls.foldl serve s

theorem serve_eq (s : Sink) (c : Call) :
    s.serve c = s.emit c.report.position c.report.message c.report.severity := by
  cases c <;> rfl

theorem serveAll_eq (s : Sink) (calls : List Call) : s.serveAll calls = s.reports (calls.map Call.report) := by
  unfold serveAll reports
  rw [List.foldl_map]
  congr
  funext s c
  exact serve_eq s c

/-- A key is seen after a list of reports if it was seen before, or if one of them has it. -/
theorem seen_reports {s : Sink} {rs : List Report} {k : Nat × Nat × String} :
    (s.reports rs).seen k = true ↔ s.seen k = true ∨ ∃ r ∈ rs, r.key = k := by
  induction rs generalizing s with
  | nil => simp
  | cons r rs ih =>
      rw [reports_cons, ih, seen_emit, or_assoc]
      simp only [List.mem_cons, exists_eq_or_imp]

end Sink

/-! ## A set of keys -/

/-- A sink that keeps the keys it has seen in a set, and hands on what it lets through. -/
structure KeyedSink where
  sourceName : String
  seen : Finset (Nat × Nat × String) := ∅
  /-- What was handed on, in order. -/
  received : Array Diagnostic := #[]
  errorCount : Nat := 0
  warningCount : Nat := 0

namespace KeyedSink

/-- Hands a problem on unless its key is in the set, counts it and puts its key into the set. -/
def emit (s : KeyedSink) (position : Position) (message : String) (severity : Severity) : KeyedSink :=
  let key := (position.line, position.column, message)
  if key ∈ s.seen then s
  else
    let isError := severity == .error
    { s with
      received := s.received.push ⟨s.sourceName, position.line, position.column, message, severity⟩
      errorCount := if isError then s.errorCount + 1 else s.errorCount
      warningCount := if isError then s.warningCount else s.warningCount + 1
      seen := insert key s.seen }

/-- Serves one call. -/
def serve (s : KeyedSink) : Sink.Call → KeyedSink
  | .emit position message severity => s.emit position message severity
  | .error position message => s.emit position message .error
  | .warning position message => s.emit position message .warning

/-- Serves the calls one after the other. -/
def serveAll (s : KeyedSink) (calls : List Sink.Call) : KeyedSink := calls.foldl serve s

theorem emit_of_mem {s : KeyedSink} {r : Report} (h : r.key ∈ s.seen) :
    s.emit r.position r.message r.severity = s := if_pos h

theorem emit_of_notMem {s : KeyedSink} {r : Report} (h : r.key ∉ s.seen) :
    s.emit r.position r.message r.severity =
      { s with
        received := s.received.push (r.diagnostic s.sourceName)
        errorCount := if r.severity == .error then s.errorCount + 1 else s.errorCount
        warningCount := if r.severity == .error then s.warningCount else s.warningCount + 1
        seen := insert r.key s.seen } := if_neg h

/-- The sink without the set. -/
def sink (s : KeyedSink) : Sink := ⟨s.sourceName, s.received, s.errorCount, s.warningCount⟩

/-- The set holds the keys of what was handed on, each of which was counted once. -/
structure Mirrors (s : KeyedSink) (t : Sink) : Prop where
  sink : s.sink = t
  seen : ∀ k, k ∈ s.seen ↔ t.seen k = true
  card : s.errorCount + s.warningCount = s.seen.card

namespace Mirrors

variable {s : KeyedSink} {t : Sink}

theorem ofName (name : String) : Mirrors { sourceName := name } (.ofName name) :=
  ⟨rfl, fun k => by simp [Sink.seen, Sink.ofName], rfl⟩

theorem emit (h : s.Mirrors t) (r : Report) :
    (s.emit r.position r.message r.severity).Mirrors (t.emit r.position r.message r.severity) := by
  have hkeys : ∀ k, (t.emit r.position r.message r.severity).seen k = true ↔ k ∈ s.seen ∨ r.key = k := by
    intro k
    rw [Sink.seen_emit, h.seen]
  by_cases hseen : r.key ∈ s.seen
  · rw [emit_of_mem hseen, Sink.emit_of_seen ((h.seen _).mp hseen)]
    exact h
  · have hnew : ¬t.seen (r.position.line, r.position.column, r.message) = true := mt (h.seen _).mpr hseen
    have hcard : (insert r.key s.seen).card = s.seen.card + 1 := Finset.card_insert_of_notMem hseen
    rw [emit_of_notMem hseen]
    refine ⟨?_, ?_, ?_⟩
    · rw [← h.sink] at hnew ⊢
      obtain ⟨position, message, severity⟩ := r
      unfold Sink.emit
      rw [if_neg hnew]
      cases severity <;> rfl
    · intro k
      rw [hkeys, Finset.mem_insert, or_comm, eq_comm]
    · rw [hcard, ← h.card]
      cases r.severity with
      | error => exact Nat.add_right_comm _ _ _
      | warning => rfl

/-- **The step.** -/
theorem serve (h : s.Mirrors t) (c : Sink.Call) : (s.serve c).Mirrors (t.serve c) := by
  rw [Sink.serve_eq]
  cases c with
  | emit position message severity => exact h.emit ⟨position, message, severity⟩
  | error position message => exact h.emit ⟨position, message, .error⟩
  | warning position message => exact h.emit ⟨position, message, .warning⟩

/-- **The run.** -/
theorem serveAll (h : s.Mirrors t) (calls : List Sink.Call) : (s.serveAll calls).Mirrors (t.serveAll calls) := by
  induction calls generalizing s t with
  | nil => exact h
  | cons c calls ih => exact ih (h.serve c)

end Mirrors

/-- A sink with a set and one without, both fresh, after the same calls. -/
theorem mirrors_serveAll (name : String) (calls : List Sink.Call) :
    (serveAll { sourceName := name } calls).Mirrors ((Sink.ofName name).serveAll calls) :=
  (Mirrors.ofName name).serveAll calls

end KeyedSink

/-! ## First reports -/

/-- The reports whose key no earlier one of the list has. -/
def firstReports (rs : List Report) : List Report :=
  (rs.zipIdx.filter fun x => (rs.take x.2).all (·.key != x.1.key)).map (·.1)

/-- One more report is a first one if no other has its key. -/
theorem firstReports_concat (rs : List Report) (r : Report) :
    firstReports (rs ++ [r]) = firstReports rs ++ if rs.all (·.key != r.key) then [r] else [] := by
  have hold : ∀ x ∈ rs.zipIdx, ((rs ++ [r]).take x.2).all (·.key != x.1.key) =
      (rs.take x.2).all (·.key != x.1.key) := by
    intro x hx
    have hlt : x.2 < rs.length := by simpa using List.snd_lt_of_mem_zipIdx hx
    rw [List.take_append_of_le_length (Nat.le_of_lt hlt)]
  unfold firstReports
  rw [List.zipIdx_append, List.filter_append, List.filter_congr hold, List.map_append]
  by_cases h : (rs.all (·.key != r.key)) = true <;> simp [h]

namespace Sink

/-- **First occurrences**, in the order of the reports and as they were reported. -/
theorem reported_reports_ofName (name : String) (rs : List Report) :
    ((ofName name).reports rs).reported.toList = (firstReports rs).map (·.diagnostic name) := by
  induction rs using List.reverseRecOn with
  | nil => rfl
  | append_singleton rs r ih =>
      have hkey : ((ofName name).reports rs).seen r.key = !rs.all (·.key != r.key) := by
        rw [Bool.eq_iff_iff, seen_reports]
        simp [seen, ofName]
      rw [reports_append, firstReports_concat, List.map_append, ← ih]
      by_cases h : (rs.all (·.key != r.key)) = true
      · rw [if_pos h]
        rw [h] at hkey
        show ((Sink.reports _ rs).emit _ _ _).reported.toList = _
        rw [reported_emit_of_new hkey, Array.toList_push, sourceName_reports]
        rfl
      · rw [if_neg h, List.map_nil, List.append_nil]
        rw [Bool.eq_false_iff.mpr h] at hkey
        show ((Sink.reports _ rs).emit _ _ _).reported.toList = _
        rw [emit_of_seen hkey]

/-- **The sink reports exactly the first occurrences.** A fresh sink lets through, in order and with their own
severity, the calls whose key no earlier call has. After every prefix of the calls the counters are the numbers
of errors and of warnings that were let through, and together they count the different keys of these calls, which
are the keys that a set beside the sink would hold. -/
theorem reported_serveAll (name : String) (calls : List Call) :
    ((ofName name).serveAll calls).reported.toList =
        (firstReports (calls.map Call.report)).map (·.diagnostic name) ∧
      ∀ n, let s := (ofName name).serveAll (calls.take n)
        let beside := KeyedSink.serveAll { sourceName := name } (calls.take n)
        beside.sink = s ∧ beside.seen = ((calls.take n).map (·.report.key)).toFinset ∧
          s.errorCount = s.reported.countP Diagnostic.isError ∧
          s.warningCount = s.reported.countP (!·.isError) ∧
          s.errorCount + s.warningCount = ((calls.take n).map (·.report.key)).toFinset.card := by
  refine ⟨?_, ?_⟩
  · rw [serveAll_eq]
    exact reported_reports_ofName name _
  · intro n s beside
    have hmirrors : beside.Mirrors s := KeyedSink.mirrors_serveAll name (calls.take n)
    have hcounted : s.Counted := by
      show ((ofName name).serveAll (calls.take n)).Counted
      rw [serveAll_eq]
      exact (counted_ofName name).reports _
    have hkeys : beside.seen = ((calls.take n).map (·.report.key)).toFinset := by
      ext k
      rw [hmirrors.seen]
      show ((ofName name).serveAll (calls.take n)).seen k = true ↔ _
      rw [serveAll_eq, seen_reports, List.mem_toFinset]
      simp only [List.mem_map, seen, ofName, exists_exists_and_eq_and]
      simp
    refine ⟨hmirrors.sink, hkeys, hcounted.1, hcounted.2, ?_⟩
    have hcard := hmirrors.card
    rw [hkeys] at hcard
    rw [← hcard, ← hmirrors.sink]
    rfl

end Sink

end EcmaScript
