import EcmaScript.Parse
import EcmaScript.Proofs.Grammar.Outcome

/-!
# One statement of a script

What the lexer has noted goes to the journal when a statement ends, its problems first and then the
features it met. As remarks these are `State.pending`, and flushing them is `State.flushed`. With that
`scriptStatement` is a case distinction on how the statement was read (`scriptStatement_eq`,
`recover_eq`).
-/

namespace EcmaScript

/-! ## Notes of the lexer as remarks -/

theorem Journal.foldl_lexical (ds : List LexicalDiagnostic) (j : Journal) :
    ds.foldl Journal.lexical j = j.notes (ds.map .lexical) := by
  induction ds generalizing j with
  | nil => rfl
  | cons d ds ih => rw [List.foldl_cons, ih, lexical_eq, notes_notes, List.map_cons, List.singleton_append]

theorem Journal.foldl_record (fs : List (Feature × Position)) (j : Journal) :
    fs.foldl (fun j (f, position) => j.record f position) j =
      j.notes (fs.map fun (f, position) => .feature f position) := by
  induction fs generalizing j with
  | nil => rfl
  | cons noted fs ih =>
      obtain ⟨f, position⟩ := noted
      rw [List.foldl_cons, ih, List.map_cons]
      dsimp only
      rw [record_eq, notes_notes, List.singleton_append]

namespace Grammar

namespace State

/-- What the lexer has noted and not yet passed on. -/
def pending (s : State) : List Remark :=
  s.lexer.diagnostics.toList.map .lexical ++
    s.lexer.features.toList.map fun (f, position) => .feature f position

/-- The state with the notes of the lexer passed on. -/
def flushed (s : State) : State :=
  { s with lexer := { s.lexer with diagnostics := #[], features := #[] }
           journal := s.journal.notes s.pending }

theorem flushed_of_pending (s : State) : ∀ r ∈ s.pending, r.Flushed := by
  intro r hr
  rcases List.mem_append.mp hr with hr | hr
  · obtain ⟨d, _, rfl⟩ := List.mem_map.mp hr
    exact .lexical d
  · obtain ⟨⟨f, position⟩, _, rfl⟩ := List.mem_map.mp hr
    exact .feature f position

theorem synced_flushed {s : State} (h : s.Synced) : s.flushed.Synced := h

end State

theorem flush_eq (s : State) : flush s = .ok () s.flushed := by
  show EStateM.Result.ok () { s with
    lexer := { s.lexer with diagnostics := #[], features := #[] }
    journal := s.lexer.features.foldl (fun j (f, position) => j.record f position)
      (s.lexer.diagnostics.foldl Journal.lexical s.journal) } = _
  rw [← Array.foldl_toList, ← Array.foldl_toList, Journal.foldl_lexical, Journal.foldl_record,
    Journal.notes_notes]
  rfl

/-! ## One statement -/

/-- The placeholder for a statement of the script that failed. -/
def scriptPlaceholder (start : Position) : Production (Option Statement) := do
  synchronize true
  return some (.error (← spanFrom start))

instance (start : Position) : Composed (scriptPlaceholder start) := by
  unfold scriptPlaceholder
  infer_instance

/-- Recovery flushes, reports the failure, and then goes on or gives up. -/
theorem recover_eq (start : Position) (e : Failure) (s : State) :
    recover start e s =
      (if s.options.keepGoing then scriptPlaceholder start else return none)
        { s.flushed with journal := s.flushed.journal.failure e } := by
  have hn : note (·.failure e) s.flushed =
      .ok () { s.flushed with journal := s.flushed.journal.failure e } := rfl
  unfold recover
  rw [bind_ok (flush_eq s), bind_ok hn, get_bind]
  rfl

theorem scriptStatement_eq (reader : Reader) (s : State) :
    scriptStatement reader s =
      match reader (.statement .topLevel) s with
      | .ok statement t => .ok (some statement) t.flushed
      | .error e t => recover s.current.start e t := by
  show EStateM.bind (EStateM.tryCatch (reader (.statement .topLevel) >>= _) _) _ s = _
  unfold EStateM.bind EStateM.tryCatch
  dsimp only
  cases h : reader (.statement .topLevel) s with
  | ok statement t =>
      rw [bind_ok h, bind_ok (flush_eq t)]
      rfl
  | error e t =>
      rw [bind_error h]
      dsimp only [EStateM.Backtrackable.restore, EStateM.dummyRestore]
      cases hr : recover s.current.start e t with
      | ok a u => rw [bind_ok hr]; rfl
      | error e u => rw [bind_error hr]

end Grammar

end EcmaScript
