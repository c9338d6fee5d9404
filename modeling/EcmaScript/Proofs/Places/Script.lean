import EcmaScript.Proofs.Places.Comments
import EcmaScript.Proofs.Places.Grammar
import EcmaScript.Proofs.Places.Lowering
import EcmaScript.Proofs.Script.Findings
import EcmaScript.Proofs.Script.Progress

/-!
# A parse stays in the text

From the first token on a script is over the text: reading a statement keeps the cursor there, lowering it
gives a node that stands there, behind the nodes of the statements before it, and the remarks of both are
about places of the text. The notes of the lexer, which join the journal at the end of a statement, are
about places of the text too. So what a parse finds is sound (`exists_sound_findings`): every place in it
is one of the source.

## Contents

* `Grammar.ends_scriptStatement`: one statement, with recovery behind it.
* `Script.Sound`, `Script.Leads`, with `leads_step` for one statement and `leads_run` for many.
* `Findings.Sound`, `exists_sound_findings`: the whole parse.
-/

namespace EcmaScript

namespace Grammar

variable {text : List Char} {s : State}

/-! ## One statement -/

/-- What the lexer has noted is about places of the text. -/
theorem State.Sound.pending (h : s.Sound text) : ∀ r ∈ s.pending, r.Sound text := by
  intro r hr
  rcases List.mem_append.mp hr with hr | hr
  · obtain ⟨d, hd, rfl⟩ := List.mem_map.mp hr
    exact ⟨h.reads ▸ h.lexer.diagnostics d (Array.mem_toList_iff.mp hd), nofun, nofun⟩
  · obtain ⟨⟨f, position⟩, hf, rfl⟩ := List.mem_map.mp hr
    obtain ⟨hspelling, hplace⟩ := h.lexer.features _ (Array.mem_toList_iff.mp hf)
    refine ⟨h.reads ▸ hplace, nofun, fun e => ?_⟩
    cases e
    exact Feature.isObjectedByList_of_isSpelling hspelling

theorem leads_flushed (h : s.Sound text) : Leads text s s.flushed := by
  exact ⟨⟨h.idle s.idle_flushed, State.synced_flushed h.synced⟩, rfl, s.pending, h.pending, rfl⟩

instance (start : Position) [InText text start] : Sound text (scriptPlaceholder start) := by
  unfold scriptPlaceholder
  infer_instance

/-- **A statement of the script stays in the text**, also when it fails and is passed over. -/
theorem ends_scriptStatement (depth : Nat) (hs : s.Sound text) :
    Ends text s (scriptStatement (read depth) s) := by
  have hrun : Ends text s (read depth (.statement .topLevel) s) :=
    ((sound_read depth).statement .topLevel).run hs
  rw [scriptStatement_eq]
  cases h : read depth (.statement .topLevel) s with
  | ok statement t =>
      rw [h] at hrun
      exact ⟨InText.some_iff.mpr hrun.1, hrun.2.trans (leads_flushed hrun.2.sound)⟩
  | error e t =>
      rw [h] at hrun
      obtain ⟨⟨q, position, hq, hp, rfl⟩, ht⟩ := hrun
      have hflush := ht.trans (leads_flushed ht.sound)
      have hnoted := hflush.noting (Journal.Adds.error (.refl _) hp hq.isObjection)
      have : InText text s.current.start := InText.position_iff.mpr hs.current.span.1
      have hgo : Sound text (if t.options.keepGoing then scriptPlaceholder s.current.start
        else return none) := inferInstance
      dsimp only
      rw [recover_eq]
      exact hnoted.ends (hgo.run hnoted.sound)

end Grammar

namespace Script

/-! ## The way through a script -/

/-- The script is over the text, and its statements stand one behind the other and before the cursor. -/
structure Sound (text : List Char) (s : Script) : Prop where
  grammar : s.grammar.Sound text
  lowering : s.lowering.Sound text
  reversed : InText text s.reversed
  arranged : Ascending 0 (s.reversed.reverse.map (·.span)) s.grammar.current.span.offset

/-- The script `t` is over the text, and sound remarks lead from `s` to it. -/
structure Leads (text : List Char) (s t : Script) : Prop where
  sound : t.Sound text
  journal : s.grammar.journal.Adds text t.grammar.journal

variable {text : List Char} {s t u : Script}

theorem Leads.refl (h : s.Sound text) : Leads text s s := ⟨h, .refl _⟩

theorem Leads.trans (h : Leads text s t) (h' : Leads text t u) : Leads text s u :=
  ⟨h'.sound, h.journal.trans h'.journal⟩

/-- The grammar has read on. -/
theorem Leads.reading (h : s.Sound text) {g : Grammar.State} (hg : Grammar.Leads text s.grammar g)
    (hle : s.grammar.current.span.offset ≤ g.current.span.offset) (stopped : Bool) :
    Leads text s { s with grammar := g, stopped } :=
  ⟨⟨hg.sound, h.lowering, h.reversed, h.arranged.mono (Nat.le_refl _) hle⟩, hg.journal⟩

/-- A step of lowering. -/
theorem leads_lower {α : Type} [HasPlaces α] {p : Lowering α} (hp : Lowering.Sound text p)
    (h : s.Sound text) : InText text (s.lower p).1 ∧ Leads text s (s.lower p).2 := by
  have hs : ({ s.lowering with journal := s.grammar.journal } : Lowering.State).Sound text :=
    ⟨h.lowering.lineMap, h.lowering.pendingAwaits⟩
  obtain ⟨ha, hl⟩ := hp.run hs
  have hg := (Grammar.Leads.refl h.grammar).noting hl.journal
  exact ⟨ha, ⟨hg.sound, hl.sound, h.reversed, h.arranged⟩, hg.journal⟩

theorem span_lower (statement : Statement) (s : Script) :
    (s.lower (Lowering.statement statement)).1.span = statement.span :=
  (Lowering.standsFor_statement statement _).span

/-- **One statement**, read and lowered. -/
theorem leads_step (depth : Nat) (h : s.Sound text) : Leads text s (step depth s) := by
  have hread := Grammar.ends_scriptStatement depth h.grammar
  obtain ⟨tokens, hreads⟩ := Grammar.reads_scriptStatement depth s.grammar
  have hforward := hreads.forward h.grammar.toStanding
  unfold step
  split
  next statement g hg =>
    rw [hg] at hread hforward
    have hin := InText.some_iff.mp hread.1
    have hr := Leads.reading h hread.2 hforward.le s.stopped
    obtain ⟨hn, hl⟩ := leads_lower (Lowering.Sound.statement statement hin.inner) hr.sound
    have hlast := hr.trans hl
    refine ⟨⟨hlast.sound.grammar, hlast.sound.lowering, InText.cons_iff.mpr ⟨hn, hlast.sound.reversed⟩, ?_⟩,
      hlast.journal⟩
    -- the node covers the tokens of the statement, which the cursor has left behind
    rw [List.reverse_cons, List.map_append, List.map_singleton, span_lower,
      Grammar.scriptStatement_span hg]
    exact h.arranged.snoc (Nat.le_refl _) (Nat.zero_le _)
      (Span.stop_between_le hforward.le hforward.standing.behind)
  next g hg =>
    rw [hg] at hread hforward
    exact .reading h hread.2 hforward.le true
  next e g hg =>
    rw [hg] at hread hforward
    exact .reading h hread.2 hforward.le true

/-- **Any number of statements**, by induction on that number. -/
theorem leads_run (depth limit : Nat) (h : s.Sound text) : Leads text s (run depth limit s) := by
  induction limit generalizing s with
  | zero => exact .refl h
  | succ limit ih =>
      unfold run
      split
      · exact .refl h
      · have hstep := leads_step depth h
        exact hstep.trans (ih hstep.sound)

theorem leads_readAll (length : Nat) (h : s.Sound text) : Leads text s (readAll length s) := by
  have hrun := leads_run (4 * (length + 4)) (length + 2) h
  unfold readAll
  rw [flush_eq]
  exact hrun.trans (.reading hrun.sound (Grammar.leads_flushed hrun.sound.grammar) (Nat.le_refl _) _)

theorem leads_root? (h : s.Sound text) : InText text s.root?.1 ∧ Leads text s s.root?.2 := by
  unfold root?
  split
  · exact ⟨inferInstance, .refl h⟩
  · have := h.reversed
    have : InText text s.grammar.current := ⟨h.grammar.current⟩
    have harranged := h.arranged.mono (Nat.le_refl 0) (Nat.le_trans s.grammar.current.span.offset_le_stop
      (Span.le_stop_between Position.start _))
    obtain ⟨hn, hl⟩ := leads_lower (Lowering.Sound.script s.reversed.reverse
      (Span.between Position.start s.grammar.current.span.stop) harranged) h
    exact ⟨InText.some_iff.mpr hn, hl⟩

theorem sound_ofText (name source : String) (o : Options) : (ofText name source o).Sound source.toList :=
  ⟨⟨standing_ofText name source o, rfl⟩, ⟨rfl, .nil⟩, .nil, .nil _ _⟩

end Script

/-! ## The whole parse -/

/-- Every place in the findings is one of the text. -/
structure Findings.Sound (text : List Char) (f : Findings) : Prop where
  root : InText text f.root
  comments : ∀ c ∈ f.comments, c.Located text
  remarks : ∀ r ∈ f.remarks, r.Sound text
  warnings : Doc.AllStand (·.Shown text) f.warnings

theorem Findings.Sound.inText_root {text : List Char} {f : Findings} (hf : f.Sound text) {name : String}
    {o : Options} {root : Node} (h : root ∈ (f.result name o).root) : InText text root := by
  unfold Findings.result at h
  dsimp only at h
  split at h
  · cases h
  · exact ⟨hf.root.located root h⟩

theorem attached_located {text : List Char} {root : Option Node} (hr : InText text root)
    {comments : List Comment} (hc : ∀ c ∈ comments, c.Located text) (source : String) (o : Options)
    (sink : Sink) :
    ∃ (tree : Option Node) (ws : List Doc.Warning),
      attached root comments source o sink = (tree, sink.reports (ws.map (·.report))) ∧
      InText text tree ∧ Doc.AllStand (·.Shown text) ws := by
  cases root with
  | none => exact ⟨none, [], rfl, .none, Doc.allStand_nil⟩
  | some n =>
      obtain ⟨m, ws, hattach, hm, hws⟩ :=
        Node.inText_attachComments (InText.some_iff.mp hr) hc source.toList o sink
      refine ⟨some m, ws, ?_, InText.some_iff.mpr hm, hws⟩
      unfold attached
      dsimp only
      rw [hattach, Doc.report_eq]

/-- **What a parse finds stands in its source.** -/
theorem exists_sound_findings (name source : String) (o : Options) :
    ∃ f : Findings, f.Sound source.toList ∧ parse name source o = f.result name o := by
  have hread := Script.leads_readAll source.length (Script.sound_ofText name source o)
  have hlast := Script.leads_root? hread.sound
  obtain ⟨root, s, hroot⟩ : ∃ root s,
      ((Script.ofText name source o).readAll source.length).root? = (root, s) := ⟨_, _, rfl⟩
  rw [hroot] at hlast
  obtain ⟨hin, hleads⟩ := hlast
  obtain ⟨rs, hrs, hjournal⟩ := hread.journal.trans hleads.journal
  have hs := hleads.sound.grammar
  have hcomments : ∀ c ∈ s.grammar.lexer.comments.toList, c.Located source.toList :=
    fun c hc => hs.reads ▸ hs.lexer.comments c (Array.mem_toList_iff.mp hc)
  obtain ⟨tree, ws, hattach, htree, hws⟩ :=
    attached_located hin hcomments source o s.grammar.journal.sink
  refine ⟨⟨tree, s.grammar.lexer.comments.toList, rs, ws⟩, ⟨htree, hcomments, hrs, hws⟩, ?_⟩
  rw [parse_of_root hroot hattach, hjournal]
  rfl

end EcmaScript
