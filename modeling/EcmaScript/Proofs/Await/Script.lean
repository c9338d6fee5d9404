import EcmaScript.Proofs.Await.Lowering
import EcmaScript.Proofs.Await.Order
import EcmaScript.Proofs.Await.Texts
import EcmaScript.Proofs.Layout.Script
import EcmaScript.Proofs.Script.Root

/-!
# `await` in a whole script

Whether `await` may be used in the script itself depends on all of its statements: one of them may make the source
a module, before or behind the use. So uses wait while statements are read and lowered one by one, and the root of
the tree settles them. Each step accounts for the sites of its statement (`Script.account_step`), a run for those of
all statements that it reads (`Script.account_run`), and the root turns what waits into objections or drops it.

Objections have texts of their own and no two uses begin at one place. So what the sink holds tells about each
single use (`await_judged`).

## Contents

* `Script.sites`: the sites of a script.
* `Script.account_run`: what waits and what was objected to behind all of it.
* `Site.Refused`, `Findings.JudgesAwait`: the uses that are objected to.
* `await_judged`: the whole parse.
-/

namespace EcmaScript

namespace Site

/-- A statement of the script itself. -/
def ofScript (statement : Statement) : Site := ⟨.topLevel, .value, .statement statement⟩

theorem isAwait_of_await? {q : Site} {position : Position} {p : Problem} (h : q.await? = some (position, p)) :
    p.isAwait = true := by
  unfold await? at h
  split at h <;> cases h <;> rfl

/-- Of the sites of a script this one is refused: `await` may not be used there, or only in a module, which the
script is not. -/
def Refused (sites : Set Site) (q : Site) : Prop :=
  q.context = .denied ∨ q.context = .topLevel ∧ ∀ r ∈ sites, r.marksModule = false

end Site

/-! ## What is said about `await` -/

namespace Remark

/-- Reading makes no objections to `await`. -/
theorem Grammatical.isAwait {r : Remark} (h : r.Grammatical) : r.isAwait = false := by
  cases h with
  | problem position p hp => cases hp <;> rfl
  | trailingComma => rfl

theorem Flushed.isAwait {r : Remark} (h : r.Flushed) : r.isAwait = false := by
  cases h <;> rfl

end Remark

namespace Findings

variable {f : Findings} {name : String} {e : Edition} {p : Problem}

/-- The diagnostic for an objection at a place. -/
def objection (name : String) (position : Position) (p : Problem) : Diagnostic :=
  ⟨name, position.line, position.column, p.message, .error⟩

/-- An objection to `await` in the sink was remarked. -/
theorem remark_of_message (hp : p.isAwait = true) {d : Diagnostic} (hd : d ∈ (f.sink name e).reported)
    (hm : d.message = p.message) :
    ∃ position, .problem position p ∈ f.remarks ∧ d = objection name position p := by
  rcases Sink.mem_reports.mp hd with hd | ⟨_, q, hq, rfl⟩
  · rcases Sink.mem_reports.mp hd with hd | ⟨_, q, hq, rfl⟩
    · exact nomatch hd
    · obtain ⟨r, hr, hreport⟩ := Remark.mem_reports.mp (List.mem_of_find?_eq_some hq)
      obtain ⟨position, rfl, rfl⟩ := Remark.eq_problem_of_text hp hreport hm
      exact ⟨position, hr, rfl⟩
  · -- a warning about documentation, whose texts are others
    obtain ⟨w, _, rfl⟩ := List.mem_map.mp (List.mem_of_find?_eq_some hq)
    have hnone : AwaitText.problem? p.message = none := hm ▸ AwaitText.problem?_doc w.problem
    cases hnone.symm.trans (AwaitText.problem?_of_isAwait hp)

/-- **An objection to `await` is in the sink** if and only if it was remarked at a place with its line and
column. -/
theorem mem_sink (hp : p.isAwait = true) (position : Position) :
    objection name position p ∈ (f.sink name e).reported ↔
      ∃ y, .problem y p ∈ f.remarks ∧ y.line = position.line ∧ y.column = position.column := by
  constructor
  · intro hd
    obtain ⟨y, hy, heq⟩ := remark_of_message hp hd rfl
    simp only [objection, Diagnostic.mk.injEq, true_and, and_true] at heq
    exact ⟨y, hy, heq.1.symm, heq.2.symm⟩
  · rintro ⟨y, hy, hline, hcolumn⟩
    -- whichever report came first under this key, it says the same
    obtain ⟨d, hd, hk⟩ := Sink.seen_iff.mp (Sink.seen_reports_of_mem (s := Sink.ofName name)
      (Remark.mem_reports.mpr ⟨_, hy, rfl⟩))
    have hd : d ∈ (f.sink name e).reported := Sink.mem_reports_of_mem hd
    obtain ⟨z, -, rfl⟩ := remark_of_message hp hd (Report.message_eq_of_key hk)
    have heq : objection name position p = objection name z p := by
      simp only [Diagnostic.key, Report.key, objection, Prod.mk.injEq] at hk ⊢
      rw [hk.1, hk.2.1, hline, hcolumn]
    rwa [heq]

end Findings

/-! ## The sites of a script -/

namespace Script

open Grammar

/-- The sites in all statements that are read. -/
def sites (length : Nat) (s : Script) : Set Site := Site.withinAll ((s.readStatements length).map .ofScript)

variable {text : List Char} {depth : Nat} {s : Script}

/-! ## What waits and what was objected to -/

/-- Of the sites `U` everything has been noted on the way from `s` to `t`, with the remarks `rs`. -/
structure Accounted (U : Set Site) (s : Script) (rs : List Remark) (t : Script) : Prop where
  journal : t.grammar.journal = s.grammar.journal.notes rs
  account : Lowering.Account U s.lowering rs t.lowering

/-- No site has been met. -/
theorem Accounted.refl (s : Script) : Accounted ∅ s [] s := ⟨rfl, .refl s.lowering nofun⟩

theorem Accounted.trans {U V : Set Site} {rs qs : List Remark} {t u : Script} (h : Accounted U s rs t)
    (h' : Accounted V t qs u) : Accounted (U ∪ V) s (rs ++ qs) u :=
  ⟨by rw [h'.journal, h.journal, Journal.notes_notes], h.account.trans h'.account⟩

/-- A step of lowering. -/
theorem account_lower {α : Type} {U : Set Site} {p : Lowering α} (hp : Lowering.Accounts .topLevel U p)
    (hs : s.lowering.scopes.awaitContext = .topLevel) : ∃ rs, Accounted U s rs (s.lower p).2 := by
  obtain ⟨rs, hrun, haccount⟩ := hp.run s.lowering hs
  refine ⟨rs, ?_⟩
  unfold lower
  rw [hrun s.grammar.journal]
  exact ⟨rfl, haccount.scopes, haccount.marked, haccount.waiting, haccount.refused⟩

/-- **One statement**, read and lowered. -/
theorem account_step (depth : Nat) (h : s.Sound text) (hs : s.lowering.scopes.awaitContext = .topLevel) :
    ∃ rs, Accounted (Site.withinAll ((s.statement? depth).toList.map .ofScript)) s rs (s.step depth) := by
  obtain ⟨a, t, rs, hrun, -, -, hread⟩ := scriptStatement_trace depth s.grammar
  have hscript := hrun s.grammar.journal
  rw [State.noting_journal h.grammar.synced] at hscript
  have hquiet : ∀ r ∈ rs, r.isAwait = false := fun r hr =>
    (hread r hr).elim Remark.Grammatical.isAwait Remark.Flushed.isAwait
  have hreading (stopped : Bool) : Accounted ∅ s rs
      { s with grammar := t.noting (s.grammar.journal.notes rs), stopped } := ⟨rfl, .refl _ hquiet⟩
  unfold step statement?
  rw [hscript]
  cases a with
  | none => exact ⟨rs, Site.withinAll_nil ▸ hreading true⟩
  | some statement =>
      obtain ⟨qs, hlower⟩ := account_lower
        (s := { s with grammar := t.noting (s.grammar.journal.notes rs) })
        (Lowering.Accounts.statement .topLevel statement) hs
      obtain ⟨hjournal, haccount⟩ := (hreading s.stopped).trans hlower
      rw [Set.empty_union, ← Set.union_empty (Site.within _), ← Site.withinAll_nil,
        ← Site.withinAll_cons] at haccount
      exact ⟨rs ++ qs, hjournal, haccount⟩

/-- **Any number of statements**, by induction on that number. -/
theorem account_run (depth limit : Nat) (h : s.Sound text)
    (hs : s.lowering.scopes.awaitContext = .topLevel) :
    ∃ rs, Accounted (Site.withinAll ((s.statements depth limit).map .ofScript)) s rs (s.run depth limit) := by
  induction limit generalizing s with
  | zero => exact ⟨[], by simpa [statements, run] using Accounted.refl s⟩
  | succ limit ih =>
      unfold run statements
      split
      · exact ⟨[], by simpa using Accounted.refl s⟩
      · obtain ⟨rs, hstep⟩ := account_step depth h hs
        obtain ⟨qs, hrun⟩ := ih (leads_step depth h).sound (hstep.account.scopes ▸ hs)
        rw [List.map_append, Site.withinAll_append]
        exact ⟨rs ++ qs, hstep.trans hrun⟩

theorem account_readAll (length : Nat) (h : s.Sound text)
    (hs : s.lowering.scopes.awaitContext = .topLevel) :
    ∃ rs, Accounted (s.sites length) s rs (s.readAll length) := by
  obtain ⟨rs, hrun⟩ := account_run (4 * (length + 4)) (length + 2) h hs
  have hflush : Accounted ∅ (s.run (4 * (length + 4)) (length + 2))
      (s.run (4 * (length + 4)) (length + 2)).grammar.pending (s.readAll length) := by
    unfold readAll
    rw [flush_eq]
    exact ⟨rfl, .refl _ fun r hr => (State.flushed_of_pending _ r hr).isAwait⟩
  exact ⟨_, Set.union_empty (s.sites length) ▸ hrun.trans hflush⟩

end Script

/-! ## The root -/

namespace Lowering

/-- **The root settles what waits**: it objects to it in a script, and drops it in a module. -/
theorem journal_script (nodes : List Node) (span : Span) (s : State) :
    (script nodes span s).2.journal =
      s.journal.notes (if s.isModule then [] else s.pendingAwaits.reverse.map fun x => .problem x.1 x.2) := by
  show ((if s.isModule then _ else _ : Lowering Node) s).2.journal = _
  split
  · rfl
  · exact congrArg (·.2.journal) (run_forM_error _ _ s.pendingAwaits.reverse s)

end Lowering

namespace Script

open Grammar

variable {text : List Char} {depth : Nat} {s t : Script}

/-- **The tree of a script** is made with objections to the uses that are refused. -/
theorem judged_root? {U : Set Site} {rs : List Remark} (h : Accounted U s rs t) (ht : t.stopped = false)
    (hmodule : s.lowering.isModule = false) (hpending : s.lowering.pendingAwaits = []) :
    ∃ qs, t.root?.2.grammar.journal = s.grammar.journal.notes qs ∧
      ∀ position p, p.isAwait = true →
        (.problem position p ∈ qs ↔ ∃ u ∈ U, u.Refused U ∧ u.await? = some (position, p)) := by
  obtain ⟨hjournal, -, hmarked, hwaiting, hrefused⟩ := h
  have hisModule : t.lowering.isModule = false ↔ ∀ v ∈ U, v.marksModule = false := by
    rw [← Bool.not_eq_true, hmarked, hmodule]
    simp
  rw [hpending] at hwaiting
  -- what the root objects to
  let settled : List Remark :=
    if t.lowering.isModule then [] else t.lowering.pendingAwaits.reverse.map fun x => .problem x.1 x.2
  have hsettled (position : Position) (p : Problem) : .problem position p ∈ settled ↔
      ∃ u ∈ U, (u.context = .topLevel ∧ ∀ v ∈ U, v.marksModule = false) ∧ u.await? = some (position, p) := by
    have hmem : .problem position p ∈ settled ↔
        t.lowering.isModule = false ∧ (position, p) ∈ t.lowering.pendingAwaits := by
      unfold settled
      cases t.lowering.isModule <;> simp
    rw [hmem, hwaiting, hisModule]
    simp only [List.not_mem_nil, false_or]
    exact ⟨fun ⟨hm, u, hu, hc, ha⟩ => ⟨u, hu, ⟨hc, hm⟩, ha⟩, fun ⟨u, hu, ⟨hc, hm⟩, ha⟩ => ⟨hm, u, hu, hc, ha⟩⟩
  refine ⟨rs ++ settled, ?_, fun position p hp => ?_⟩
  · rw [root?_eq ht, ← Journal.notes_notes, ← hjournal]
    exact Lowering.journal_script _ _ { t.lowering with journal := t.grammar.journal }
  · rw [List.mem_append, hrefused position p hp, hsettled]
    simp only [Site.Refused, or_and_right, and_or_left, exists_or]

/-! ## The statements stand in a row -/

/-- The statement of a step is in the text, and stands before the cursor behind it. -/
theorem laid_statement? (h : s.Sound text) (he : s.grammar.current.isEnd = false) {statement : Statement}
    (hr : s.statement? depth = some statement) :
    InText text statement ∧ Laid s.grammar.current.span.offset (Piece.of statement)
      (s.step depth).grammar.current.span.offset := by
  unfold statement? at hr
  unfold step
  have hends := ends_scriptStatement depth h.grammar
  cases hread : scriptStatement (read depth) s.grammar with
  | error e t =>
      rw [hread] at hr
      cases hr
  | ok a t =>
      rw [hread] at hr hends
      obtain rfl : a = some statement := hr
      obtain ⟨hmoves, hlaid⟩ := laid_scriptStatement depth h.grammar.toStanding he hread
      have hlaid := hlaid.mono (Nat.le_refl _) hmoves.standing.behind
      exact ⟨InText.some_iff.mp hends.1, .part hmoves.le hlaid (Nat.le_refl _) .nil⟩

/-- **The statements of a run** are in the text and stand in a row. -/
theorem laid_statements (depth limit : Nat) (h : s.Sound text) :
    InText text (s.statements depth limit) ∧
      Laid s.grammar.current.span.offset (Piece.each (s.statements depth limit)) text.length := by
  induction limit generalizing s with
  | zero => exact ⟨.nil, .nil⟩
  | succ limit ih =>
      unfold statements
      split
      · exact ⟨.nil, .nil⟩
      next hd =>
        have he := (Bool.or_eq_false_iff.mp (Bool.eq_false_iff.mpr hd)).2
        have hleads := leads_step depth h
        obtain ⟨tokens, hreads⟩ := reads_step depth s
        have hle := (hreads.forward h.grammar.toStanding).le
        obtain ⟨hin, hlaid⟩ := ih hleads.sound
        cases hr : s.statement? depth with
        | none => exact ⟨hin, hlaid.mono hle (Nat.le_refl _)⟩
        | some statement =>
            obtain ⟨hstatement, hbefore⟩ := laid_statement? h he hr
            have hstop := Nat.le_trans (Span.offset_le_stop _) hleads.sound.grammar.toStanding.current.span.2
            exact ⟨InText.cons_iff.mpr ⟨hstatement, hin⟩, hbefore.append hlaid hle (Nat.le_refl _) hstop⟩

/-- **Line and column tell a use of `await`** from all others in the script. -/
theorem eq_of_place {length : Nat} (h : s.Sound text) {u v : Site} (hu : u ∈ s.sites length)
    (hv : v ∈ s.sites length) {x y : Position} {p r : Problem} (hx : u.await? = some (x, p))
    (hy : v.await? = some (y, r)) (hline : x.line = y.line) (hcolumn : x.column = y.column) : u = v := by
  obtain ⟨hin, hlaid⟩ := laid_statements (4 * (length + 4)) (length + 2) h
  have located {w : Site} {z : Position} {q : Problem} (hw : w ∈ s.sites length)
      (hz : w.await? = some (z, q)) : z.Located text := by
    obtain ⟨_, hsite, hw⟩ := hw
    obtain ⟨statement, hstatement, rfl⟩ := List.mem_map.mp hsite
    exact Site.located_await (Site.located_within ⟨hin.located _ hstatement⟩ hw) hz
  have hrow : Laid s.grammar.current.span.offset
      (((s.readStatements length).map .ofScript).map Site.piece) text.length := by
    rw [List.map_map]
    rwa [Piece.each, ← List.map_eq_flatMap] at hlaid
  exact Site.eq_of_offset_all hrow hu hv hx hy ((located hu hx).offset_eq (located hv hy) hline hcolumn)

end Script

/-! ## The whole parse -/

/-- **What a parse remarks about `await`**: it objects to the uses that are refused. -/
theorem exists_await_findings {name source : String} {o : Options} {root : Node}
    (hroot : ((Script.ofText name source o).readAll source.length).root?.1 = some root) :
    let sites := (Script.ofText name source o).sites source.length
    ∃ f : Findings, parse name source o = f.result name o ∧
      ∀ position p, p.isAwait = true → (.problem position p ∈ f.remarks ↔
        ∃ u ∈ sites, u.Refused sites ∧ u.await? = some (position, p)) := by
  have hstart := Script.sound_ofText name source o
  obtain ⟨rs, haccount⟩ := Script.account_readAll source.length hstart rfl
  have hstopped : ((Script.ofText name source o).readAll source.length).stopped = false := by
    refine Bool.eq_false_iff.mpr fun hs => ?_
    rw [Script.root?, if_pos hs] at hroot
    cases hroot
  obtain ⟨qs, hjournal, hjudged⟩ := Script.judged_root? haccount hstopped rfl rfl
  obtain ⟨f, hparse, rfl⟩ := exists_findings_of_notes hjournal
  exact ⟨f, hparse, hjudged⟩

/-- **Uses of `await` are judged by the whole script.** When a text has a tree, a use of `await` is objected to, at
its own place, if and only if the innermost function around it is not asynchronous, or there is none and no statement
of the text makes it a module, be it before or behind the use. There are no other objections. -/
theorem await_judged (name source : String) (o : Options) {root : Node}
    (hroot : ((Script.ofText name source o).readAll source.length).root?.1 = some root) :
    let sites := (Script.ofText name source o).sites source.length
    let reported := (parse name source o).sink.reported
    (∀ q ∈ sites, ∀ position p, q.await? = some (position, p) →
      (Findings.objection name position p ∈ reported ↔ q.Refused sites)) ∧
    ∀ d ∈ reported, ∀ p : Problem, p.isAwait = true → d.message = p.message →
      ∃ q ∈ sites, ∃ position, q.await? = some (position, p) ∧ d = Findings.objection name position p := by
  intro sites reported
  obtain ⟨f, hparse, hremarks⟩ := exists_await_findings hroot
  have hreported : reported = (f.sink name o.edition).reported := by
    show (parse name source o).sink.reported = _
    rw [hparse]
    rfl
  rw [hreported]
  refine ⟨fun q hq position p ha => ?_, fun d hd p hp hm => ?_⟩
  · rw [Findings.mem_sink (Site.isAwait_of_await? ha)]
    constructor
    · rintro ⟨y, hy, hline, hcolumn⟩
      obtain ⟨u, hu, hrefused, hua⟩ := (hremarks y p (Site.isAwait_of_await? ha)).mp hy
      -- what was objected to begins where this use does, so it is this use
      obtain rfl := Script.eq_of_place (Script.sound_ofText name source o) hu hq hua ha hline hcolumn
      exact hrefused
    · intro hrefused
      exact ⟨position, (hremarks position p (Site.isAwait_of_await? ha)).mpr ⟨q, hq, hrefused, ha⟩, rfl, rfl⟩
  · obtain ⟨position, hr, rfl⟩ := Findings.remark_of_message hp hd hm
    obtain ⟨q, hq, -, ha⟩ := (hremarks position p hp).mp hr
    exact ⟨q, hq, position, ha, rfl⟩

/-- Whether the statements use `await` at the beginning, then in an arrow function, and then name `import.meta`. -/
def readsAwaitsAndMeta : List Statement → Bool
  | [.expression (.await _ s) _,
      .expression (.function (.mk none [] _ _ (.expression (.await _ t)) _ false _ _)) _,
      .expression (.importMeta _) _] => s.start == ⟨1, 0, 0⟩ && t.start == ⟨1, 15, 15⟩
  | _ => false

/-- A use in the script itself, which what stands behind it allows, and one in a function, which nothing does. -/
theorem await_judged_before_module :
    let start := Script.ofText "a.js" "await a; () => await b; import.meta;" {}
    let reported := (parse "a.js" "await a; () => await b; import.meta;" {}).sink.reported
    (∃ root, (start.readAll 36).root?.1 = some root) ∧
    ∃ q ∈ start.sites 36, ∃ u ∈ start.sites 36,
      q.context = .topLevel ∧ q.await? = some (⟨1, 0, 0⟩, .awaitOutsideAsync) ∧
      u.context = .denied ∧ u.await? = some (⟨1, 15, 15⟩, .awaitOutsideAsync) ∧
      Findings.objection "a.js" ⟨1, 0, 0⟩ .awaitOutsideAsync ∉ reported ∧
      Findings.objection "a.js" ⟨1, 15, 15⟩ .awaitOutsideAsync ∈ reported := by
  intro start reported
  obtain ⟨htree, hread⟩ : (start.readAll 36).root?.1.isSome = true ∧
      readsAwaitsAndMeta (start.readStatements 36) = true := by
    decide +kernel
  obtain ⟨root, hroot⟩ := Option.isSome_iff_exists.mp htree
  have site {statement : Statement} {q : Site} (hs : statement ∈ start.readStatements 36)
      (hq : Site.Inside (.ofScript statement) q) : q ∈ start.sites 36 :=
    ⟨_, List.mem_map_of_mem hs, hq⟩
  unfold readsAwaitsAndMeta at hread
  split at hread
  next e s _ _ _ e' t _ _ _ _ m _ hlist =>
    obtain ⟨hs, ht⟩ := Bool.and_eq_true_iff.mp hread
    rw [hlist] at site
    have hq : ⟨.topLevel, .value, .expression (.await e s)⟩ ∈ start.sites 36 :=
      site List.mem_cons_self (.inner List.mem_cons_self (.self _))
    have hu : ⟨.denied, .value, .expression (.await e' t)⟩ ∈ start.sites 36 :=
      site (List.mem_cons_of_mem _ List.mem_cons_self)
        (.inner List.mem_cons_self (.inner List.mem_cons_self (.inner List.mem_cons_self (.self _))))
    have hm : ⟨.topLevel, .value, .expression (.importMeta m)⟩ ∈ start.sites 36 :=
      site (List.mem_cons_of_mem _ (List.mem_cons_of_mem _ List.mem_cons_self))
        (.inner List.mem_cons_self (.self _))
    have hqa := congrArg (fun x => some (x, Problem.awaitOutsideAsync)) (eq_of_beq hs)
    have hua := congrArg (fun x => some (x, Problem.awaitOutsideAsync)) (eq_of_beq ht)
    have hall := (await_judged "a.js" "await a; () => await b; import.meta;" {} hroot).1
    refine ⟨⟨root, hroot⟩, _, hq, _, hu, rfl, hqa, rfl, hua, fun hr => ?_,
      (hall _ hu _ _ hua).mpr (.inl rfl)⟩
    rcases (hall _ hq _ _ hqa).mp hr with hc | ⟨-, hnone⟩
    · cases hc
    · cases hnone _ hm
  · cases hread

/-- The default of a rest entry is objected to as a whole, and the use of `await` in it is not. -/
theorem await_not_judged_in_rest_default :
    let source := "[...a = await x] = y;"
    let start := Script.ofText "a.js" source { onError := .keepGoing }
    let result := parse "a.js" source { onError := .keepGoing }
    result.root.isSome = true ∧
    (match start.readStatements source.length with
      | [.expression (.assignment .assign (.array [.spread
          (.assignment .assign (.identifier _) (.await (.identifier _) s) _) _] _ _) (.identifier _) _) _] =>
        s.start == ⟨1, 8, 8⟩
      | _ => false) = true ∧
    Findings.objection "a.js" ⟨1, 8, 8⟩ .awaitOutsideAsync ∉ result.sink.reported := by
  decide +kernel

end EcmaScript
