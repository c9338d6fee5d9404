import EcmaScript.Proofs.LexerSession
import EcmaScript.Proofs.Places.Script
import EcmaScript.Proofs.Script.Root

/-!
# Reading ahead leaves no trace

To see the token behind the one under its cursor, the grammar has the lexer remember where it is, read on, and
come back. A checkpoint holds the place and how many comments, problems and features had been noted, and not
the notes themselves. Coming back is right all the same, since no reader takes a note back or changes one
(`Lexer.Grows`): what the lexer held at the checkpoint is what is left of its notes when they are cut to the old
numbers.

So the lexer of a parse is a lexer that was never asked to remember anything. A `Ledger` tells a parse from the
side of such a lexer: it is asked for tokens, it is asked to read a token again, and it hands over its notes;
productions and lowering add remarks of their own. `Ledger.Mirrors` says that a ledger has come to where a
script is, and each step of a script is followed by events of the ledger (`Script.mirrored_step`).

## Contents

* `Lexer.Ahead`, `Lexer.Ahead.restore_save`: reading any number of tokens ahead.
* `Session.restore_serveAll`: the same of a lexer in use.
* `Event`, `Ledger`, `Ledger.Mirrors`: a parse without checkpoints.
* `Grammar.Composed.reached`: what a production asks of the lexer.
* `lookahead_leaves_no_trace`: the top-level statement of all this.
-/

namespace EcmaScript

/-! ## Coming back -/

namespace Lexer

/-- From the state `s` on, the lexer was only asked for tokens: for the next one, or to read one again,
whichever token that was. -/
inductive Ahead (s : Lexer) : Lexer → Prop where
  | here : Ahead s s
  | nextToken {t : Lexer} : Ahead s t → Ahead s t.nextToken.2
  | rescanRegExp {t : Lexer} (slash : Token) : Ahead s t → Ahead s (t.rescanRegExp slash).2
  | rescanTemplate {t : Lexer} (brace : Token) : Ahead s t → Ahead s (t.rescanTemplate brace).2

namespace Ahead

variable {s t : Lexer}

theorem grows (h : Ahead s t) : Grows s t := by
  induction h with
  | here => exact .refl s
  | nextToken _ ih => exact ih.trans (grows_nextToken _)
  | rescanRegExp slash _ ih => exact ih.trans (grows_rescanRegExp _ slash)
  | rescanTemplate brace _ ih => exact ih.trans (grows_rescanTemplate _ brace)

/-- A lexer that has not left its text comes back to where it was. -/
theorem restore_save (h : Ahead s t) (ho : t.overrun = s.overrun) : t.restore s.save = s := by
  rw [h.grows.restore_save, ho]

end Ahead

end Lexer

/-- A request for a token, for the next one or for one that is read again. -/
inductive Request.Reads : Request → Prop where
  | nextToken : Reads .nextToken
  | rescanRegExp (token : Nat) : Reads (.rescanRegExp token)
  | rescanTemplate (token : Nat) : Reads (.rescanTemplate token)

/-- A request that neither remembers a state nor comes back to one. -/
inductive Request.Plain : Request → Prop where
  | reads {request : Request} : request.Reads → Plain request
  | takeComments : Plain .takeComments
  | takeDiagnostics : Plain .takeDiagnostics
  | takeFeatures : Plain .takeFeatures

namespace Session

variable {text : List Char} {s : Session} {r : Lexer} {request : Request} {requests : List Request}

theorem ahead_rescan {read : Lexer → Token → Token × Lexer} (i : Nat) (h : r.Ahead s.lexer)
    (hr : ∀ t, r.Ahead (read s.lexer t).2) : r.Ahead (s.rescan read i).lexer := by
  unfold rescan
  split
  · split
    · exact h
    · exact hr _
  · exact h

theorem ahead_serve (hr : request.Reads) (h : r.Ahead s.lexer) : r.Ahead (s.serve request).lexer := by
  cases hr with
  | nextToken => exact h.nextToken
  | rescanRegExp i => exact ahead_rescan i h fun t => h.rescanRegExp t
  | rescanTemplate i => exact ahead_rescan i h fun t => h.rescanTemplate t

theorem ahead_serveAll (hr : ∀ request ∈ requests, request.Reads) (h : r.Ahead s.lexer) :
    r.Ahead (s.serveAll requests).lexer := by
  induction requests generalizing s with
  | nil => exact h
  | cons request rest ih =>
      obtain ⟨hfirst, hrest⟩ := List.forall_mem_cons.mp hr
      exact ih hrest (ahead_serve hfirst h)

/-- **A lexer in use comes back to where it was**, however many tokens it was asked for. -/
theorem restore_serveAll (h : s.Sound text) (hr : ∀ request ∈ requests, request.Reads) :
    (s.serveAll requests).lexer.restore s.lexer.save = s.lexer :=
  (ahead_serveAll hr .here).restore_save
    ((h.serveAll requests).lexer.overrun.trans h.lexer.overrun.symm)

/-! ## A parse without checkpoints -/

/-- What the lexer hands over to the journal when it is asked. -/
def handed (s : Session) : Request → List Remark
  | .takeDiagnostics => s.lexer.diagnostics.toList.map .lexical
  | .takeFeatures => s.lexer.features.toList.map fun (f, position) => .feature f position
  | _ => []

theorem handed_of_reads (hr : request.Reads) : s.handed request = [] := by
  cases hr <;> rfl

end Session

/-- What happens in a parse. -/
inductive Event where
  /-- The lexer is asked for something, and what it hands over goes to the journal. -/
  | ask (request : Request)
  /-- A production makes a remark. -/
  | remark (r : Remark)
  /-- A part of the tree is lowered. -/
  | lower (step : Lowering Node)

/-- An event that has its place in a parse, and in which the lexer neither remembers a state nor comes back to
one. -/
inductive Event.Plain : Event → Prop where
  | ask {request : Request} : request.Plain → Plain (.ask request)
  | remark {r : Remark} : r.Grammatical → Plain (.remark r)
  | statement (statement : Statement) : Plain (.lower (Lowering.statement statement))
  | script (nodes : List Node) (span : Span) : Plain (.lower (Lowering.script nodes span))

/-- A lexer in use, and what lowering and journal have come to. -/
structure Ledger where
  session : Session
  journal : Journal
  lowering : Lowering.State

namespace Ledger

/-- One event. -/
def enter (l : Ledger) : Event → Ledger
  | .ask request =>
    { l with session := l.session.serve request, journal := l.journal.notes (l.session.handed request) }
  | .remark r => { l with journal := l.journal.notes [r] }
  | .lower step =>
    let lowering := (step { l.lowering with journal := l.journal }).2
    { l with journal := lowering.journal, lowering := lowering }

/-- One event after the other. -/
def enterAll (l : Ledger) (events : List Event) : Ledger := events.foldl enter l

/-- The ledger of a text of which nothing has been read. -/
def ofText (name source : String) (options : Options) : Ledger :=
  let journal : Journal := { edition := options.edition, sink := .ofName name }
  { session := { lexer := .ofText source options.isStrict }
    journal
    lowering := { journal, lineMap := .ofText source, strict := options.isStrict } }

/-- Plain events lead from one ledger to the other. -/
def Leads (l m : Ledger) : Prop := ∃ events, (∀ e ∈ events, e.Plain) ∧ l.enterAll events = m

namespace Leads

variable {l m n : Ledger}

theorem refl (l : Ledger) : l.Leads l := ⟨[], nofun, rfl⟩

theorem trans (h : l.Leads m) (h' : m.Leads n) : l.Leads n := by
  obtain ⟨es, hes, rfl⟩ := h
  obtain ⟨fs, hfs, rfl⟩ := h'
  exact ⟨es ++ fs, List.forall_mem_append.mpr ⟨hes, hfs⟩, List.foldl_append⟩

theorem event (l : Ledger) {e : Event} (he : e.Plain) : l.Leads (l.enter e) :=
  ⟨[e], List.forall_mem_singleton.mpr he, rfl⟩

/-- Tokens are asked for. -/
theorem asks (l : Ledger) {requests : List Request} (hr : ∀ request ∈ requests, request.Reads) :
    l.Leads { l with session := l.session.serveAll requests } := by
  induction requests generalizing l with
  | nil => exact .refl l
  | cons request rest ih =>
      obtain ⟨hfirst, hrest⟩ := List.forall_mem_cons.mp hr
      have hone : l.Leads { l with session := l.session.serve request } := by
        have h := event l (.ask (.reads hfirst))
        unfold enter at h
        dsimp only at h
        rwa [Session.handed_of_reads hfirst, Journal.notes_nil] at h
      exact hone.trans (ih _ hrest)

/-- Productions make remarks. -/
theorem remarks (l : Ledger) {rs : List Remark} (hr : ∀ r ∈ rs, r.Grammatical) :
    l.Leads { l with journal := l.journal.notes rs } := by
  induction rs generalizing l with
  | nil => exact .refl l
  | cons r rest ih =>
      obtain ⟨hfirst, hrest⟩ := List.forall_mem_cons.mp hr
      have h := (event l (.remark hfirst)).trans (ih _ hrest)
      unfold enter at h
      dsimp only at h
      rwa [Journal.notes_notes, List.singleton_append] at h

end Leads

end Ledger

/-! ## What productions ask of the lexer -/

/-- The lexer of the session is that of the state, and the last token that it gave out is under the cursor. -/
structure Session.Serves (u : Session) (s : Grammar.State) : Prop where
  lexer : u.lexer = s.lexer
  current : u.tokens.back? = some s.current

namespace Grammar

variable {u : Session} {s t : State}

/-- By asking for tokens the session comes to the state. -/
def Reached (u : Session) (t : State) : Prop :=
  ∃ requests : List Request, (∀ request ∈ requests, request.Reads) ∧ (u.serveAll requests).Serves t

namespace Reached

theorem here (h : u.Serves t) : Reached u t := ⟨[], nofun, h⟩

/-- Only the lexer and the token under the cursor matter. -/
theorem congr (h : Reached u s) (hl : t.lexer = s.lexer) (hc : t.current = s.current) : Reached u t := by
  obtain ⟨requests, hr, hs⟩ := h
  exact ⟨requests, hr, hs.lexer.trans hl.symm, hs.current.trans (congrArg some hc.symm)⟩

/-- What is reached from behind is reached. -/
theorem trans (h : Reached u s) (h' : ∀ v : Session, v.Serves s → Reached v t) : Reached u t := by
  obtain ⟨xs, hx, hs⟩ := h
  obtain ⟨ys, hy, ht⟩ := h' _ hs
  refine ⟨xs ++ ys, List.forall_mem_append.mpr ⟨hx, hy⟩, ?_⟩
  unfold Session.serveAll at ht ⊢
  rwa [List.foldl_append]

theorem advanced (h : u.Serves s) : Reached u s.advanced := by
  refine ⟨[.nextToken], List.forall_mem_singleton.mpr .nextToken, ?_, ?_⟩
  · show u.lexer.nextToken.2 = s.lexer.nextToken.2
    rw [h.lexer]
  · show (u.tokens.push u.lexer.nextToken.1).back? = some s.lexer.nextToken.1
    rw [Array.back?_push, h.lexer]

/-- The token under the cursor is the last one that was given out, and it is not the end of the text. -/
theorem readAgain (h : u.Serves s) (r : Rereading) : Reached u (s.readAgain r) := by
  unfold State.readAgain
  split
  next hr =>
    have hend := State.Standing.isEnd_of_applies hr
    have hlast : u.tokens[u.tokens.size - 1]? = some s.current := by
      rw [← Array.back?_eq_getElem?, h.current]
    have hread : (u.rescan r.read (u.tokens.size - 1)).Serves
        { s with lexer := (r.read s.lexer s.current).2, current := (r.read s.lexer s.current).1 } := by
      unfold Session.rescan
      rw [hlast]
      dsimp only
      rw [if_neg (by rw [hend]; exact Bool.false_ne_true), h.lexer]
      exact ⟨rfl, Array.back?_push⟩
    cases r with
    | regExp => exact ⟨[.rescanRegExp _], List.forall_mem_singleton.mpr (.rescanRegExp _), hread⟩
    | template => exact ⟨[.rescanTemplate _], List.forall_mem_singleton.mpr (.rescanTemplate _), hread⟩
  next => exact .here h

end Reached

/-- **A production asks the lexer for tokens and for nothing else**, by induction over what productions are
made of. -/
theorem Composed.reached {α : Type} {p : Production α} (h : Composed p) {u : Session} {s : State}
    (hs : u.Serves s) : Reached u (stateOf (p s)) := by
  induction h generalizing u s with
  | pure | look | fail => exact .here hs
  | advance => exact .advanced hs
  | reread r => exact (Reached.readAgain hs r).trans fun _ => .advanced
  | trailingComma comma place =>
      -- both ways write into the journal only
      refine stateOf_bind (P := Reached u) ((Reached.here hs).congr rfl rfl) fun _ t ht => ?_
      cases ht
      show Reached u (stateOf ((if _ then _ else _ : Production Unit) _))
      split <;> exact (Reached.here hs).congr rfl rfl
  | @within α p change _ ih =>
      have hp := @ih u { s with context := change s.context } ⟨hs.lexer, hs.current⟩
      unfold Grammar.within
      cases hr : p { s with context := change s.context } <;> rw [hr] at hp <;> exact hp.congr rfl rfl
  | @bind α β p f _ _ ihp ihf =>
      have hp := ihp hs
      cases hr : p s with
      | ok a t =>
          rw [hr] at hp
          rw [bind_ok hr]
          exact hp.trans fun _ => ihf a
      | error e t =>
          rw [hr] at hp
          rw [bind_error hr]
          exact hp
  | @reporting α p handler _ _ ihp ihh =>
      have hp := ihp hs
      unfold Grammar.reporting
      cases hr : p s with
      | ok a t =>
          rw [hr] at hp
          exact hp
      | error e t =>
          rw [hr] at hp
          dsimp only
          split
          · exact (hp.congr (t := { t with journal := t.journal.failure e }) rfl rfl).trans fun _ => ihh
          · exact hp

end Grammar

/-! ## The way through a script -/

/-- The ledger is where grammar and lowering are. -/
structure Ledger.Mirrors (l : Ledger) (g : Grammar.State) (lowering : Lowering.State) : Prop where
  session : l.session.Serves g
  journal : l.journal = g.journal
  lowering : l.lowering = lowering

/-- Plain events lead from the ledger to where grammar and lowering are. -/
def Ledger.LeadsTo (l : Ledger) (g : Grammar.State) (lowering : Lowering.State) : Prop :=
  ∃ m, l.Leads m ∧ m.Mirrors g lowering

namespace Ledger

open Grammar

variable {l : Ledger} {g : State} {lowering : Lowering.State}

namespace LeadsTo

theorem here (h : l.Mirrors g lowering) : l.LeadsTo g lowering := ⟨l, .refl l, h⟩

theorem trans {g' : State} {lowering' : Lowering.State} (h : l.LeadsTo g lowering)
    (h' : ∀ m : Ledger, m.Mirrors g lowering → m.LeadsTo g' lowering') : l.LeadsTo g' lowering' := by
  obtain ⟨m, hl, hm⟩ := h
  obtain ⟨n, hn, hto⟩ := h' m hm
  exact ⟨n, hl.trans hn, hto⟩

end LeadsTo

namespace Mirrors

/-- A production. -/
theorem production {α : Type} {p : Production α} (h : l.Mirrors g lowering) (hp : Composed p)
    (hs : g.Synced) : l.LeadsTo (stateOf (p g)) lowering := by
  obtain ⟨requests, hr, hserves⟩ := hp.reached h.session
  obtain ⟨rs, hrs, hjournal⟩ := (hp.growth hs).journal
  exact ⟨_, (Leads.asks l hr).trans (.remarks _ hrs), hserves, hjournal ▸ h.journal ▸ rfl, h.lowering⟩

/-- The lexer hands over what it has noted, its problems first. -/
theorem flushed (h : l.Mirrors g lowering) : l.LeadsTo g.flushed lowering := by
  refine ⟨_, (Leads.event l (.ask .takeDiagnostics)).trans (.event _ (.ask .takeFeatures)), ⟨?_, ?_⟩, ?_,
    h.lowering⟩
  · show { l.session.lexer with diagnostics := #[], features := #[] } = g.flushed.lexer
    rw [h.session.lexer]
    rfl
  · exact h.session.current
  · show (l.journal.notes (l.session.lexer.diagnostics.toList.map .lexical)).notes
      (l.session.lexer.features.toList.map fun (f, position) => .feature f position) = g.flushed.journal
    rw [Journal.notes_notes, h.journal, h.session.lexer]
    rfl

/-- A failure is remarked. -/
theorem failure {q : Problem} (h : l.Mirrors g lowering) (hq : q.EndsProduction) (position : Position) :
    l.LeadsTo { g with journal := g.journal.failure (.unexpected q.message position) } lowering := by
  refine ⟨_, Leads.event l (.remark (.problem position q hq)), ⟨h.session.lexer, h.session.current⟩, ?_,
    h.lowering⟩
  show l.journal.notes _ = _
  rw [h.journal]
  rfl

/-- A part of the tree is lowered. -/
theorem lower {step : Lowering Node} {s : Script} (h : l.Mirrors s.grammar s.lowering)
    (hstep : (Event.lower step).Plain) : l.LeadsTo (s.lower step).2.grammar (s.lower step).2.lowering := by
  have hlowered : (step { l.lowering with journal := l.journal }).2 = (s.lower step).2.lowering := by
    rw [h.lowering, h.journal]
    rfl
  exact ⟨_, Leads.event l hstep, ⟨h.session.lexer, h.session.current⟩,
    congrArg Lowering.State.journal hlowered, hlowered⟩

/-- **One statement of the script.** -/
theorem scriptStatement {text : List Char} (h : l.Mirrors g lowering) (hs : g.Sound text) (depth : Nat) :
    l.LeadsTo (stateOf (scriptStatement (read depth) g)) lowering := by
  have hread := h.production (composed_read depth (.statement .topLevel)) hs.synced
  have hrun : Ends text g (read depth (.statement .topLevel) g) :=
    ((sound_read depth).statement .topLevel).run hs
  rw [scriptStatement_eq]
  cases hr : read depth (.statement .topLevel) g with
  | ok statement t =>
      rw [hr] at hread
      exact hread.trans fun m hm => hm.flushed
  | error e t =>
      rw [hr] at hread hrun
      obtain ⟨⟨q, position, hq, -, rfl⟩, ht⟩ := hrun
      dsimp only
      rw [recover_eq]
      have hc : Composed (if t.options.keepGoing then scriptPlaceholder g.current.start
        else return none) := inferInstance
      exact ((hread.trans fun m hm => hm.flushed).trans fun m hm => hm.failure hq position).trans
        fun m hm => hm.production hc ht.sound.synced

end Mirrors

end Ledger

namespace Script

open Ledger

variable {text : List Char} {l : Ledger} {s : Script}

/-- **The step**: a statement is read and lowered. -/
theorem mirrored_step (h : l.Mirrors s.grammar s.lowering) (hs : s.Sound text) (depth : Nat) :
    l.LeadsTo (s.step depth).grammar (s.step depth).lowering := by
  have hread := h.scriptStatement hs.grammar depth
  unfold step
  split
  next statement g hg =>
    rw [hg] at hread
    exact hread.trans fun m hm =>
      Mirrors.lower (s := { s with grammar := g }) hm (.statement statement)
  next g hg =>
    rw [hg] at hread
    exact hread
  next e g hg =>
    rw [hg] at hread
    exact hread

/-- **The run**, by induction on the number of statements. -/
theorem mirrored_run (h : l.Mirrors s.grammar s.lowering) (hs : s.Sound text) (depth limit : Nat) :
    l.LeadsTo (s.run depth limit).grammar (s.run depth limit).lowering := by
  induction limit generalizing l s with
  | zero => exact .here h
  | succ limit ih =>
      unfold run
      split
      · exact .here h
      · exact (mirrored_step h hs depth).trans fun m hm => ih hm (leads_step depth hs).sound

theorem mirrored_readAll (h : l.Mirrors s.grammar s.lowering) (hs : s.Sound text) (length : Nat) :
    l.LeadsTo (s.readAll length).grammar (s.readAll length).lowering := by
  unfold readAll
  rw [flush_eq]
  exact (mirrored_run h hs _ _).trans fun m hm => hm.flushed

theorem mirrored_root? (h : l.Mirrors s.grammar s.lowering) :
    l.LeadsTo s.root?.2.grammar s.root?.2.lowering := by
  cases hs : s.stopped with
  | true =>
      rw [show s.root? = (none, s) from if_pos hs]
      exact .here h
  | false =>
      have hlower := h.lower (.script s.reversed.reverse
        (Span.between Position.start s.grammar.current.span.stop))
      rw [root?_eq hs]
      exact hlower

/-- The first token is asked for. -/
theorem mirrored_ofText (name source : String) (options : Options) :
    (Ledger.ofText name source options).LeadsTo (ofText name source options).grammar
      (ofText name source options).lowering :=
  ⟨_, .event _ (.ask (.reads .nextToken)), ⟨rfl, Array.back?_push⟩, rfl, rfl⟩

end Script

/-! ## The whole parse -/

/-- **Reading ahead leaves no trace.**

* Whatever tokens a lexer is asked for, and whichever it is asked to read again, when it comes back to where it
  was it is the same lexer, with the same place and the same notes. It is enough that nothing was asked for
  beyond the text; and this is so of a lexer in use, whatever was asked of it before, and of the tokens that it
  has given out.
* A production that looks at the token behind the cursor gets that token and leaves its state as it is.
* A parse is one of a lexer that is never asked to remember a state or to come back to one. After any number of
  statements this lexer is that of the script, the last token it gave out is the one under the cursor, and the
  journal holds what it handed over, with the remarks of the statements. So the comments, the features and
  the diagnostics of a parse are those that such a lexer leads to. -/
theorem lookahead_leaves_no_trace :
    (∀ s t : Lexer, s.Ahead t → t.overrun = s.overrun → t.restore s.save = s) ∧
    (∀ (text : List Char) (strict : Bool) (requests ahead : List Request),
      (∀ request ∈ ahead, request.Reads) →
      let s := Session.serveAll { lexer := Lexer.ofChars text strict } requests
      (s.serveAll ahead).lexer.restore s.lexer.save = s.lexer) ∧
    (∀ s : Grammar.State, Grammar.peek s = .ok s.lexer.nextToken.1 s) ∧
    ∀ (name source : String) (options : Options),
      (∀ depth limit, ∃ events : List Event, (∀ e ∈ events, e.Plain) ∧
        let s := (Script.ofText name source options).run depth limit
        ((Ledger.ofText name source options).enterAll events).Mirrors s.grammar s.lowering) ∧
      ∃ events : List Event, (∀ e ∈ events, e.Plain) ∧
        let l := (Ledger.ofText name source options).enterAll events
        let made := ((Script.ofText name source options).readAll source.length).root?
        l.Mirrors made.2.grammar made.2.lowering ∧
        (parse name source options).comments =
          (if options.comments == .all then l.session.lexer.comments.toList else []) ∧
        (parse name source options).features = l.journal.features ∧
        (parse name source options).sink =
          (attached made.1 l.session.lexer.comments.toList source options l.journal.sink).2 := by
  refine ⟨fun s t h ho => h.restore_save ho, fun text strict requests ahead hr => ?_, Grammar.peek_eq,
    fun name source options => ⟨fun depth limit => ?_, ?_⟩⟩
  · have hstart := Session.sound_ofChars text strict
    exact Session.restore_serveAll (hstart.serveAll requests) hr
  · have hstart := Script.sound_ofText name source options
    obtain ⟨_, ⟨events, hplain, rfl⟩, hm⟩ := (Script.mirrored_ofText name source options).trans
      fun l hl => Script.mirrored_run hl hstart depth limit
    exact ⟨events, hplain, hm⟩
  · have hstart := Script.sound_ofText name source options
    obtain ⟨_, ⟨events, hplain, rfl⟩, hm⟩ := ((Script.mirrored_ofText name source options).trans
      fun l hl => Script.mirrored_readAll hl hstart source.length).trans
      fun l hl => Script.mirrored_root? hl
    refine ⟨events, hplain, hm, ?_⟩
    generalize hmade : ((Script.ofText name source options).readAll source.length).root? = made at hm ⊢
    obtain ⟨root, s⟩ := made
    dsimp only at hm ⊢
    rw [hm.session.lexer, hm.journal, parse_of_root hmade rfl]
    exact ⟨rfl, rfl, rfl⟩

/-- Two tokens and a line comment are read, and the slash as the start of a regular expression. -/
theorem lookahead_leaves_no_trace_slash :
    let s := Session.serveAll { lexer := Lexer.ofChars "a /b/ // c".toList false } [.nextToken]
    (s.serveAll [.nextToken, .rescanRegExp 1, .nextToken]).lexer.restore s.lexer.save = s.lexer :=
  lookahead_leaves_no_trace.2.1 "a /b/ // c".toList false [.nextToken]
    [.nextToken, .rescanRegExp 1, .nextToken] (by
      intro request h
      rcases List.mem_cons.mp h with rfl | h
      · exact .nextToken
      · rcases List.mem_cons.mp h with rfl | h
        · exact .rescanRegExp 1
        · exact List.mem_singleton.mp h ▸ .nextToken)

end EcmaScript
