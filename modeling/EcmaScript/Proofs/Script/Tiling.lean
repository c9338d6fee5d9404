import EcmaScript.Proofs.Places.Script

/-!
# Statements tile their script

The statements of a list stand in it one behind the other, wherever the list is: in a block, in a case, or
at the top level, where recovery may have passed over whatever it found. At the top level they leave nothing
out either. Each token that was read belongs to one step of the script, and the statement of this step
covers the tokens of the step.

## Contents

* `Span.includes`, `countP_includes`: of regions one behind the other one at most includes a token.
* `Script.Steps`: a script with the tokens that each of its statements has read.
* `Script.Steps.sound`, `Script.Steps.covered`: what a whole script keeps, from what `leads_step` and
  `step_cases` say of one statement.
* `Node.ListsTile`, `Node.topLevel`, `statements_tile`: the tree.
-/

namespace EcmaScript

/-! ## Regions that include a token -/

/-- Whether the other region lies in this one. -/
def Span.includes (s t : Span) : Bool := s.offset ≤ t.offset && t.stop ≤ s.stop

/-- What lies in one of two regions, the one behind the other, and is not empty does not lie in the other. -/
theorem Span.not_includes {s u t : Span} (h : s.stop ≤ u.offset) (ht : 0 < t.length)
    (hs : s.includes t = true) : u.includes t = false := by
  simp only [includes, Bool.and_eq_true, decide_eq_true_eq] at hs
  simp only [includes, Bool.and_eq_false_iff, decide_eq_false_iff_not]
  unfold stop at hs h
  omega

/-- Of regions one behind the other only one includes something that is not empty. -/
theorem countP_includes {spans : List Span} (h : spans.Pairwise (·.stop ≤ ·.offset)) {s t : Span}
    (hs : s ∈ spans) (hi : s.includes t = true) (ht : 0 < t.length) :
    spans.countP (·.includes t) = 1 := by
  induction spans with
  | nil => cases hs
  | cons first rest ih =>
      obtain ⟨hfirst, hrest⟩ := List.pairwise_cons.mp h
      obtain rfl | hs := List.mem_cons.mp hs
      · have hnone : rest.countP (·.includes t) = 0 :=
          List.countP_eq_zero.mpr fun u hu => Bool.eq_false_iff.mp (Span.not_includes (hfirst u hu) ht hi)
        rw [List.countP_cons, hnone, if_pos hi]
      · have hnot : ¬first.includes t = true := fun hf =>
          Bool.eq_false_iff.mp (Span.not_includes (hfirst s hs) ht hf) hi
        rw [List.countP_cons, ih hrest hs, if_neg hnot]

/-! ## The tokens of a script -/

namespace Script

open Grammar

/-- The statements from `s` to `t`, where the script is over, with the tokens that each of them has read. -/
inductive Steps (depth : Nat) : Script → List (List Token) → Script → Prop where
  | halt {s : Script} : (s.stopped || s.grammar.current.isEnd) = true → Steps depth s [] s
  | step {s t : Script} {tokens : List Token} {rest : List (List Token)} :
      (s.stopped || s.grammar.current.isEnd) = false →
      Reads s.grammar tokens (s.step depth).grammar → Steps depth (s.step depth) rest t →
      Steps depth s (tokens :: rest) t

variable {text : List Char} {depth : Nat} {s t : Script} {read : List (List Token)}

/-- What a step can do: it stops the script, or it adds the node of the statement that it has read. -/
theorem step_cases (depth : Nat) (s : Script) :
    (s.step depth).stopped = true ∨
      ∃ node, (s.step depth).reversed = node :: s.reversed ∧ node.kind ≠ .moduleBody ∧
        node.span = Span.between s.grammar.current.start (s.step depth).grammar.lastStop := by
  unfold step
  split
  next statement g hg =>
    obtain ⟨hspan, hkind⟩ := Lowering.standsFor_statement statement
      { s.lowering with journal := g.journal }
    have hread := scriptStatement_span hg
    exact .inr ⟨_, rfl, hkind, hspan.trans hread⟩
  next => exact .inl rfl
  next => exact .inl rfl

namespace Steps

/-- Every script comes to its end or is stopped. -/
theorem exists_steps (depth : Nat) (hs : s.grammar.Standing text) : ∃ read t, Steps depth s read t := by
  induction hn : s.grammar.tokensLeft using Nat.strongRecOn generalizing s with
  | ind n ih =>
      cases hd : s.stopped || s.grammar.current.isEnd with
      | true => exact ⟨[], s, .halt hd⟩
      | false =>
          have he := (Bool.or_eq_false_iff.mp hd).2
          obtain ⟨tokens, hreads⟩ := reads_step depth s
          obtain hlt | hstop := lt_step depth hs he
          · have hpos := List.length_pos_iff.mpr (hreads.ne_nil hs hlt)
            have hless := (hreads.forward hs).tokensLeft
            obtain ⟨rest, t, hrest⟩ := ih _ (by omega) (hreads.forward hs).standing rfl
            exact ⟨tokens :: rest, t, .step hd hreads hrest⟩
          · exact ⟨[tokens], _, .step hd hreads (.halt (Bool.or_eq_true_iff.mpr (.inl hstop)))⟩

theorem isOver (h : Steps depth s read t) : (t.stopped || t.grammar.current.isEnd) = true := by
  induction h with
  | halt hd => exact hd
  | step _ _ _ ih => exact ih

/-- The tokens of all statements are those that have been read. -/
theorem reads (h : Steps depth s read t) : Reads s.grammar read.flatten t.grammar := by
  induction h with
  | halt => exact .stay _
  | step _ hreads _ ih => exact hreads.trans ih

/-- A run that is long enough goes this way. -/
theorem run_eq (h : Steps depth s read t) {limit : Nat} (hl : read.length < limit) :
    s.run depth limit = t := by
  induction h generalizing limit with
  | halt hd =>
      obtain ⟨limit, rfl⟩ := Nat.exists_eq_succ_of_ne_zero (Nat.ne_zero_of_lt hl)
      exact if_pos hd
  | step hd _ _ ih =>
      obtain ⟨limit, rfl⟩ := Nat.exists_eq_succ_of_ne_zero (Nat.ne_zero_of_lt hl)
      exact (if_neg (Bool.eq_false_iff.mp hd)).trans (ih (Nat.lt_of_succ_lt_succ hl))

theorem sound (h : Steps depth s read t) (hs : s.Sound text) : t.Sound text := by
  induction h with
  | halt => exact hs
  | step _ _ _ ih => exact ih (leads_step depth hs).sound

/-- In a script that is not stopped each statement has given a node. -/
theorem exists_node (h : Steps depth (s.step depth) read t) (ht : t.stopped = false) :
    ∃ node, (s.step depth).reversed = node :: s.reversed ∧ node.kind ≠ .moduleBody ∧
      node.span = Span.between s.grammar.current.start (s.step depth).grammar.lastStop := by
  obtain hstop | hnode := step_cases depth s
  · rw [← h.run_eq (Nat.lt_succ_self _), run_of_stopped hstop, hstop] at ht
    cases ht
  · exact hnode

/-- A statement is not lost. -/
theorem subset (h : Steps depth s read t) (ht : t.stopped = false) : s.reversed ⊆ t.reversed := by
  induction h with
  | halt => exact List.Subset.refl _
  | @step s t tokens rest _ _ hrest ih =>
      obtain ⟨node, hnode, -⟩ := hrest.exists_node ht
      exact fun n hn => ih ht (hnode ▸ List.mem_cons_of_mem node hn)

theorem kind_ne (h : Steps depth s read t) (ht : t.stopped = false)
    (hs : ∀ n ∈ s.reversed, n.kind ≠ .moduleBody) : ∀ n ∈ t.reversed, n.kind ≠ .moduleBody := by
  induction h with
  | halt => exact hs
  | @step s t tokens rest _ _ hrest ih =>
      obtain ⟨node, hnode, hkind, -⟩ := hrest.exists_node ht
      refine ih ht ?_
      rw [hnode]
      exact List.forall_mem_cons.mpr ⟨hkind, hs⟩

/-- **Every token lies in the statement that has read it.** -/
theorem covered (h : Steps depth s read t) (ht : t.stopped = false) (hs : s.grammar.Standing text) :
    ∀ token ∈ read.flatten, token.isEnd = false ∧ token.Located text ∧
      ∃ node ∈ t.reversed, node.span.includes token.span = true := by
  induction h with
  | halt => exact List.forall_mem_nil _
  | @step s t tokens rest _ hreads hrest ih =>
      have hforward := hreads.forward hs
      intro token hm
      obtain hm | hm := List.mem_append.mp (List.flatten_cons ▸ hm)
      · obtain ⟨hloc, hend, hle, hstop⟩ := hforward.within token hm
        obtain ⟨node, hnode, -, hspan⟩ := hrest.exists_node ht
        refine ⟨hend, hloc, node, hrest.subset ht (hnode ▸ List.mem_cons_self), ?_⟩
        simp only [Span.includes, Bool.and_eq_true, decide_eq_true_eq, hspan]
        exact ⟨hle, Nat.le_trans hstop (Span.le_stop_between _ _)⟩
      · exact ih ht hforward.standing token hm

end Steps

end Script

/-! ## The tree -/

/-- The children of each list of statements in the tree lie in it, in their order and none of them reaching
into the next. -/
def Node.ListsTile (root : Node) : Prop :=
  ∀ n ∈ root.preorder, n.kind = .script ∨ n.kind = .moduleBody ∨ n.kind = .block →
    (∀ c ∈ n.children, n.span.offset ≤ c.span.offset ∧ c.span.stop ≤ n.span.stop) ∧
      n.children.Pairwise fun c d => c.span.stop ≤ d.span.offset

theorem InText.listsTile {text : List Char} {root : Node} (h : InText text root) : root.ListsTile := by
  intro n hn hk
  have hstands : n.Stands text := h.located n hn
  have hlist : n.kind.isList = true := by obtain hk | hk | hk := hk <;> rw [hk]
  obtain ⟨hwithin, hapart⟩ := hstands.arranged hlist
  exact ⟨fun c hc => hwithin c.span (List.mem_map_of_mem hc), List.pairwise_map.mp hapart⟩

/-- The top-level statements of a tree: those of the body of its module, or those of the script itself. -/
def Node.topLevel (root : Node) : List Node :=
  match root.children with
  | [n] => if n.kind == .moduleBody then n.children else [n]
  | ns => ns

theorem Lowering.topLevel_script {nodes : List Node} (h : ∀ n ∈ nodes, n.kind ≠ .moduleBody)
    (span : Span) (s : Lowering.State) : (Lowering.script nodes span s).1.topLevel = nodes := by
  show ((if s.isModule = true then _ else _ : Lowering Node) s).1.topLevel = nodes
  split
  · rfl
  · show (Node.branch .script span nodes).topLevel = nodes
    match nodes, h with
    | [], _ => rfl
    | [n], h =>
        have hkind : ¬(n.kind == .moduleBody) = true := fun hk =>
          h n List.mem_cons_self (eq_of_beq hk)
        exact if_neg hkind
    | _ :: _ :: _, _ => rfl

namespace Script

/-- The tree is put over the statements of a script that has not been stopped. -/
theorem stopped_of_root? {t : Script} {root : Node} (h : t.flush.root?.1 = some root) :
    t.stopped = false ∧ ∃ span s, root = (Lowering.script t.reversed.reverse span s).1 := by
  rw [flush_eq] at h
  cases ht : t.stopped with
  | true =>
      have hnone : (none : Option Node) = some root := by
        rw [← h]
        unfold root?
        rw [if_pos ht]
      cases hnone
  | false =>
      refine ⟨rfl, ?_⟩
      unfold root? at h
      rw [if_neg (Bool.eq_false_iff.mp ht)] at h
      cases h
      exact ⟨_, _, rfl⟩

/-- A script that goes on behind failures has a tree. -/
theorem isSome_root? (name source : String) {o : Options} (hk : o.keepGoing = true) :
    ((ofText name source o).readAll source.length).root?.1.isSome = true := by
  have hrun := stopped_run (s := ofText name source o) (4 * (source.length + 4)) (source.length + 2) hk
  unfold readAll root?
  rw [flush_eq, if_neg (Bool.eq_false_iff.mp hrun)]
  rfl

variable {name source : String} {o : Options} {t : Script} {read : List (List Token)}

/-- The parse of a text goes this way. -/
theorem Steps.readAll_eq (h : Steps (4 * (source.length + 4)) (ofText name source o) read t) :
    (ofText name source o).readAll source.length = t.flush := by
  obtain ⟨u, -, hall⟩ := run_ofText name source o
  have hread := hall (4 * (source.length + 4)) (source.length + 2) (by omega) (Nat.le_refl _)
  have hmore := hall (4 * (source.length + 4)) (source.length + 2 + (read.length + 1)) (by omega)
    (Nat.le_add_right _ _)
  rw [h.run_eq (by omega)] at hmore
  unfold readAll
  rw [hread, hmore]

/-- **Every token lies in one statement of the tree, and in no other.** -/
theorem Steps.countP_eq_one (h : Steps (4 * (source.length + 4)) (ofText name source o) read t)
    {root : Node} (hroot : t.flush.root?.1 = some root) {token : Token} (hm : token ∈ read.flatten) :
    root.topLevel.countP (·.span.includes token.span) = 1 := by
  have hstart := sound_ofText name source o
  obtain ⟨hstopped, span, s, rfl⟩ := stopped_of_root? hroot
  have hkinds := h.kind_ne hstopped nofun
  rw [Lowering.topLevel_script fun n hn => hkinds n (List.mem_reverse.mp hn)]
  obtain ⟨hend, hloc, n, hn, hi⟩ := h.covered hstopped hstart.grammar.toStanding token hm
  have hspans : n.span ∈ t.reversed.reverse.map (·.span) :=
    List.mem_map_of_mem (List.mem_reverse.mpr hn)
  have hcount := countP_includes (h.sound hstart).arranged.apart hspans hi (hloc.pos hend)
  rw [List.countP_map] at hcount
  exact hcount

end Script

/-- **Statements tile their script.** The statements of each list in the tree stand in it one behind the
other, and every token that was read lies in exactly one statement at the top level. A parse that goes on
behind failures always has a tree, in which a placeholder stands for what was passed over. -/
theorem statements_tile (name source : String) (o : Options) :
    let start := Script.ofText name source o
    let final := start.readAll source.length
    (o.keepGoing = true → final.root?.1.isSome = true) ∧
    (∃ read t, Script.Steps (4 * (source.length + 4)) start read t ∧
      Grammar.Reads start.grammar read.flatten t.grammar ∧ final = t.flush) ∧
    (∀ root, final.root?.1 = some root → root.ListsTile ∧
      ∀ read t, Script.Steps (4 * (source.length + 4)) start read t →
        t.grammar.current.isEnd = true ∧
          ∀ token ∈ read.flatten, root.topLevel.countP (·.span.includes token.span) = 1) ∧
    ∀ root ∈ (parse name source o).root, root.ListsTile := by
  have hstart := Script.sound_ofText name source o
  refine ⟨Script.isSome_root? name source, ?_, fun root hroot => ⟨?_, fun read t hsteps => ?_⟩,
    fun root hroot => ?_⟩
  · obtain ⟨read, t, hsteps⟩ :=
      Script.Steps.exists_steps (4 * (source.length + 4)) hstart.grammar.toStanding
    exact ⟨read, t, hsteps, hsteps.reads, hsteps.readAll_eq⟩
  · have hin := (Script.leads_root? (Script.leads_readAll source.length hstart).sound).1
    rw [hroot] at hin
    exact (InText.some_iff.mp hin).listsTile
  · rw [hsteps.readAll_eq] at hroot
    have hstopped := (Script.stopped_of_root? hroot).1
    have hover := hsteps.isOver
    rw [hstopped, Bool.false_or] at hover
    exact ⟨hover, fun token hm => hsteps.countP_eq_one hroot hm⟩
  · obtain ⟨f, hf, hparse⟩ := exists_sound_findings name source o
    rw [hparse] at hroot
    exact (hf.inText_root hroot).listsTile

/-- A block with a statement and with a placeholder for what recovery has passed over, and a statement
behind it. -/
theorem statements_tile_recovery :
    let start := Script.ofText "a.js" "\x7b a; ) b \x7d c" { onError := .keepGoing }
    ∃ root read t, Script.Steps 64 start read t ∧ (start.readAll 12).root?.1 = some root ∧
      root.ListsTile ∧ root.topLevel.map (·.span.offset) = [0, 11] ∧
      (root.topLevel.flatMap (·.children)).map (·.span.offset) = [2, 5, 11] ∧ read.flatten ≠ [] ∧
      ∀ token ∈ read.flatten, root.topLevel.countP (·.span.includes token.span) = 1 := by
  intro start
  have hall := statements_tile "a.js" "\x7b a; ) b \x7d c" { onError := .keepGoing }
  obtain ⟨root, hroot⟩ := Option.isSome_iff_exists.mp (hall.1 rfl)
  obtain ⟨read, t, hsteps, hreads, hfinal⟩ := hall.2.1
  obtain ⟨htile, hcount⟩ := hall.2.2.1 root hroot
  have hoffsets : (start.readAll 12).root?.1.map (fun root => (root.topLevel.map (·.span.offset),
      (root.topLevel.flatMap (·.children)).map (·.span.offset))) = some ([0, 11], [2, 5, 11]) := by
    decide +kernel
  rw [show (start.readAll 12).root?.1 = some root from hroot, Option.map_some, Option.some_inj,
    Prod.mk.injEq] at hoffsets
  have hmoved : start.grammar.current.span.offset <
      (start.readAll 12).grammar.current.span.offset := by decide +kernel
  rw [show start.readAll 12 = t.flush from hfinal, Script.flush_eq] at hmoved
  exact ⟨root, read, t, hsteps, hroot, htile, hoffsets.1, hoffsets.2,
    hreads.ne_nil (Script.standing_ofText _ _ _) hmoved, (hcount read t hsteps).2⟩

end EcmaScript
