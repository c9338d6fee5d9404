import Mathlib.Data.List.TakeWhile
import EcmaScript.Proofs.CommentPolicy
import EcmaScript.Proofs.Grammar.Interleaving
import EcmaScript.Proofs.Script.Root

/-!
# The address of the source map

Only the last comment can give the address of a source map, and only if no code follows it. Where the code
ends is told by the end of the last part of the tree. In a script that is the last statement, which ends
with the last token that was read, and no token overlaps a comment: so the end of the last statement does
tell whether a token follows (`Script.Steps.ends_last`, `Grammar.Reads.clear`). A module has one part, its
body, and that reaches to the end of the text whatever stands there: a module never has an address
(`parse_sourceMapUrl`, `sourceMapUrl_parse_module`).

## Contents

* `Addresses`, `sourceMapUrl?_eq_some_iff`: the text of the comment.
* `EndsWithAddress`: the address that a text with these comments and tokens has.
* `Node.isModule`, `codeStop_script`: where the code ends.
* `parse_sourceMapUrl`: the whole parse.
-/

namespace EcmaScript

/-! ## The text of the comment -/

/-- The text gives the address: the mark, the address without white space in it, and nothing but white
space behind it. -/
def Addresses (text : List Char) (address : String) : Prop :=
  address ≠ "" ∧ (∀ c ∈ address.toList, Unicode.isWhiteSpace c = false) ∧
    ∃ behind, text = sourceMapMark ++ (address.toList ++ behind) ∧
      ∀ c ∈ behind, Unicode.isWhiteSpace c = true

theorem sourceMapAddress?_eq_some_iff {text : List Char} {address : String} :
    sourceMapAddress? text = some address ↔ Addresses text address := by
  unfold sourceMapAddress?
  constructor
  · intro h
    split at h
    next hmark =>
      obtain ⟨rest, rfl⟩ := List.isPrefixOf_iff_prefix.mp hmark
      rw [List.drop_left] at h
      dsimp only at h
      split at h
      · cases h
      next hwhole =>
        rw [Bool.or_eq_true, not_or, Bool.not_eq_true', Bool.not_eq_false, List.isEmpty_iff,
          List.all_eq_true] at hwhole
        cases h
        refine ⟨fun he => hwhole.1 (String.ofList_injective he), fun c hc => ?_,
          _, ?_, hwhole.2⟩
        · rw [String.toList_ofList] at hc
          simpa using List.mem_takeWhile_imp hc
        · rw [String.toList_ofList, List.takeWhile_append_dropWhile]
    next => cases h
  · rintro ⟨hne, haddress, behind, rfl, hbehind⟩
    have hstop : behind.takeWhile (fun c => !Unicode.isWhiteSpace c) = [] ∧
        behind.dropWhile (fun c => !Unicode.isWhiteSpace c) = behind := by
      cases behind with
      | nil => exact ⟨rfl, rfl⟩
      | cons c rest =>
          have hc : ¬(!Unicode.isWhiteSpace c) = true := by simp [hbehind c List.mem_cons_self]
          exact ⟨List.takeWhile_cons_of_neg hc, List.dropWhile_cons_of_neg hc⟩
    have hall : ∀ c ∈ address.toList, (!Unicode.isWhiteSpace c) = true := fun c hc => by
      rw [haddress c hc]
      rfl
    rw [if_pos (List.isPrefixOf_iff_prefix.mpr (List.prefix_append _ _)), List.drop_left]
    dsimp only
    rw [List.takeWhile_append_of_pos hall, List.dropWhile_append_of_pos hall, hstop.1, hstop.2,
      List.append_nil, String.ofList_toList]
    refine if_neg ?_
    rw [Bool.or_eq_true, not_or, Bool.not_eq_true', Bool.not_eq_false, List.isEmpty_iff, List.all_eq_true]
    exact ⟨fun he => hne (String.toList_injective he), hbehind⟩

theorem sourceMapUrl?_eq_some_iff {comments : List Comment} {codeStop : Nat} {url : String} :
    sourceMapUrl? comments codeStop = some url ↔
      ∃ c, comments.getLast? = some c ∧ c.kind = .line ∧ Addresses c.text.toList url ∧
        codeStop ≤ c.span.offset := by
  unfold sourceMapUrl?
  cases comments.getLast? with
  | none => exact ⟨nofun, nofun⟩
  | some c =>
      dsimp only
      rw [Option.ite_none_right_eq_some, Bool.and_eq_true, beq_iff_eq, decide_eq_true_eq,
        sourceMapAddress?_eq_some_iff]
      constructor
      · rintro ⟨⟨hkind, hle⟩, h⟩
        exact ⟨c, rfl, hkind, h, hle⟩
      · rintro ⟨_, ⟨⟩, hkind, h, hle⟩
        exact ⟨⟨hkind, hle⟩, h⟩

/-- The last comment is one of a line that gives the address, and no token starts behind it. -/
def EndsWithAddress (comments : List Comment) (tokens : List Token) (url : String) : Prop :=
  ∃ c, comments.getLast? = some c ∧ c.kind = .line ∧ Addresses c.text.toList url ∧
    ∀ token ∈ tokens, token.span.offset < c.span.stop

/-- A comment that gives an address is not empty. -/
theorem Addresses.offset_lt {text : List Char} {c : Comment} {url : String}
    (h : Addresses c.text.toList url) (hc : c.Located text) : c.span.offset < text.length := by
  obtain ⟨-, -, behind, he, -⟩ := h
  rw [hc.verbatim, String.toList_ofList] at he
  have hlen := congrArg List.length he
  unfold Span.slice at hlen
  rw [List.length_take, List.length_drop, List.length_append] at hlen
  have hmark : 0 < sourceMapMark.length := by decide
  omega

/-! ## Where the code ends -/

/-- Whether the tree is that of a module. -/
def Node.isModule (root : Node) : Bool := root.children.any (·.kind == .moduleBody)

/-- **Where the code ends**: in a module with the region of the script, else with the last statement. -/
theorem Lowering.codeStop_script {nodes : List Node} (h : ∀ n ∈ nodes, n.kind ≠ .moduleBody)
    (span : Span) (s : Lowering.State) :
    let root := (Lowering.script nodes span s).1
    Node.codeStop (some root) =
      if root.isModule then span.stop else (nodes.getLast?.map (·.span.stop)).getD 0 := by
  cases hm : s.isModule with
  | true =>
      have he : (Lowering.script nodes span s).1 =
          .branch .script span [.branch .moduleBody span nodes] := by
        show ((if s.isModule = true then _ else _ : Lowering Node) s).1 = _
        rw [if_pos hm]
        rfl
      intro root
      rw [show root = _ from he]
      rfl
  | false =>
      have he : (Lowering.script nodes span s).1 = .branch .script span nodes := by
        show ((if s.isModule = true then _ else _ : Lowering Node) s).1 = _
        rw [if_neg (Bool.eq_false_iff.mp hm)]
        rfl
      have hnot : (Node.branch .script span nodes).isModule = false :=
        List.any_eq_false.mpr fun n hn hk => h n hn (eq_of_beq hk)
      intro root
      rw [show root = _ from he, hnot, if_neg Bool.false_ne_true]
      unfold Node.codeStop
      rw [show (some (Node.branch .script span nodes)).bind (·.children.getLast?) = nodes.getLast? from rfl]
      cases nodes.getLast? <;> rfl

/-! ## The whole parse -/

section Parse

open Grammar (ReadsTo)

variable {name source : String} {o : Options} {root : Node} {s : Script}

/-- What a parse gives as the address is what the last comment gives, where the code of the tree ends before
it. -/
theorem sourceMapUrl_of_root
    (hroot : ((Script.ofText name source o).readAll source.length).root? = (some root, s)) :
    (parse name source o).sourceMapUrl =
      sourceMapUrl? s.grammar.lexer.comments.toList (Node.codeStop (some root)) := by
  let comments := s.grammar.lexer.comments.toList
  obtain ⟨tree, ws, -, hattach⟩ := attached_trace (some root) comments source o
  have hbare := bare_attached (some root) comments source o s.grammar.journal.sink
  rw [hattach] at hbare
  rw [parse_of_root hroot (hattach _), ← Node.codeStop_bare tree, hbare, Node.codeStop_bare]

/-- What is known of a script whose tree is there. -/
structure Ended (name source : String) (o : Options) (root : Node) (s : Script) : Prop where
  isEnd : s.grammar.current.isEnd = true
  standing : s.grammar.Standing source.toList
  readsTo : ∃ tokens, ReadsTo (Script.ofText name source o).grammar tokens s.grammar
  codeStop : Node.codeStop (some root) =
    if root.isModule then source.toList.length else s.grammar.lastStop

theorem ended_of_root
    (hroot : ((Script.ofText name source o).readAll source.length).root? = (some root, s)) :
    Ended name source o root s := by
  have hstart := Script.sound_ofText name source o
  have hreadsTo := Script.exists_readsTo_of_root hroot
  obtain ⟨read, t, hsteps, hstopped, rfl, rfl⟩ := Script.steps_of_root hroot
  have hover := hsteps.isOver
  rw [hstopped, Bool.false_or] at hover
  have hforward := hsteps.reads.forward hstart.grammar.toStanding
  -- passing on what the lexer has noted and lowering leave the cursor alone
  refine ⟨hover, hforward.standing.idle ⟨.inr rfl, rfl, rfl, rfl⟩, hreadsTo, ?_⟩
  · have hkinds := hsteps.kind_ne hstopped nofun
    refine (Lowering.codeStop_script (fun n hn => hkinds n (List.mem_reverse.mp hn)) _ _).trans ?_
    have hend : t.grammar.current.span.stop = source.toList.length := by
      have hrest := (hforward.standing.finished hover).1
      have hlen := hforward.standing.rest_length
      have hle := hforward.standing.position_le
      rw [hrest, List.length_nil] at hlen
      rw [hforward.standing.ahead]
      omega
    congr 1
    · exact (Span.stop_between (Nat.zero_le _)).trans hend
    · rw [List.getLast?_reverse]
      obtain rfl | ⟨node, rest, hlast, hstop⟩ := hsteps.ends_last hstart.grammar.toStanding hstopped
      · rfl
      · rw [hlast]
        exact hstop

end Parse

open Grammar (ReadsTo)

/-- **The address of the source map.** A source whose script has a tree is read to its end. Whatever tokens
it was read as, the parse gives the address `url` if and only if the source ends with it and is no module. -/
theorem parse_sourceMapUrl (name source : String) (o : Options) {root : Node} {s : Script}
    (hroot : ((Script.ofText name source o).readAll source.length).root? = (some root, s)) :
    let start := (Script.ofText name source o).grammar
    s.grammar.current.isEnd = true ∧ (∃ tokens, ReadsTo start tokens s.grammar) ∧
      ∀ tokens, ReadsTo start tokens s.grammar → ∀ url,
        (parse name source o).sourceMapUrl = some url ↔
          EndsWithAddress s.grammar.lexer.comments.toList tokens url ∧ root.isModule = false := by
  intro start
  have hended := ended_of_root hroot
  refine ⟨hended.isEnd, hended.readsTo, fun tokens htokens url => ?_⟩
  have hstart := Script.standing_ofText name source o
  have hforward := htokens.reads.forward hstart
  have hclear := htokens.reads.clear hstart (Grammar.State.noted_ofText _ _ _)
  rw [sourceMapUrl_of_root hroot, sourceMapUrl?_eq_some_iff, hended.codeStop]
  cases hm : root.isModule with
  | true =>
      -- the body of the module reaches behind every comment
      refine ⟨?_, fun h => Bool.noConfusion h.2⟩
      rintro ⟨c, hc, -, haddress, hle⟩
      have hmem := List.mem_of_getLast? hc
      have hlocated := hended.standing.lexer.comments c (Array.mem_toList_iff.mp hmem)
      rw [hended.standing.reads] at hlocated
      exact absurd (haddress.offset_lt hlocated) (Nat.not_lt.mpr hle)
  | false =>
      rw [if_neg Bool.false_ne_true]
      constructor
      · rintro ⟨c, hc, hkind, haddress, hle⟩
        refine ⟨⟨c, hc, hkind, haddress, fun token hm => ?_⟩, rfl⟩
        obtain ⟨hloc, hend, -, hstop⟩ := hforward.within token hm
        have hpos := hloc.pos hend
        unfold Span.stop at *
        omega
      · rintro ⟨⟨c, hc, hkind, haddress, hall⟩, -⟩
        refine ⟨c, hc, hkind, haddress, ?_⟩
        by_cases hnil : tokens = []
        · have hlast := htokens.lastStop
          rw [hnil] at hlast
          exact hlast ▸ Nat.zero_le _
        · -- the last token is not behind the comment, so it lies before it
          obtain ⟨token, hm, hstop⟩ := Grammar.exists_mem_of_ne_nil hnil start.lastStop
          rw [htokens.lastStop, ← hstop]
          exact (hclear.clear c (List.mem_of_getLast? hc) token hm).resolve_left
            (Nat.not_le.mpr (hall token hm))

/-- A script that ends with an address. -/
theorem parse_sourceMapUrl_script :
    let source := "a\n//# sourceMappingURL=b"
    let start := Script.ofText "a.js" source {}
    ∃ root s, (start.readAll source.length).root? = (some root, s) ∧ root.isModule = false ∧
      ∃ tokens, ReadsTo start.grammar tokens s.grammar ∧
        EndsWithAddress s.grammar.lexer.comments.toList tokens "b" := by
  intro source start
  obtain ⟨hsome, hurl⟩ : (start.readAll source.length).root?.1.isSome = true ∧
      (parse "a.js" source {}).sourceMapUrl = some "b" := by
    decide +kernel
  obtain ⟨root, hsome⟩ := Option.isSome_iff_exists.mp hsome
  have hroot := Script.root?_eq_of_some hsome
  obtain ⟨-, ⟨tokens, htokens⟩, hiff⟩ := parse_sourceMapUrl "a.js" source {} hroot
  obtain ⟨hends, hscript⟩ := (hiff tokens htokens "b").mp hurl
  exact ⟨root, _, hroot, hscript, tokens, htokens, hends⟩

/-- A module that ends with an address, which its parse does not give. -/
theorem sourceMapUrl_parse_module :
    let source := "export \x7b\x7d;\n//# sourceMappingURL=a.map"
    let start := Script.ofText "a.js" source {}
    ∃ root s tokens, (start.readAll source.length).root? = (some root, s) ∧
      ReadsTo start.grammar tokens s.grammar ∧
      EndsWithAddress s.grammar.lexer.comments.toList tokens "a.map" ∧
      (parse "a.js" source {}).sourceMapUrl = none := by
  intro source start
  obtain ⟨hsome, hlast, hstop, haddress, hurl⟩ :
      (start.readAll source.length).root?.1.isSome = true ∧
        (start.readAll source.length).root?.2.grammar.lexer.comments.toList.getLast? =
          some { kind := .line, text := "//# sourceMappingURL=a.map", span := ⟨2, 0, 11, 26⟩ } ∧
        (start.readAll source.length).root?.2.grammar.lastStop = 10 ∧
        sourceMapAddress? "//# sourceMappingURL=a.map".toList = some "a.map" ∧
        (parse "a.js" source {}).sourceMapUrl = none := by
    decide +kernel
  obtain ⟨root, hsome⟩ := Option.isSome_iff_exists.mp hsome
  have hroot := Script.root?_eq_of_some hsome
  obtain ⟨tokens, htokens⟩ := (ended_of_root hroot).readsTo
  have hforward := htokens.reads.forward (Script.standing_ofText "a.js" source {})
  refine ⟨root, _, tokens, hroot, htokens, ⟨_, hlast, rfl, sourceMapAddress?_eq_some_iff.mp haddress, ?_⟩, hurl⟩
  intro token hm
  have hle := (hforward.within token hm).2.2.2
  rw [hstop] at hle
  have hfits : token.span.offset ≤ token.span.stop := Nat.le_add_right _ _
  exact Nat.lt_of_le_of_lt (hfits.trans hle) (by decide)

end EcmaScript
