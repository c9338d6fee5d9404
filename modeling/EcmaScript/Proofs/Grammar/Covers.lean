import EcmaScript.Proofs.Grammar.Loops
import EcmaScript.Proofs.Places.Ascending

/-!
# What a statement covers

A statement notes the place of its first token, reads on, and takes what lies from there to the last token
that was read as its region. So the region of a statement can be told from the states before and behind it,
also where recovery has put a placeholder.

## Contents

* `Closes`: productions whose last act is to take the region from a given place on.
* `CoversAt`, `Covers`: productions whose region starts at the cursor.
* One lemma for each kind of statement, and `covers_statement` for all of them.
* `Reader.Covers`, `covers_read`: the nonterminal.
* `listStatement_span`, `scriptStatement_span`: the same with recovery.
* `ascending_statementList`: the statements of a list stand one behind the other.
-/

namespace EcmaScript

namespace Grammar

variable {α β : Type} {span : α → Span} {span' : β → Span} {start : Position} {p q : Production α}

/-! ## From a place to the last token -/

/-- What the production gives covers the text from `start` to the last token that was read. -/
structure Closes (start : Position) (span : α → Span) (p : Production α) : Prop where
  run : ∀ {s t : State} {a : α}, p s = .ok a t → span a = Span.between start t.lastStop

/-- What the production gives at the state covers the text from the cursor to the last token that was
read. -/
structure CoversAt (s : State) (span : α → Span) (p : Production α) : Prop where
  run : ∀ {a : α} {t : State}, p s = .ok a t → span a = Span.between s.current.start t.lastStop

/-- What the production gives covers the text from the cursor to the last token that was read. -/
def Covers (span : α → Span) (p : Production α) : Prop := ∀ s, CoversAt s span p

namespace Closes

/-- The region is taken at the end. -/
theorem close {make : Span → α} (h : ∀ r, span (make r) = r) :
    Closes start span (spanFrom start >>= fun r => pure (make r)) := by
  refine ⟨fun ht => ?_⟩
  cases ht
  exact h _

theorem bind {p : Production β} {f : β → Production α} (h : ∀ b, Closes start span (f b)) :
    Closes start span (p >>= f) := by
  refine ⟨fun ht => ?_⟩
  obtain ⟨b, u, -, hu⟩ := exists_of_bind_ok ht
  exact (h b).run hu

theorem ite {c : Prop} [Decidable c] (hp : Closes start span p) (hq : Closes start span q) :
    Closes start span (if c then p else q) := by
  split
  · exact hp
  · exact hq

/-- Two ways that come together before the end. -/
theorem either {c : Prop} [Decidable c] {p q : Production β} {f : β → Production α}
    (h : ∀ b, Closes start span (f b)) : Closes start span (if c then p >>= f else q >>= f) :=
  .ite (.bind h) (.bind h)

theorem map {make : α → β} (h : Closes start span p) (hm : ∀ a, span' (make a) = span a) :
    Closes start span' (make <$> p) := by
  refine ⟨fun ht => ?_⟩
  obtain ⟨a, ha, rfl⟩ := exists_of_map_ok ht
  exact (hm a).trans (h.run ha)

theorem fails (problem : Problem) : Closes start span (failHere problem : Production α) := ⟨nofun⟩

end Closes

namespace CoversAt

variable {s : State}

theorem of_closes (h : Closes s.current.start span p) : CoversAt s span p := ⟨h.run⟩

theorem look {p : Production β} {b : β} {f : β → Production α} (hp : p s = .ok b s)
    (h : CoversAt s span (f b)) : CoversAt s span (p >>= f) :=
  ⟨fun ht => h.run ((bind_ok hp).symm.trans ht)⟩

theorem ite {c : Prop} [Decidable c] (hp : CoversAt s span p) (hq : CoversAt s span q) :
    CoversAt s span (if c then p else q) := by
  split
  · exact hp
  · exact hq

theorem map {make : α → β} (h : CoversAt s span p) (hm : ∀ a, span' (make a) = span a) :
    CoversAt s span' (make <$> p) := by
  refine ⟨fun ht => ?_⟩
  obtain ⟨a, ha, rfl⟩ := exists_of_map_ok ht
  exact (hm a).trans (h.run ha)

end CoversAt

/-- The place of the token under the cursor is noted first. -/
theorem Covers.noting {f : Position → Production α} (h : ∀ start, Closes start span (f start)) :
    Covers span (position >>= f) :=
  fun s => .look (show position s = .ok s.current.start s from rfl) (.of_closes (h _))

/-! ## Statements -/

section Statements

variable (read : Reader) (place : Place)

theorem covers_block : Covers Block.span (block read) :=
  .noting fun _ => .bind fun _ => .bind fun _ => .bind fun _ => .close fun _ => rfl

theorem covers_declarationStatement (kind : VariableKind) :
    Covers Statement.span (declarationStatement read kind) :=
  .noting fun _ => .bind fun d => .bind fun _ => .close fun _ => by cases d; rfl

theorem covers_ifStatement : Covers Statement.span (ifStatement read) :=
  .noting fun _ => .bind fun _ => .bind fun _ => .bind fun _ => .bind fun _ => .either fun _ =>
    .close fun _ => rfl

theorem closes_countingLoop (head : Option LoopHead) :
    Closes start Statement.span (countingLoop read head start) :=
  .bind fun _ => .bind fun _ => .either fun _ => .bind fun _ => .bind fun _ => .either fun _ =>
    .bind fun _ => .bind fun _ => .close fun _ => rfl

theorem closes_keyLoop (head : LoopHead) : Closes start Statement.span (keyLoop read head start) :=
  .bind fun _ => .bind fun _ => .bind fun _ => .bind fun _ => .close fun _ => rfl

theorem closes_valueLoop (head : LoopHead) (isAwait : Bool) :
    Closes start Statement.span (valueLoop read head isAwait start) :=
  .bind fun _ => .bind fun _ => .bind fun _ => .bind fun _ => .close fun _ => rfl

theorem covers_forStatement : Covers Statement.span (forStatement read) := by
  refine .noting fun _ => .bind fun _ => .bind fun isAwait => .bind fun _ => .bind fun head => ?_
  cases head with
  | none => exact .ite (.fails _) (closes_countingLoop read none)
  | some first =>
      exact .bind fun _ => .ite (closes_keyLoop read first) <| .bind fun _ =>
        .ite (closes_valueLoop read first isAwait) <|
          .ite (.fails _) (closes_countingLoop read (some first))

theorem covers_whileStatement : Covers Statement.span (whileStatement read) :=
  .noting fun _ => .bind fun _ => .bind fun _ => .bind fun _ => .close fun _ => rfl

theorem covers_doStatement : Covers Statement.span (doStatement read) :=
  .noting fun _ => .bind fun _ => .bind fun _ => .bind fun _ => .bind fun _ => .bind fun _ =>
    .close fun _ => rfl

theorem covers_switchStatement : Covers Statement.span (switchStatement read) :=
  .noting fun _ => .bind fun _ => .bind fun _ => .bind fun _ => .bind fun _ => .bind fun _ =>
    .close fun _ => rfl

theorem covers_tryStatement : Covers Statement.span (tryStatement read) :=
  .noting fun _ => .bind fun _ => .bind fun _ => .bind fun _ => .either fun _ => .bind fun _ =>
    .either fun _ => .ite (.bind fun _ => .close fun _ => rfl) (.close fun _ => rfl)

theorem covers_jump {make : Option Identifier → Span → Statement}
    (h : ∀ label r, (make label r).span = r) : Covers Statement.span (jump make) :=
  .noting fun _ => .bind fun _ => .bind fun label => .bind fun _ => .close (h label)

theorem covers_returnStatement : Covers Statement.span (returnStatement read) :=
  .noting fun _ => .bind fun _ => .bind fun _ => .either fun _ => .bind fun _ => .close fun _ => rfl

theorem covers_throwStatement : Covers Statement.span (throwStatement read) :=
  .noting fun _ => .bind fun _ => .bind fun _ =>
    .ite (.bind fun _ => .bind fun _ => .bind fun _ => .close fun _ => rfl)
      (.bind fun _ => .bind fun _ => .close fun _ => rfl)

theorem covers_withStatement : Covers Statement.span (withStatement read) :=
  .noting fun _ => .bind fun _ => .bind fun _ => .bind fun _ => .close fun _ => rfl

theorem covers_debuggerStatement : Covers Statement.span debuggerStatement :=
  .noting fun _ => .bind fun _ => .bind fun _ => .close fun _ => rfl

theorem covers_emptyStatement : Covers Statement.span emptyStatement :=
  .noting fun _ => .bind fun _ => .close fun _ => rfl

theorem covers_expressionStatement : Covers Statement.span (expressionStatement read) :=
  .noting fun _ => .bind fun _ => .bind fun _ => .close fun _ => rfl

theorem covers_labeledStatement : Covers Statement.span (labeledStatement read) :=
  .noting fun _ => .bind fun _ => .bind fun _ => .bind fun _ => .close fun _ => rfl

theorem closes_functionDeclaration (isAsync anonymousAllowed : Bool) :
    Closes start Function.span (functionDeclaration read isAsync start anonymousAllowed) := by
  have hrest (name : Option Identifier) (isGenerator : Bool) :
      Closes start Function.span (functionRest read name .declaration isAsync isGenerator start) :=
    .bind fun _ => .bind fun _ => .close fun _ => rfl
  exact .bind fun _ => .bind fun isGenerator => .bind fun _ => .either fun name =>
    hrest name isGenerator

theorem covers_classDefinition (anonymousAllowed : Bool) :
    Covers ClassDefinition.span (classDefinition read anonymousAllowed) :=
  .noting fun _ => .bind fun _ => .bind fun _ => .bind fun _ => .either fun _ => .bind fun _ =>
    .bind fun _ => .bind fun _ => .bind fun _ => .bind fun _ => .close fun _ => rfl

theorem covers_importDeclaration : Covers Statement.span importDeclaration :=
  .noting fun start =>
    have hrest (clause : Option Identifier × ImportBindings) : Closes start Statement.span (do
        let source ← moduleSpecifier
        endStatement
        return .import ⟨clause.1, clause.2, source, ← spanFrom start⟩) :=
      .bind fun _ => .bind fun _ => .close fun _ => rfl
    .bind fun _ => .bind fun _ => .ite (.bind hrest) (.bind fun _ => .bind fun _ => .bind hrest)

theorem closes_exportAll : Closes start Statement.span (exportAll start) :=
  .bind fun _ => .bind fun _ => .either fun _ => .bind fun _ => .bind fun _ => .bind fun _ =>
    .close fun _ => rfl

theorem closes_exportNamed : Closes start Statement.span (exportNamed start) :=
  .bind fun _ => .bind fun _ => .either fun _ =>
    .ite (.bind fun _ => .bind fun _ => .close fun _ => rfl) (.bind fun _ => .close fun _ => rfl)

theorem covers_exportDeclaration : Covers Statement.span (exportDeclaration read) :=
  .noting fun _ => .bind fun _ => .bind fun _ => .ite (.bind fun _ => .close fun _ => rfl) <|
    .bind fun _ => .ite closes_exportAll <| .bind fun _ => .ite closes_exportNamed <|
      .bind fun _ => .ite (.bind fun _ => .close fun _ => rfl) (.fails _)

/-- Where a declaration may not stand there is none to cover anything. -/
theorem coversAt_checkPlace {s : State} (h : CoversAt s span p) :
    CoversAt s span (checkPlace place >>= fun _ => p) := by
  unfold checkPlace
  split
  · exact ⟨nofun⟩
  · exact h

theorem covers_identifierStatement (name : String) :
    Covers Statement.span (identifierStatement read place name) := by
  intro s
  refine .look (show position s = .ok s.current.start s from rfl) ?_
  refine .look (peek_eq s) ?_
  refine .ite (coversAt_checkPlace place (covers_declarationStatement read .letWord s)) (.ite ?_ ?_)
  · refine coversAt_checkPlace place (.of_closes (.bind fun _ => ?_))
    exact .map (closes_functionDeclaration read true false) fun _ => rfl
  · exact .ite (covers_labeledStatement read s) (covers_expressionStatement read s)

theorem covers_keywordStatement (word : Keyword) :
    Covers Statement.span (keywordStatement read place word) := by
  intro s
  have hplain := covers_expressionStatement read s
  unfold keywordStatement
  split
  · exact covers_declarationStatement read .var s
  · exact coversAt_checkPlace place (covers_declarationStatement read .const s)
  · exact covers_ifStatement read s
  · exact covers_forStatement read s
  · exact covers_whileStatement read s
  · exact covers_doStatement read s
  · exact covers_jump (fun _ _ => rfl) s
  · exact covers_jump (fun _ _ => rfl) s
  · exact covers_returnStatement read s
  · exact covers_withStatement read s
  · exact covers_switchStatement read s
  · exact covers_throwStatement read s
  · exact covers_tryStatement read s
  · exact covers_debuggerStatement s
  · refine .look (show position s = .ok s.current.start s from rfl) (.of_closes ?_)
    exact .map (closes_functionDeclaration read false false) fun _ => rfl
  · exact coversAt_checkPlace place (.map (covers_classDefinition read false s) fun _ => rfl)
  · exact .look (peek_eq s)
      (.ite (covers_importDeclaration s) hplain)
  · exact .ite (covers_exportDeclaration read s) hplain
  · exact hplain

/-- **A statement covers what was read of it**, from its first token to its last one. -/
theorem covers_statement : Covers Statement.span (statement read place) := by
  intro s
  refine .look (show current s = .ok s.current s from rfl) ?_
  have hplain := covers_expressionStatement read s
  split
  · exact .map (covers_block read s) fun _ => rfl
  · exact covers_emptyStatement s
  · exact covers_keywordStatement read place _ s
  · exact .ite hplain (covers_identifierStatement read place _ s)
  · exact hplain

end Statements

/-! ## The nonterminal, and recovery -/

/-- Statements cover what was read of them. -/
def Reader.Covers (read : Reader) : Prop :=
  ∀ place, @Grammar.Covers Statement Statement.span (read (.statement place))

theorem covers_read (depth : Nat) : (read depth).Covers := by
  intro place
  cases depth with
  | zero => exact fun _ => ⟨fun ht => by cases ht⟩
  | succ depth => exact covers_statement (read depth) place

/-- **So does a statement of a list**, be it a placeholder. -/
theorem listStatement_span {read : Reader} (hr : read.Covers) {s t : State} {a : Statement}
    (h : listStatement read s = .ok (some a) t) :
    a.span = Span.between s.current.start t.lastStop := by
  rw [Composed.listStatement_eq, bind_ok (show current s = .ok s.current s from rfl)] at h
  split at h
  · cases h
  · unfold reporting at h
    cases hp : (some <$> read (.statement .list)) s with
    | ok found u =>
        rw [hp] at h
        cases h
        obtain ⟨statement, hstatement, hfound⟩ := exists_of_map_ok hp
        cases hfound
        exact (hr .list s).run hstatement
    | error e u =>
        rw [hp] at h
        dsimp only at h
        split at h
        · obtain ⟨_, v, -, ht⟩ := exists_of_bind_ok h
          cases ht
          rfl
        · cases h

/-- A statement of the script likewise. -/
theorem scriptStatement_span {depth : Nat} {s t : State} {a : Statement}
    (h : scriptStatement (read depth) s = .ok (some a) t) :
    a.span = Span.between s.current.start t.lastStop := by
  rw [scriptStatement_eq] at h
  cases hr : read depth (.statement .topLevel) s with
  | ok statement u =>
      rw [hr] at h
      cases h
      have hspan := (covers_read depth .topLevel s).run hr
      exact hspan
  | error e u =>
      rw [hr] at h
      dsimp only at h
      rw [recover_eq] at h
      split at h
      · obtain ⟨_, v, -, ht⟩ := exists_of_bind_ok h
        cases ht
        rfl
      · cases h

/-! ## Lists of statements -/

section Lists

variable {text : List Char} {read : Reader} {s t : State}

/-- Whoever has come further has read a token that starts no earlier. -/
theorem Reads.le_lastStop {tokens : List Token} (h : Reads s tokens t) (hs : s.Standing text)
    (hlt : s.current.span.offset < t.current.span.offset) : s.current.span.offset ≤ t.lastStop := by
  obtain ⟨token, hm⟩ := List.exists_mem_of_ne_nil tokens (h.ne_nil hs hlt)
  obtain ⟨-, -, hle, hstop⟩ := (h.forward hs).within token hm
  exact Nat.le_trans hle (Nat.le_trans token.span.offset_le_stop hstop)

theorem composed_listStatement (hr : read.Consumes text) : Composed (listStatement read) :=
  (inferInstance : Alike read read (listStatement read) (listStatement read)).composed hr.composed

/-- One statement of a list ends with the last token that was read. -/
theorem listStatement_stop (hr : read.Consumes text) (hc : read.Covers) (hs : s.Standing text)
    {a : Statement} (h : listStatement read s = .ok (some a) t) : a.span.stop = t.lastStop := by
  obtain ⟨tokens, hreads⟩ := (composed_listStatement hr).reads s
  rw [h] at hreads
  rw [listStatement_span hc h, Span.stop_between (hreads.le_lastStop hs (Offers.lt hr hs h))]

theorem ascending_collectFrom (hr : read.Consumes text) (hc : read.Covers) {start limit : Nat}
    {items found : List Statement} (hs : s.Standing text) (hstart : start ≤ s.current.span.offset)
    (ha : Ascending start (items.reverse.map Statement.span) s.lastStop)
    (h : collectFrom (listStatement read) limit items s = .ok found t) :
    Ascending start (found.map Statement.span) t.lastStop := by
  -- on the bound, for the statements that were collected before
  induction limit generalizing s items with
  | zero =>
      cases h
      exact ha
  | succ limit ih =>
      obtain ⟨next, u, hnext, hrest⟩ := exists_of_bind_ok h
      obtain ⟨_, hf⟩ := (composed_listStatement hr).forward_of_ok hs hnext
      cases next with
      | none =>
          cases hrest
          exact ha.mono (Nat.le_refl _) hf.lastStop
      | some a =>
          refine ih hf.standing (Nat.le_trans hstart hf.le) ?_ hrest
          have hoffset : a.span.offset = s.current.span.offset := by
            rw [listStatement_span hc hnext]
            rfl
          rw [List.reverse_cons, List.map_append, List.map_singleton]
          refine ha.snoc ?_ ?_ (Nat.le_of_eq (listStatement_stop hr hc hs hnext))
          · rw [hoffset]
            exact hs.behind
          · rw [hoffset]
            exact hstart

/-- **The statements of a list stand one behind the other**, from the cursor on and up to the last token
that was read. -/
theorem ascending_statementList (hr : read.Consumes text) (hc : read.Covers) (hs : s.Standing text)
    {items : List Statement} (h : statementList read s = .ok items t) :
    Ascending s.current.span.offset (items.map Statement.span) t.lastStop :=
  ascending_collectFrom hr hc hs (Nat.le_refl _) (.nil _ _) h

end Lists

end Grammar

end EcmaScript
