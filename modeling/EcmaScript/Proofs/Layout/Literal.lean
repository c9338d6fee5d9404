import EcmaScript.Proofs.Grammar.Covers
import EcmaScript.Proofs.Layout.Production

/-!
# Blocks and literals in the order of the text

## Contents

* `Reader.Lays`: readers whose nonterminals read in the order of the text.
* `collectFrom`, `block`: loops, recovery and blocks.
* `template`, `arrayLiteral`, `arguments`, `propertyKey`: literals, lists and property names.
-/

namespace EcmaScript

namespace Grammar

-- An instance for a production is as large as the production.
set_option synthInstance.maxSize 2000

/-- All nonterminals of a reader read in the order of the text. -/
class Reader.Lays (text : List Char) (read : Reader) : Prop where
  consumes : read.Consumes text
  statement (place : Place) : @Grammar.Lays text Statement Piece.of (read (.statement place))
  assignment : @Grammar.Lays text Expression Piece.of (read .assignment)
  unary : @Grammar.Lays text Expression Piece.of (read .unary)
  leftHandSide : @Grammar.Lays text Expression Piece.of (read .leftHandSide)
  construction : @Grammar.Lays text Expression Piece.of (read .construction)
  binding : @Grammar.Lays text Expression Piece.of (read .binding)

attribute [instance] Reader.Lays.statement Reader.Lays.assignment Reader.Lays.unary
  Reader.Lays.leftHandSide Reader.Lays.construction Reader.Lays.binding

namespace Lays

variable {text : List Char} {closing : Bool} {lo : Nat} {ps : List Piece} {α β : Type}
  {G : β → List Piece}

/-! ## Loops, recovery and blocks -/

theorem collectFrom {step : Production (Option β)} [Lays text (Piece.maybe G) step] (limit : Nat)
    (items : List β) : LaysFrom text closing lo (items.reverse.flatMap G) (List.flatMap G)
      (Grammar.collectFrom step limit items) := by
  -- on the bound, for whatever was collected before
  induction limit generalizing items with
  | zero => exact .done rfl
  | succ limit ih =>
      refine .bind fun found => ?_
      cases found with
      | none => exact .done (List.append_nil _).symm
      | some item =>
          have h := ih (item :: items)
          rw [List.reverse_cons, List.flatMap_append, List.flatMap_singleton] at h
          exact h

instance instCollect {step : Production (Option β)} [Lays text (Piece.maybe G) step] :
    Lays text (List.flatMap G) (collect step) :=
  .of_steps fun s => .mk ((collectFrom (s.lexer.rest.length + 2) []).at' s).run

variable {read : Reader} [hr : Reader.Lays text read]

instance : Lays text (Piece.maybe Piece.of) (commaAssignment read) :=
  .of_offers hr.consumes fun _ =>
    .from_here <| .skim fun _ => .ite (.last fun _ => rfl) (.done rfl)

instance : Lays text Piece.of (expression read) :=
  .of_opens hr.consumes fun _ =>
    .from_here <| .bind fun _ => .skim fun _ =>
      .ite (.bind fun _ => .encloseFrom fun _ => .made rfl) (.done rfl)

instance : Lays text Piece.of (condition read) :=
  .of_steps fun _ =>
    .from_here <| .skim fun _ => .bind fun _ => .skim fun _ => .done rfl

/-- The placeholder for a statement that failed lies behind the token with which the statement began. -/
instance : Lays text (Piece.maybe Piece.of) (listStatement read) := by
  refine ⟨fun {s t a} hs ht => ?_⟩
  have hc := (inferInstance : Alike read read (listStatement read) (listStatement read))
  obtain ⟨tokens, hreads⟩ := (hc.composed hr.consumes.composed).reads s
  have hreads' := hreads
  rw [ht] at hreads'
  have hm := Moves.of_reads hreads' hs
  refine ⟨hm, ?_⟩
  cases a with
  | none => exact .nil
  | some a =>
      have hlt := hm.lt (Offers.lt hr.consumes hs ht)
      rw [Composed.listStatement_eq, bind_ok (show current s = .ok s.current s from rfl)] at ht
      split at ht
      · cases ht
      · unfold reporting at ht
        cases hp : (some <$> read (.statement .list)) s with
        | ok found u =>
            rw [hp] at ht
            cases ht
            exact (run hs hp).2
        | error e u =>
            rw [hp] at ht
            dsimp only at ht
            split at ht
            · obtain ⟨_, v, -, ht⟩ := exists_of_bind_ok ht
              cases ht
              have hstop := Span.stop_between (p := s.current.start) (Nat.le_of_lt hlt)
              exact .single (.gap (Nat.le_refl _) (Nat.le_of_eq hstop) .nil) (Nat.le_of_lt hlt)
            · cases ht

instance : Lays text Piece.each (statementList read) := instCollect

instance : Lays text Piece.of (block read) :=
  .of_opens hr.consumes fun _ =>
    .noting fun _ => .skim fun _ => .bind fun _ => .skim fun _ => .close fun _ => rfl

/-! ## Literals -/

/-- A piece of a template, read as a token. -/
abbrev textPieces (x : TemplateText × Bool) : List Piece := [.leaf x.1.span]

theorem textOf (token : Token) : LaysFrom text closing lo (ps ++ [.leaf token.span])
    (fun x => ps ++ textPieces x) (Alike.textOf token) := by
  unfold Alike.textOf
  split
  · exact .done rfl
  · exact .fail _ _

theorem textOf_end {F : TemplateText × Bool → List Piece} {token : Token} (h : token.isEnd = true) :
    LaysFrom text closing lo ps F (Alike.textOf token) := by
  unfold Alike.textOf
  rw [Opens.kind_of_isEnd h]
  exact .fail _ _

instance : Lays text textPieces templateText :=
  .of_steps fun _ => .from_here <| .advancing (fun token _ => textOf token) fun _ => textOf_end

/-- A substitution with the text behind it. -/
abbrev substitutionPieces (x : Expression × TemplateText × Bool) : List Piece :=
  Piece.of x.1 ++ [.leaf x.2.1.span]

theorem textBehind (value : Expression) :
    LaysFrom text closing lo (Piece.of value) substitutionPieces (Alike.textBehind value) :=
  .skim fun _ => .ite
    (.rereading (fun token _ => .andThen (textOf token) fun _ => .done rfl)
      fun _ hend => .andThen (textOf_end (F := fun x => Piece.of value ++ textPieces x) hend) fun _ => .done rfl)
    (.failHere _)

instance : Lays text substitutionPieces (substitution read) := by
  rw [Alike.substitution_eq]
  exact .of_steps fun _ => .from_here <| .bind fun value => textBehind value

theorem template_snoc {texts : List TemplateText} {values : List Expression}
    (h : texts.length = values.length + 1) (text : TemplateText) (value : Expression) :
    Piece.template (texts ++ [text]) (values ++ [value]) =
      Piece.template texts values ++ (Piece.of value ++ [.leaf text.span]) := by
  induction values generalizing texts with
  | nil =>
      obtain ⟨first, rfl⟩ := List.length_eq_one_iff.mp h
      rfl
  | cons value' values ih =>
      cases texts with
      | nil => cases h
      | cons first texts =>
          show _ :: _ :: Piece.template (texts ++ [text]) (values ++ [value]) = _
          rw [ih (Nat.succ.inj h)]
          rfl

/-- The texts and substitutions of a template. -/
abbrev templatePieces (x : List TemplateText × List Expression) : List Piece := Piece.template x.1 x.2

theorem templateRest (limit : Nat) {texts : List TemplateText} {values : List Expression}
    (h : texts.length = values.length + 1) :
    LaysFrom text closing lo (Piece.template texts.reverse values.reverse) templatePieces
      (Grammar.templateRest read limit texts values) := by
  -- on the bound, for the pieces and substitutions that were read before
  induction limit generalizing texts values with
  | zero => exact .done rfl
  | succ limit ih =>
      refine .bind fun (value, piece, tail) => ?_
      have hlength : texts.reverse.length = values.reverse.length + 1 := by simpa using h
      have hsnoc := template_snoc hlength piece value
      rw [← List.reverse_cons, ← List.reverse_cons] at hsnoc
      rw [← hsnoc]
      exact .ite (.done rfl) (ih (congrArg (· + 1) h))

/-- A template with its region. -/
abbrev wholeTemplate (x : List TemplateText × List Expression × Span) : List Piece :=
  [.region x.2.2 (Piece.template x.1 x.2.1)]

theorem template (s : State) :
    LaysAt text true s s.current.span.offset [] wholeTemplate (Grammar.template read) :=
  .noting fun _ => .bind fun (first, _) => .ite (.step (.closeAs id)) <| .skim fun _ =>
    .andThen (G := templatePieces) (@templateRest _ _ _ _ _ _ [first] [] rfl) fun _ =>
      .closeAs id

/-! ## Lists -/

instance : Lays text Piece.of (spreadable read) :=
  .of_opens hr.consumes fun _ =>
    .noting fun _ => .skim fun _ => .ite (.bind fun _ => .close fun _ => rfl) (.last fun _ => rfl)

/-- The items of a list. -/
abbrev itemPieces (list : ItemList) : List Piece := Piece.each list.reversed.reverse

theorem itemPieces_snoc (list : ItemList) (e : Expression) : itemPieces list ++ Piece.of e =
    itemPieces { list with reversed := e :: list.reversed } := by
  simp [itemPieces]

theorem separatedItems {item : Production Expression} [Lays text Piece.of item] (limit : Nat)
    (list : ItemList) : LaysFrom text closing lo (itemPieces list) itemPieces
      (Grammar.separatedItems item limit list) := by
  -- on the bound, for the items and the comma that were read before
  induction limit generalizing list with
  | zero => exact .done rfl
  | succ limit ih =>
      refine .skim fun _ => .ite (.done rfl) (.bind fun e => itemPieces_snoc list e ▸ ?_)
      exact .skim fun _ => .ite (.done rfl) (.skim fun _ => .skim fun _ => .ite (.done rfl) (ih _))

instance : Lays text (fun x => [.region x.2.2 (Piece.each x.1)]) (parenthesizedItems read) :=
  .of_opens hr.consumes fun _ =>
    .noting fun _ => .skim fun _ => .skim fun _ => .andThen (separatedItems _ {}) fun _ =>
      .skim fun _ => .closeAs id

instance : Lays text (fun x => [.region x.2.2 (Piece.each x.1)]) (arguments read) := by
  refine .of_opens hr.consumes fun _ =>
    .noting fun _ => .skim fun _ => .skim fun _ => .andThen (separatedItems _ {}) fun list => ?_
  split
  · exact .skim fun _ => .skim fun _ => .closeAs id
  · exact .skim fun _ => .closeAs id

/-- An entry with what is noted of it. -/
abbrev entryPieces [IsPart α] (x : α × Bool) : List Piece := Piece.of x.1

/-- A missing entry is a place right before its comma. -/
theorem hole {p : Position} {hi : Nat} (h : p.offset < hi) :
    Laid p.offset (Piece.of (ArrayElement.hole (.emptyAt p))) hi :=
  .single (.gap (Nat.le_refl _) (Nat.le_of_lt h) .nil) (Nat.le_of_lt h)

instance : Lays text (Piece.maybe entryPieces) (arrayEntry read) := by
  refine .of_offers hr.consumes fun s => .seeing (.ite (fun _ => .done rfl) ?_)
  refine .ite (fun _ => ?_) ?_
  · exact .from_here <| .skim fun _ => .skim fun _ => .pure fun hlt _ => hole (p := s.current.start) (hlt rfl)
  · have hrest (element : ArrayElement) : LaysFrom text true s.current.span.offset (Piece.of element)
        (Piece.maybe entryPieces) (do
          if ← atMark .rightBracket then return some (element, false)
          else
            let _ ← expectMark .comma
            return some (element, ← atMark .rightBracket)) :=
      .skim fun _ => .ite (.done rfl) (.skim fun _ => .skim fun _ => .done rfl)
    refine .from_start <| .skim fun _ => .ite ?_ ?_
    · exact .bind fun _ => .enclose Laid.lt_of_alone fun _ => .formed rfl (hrest _)
    · have : Lays text Piece.of (ArrayElement.item <$> read .assignment) := .wrap fun _ => rfl
      exact .bind fun _ => hrest _

/-- What stands in brackets or braces, with what is noted of each entry. -/
theorem each_entries [IsPart α] (entries : List (α × Bool)) :
    entries.flatMap entryPieces = Piece.each (entries.map (·.1)) := by
  rw [Piece.each, List.flatMap_map]

theorem arrayLiteral (s : State) :
    LaysAt text true s s.current.span.offset [] Piece.of (Grammar.arrayLiteral read) :=
  .noting fun _ => .skim fun _ => .bind fun entries => .skim fun _ => .close fun r => by
    show [Piece.region r _] = [Piece.region r _]
    rw [← each_entries]
    rfl

instance : Lays text Piece.of (propertyKey read) := by
  refine .of_opens hr.consumes fun s => ?_
  unfold propertyKey
  refine .seeing ?_
  split
  case h_5 =>
    exact .from_start <| .skim fun _ => .bind fun _ => .skim fun _ => .close fun _ => rfl
  case h_6 => exact .wrap Lays.laysAt fun _ => rfl
  all_goals
    next hk => exact .take (isEnd_of_kind hk nofun) (.made rfl)

/-! ## Functions, objects and classes -/

end Lays

end Grammar

end EcmaScript
