import EcmaScript.Proofs.Layout.Expression

/-!
# Imports and exports in the order of the text

## Contents

* `specifiers`: entries in braces.
* `importDeclaration`, `exportDeclaration`: whole declarations.
-/

namespace EcmaScript

namespace Grammar

-- An instance for a production is as large as the production.
set_option synthInstance.maxSize 2000

namespace Lays

variable {text : List Char} {closing : Bool} {lo : Nat} {s : State}

instance : Lays text Piece.string moduleSpecifier := by
  refine .of_steps fun s => .seeing ?_
  split
  next hk => exact .take (isEnd_of_kind hk nofun) (.done rfl)
  next => exact .fail _ _

instance : Lays text Piece.moduleName moduleName := by
  refine .of_steps fun s => .seeing ?_
  split
  next hk => exact .take (isEnd_of_kind hk nofun) (.done rfl)
  next => exact .map (G := Piece.identifier) Lays.laysAt id

/-! ## Imports -/

instance : Lays text Piece.identifier importDefault := by
  refine .of_steps fun _ => .from_here <| .skim fun _ => ?_
  split
  · exact .failHere _
  · exact .last fun _ => rfl

instance : Lays text Piece.of importSpecifier :=
  .of_opens (consumes_read 0) fun _ => .noting fun _ => .bind fun _ => .skim fun _ =>
    .ite (.bind fun _ => .close fun _ => rfl) (.skim fun _ => .step (.close fun _ => rfl))

theorem specifiersFrom {α : Type} [IsPart α] {specifier : Production α} [Lays text Piece.of specifier]
    (limit : Nat) (items : List α) : LaysFrom text closing lo (Piece.each items.reverse) Piece.each
      (Grammar.specifiersFrom specifier limit items) := by
  -- on the bound, for the entries that were read before
  induction limit generalizing items with
  | zero => exact .done rfl
  | succ limit ih =>
      refine .skim fun _ => .ite (.done rfl) (.bind fun item => ?_)
      have hsnoc : Piece.each items.reverse ++ Piece.of item = Piece.each (item :: items).reverse := by
        simp [Piece.each]
      exact hsnoc ▸ .skim fun _ => .ite (ih _) (.done rfl)

/-- Entries with the region of their braces. -/
abbrev specifiersPieces {α : Type} [IsPart α] (x : List α × Span) : List Piece :=
  [.region x.2 (Piece.each x.1)]

theorem specifiers {α : Type} [IsPart α] {specifier : Production α} [Lays text Piece.of specifier]
    (s : State) : LaysAt text true s s.current.span.offset [] specifiersPieces
      (Grammar.specifiers specifier) :=
  .noting fun _ => .skim fun _ => .skim fun _ => .andThen (specifiersFrom _ []) fun _ =>
    .skim fun _ => .closeAs id

instance {α : Type} (specifier : Production α) [Composed specifier] :
    Opens text .everything true (read 0) (read 0) (Grammar.specifiers specifier)
      (Grammar.specifiers specifier) := by
  have hs := @Alike.specifiersFrom _ specifier _
  refine Opens.look_bind fun start => Opens.bind inferInstance inferInstance fun _ => .same ?_
  exact Composed.get_bind (fun hl _ => by simp only [hl]) fun _ => inferInstance

instance : Opens text .everything false (read 0) (read 0) importBindings importBindings := by
  unfold importBindings
  refine Opens.current_bind (fun token he => ?_) fun token _ => inferInstance
  rw [Offers.isMark_of_isEnd _ he, Offers.isMark_of_isEnd _ he, if_neg Bool.false_ne_true,
    if_neg Bool.false_ne_true]
  infer_instance

instance : Lays text ImportBindings.pieces importBindings := by
  refine .of_opens (consumes_read 0) fun s => .seeing (.ite (fun _ => ?_) (.ite (fun h => ?_) (.failHere _)))
  · refine .from_start <| .skim fun _ => .skim fun _ => .bind fun _ => .closeAs fun hl => ?_
    obtain ⟨hlo, hpos, -, hhi⟩ := Laid.region_alone.mp hl
    exact Laid.leaf_iff.mpr ⟨hlo, hpos, hhi⟩
  · have hp : LaysAt text true s s.current.span.offset [] specifiersPieces
        (Grammar.specifiers importSpecifier) := specifiers s
    exact .bind_opens true (consumes_read 0) (fun _ => Token.isEnd_of_isMark h) hp fun _ => .done rfl

instance : Lays text (fun x => Piece.maybe Piece.identifier x.1 ++ x.2.pieces) importClause := by
  refine .of_steps fun _ => .from_here <| .skim fun _ => .skim fun _ => .ite (.bind fun _ => .done rfl) ?_
  exact .bind fun _ => .skim fun _ => .ite (.bind fun _ => .done rfl) (.done rfl)

theorem importDeclaration (s : State) :
    LaysAt text true s s.current.span.offset [] Piece.of Grammar.importDeclaration := by
  refine .noting fun start => .skim fun _ => .skim fun _ => ?_
  have hrest (defaultName : Option Identifier) (bindings : ImportBindings) :
      LaysFrom text true start.offset (Piece.maybe Piece.identifier defaultName ++ bindings.pieces)
        Piece.of (do
          let source ← moduleSpecifier
          endStatement
          return Statement.import ⟨defaultName, bindings, source, ← spanFrom start⟩) :=
    .bind fun source => .skim fun _ =>
      .closeWithin (ImportDeclaration.mk defaultName bindings source) (fun _ => rfl) fun _ => rfl
  exact .ite (.step (hrest none .none)) (.bind fun clause => .skim fun _ => .step (hrest clause.1 clause.2))

/-! ## Exports -/

instance : Lays text Piece.of exportSpecifier :=
  .of_opens (consumes_read 0) fun _ => .noting fun _ => .bind fun _ => .skim fun _ =>
    .optional fun _ => .close fun _ => rfl

variable {read : Reader} [hr : Reader.Lays text read]

instance : Opens text .everything false read read (exportedDefault read) (exportedDefault read) := by
  unfold exportedDefault
  refine Opens.look_bind fun start => Opens.test_bind inferInstance ?_
  refine Opens.test_bind (Opens.look_bind fun next => inferInstance) (Opens.look_bind fun next => ?_)
  rw [Bool.false_and, if_neg Bool.false_ne_true]
  infer_instance

instance : Lays text Piece.of (exportedDefault read) := by
  refine .of_opens hr.consumes fun _ => .noting fun start => .skim fun _ => .ite ?_ ?_
  · exact .wrap (functionDeclaration ..) fun _ => rfl
  · refine .skim fun _ => .skim fun _ => .ite (.skim fun _ => .wrap (functionDeclaration ..) fun _ => rfl) ?_
    refine .skim fun _ => .ite (.wrap (.last fun _ => rfl) fun _ => rfl) ?_
    exact .bind fun _ => .skim fun _ => .close fun _ => rfl

theorem exportAll (start : Position) :
    LaysFrom text true start.offset [] Piece.of (Grammar.exportAll start) :=
  .skim fun _ => .skim fun _ => .optional fun _ => .skim fun _ => .bind fun _ => .skim fun _ =>
    .close fun _ => rfl

theorem exportNamed (start : Position) (he : s.current.isEnd = false) :
    LaysAt text true s start.offset [] Piece.of (Grammar.exportNamed start) := by
  refine .bind_opens true (consumes_read 0) (fun _ => he) (specifiers s) fun (items, span) => ?_
  refine .skim fun _ => .optional fun source => ?_
  exact .ite (.skim fun _ => .skim fun _ => .close fun _ => rfl) (.skim fun _ => .close fun _ => rfl)

theorem exportDeclaration (s : State) :
    LaysAt text true s s.current.span.offset [] Piece.of (Grammar.exportDeclaration read) := by
  refine .noting fun start => .skim fun _ => .skim fun _ => .ite (.bind fun _ => .close fun _ => rfl) ?_
  refine .skim fun _ => .ite (exportAll start) ⟨fun s => ?_⟩
  refine .testing (b := s.current.isMark .leftBrace) rfl ?_
  refine .ite (fun h => exportNamed start (Token.isEnd_of_isMark h)) (.from_here <| .skim fun _ => ?_)
  exact .ite (.bind fun _ => .close fun _ => rfl) (.failHere _)

end Lays

end Grammar

end EcmaScript
