import EcmaScript.Proofs.Layout.Rules

/-!
# Lowering in the order of the text

The recursion over the concrete tree makes of pieces that stand in the text one behind the other nodes that
do. The proofs go through the tree as the recursion does. Each takes the pieces of its construct out of the
table of pieces, makes a node of one after the other, and puts the node of the construct over the row.

## Contents

* `Lowers.expression`, `Lowers.statement` and the theorems between them, by recursion over the tree.
-/

namespace EcmaScript

open Node (InPlace Row)

namespace Lowering

namespace Lowers

theorem functionName_eq (name : Option Identifier) (parametersSpan : Span) :
    functionName name parametersSpan = nameOr (.name "" (.emptyAt parametersSpan.start)) name := by
  cases name <;> rfl

theorem classDefinition_eq (name : Option Identifier) (heritage : Option Expression)
    (members : List ClassMember) (bodySpan span : Span) :
    Lowering.classDefinition (.mk name heritage members bodySpan span) = (do
      record .classes span.start
      let nameNode ← nameOr (.empty (.emptyAt span.start)) name
      let heritageNode ← loopPart bodySpan heritage
      checkConstructors false (members.filterMap constructor?)
      let nodes ← insideClass (privateNames members) (classMembers members)
      return .branch .classDefinition span
        [nameNode, heritageNode, .branch .classMembers bodySpan nodes]) := by
  rw [Lowering.classDefinition]
  cases name <;> cases heritage <;> simp only [nameOr, loopPart, pure_bind]

variable {Q : Node → Prop} {lo hi : Nat}

/-! ## The recursion -/

-- In every case `h` says that the pieces of the construct stand between the offsets. The hypotheses that
-- are named after constructs are those of the induction; binary operators are the only ones that go down
-- with more operators than they were given.

mutual

theorem expression {pending : List PendingOperator} {role : Role} {lo hi : Nat} {Q : Node → Prop} :
    (e : Expression) → Laid lo e.pieces hi → Passes role pending lo hi Q →
      Gives Q (Lowering.expression pending role e)
  | .binary operator left right span, h, hq => by
      have hright : Lowers .operand right.pieces (Lowering.expression [] .value right) :=
        ⟨fun h => expression right h .stop⟩
      obtain ⟨-, -, hin, -⟩ := Laid.region_alone.mp h
      obtain ⟨mid, -, hleft, -, hr⟩ := Laid.part_iff.mp hin
      rw [Lowering.expression]
      refine .skim fun _ => expression left hleft ⟨nofun, fun {n} hn => ?_⟩
      rw [applyPending]
      refine .skim fun _ => .bind (gives_part hr hright) fun m hm => hq.run ?_
      exact .operand h (.cons hn (.one hm)) (plain_ofBinary operator).1 (plain_ofBinary operator).2
  | .identifier name, h, hq => by
      rw [Lowering.expression]
      exact .skim fun _ => .bind ((lowers_identifier name).run h) fun _ hn => hq.run hn
  | .privateName name, h, hq => by
      rw [Lowering.expression]
      refine .skim fun _ => .ite ?_ ?_
      · exact .bind ((lowers_privateOperand name).run h) fun _ hn => hq.run hn
      · exact .bind ((lowers_misplacedPrivateName name).run h) fun _ hn => hq.run hn
  | .this span, h, hq | .null span, h, hq | .number value span, h, hq | .string literal, h, hq => by
      rw [Lowering.expression]
      exact .skim fun _ => hq.run (.leaf h)
  | .super span, h, hq => by
      rw [Lowering.expression]
      exact .skim fun _ => .skim fun _ => hq.run (.leaf h)
  | .boolean value span, h, hq => by
      rw [Lowering.expression]
      refine .skim fun _ => hq.run ?_
      cases value <;> exact .leaf h
  | .bigint value span, h, hq => by
      rw [Lowering.expression]
      exact .skim fun _ => .bind ((lowers_bigintNode value span).run h) fun _ hn => hq.run hn
  | .regexp pattern flags span, h, hq => by
      rw [Lowering.expression]
      exact .skim fun _ => .bind ((lowers_regexpNode pattern flags span).run h) fun _ hn => hq.run hn
  | .newTarget span, h, hq => by
      rw [Lowering.expression]
      exact .skim fun _ => .skim fun _ => .ite (.skim fun _ => hq.run (.leaf h))
        (.skim fun _ => .skim fun _ => hq.run (.leaf h))
  | .importMeta span, h, hq => by
      rw [Lowering.expression]
      exact .skim fun _ => .skim fun _ => .skim fun _ => hq.run (.leaf h)
  | .template texts substitutions span, h, hq => by
      rw [Lowering.expression]
      exact .skim fun _ => .skim fun _ => (Gathers.inside .operand h).all
        (template false texts substitutions) fun _ hrow => hq.run (.operand h hrow)
  | .taggedTemplate tag texts substitutions templateSpan span, h, hq => by
      rw [Lowering.expression]
      refine .skim fun _ => (Gathers.inside .operand h).part ⟨fun h => expression tag h .stop⟩ fun _ hg => ?_
      refine .skim fun _ => .bind ((template true texts substitutions).run templateSpan.offset_le_stop hg.opened)
        fun _ hrow => hq.run ?_
      exact .operand h (hg.put (InPlace.operand (n := .branch .template templateSpan _) hg.alone hrow)).row
  | .array elements trailingComma span, h, hq => by
      rw [Lowering.expression]
      refine .skim fun _ => ?_
      split
      next kind hrole =>
        refine .skim fun _ => (Gathers.inside .part h).all (arrayPattern kind trailingComma elements)
          fun _ hrow => hq.pattern ?_ (.operand h hrow)
        rintro rfl
        cases hrole
      next =>
        exact .note fun _ => (Gathers.inside .part h).all (arrayLiteral elements)
          fun _ hrow => hq.run (.operand h hrow)
  | .object properties trailingComma span, h, hq => by
      rw [Lowering.expression]
      refine .skim fun _ => ?_
      split
      next kind hrole =>
        refine .skim fun _ => (Gathers.inside .operand h).all (objectPattern kind properties)
          fun _ hrow => hq.pattern ?_ (.operand h hrow)
        rintro rfl
        cases hrole
      next =>
        exact .note fun _ => (Gathers.inside .operand h).all (objectLiteral properties)
          fun _ hrow => hq.run (.operand h hrow)
  | .function f, h, hq => by
      rw [Lowering.expression]
      exact .skim fun _ => .bind (gives_part h (function f)) fun _ hn => hq.run hn
  | .classExpression c, h, hq => by
      rw [Lowering.expression]
      exact .skim fun _ => .bind (gives_part h (classDefinition c)) fun _ hn => hq.run hn
  | .unary operator argument span, h, hq => by
      rw [Lowering.expression]
      refine .skim fun _ => .skim fun _ => (Gathers.inside .operand h).part
        ⟨fun h => expression argument h .stop⟩ fun _ hg => hq.run ?_
      exact .operand h hg.row (plain_ofUnary operator).1 (plain_ofUnary operator).2
  | .update increment afterOperand argument span, h, hq => by
      rw [Lowering.expression]
      refine .skim fun _ => .skim fun _ => (Gathers.inside .operand h).part
        ⟨fun h => expression argument h .stop⟩ fun _ hg => hq.run ?_
      cases increment <;> exact .operand h hg.row
  | .await argument span, h, hq => by
      rw [Lowering.expression]
      exact .skim fun _ => .skim fun _ => (Gathers.inside .operand h).pass.part
        ⟨fun h => expression argument h .stop⟩ fun _ hg => hq.run (.operand h hg.row)
  | .dynamicImport argument span, h, hq => by
      rw [Lowering.expression]
      exact .skim fun _ => .skim fun _ => (Gathers.inside .operand h).part
        ⟨fun h => expression argument h .stop⟩ fun _ hg => hq.run (.operand h hg.row)
  | .paren argument span, h, hq => by
      obtain ⟨hlo, -, hin, hhi⟩ := Laid.region_alone.mp h
      rw [Lowering.expression]
      refine .skim fun _ => .bind (gives_part hin ⟨fun h => expression argument h .stop⟩) fun _ hn => ?_
      exact hq.run ((hn.mono hlo hhi).mark _)
  | .assignment operator left right span, h, hq => by
      have hleft (role : Role) : Lowers .operand left.pieces (Lowering.expression [] role left) :=
        ⟨fun h => expression left h .stop⟩
      have hright : Lowers .operand right.pieces (Lowering.expression [] .value right) :=
        ⟨fun h => expression right h .stop⟩
      have hg := Gathers.inside .operand h
      rw [Lowering.expression.eq_def]
      refine .skim fun _ => ?_
      dsimp only
      split
      · refine hg.part (hleft _) fun _ hg => hg.part hright fun _ hg => hq.pattern nofun ?_
        exact .withDefault h hg.row
      · refine .skim fun _ => hg.part (hleft _) fun _ hg => hg.part hright fun _ hg => .skim fun _ => ?_
        exact hq.pattern nofun (.withDefault h hg.row)
      · obtain ⟨hlo, -, hin, hhi⟩ := Laid.region_alone.mp h
        obtain ⟨mid, -, hl, hmid, -⟩ := Laid.part_iff.mp hin
        rw [← bind_pure (Lowering.expression [] _ left)]
        exact .bind ((hleft _).run hl) fun _ hn => hq.pattern nofun (hn.mono hlo (Nat.le_trans hmid hhi))
      · have hvalue (target : Node) (hg : Gathers .operand span.offset [target] (Piece.of right) span.stop) :
            Gives Q (do
              recordAssignment operator span
              let value ← Lowering.expression [] .value right
              Lowering.applyPending pending (.branch (.ofAssignment operator) span [target, value])) :=
          .skim fun _ => hg.part hright fun _ hg => hq.run (.operand h hg.row
            (plain_ofAssignment operator).1 (plain_ofAssignment operator).2)
        refine .ite (hg.part (hleft _) fun target hg => hvalue target hg) (.skim fun _ => ?_)
        exact hg.part (hleft _) fun target hg => hvalue target hg
  | .conditional test consequent alternate span, h, hq => by
      rw [Lowering.expression]
      refine .skim fun _ => (Gathers.inside .operand h).part ⟨fun h => expression test h .stop⟩ fun _ hg => ?_
      refine hg.part ⟨fun h => expression consequent h .stop⟩ fun _ hg => ?_
      exact hg.part ⟨fun h => expression alternate h .stop⟩ fun _ hg => hq.run (.operand h hg.row)
  | .sequence [] span, h, _ => by
      obtain ⟨-, hlen, -⟩ := Laid.leaf_iff.mp h
      cases hlen
  | .sequence (e :: es) span, h, hq => by
      obtain ⟨hlo, -, -, hhi⟩ := Laid.region_alone.mp h
      rw [Lowering.expression, Lowering.expressions]
      simp only [bind_assoc, pure_bind]
      refine .skim fun _ => (Gathers.inside .operand h).part ⟨fun h => expression e h .stop⟩ fun _ hg => ?_
      exact hg.all (expressions es) fun _ hrow => hq.run ((stands_commaNode hrow).mono hlo hhi)
  | .member receiver property optional span, h, hq => by
      obtain ⟨mid, -, hr, -, hname⟩ := Laid.part_iff.mp h
      rw [Lowering.expression]
      refine .skim fun _ => .note fun _ => .bind (expression receiver hr .stop) fun _ hn => ?_
      exact .bind (gives_memberNode _ _ _ hn hname) fun _ hn => hq.run hn
  | .computedMember receiver key optional span, h, hq => by
      rw [Lowering.expression]
      refine .skim fun _ => .note fun _ => (Gathers.inside .operand h).part
        ⟨fun h => expression receiver h .stop⟩ fun _ hg => ?_
      refine hg.part ⟨fun h => expression key h .stop⟩ fun _ hg => hq.run ?_
      unfold elementNode
      cases (chainPlace receiver optional).inChain <;> exact .operand h hg.row
  | .call callee items trailingComma optional span, h, hq => by
      rw [Lowering.expression]
      refine .skim fun _ => .note fun _ => (Gathers.inside .operand h).part
        ⟨fun h => expression callee h .stop⟩ fun _ hg => ?_
      refine hg.all (expressions items) fun _ hrow => hq.run ?_
      cases (chainPlace callee optional).inChain <;> exact .operand h hrow
  | .construction callee items trailingComma span, h, hq => by
      rw [Lowering.expression]
      refine .skim fun _ => (Gathers.inside .operand h).part ⟨fun h => expression callee h .stop⟩
        fun _ hg => ?_
      exact hg.all (expressions items) fun _ hrow => hq.run (.operand h hrow)
  | .spread argument span, h, hq => by
      have hargument (role : Role) : Lowers .operand argument.pieces (Lowering.expression [] role argument) :=
        ⟨fun h => expression argument h .stop⟩
      have hg := Gathers.inside .operand h
      rw [Lowering.expression.eq_def]
      refine .skim fun _ => ?_
      dsimp only
      split
      · have hrest : Gives Q (do
            let target ← Lowering.expression [] (.target .binding) argument
            return .branch .iterRest span [target]) :=
          hg.part (hargument _) fun _ hg => hq.pattern nofun (.operand h hg.row)
        exact .skim fun _ => .ite (.note fun _ => hrest) (.note fun _ => hrest)
      · exact .skim fun _ => hg.part (hargument _) fun _ hg => hq.run (.operand h hg.row)
  | .yield argument delegates span, h, hq => by
      have hrest : Gives Q (do
          let operand ← Lowering.optional argument
          Lowering.applyPending pending { kind := .yield, children := operand, span, flags := { delegates } }) :=
        (Gathers.inside .operand h).all (optional argument) fun _ hrow => hq.run (.operand h hrow)
      rw [Lowering.expression]
      exact .skim fun _ => .skim fun _ => .ite hrest (.skim fun _ => hrest)

theorem expressions : (es : List Expression) → LowersAll .operand (Piece.each es) (Lowering.expressions es)
  | [] => by
      rw [Lowering.expressions]
      exact LowersAll.nil
  | e :: rest => by
      rw [Lowering.expressions]
      exact LowersAll.cons ⟨fun h => expression e h .stop⟩ (expressions rest)

theorem optional : (e : Option Expression) →
    LowersAll .operand (Piece.maybe Piece.of e) (Lowering.optional e)
  | none => by
      rw [Lowering.optional]
      exact LowersAll.nil
  | some e => by
      rw [Lowering.optional]
      exact LowersAll.one ⟨fun h => expression e h .stop⟩

theorem present : (e : Option Expression) → ∀ role, ∀ a ∈ e,
    Lowers .operand a.pieces (Lowering.expression [] role a)
  | some e, _, _, rfl => ⟨fun h => expression e h .stop⟩

theorem template (tagged : Bool) (texts : List TemplateText) : (es : List Expression) →
    LowersAll .operand (Piece.template texts es) (Lowering.template tagged texts es)
  | [] => by
      have hpieces : Piece.template texts [] = texts.flatMap fun t => [.leaf t.span] := by
        unfold Piece.template
        exact List.map_eq_flatMap
      rw [Lowering.template, hpieces]
      exact LowersAll.mapM texts (lowers_templateText tagged)
  | e :: rest => by
      refine ⟨fun {lo hi} hle h => ?_⟩
      cases texts with
      | nil =>
          rw [Lowering.template]
          exact .pure (.nil hle)
      | cons text texts =>
          have hg := Gathers.start .operand hle h
          rw [Lowering.template]
          refine hg.token (lowers_templateText tagged text) fun _ hg => ?_
          obtain ⟨mid, hrow, hlaid, -⟩ := hg
          obtain ⟨next, -, he, hnext, hrest⟩ := Laid.part_iff.mp hlaid
          -- a substitution covers its expression
          obtain ⟨hlo, hlen, hhi, hfill⟩ := Laid.expression e he
          refine .bind (expression e hfill .stop) fun _ hn => ?_
          have hsubstitution := InPlace.of_row (n := .branch .templateSubstitution e.span _) (g := .operand)
            hlo hhi (.one hn) ⟨hlen, rfl⟩
          refine .bind ((template tagged texts rest).run hnext hrest) fun _ hns => .pure ?_
          exact hrow.append (.cons hsubstitution hns)

theorem arrayLiteral : (items : List ArrayElement) →
    LowersAll .part (Piece.each items) (Lowering.arrayLiteral items)
  | [] => by
      rw [Lowering.arrayLiteral]
      exact LowersAll.nil
  | .hole span :: rest => by
      refine ⟨fun {lo hi} hle h => ?_⟩
      obtain ⟨mid, -, hole, hmid, hrest⟩ := Laid.part_iff.mp h
      rw [Lowering.arrayLiteral]
      exact gives_cons (stands_hole hole) ((arrayLiteral rest).run hmid hrest)
  | .item e :: rest => by
      rw [Lowering.arrayLiteral]
      exact LowersAll.cons (Lowers.alone ⟨fun h => expression e h .stop⟩) (arrayLiteral rest)
  | .spread argument span :: rest => by
      refine ⟨fun {lo hi} hle h => ?_⟩
      obtain ⟨mid, -, hs, hmid, hrest⟩ := Laid.part_iff.mp h
      rw [Lowering.arrayLiteral]
      refine .skim fun _ => (Gathers.inside .operand hs).part ⟨fun h => expression argument h .stop⟩
        fun _ hg => ?_
      exact gives_cons (.weaken (.operand hs hg.row)) ((arrayLiteral rest).run hmid hrest)

theorem arrayPattern (kind : TargetKind) (trailingComma : Bool) : (items : List ArrayElement) →
    LowersAll .part (Piece.each items) (Lowering.arrayPattern kind trailingComma items)
  | [] => by
      rw [Lowering.arrayPattern]
      exact LowersAll.nil
  | .hole span :: rest => by
      refine ⟨fun {lo hi} hle h => ?_⟩
      obtain ⟨mid, -, hole, hmid, hrest⟩ := Laid.part_iff.mp h
      rw [Lowering.arrayPattern]
      exact gives_cons (stands_hole hole) ((arrayPattern kind trailingComma rest).run hmid hrest)
  | .item e :: rest => by
      rw [Lowering.arrayPattern]
      exact LowersAll.cons (Lowers.alone ⟨fun h => expression e h .stop⟩)
        (arrayPattern kind trailingComma rest)
  | .spread argument span :: rest => by
      refine ⟨fun {lo hi} hle h => ?_⟩
      obtain ⟨mid, -, hs, hmid, hrest⟩ := Laid.part_iff.mp h
      rw [Lowering.arrayPattern]
      refine .skim fun _ => .skim fun _ => (Gathers.inside .operand hs).part
        ⟨fun h => expression argument h .stop⟩ fun _ hg => ?_
      exact gives_cons (.weaken (.operand hs hg.row)) ((arrayPattern kind trailingComma rest).run hmid hrest)

theorem objectLiteral : (items : List Property) →
    LowersAll .operand (Piece.each items) (Lowering.objectLiteral items)
  | [] => by
      rw [Lowering.objectLiteral]
      exact LowersAll.nil
  | .keyValue key value span :: rest => by
      have hvalue : Lowers .operand value.pieces (Lowering.expression [] .value value) :=
        ⟨fun h => expression value h .stop⟩
      have hrest := objectLiteral rest
      have hkey := keyExpression key
      refine ⟨fun {lo hi} hle h => ?_⟩
      obtain ⟨mid, -, hp, hmid, hlaid⟩ := Laid.part_iff.mp h
      have hkeyed {name : KeyName} (hname : ∃ inner, key.pieces = [.region name.span inner]) :
          Gives (fun node => InPlace .operand lo (name.node .stringKey node) mid)
            (Lowering.expression [] .value value) := gives_keyed hp hname hvalue
      cases key with
      | computed e s =>
          rw [Lowering.keyExpression] at hkey
          rw [Lowering.objectLiteral]
          refine .skim fun _ => (Gathers.inside .operand hp).part (Lowers.within (hkey e s rfl))
            fun _ hg => hg.part hvalue fun _ hg => ?_
          exact gives_cons (.operand hp hg.row) (hrest.run hmid hlaid)
      | _ =>
          rw [Lowering.objectLiteral]
          · exact .bind (gives_keyName _) fun _ hname => .bind (hkeyed hname) fun _ hn =>
              gives_cons hn (hrest.run hmid hlaid)
          · nofun
  | .shorthand name default span :: rest => by
      have hvalue := optional default
      have hrest := objectLiteral rest
      refine ⟨fun {lo hi} hle h => ?_⟩
      obtain ⟨mid, -, hp, hmid, hlaid⟩ := Laid.part_iff.mp h
      have hnode : Gives (Row .operand lo · hi) (do
          let value ← Lowering.optional default
          let node := if value.isEmpty then .name name.name name.span
            else .branch .defaultValue span (.name name.name name.span :: value)
          return shorthandNode name node :: (← Lowering.objectLiteral rest)) :=
        .bind (gives_shorthand hp hvalue) fun _ hn => gives_cons hn (hrest.run hmid hlaid)
      rw [Lowering.objectLiteral]
      refine .skim fun _ => .skim fun _ => .note fun _ => .bind (gives_identifier name) fun | _, rfl => ?_
      cases default with
      | none => exact hnode
      | some value => exact .skim fun _ => hnode
  | .method key f span :: rest => by
      rw [Lowering.objectLiteral]
      exact LowersAll.cons
        (lowers_objectMethodNode (function f) (kind_function f) (keyExpression key)) (objectLiteral rest)
  | .spread argument span :: rest => by
      refine ⟨fun {lo hi} hle h => ?_⟩
      obtain ⟨mid, -, hs, hmid, hrest⟩ := Laid.part_iff.mp h
      rw [Lowering.objectLiteral]
      refine .skim fun _ => (Gathers.inside .operand hs).part ⟨fun h => expression argument h .stop⟩
        fun _ hg => ?_
      exact gives_cons (.operand hs hg.row) ((objectLiteral rest).run hmid hrest)

theorem objectPattern (kind : TargetKind) : (items : List Property) →
    LowersAll .operand (Piece.each items) (Lowering.objectPattern kind items)
  | [] => by
      rw [Lowering.objectPattern]
      exact LowersAll.nil
  | .keyValue key value span :: rest => by
      have hvalue : Lowers .operand value.pieces (Lowering.expression [] (.entry kind) value) :=
        ⟨fun h => expression value h .stop⟩
      have hrest := objectPattern kind rest
      have hkey := keyExpression key
      refine ⟨fun {lo hi} hle h => ?_⟩
      obtain ⟨mid, -, hp, hmid, hlaid⟩ := Laid.part_iff.mp h
      cases key with
      | computed e s =>
          rw [Lowering.keyExpression] at hkey
          rw [Lowering.objectPattern]
          refine .skim fun _ => (Gathers.inside .operand hp).part (Lowers.within (hkey e s rfl))
            fun _ hg => hg.part hvalue fun _ hg => ?_
          exact gives_cons (.operand hp hg.row) (hrest.run hmid hlaid)
      | _ =>
          rw [Lowering.objectPattern]
          · exact .bind (gives_keyName _) fun _ hname => .bind (gives_keyed hp hname hvalue) fun _ hn =>
              gives_cons hn (hrest.run hmid hlaid)
          · nofun
  | .shorthand name default span :: rest => by
      have hvalue := optional default
      have hrest := objectPattern kind rest
      refine ⟨fun {lo hi} hle h => ?_⟩
      obtain ⟨mid, -, hp, hmid, hlaid⟩ := Laid.part_iff.mp h
      rw [Lowering.objectPattern]
      refine .skim fun _ => .note fun _ => .bind (gives_identifier name) fun | _, rfl => ?_
      exact .bind (gives_shorthand hp hvalue) fun _ hn => gives_cons hn (hrest.run hmid hlaid)
  | .method key f span :: rest => by
      refine ⟨fun {lo hi} hle h => ?_⟩
      obtain ⟨mid, -, hp, hmid, hlaid⟩ := Laid.part_iff.mp h
      rw [Lowering.objectPattern]
      exact .skim fun _ => gives_cons (.leaf hp) ((objectPattern kind rest).run hmid hlaid)
  | .spread argument span :: rest => by
      refine ⟨fun {lo hi} hle h => ?_⟩
      obtain ⟨mid, -, hs, hmid, hrest⟩ := Laid.part_iff.mp h
      rw [Lowering.objectPattern]
      refine .skim fun _ => .skim fun _ => .skim fun _ => (Gathers.inside .operand hs).part
        ⟨fun h => expression argument h .stop⟩ fun _ hg => ?_
      exact gives_cons (.operand hs hg.row) ((objectPattern kind rest).run hmid hrest)

theorem function : (f : Function) → Lowers .operand f.pieces (Lowering.function f)
  | .mk name items trailingComma parametersSpan body kind isAsync isGenerator span => by
      have hitems := fun objected => parameters trailingComma objected items
      have hbody := functionBody body
      refine ⟨fun {lo hi} h => ?_⟩
      have hg := Gathers.inside .part h
      rw [List.append_assoc] at hg
      rw [Lowering.function, functionName_eq]
      refine .skim fun _ => .bind (gives_nameOr name hg fun hg =>
        hg.squeeze (.hollow (Nat.le_refl _) (Nat.le_refl _))) fun nameNode hg => ?_
      refine .bind (R := fun x => Row .part span.offset [nameNode, x.1, x.2] span.stop) (.between ?_)
        fun _ hrow => .pure (.operand h hrow)
      refine .skim fun objected => .bind ((hitems objected).run parametersSpan.offset_le_stop hg.opened)
        fun _ hrow => .bind (gives_parametersNode hg.alone hrow) fun _ hn => ?_
      exact (hg.put hn).last hbody fun _ hrow => .pure hrow

theorem parameters (trailingComma objected : Bool) : (items : List Expression) →
    LowersAll .operand (Piece.each items) (Lowering.parameters trailingComma objected items)
  | [] => by
      rw [Lowering.parameters]
      exact LowersAll.nil
  | e :: rest => by
      rw [Lowering.parameters]
      exact LowersAll.cons ⟨fun h => expression e h .stop⟩ (parameters trailingComma objected rest)

theorem functionBody : (body : FunctionBody) → Lowers .operand body.pieces (Lowering.functionBody body)
  | .block b => by
      rw [Lowering.functionBody]
      exact Lowers.alone (block false b)
  | .expression e => by
      rw [Lowering.functionBody]
      exact Lowers.alone ⟨fun h => expression e h .stop⟩

theorem block (nested : Bool) : (b : Block) → Lowers .operand b.pieces (Lowering.block nested b)
  | .mk items span => by
      have hitems := statements nested items
      refine ⟨fun {lo hi} h => ?_⟩
      rw [Lowering.block]
      exact (Gathers.inside .item h).all hitems fun _ hrow => .pure (.operand h hrow)

theorem statements (nested : Bool) : (items : List Statement) →
    LowersAll .item (Piece.each items) (Lowering.statements nested items)
  | [] => by
      rw [Lowering.statements]
      exact LowersAll.nil
  | s :: rest => by
      refine ⟨fun {lo hi} hle h => ?_⟩
      obtain ⟨mid, -, hs, hmid, hrest⟩ := Laid.part_iff.mp h
      rw [Lowering.statements]
      exact .note fun _ => .bind ((statement s).run hs) fun _ hn =>
        gives_cons hn ((statements nested rest).run hmid hrest)

theorem classDefinition : (c : ClassDefinition) →
    Lowers .operand c.pieces (Lowering.classDefinition c)
  | .mk name heritage members bodySpan span => by
      have hmembers := classMembers members
      have hheritage := present heritage
      refine ⟨fun {lo hi} h => ?_⟩
      have hg := Gathers.inside .part h
      rw [List.append_assoc] at hg
      rw [classDefinition_eq]
      refine .skim fun _ => .bind (gives_nameOr name hg fun hg => hg.hollow fun hrow =>
        .hollow (Nat.le_refl _) hrow.le) fun _ hg => ?_
      refine .bind (gives_loopPart hheritage hg fun hg =>
        hg.squeeze (.hollow (Nat.le_refl _) (Nat.le_refl _))) fun _ hg => ?_
      refine .skim fun _ => .bind (.between (hmembers.run bodySpan.offset_le_stop hg.opened))
        fun nodes hrow => .pure ?_
      exact .operand h (hg.put (InPlace.operand (n := .branch .classMembers bodySpan nodes) hg.alone hrow)).row

theorem classMembers : (members : List ClassMember) →
    LowersAll .operand (Piece.each members) (Lowering.classMembers members)
  | [] => by
      rw [Lowering.classMembers]
      exact LowersAll.nil
  | member :: rest => by
      rw [Lowering.classMembers]
      exact LowersAll.cons (classMember member) (classMembers rest)

theorem classMember : (member : ClassMember) →
    Lowers .operand member.pieces (Lowering.classMember member)
  | .method key f isStatic span => by
      have hm : Lowers .operand [.region span (Piece.of key ++ Piece.of f)] (classMethodNode key f.kind span
          (Lowering.keyExpression key) (Lowering.function f)) :=
        lowers_classMethodNode (function f) (kind_function f) (keyExpression key)
      refine ⟨fun {lo hi} h => ?_⟩
      rw [Lowering.classMember]
      exact .bind (hm.run h) fun _ hn => .pure (hn.mark _)
  | .field key value isStatic span => by
      have hvalue := present value
      have hkey := keyExpression key
      refine ⟨fun {lo hi} h => ?_⟩
      obtain ⟨hlo, hlen, hin, hhi⟩ := Laid.region_alone.mp h
      obtain ⟨mid, hmid, hk, hle, hv⟩ := Laid.part_iff.mp hin
      have hnode {node : Node} {values : List Node}
          (hn : (node.kind = .memberFieldDef ∨ node.kind = .computedFieldDef) ∧ node.span = span ∧
            Row .operand span.offset node.children mid) (hvalues : Row .operand mid values span.stop) :
          InPlace .operand lo
            ({ node with children := node.children ++ values }.mark ({ · with isStatic })) hi := by
        obtain ⟨hkind, rfl, hrow⟩ := hn
        have hrow := hrow.append hvalues
        rcases hkind with hk | hk
        · exact (InPlace.operand (n := { node with children := node.children ++ values }) h hrow
            (by rw [hk]; rfl) (by rw [hk]; rfl)).mark _
        · exact (InPlace.operand (n := { node with children := node.children ++ values }) h hrow
            (by rw [hk]; rfl) (by rw [hk]; rfl)).mark _
      rw [Lowering.classMember]
      refine .bind (gives_classFieldNode hkey hmid hk) fun node hn => ?_
      cases value with
      | none => exact .pure (hnode hn (.nil hle))
      | some e => exact .bind (.between (gives_part hv (hvalue _ e rfl))) fun _ hv => .pure (hnode hn (.one hv))
  | .staticBlock (.mk items span) => by
      have hitems := statements false items
      refine ⟨fun {lo hi} h => ?_⟩
      obtain ⟨mid, hlo, hb, hmid, -⟩ := Laid.part_iff.mp h
      obtain ⟨-, -, hin, -⟩ := Laid.region_alone.mp hb
      rw [Lowering.classMember]
      refine .skim fun _ => .bind (.between (hitems.run span.offset_le_stop hin)) fun _ hrow => .pure ?_
      exact (InPlace.operand hb hrow).mono (Nat.le_refl _) hmid

theorem keyExpression : (key : PropertyKey) → LowersKey key (Lowering.keyExpression key)
  | .computed e span => by
      intro _ _ he
      cases he
      rw [Lowering.keyExpression]
      exact ⟨fun h => expression e h .stop⟩
  | .name _ | .hidden _ | .string _ | .number _ _ | .bigint _ _ => nofun

theorem declaration (loop : Option String) : (d : Declaration) →
    Lowers .operand d.pieces (Lowering.declaration loop d)
  | .mk kind declarators span => by
      have hd := declaratorList kind loop declarators
      refine ⟨fun {lo hi} h => ?_⟩
      rw [Lowering.declaration]
      refine .bind (gives_declarationKind kind span) fun nodeKind hk => ?_
      exact (Gathers.inside .operand h).all hd fun _ hrow => .pure (.operand h hrow hk.1 hk.2)

theorem declaratorList (kind : VariableKind) (loop : Option String) : (items : List Declarator) →
    LowersAll .operand (Piece.each items) (Lowering.declaratorList kind loop items)
  | [] => by
      rw [Lowering.declaratorList]
      exact LowersAll.nil
  | .mk target value span :: rest => by
      have hvalue := optional value
      refine ⟨fun {lo hi} hle h => ?_⟩
      obtain ⟨mid, -, hd, hmid, hrest⟩ := Laid.part_iff.mp h
      obtain ⟨-, -, hin, -⟩ := Laid.region_alone.mp hd
      obtain ⟨next, -, ht, hnext, hv⟩ := Laid.part_iff.mp hin
      have htarget : Gives (fun n => isIdentifier target = true → n.kind = .identifier)
          (Lowering.expression [] (.target .binding) target) := fun s h => kind_expression h _ s
      rw [Lowering.declaratorList]
      refine .skim fun _ => .bind (.and (expression target ht .stop) htarget) fun _ ⟨hn, hk⟩ => ?_
      refine .bind (hvalue.run hnext hv) fun _ hrow => ?_
      exact gives_cons (stands_declaratorNode hd (.cons hn hrow) hk)
        ((declaratorList kind loop rest).run hmid hrest)

theorem loopTarget (loop : String) : (head : LoopHead) →
    Lowers .operand head.pieces (Lowering.loopTarget loop head)
  | .declaration d => by
      have hd := declaration (some loop) d
      rw [Lowering.loopTarget]
      exact ⟨fun h => .skim fun _ => gives_part h hd⟩
  | .expression e => by
      rw [Lowering.loopTarget]
      exact .alone ⟨fun h => expression e h .stop⟩

theorem switchCases : (cases : List SwitchCase) →
    LowersAll .operand (Piece.each cases) (Lowering.switchCases cases)
  | [] => by
      rw [Lowering.switchCases]
      exact LowersAll.nil
  | .mk test items span :: rest => by
      have htest := optional test
      have hitems := statements true items
      refine ⟨fun {lo hi} hle h => ?_⟩
      obtain ⟨mid, -, hc, hmid, hrest⟩ := Laid.part_iff.mp h
      obtain ⟨-, -, hin, -⟩ := Laid.region_alone.mp hc
      obtain ⟨next, hlo, hnext, ht, hi⟩ := hin.of_append span.offset_le_stop
      rw [Lowering.switchCases]
      refine .bind (gives_caseSpan hi) fun r hr => .bind (gives_caseBody hitems hnext hr) fun _ hbody => ?_
      refine .bind (htest.run hlo ht) fun _ hrow => gives_cons ?_ ((switchCases rest).run hmid hrest)
      have hrow := hrow.weaken.append (.one hbody)
      cases test <;> exact .operand hc hrow

theorem catchClause : (clause : CatchClause) →
    Lowers .operand clause.pieces (Lowering.catchClause clause)
  | .mk binding gap body span => by
      have hbinding := present binding
      have hbody := block true body
      refine ⟨fun {lo hi} h => ?_⟩
      have hg := Gathers.inside .part h
      have hclause {target bodyNode : Node} (hrow : Row .part span.offset [target, bodyNode] span.stop) :
          InPlace .operand lo (.branch .block span [.branch .catchClause span [target, bodyNode]]) hi := by
        obtain ⟨-, hlen, hin, -⟩ := Laid.region_alone.mp h
        have hfull := Laid.region_alone.mpr ⟨Nat.le_refl _, hlen, hin, Nat.le_refl _⟩
        have hclause := InPlace.operand (n := .branch .catchClause span [target, bodyNode]) hfull hrow
        exact .operand h (.one hclause)
      cases binding with
      | some e =>
          rw [Lowering.catchClause]
          exact hg.skip.part (hbinding _ e rfl) fun _ hg => hg.part hbody fun _ hg =>
            .pure (hclause hg.row)
      | none =>
          have hblank : InPlace .part gap.offset (.empty gap) gap.stop :=
            .blank (Nat.le_refl _) (Nat.le_refl _)
          rw [Lowering.catchClause]
          refine .skim fun _ => .bind (Gives.pure (P := (· = Node.empty gap)) rfl) fun | _, rfl => ?_
          exact (hg.fill hblank).part hbody fun _ hg => .pure (hclause hg.row)

theorem statement : (s : Statement) → Lowers .item s.pieces (Lowering.statement s)
  | .empty span | .debugger span => by
      refine ⟨fun {lo hi} h => ?_⟩
      rw [Lowering.statement]
      exact .pure (.weaken (.leaf h))
  | .error span => by
      refine ⟨fun {lo hi} h => ?_⟩
      obtain ⟨hlo, hhi, -⟩ := Laid.gap_iff.mp h
      rw [Lowering.statement]
      exact .pure (.weaken (.blank hlo hhi))
  | .continue label span => by
      rw [Lowering.statement]
      exact lowers_continueNode label span
  | .break label span => by
      rw [Lowering.statement]
      exact lowers_breakNode label span
  | .import d => by
      rw [Lowering.statement]
      exact (Lowers.alone (lowers_importNode d)).weaken
  | .exportNamed specifiers specifiersSpan source span => by
      refine ⟨fun {lo hi} h => ?_⟩
      rw [Lowering.statement]
      exact .skim fun _ => .pure (stands_exportNamedNode h)
  | .exportAll name source span => by
      refine ⟨fun {lo hi} h => ?_⟩
      rw [Lowering.statement]
      exact .skim fun _ => .pure (stands_exportAllNode h)
  | .block b => by
      rw [Lowering.statement]
      exact (Lowers.alone (block true b)).weaken
  | .variable d => by
      rw [Lowering.statement]
      exact (Lowers.alone (declaration none d)).weaken
  | .function f => by
      rw [Lowering.statement]
      exact (Lowers.alone (function f)).weaken
  | .classDeclaration c => by
      rw [Lowering.statement]
      exact (Lowers.alone (classDefinition c)).weaken
  | .expression e span | .throw e span => by
      refine ⟨fun {lo hi} h => ?_⟩
      rw [Lowering.statement]
      exact (Gathers.inside .operand h).part ⟨fun h => expression e h .stop⟩ fun _ hg => .pure (.item h hg.row)
  | .conditional test consequent alternate span => by
      have hconsequent := lowers_bodyNode (statement consequent)
      refine ⟨fun {lo hi} h => ?_⟩
      cases alternate with
      | none =>
          rw [Lowering.statement]
          refine (Gathers.inside .part h).part ⟨fun h => expression test h .stop⟩ fun _ hg => ?_
          exact hg.part hconsequent fun _ hg => .pure (.item h hg.row)
      | some other =>
          have hother := lowers_bodyNode (statement other)
          rw [Lowering.statement]
          refine (Gathers.inside .part h).part ⟨fun h => expression test h .stop⟩ fun _ hg => ?_
          exact hg.part hconsequent fun _ hg => hg.part hother fun _ hg => .pure (.item h hg.row)
  | .doWhile body e span => by
      have hbody := lowers_bodyNode (statement body)
      refine ⟨fun {lo hi} h => ?_⟩
      rw [Lowering.statement]
      refine (Gathers.inside .part h).part ⟨fun h => .between (hbody.run h)⟩ fun _ hg => ?_
      exact hg.part ⟨fun h => expression e h .stop⟩ fun _ hg => .pure (.item h hg.row)
  | .while e body span => by
      have hbody := lowers_bodyNode (statement body)
      refine ⟨fun {lo hi} h => ?_⟩
      rw [Lowering.statement]
      refine (Gathers.inside .part h).part ⟨fun h => expression e h .stop⟩ fun _ hg => ?_
      exact hg.part ⟨fun h => .between (hbody.run h)⟩ fun _ hg => .pure (.item h hg.row)
  | .with e body span => by
      have hbody := lowers_bodyNode (statement body)
      refine ⟨fun {lo hi} h => ?_⟩
      rw [Lowering.statement]
      refine (Gathers.inside .part h).part ⟨fun h => expression e h .stop⟩ fun _ hg => ?_
      exact hg.part hbody fun _ hg => .pure (.item h hg.row)
  | .for head test update body span => by
      have htest := present test
      have hupdate := present update
      have hbody := lowers_bodyNode (statement body)
      refine ⟨fun {lo hi} h => ?_⟩
      have hg := (Gathers.inside .part h).pass
      simp only [List.append_assoc] at hg
      have hmissing {ns : List Node} {ps : List Piece} (hg : Gathers .part span.offset ns ps span.stop) :
          Gathers .part span.offset (ns ++ [.empty (.emptyAt span.start)]) ps span.stop :=
        hg.hollow fun hrow => .hollow (Nat.le_refl _) hrow.le
      have hrest (headNode : Node) (hg : Gathers .part span.offset [headNode]
          (Piece.maybe Piece.of test ++ (Piece.maybe Piece.of update ++ Piece.of body)) span.stop) :
          Gives (InPlace .item lo · hi) (do
            let testNode ← Lowering.loopPart span test
            let updateNode ← Lowering.loopPart span update
            let bodyN ← insideLoop (bodyNode body (Lowering.statement body))
            return .branch .forLoop span [headNode, testNode, updateNode, bodyN]) := by
        refine .bind (gives_loopPart htest hg hmissing) fun _ hg => ?_
        refine .bind (gives_loopPart hupdate hg hmissing) fun _ hg => ?_
        exact hg.part ⟨fun h => .between (hbody.run h)⟩ fun _ hg => .pure (.item h hg.row)
      match head with
      | some (.declaration d) =>
          rw [Lowering.statement]
          exact hg.part (.alone (declaration none d)) fun _ hg => hrest _ hg
      | some (.expression e) =>
          rw [Lowering.statement]
          exact hg.part (.alone ⟨fun h => expression e h .stop⟩) fun _ hg => hrest _ hg
      | none =>
          rw [Lowering.statement]
          refine .bind (Gives.pure (P := (· = Node.empty (.emptyAt span.start))) rfl) ?_
          exact fun | _, rfl => hrest _ (hmissing hg)
  | .forIn head e body span => by
      have hbody := lowers_bodyNode (statement body)
      refine ⟨fun {lo hi} h => ?_⟩
      rw [Lowering.statement]
      refine (Gathers.inside .part h).pass.part (loopTarget _ head) fun _ hg => ?_
      refine hg.part ⟨fun h => expression e h .stop⟩ fun _ hg => ?_
      exact hg.part ⟨fun h => .between (hbody.run h)⟩ fun _ hg => .pure (.item h hg.row)
  | .forOf head e body isAwait span => by
      have hbody := lowers_bodyNode (statement body)
      refine ⟨fun {lo hi} h => ?_⟩
      rw [Lowering.statement]
      refine .bind (gives_valueLoopKind isAwait span) fun kind hk => ?_
      refine (Gathers.inside .part h).pass.part (loopTarget _ head) fun _ hg => ?_
      refine hg.part ⟨fun h => expression e h .stop⟩ fun _ hg => ?_
      refine hg.part ⟨fun h => .between (hbody.run h)⟩ fun _ hg => .pure ?_
      exact .item h hg.row hk.1
  | .return argument span => by
      have hargument := optional argument
      refine ⟨fun {lo hi} h => ?_⟩
      have hrest : Gives (InPlace .item lo · hi) (do
          return Node.branch .returnJump span (← Lowering.optional argument)) :=
        (Gathers.inside .operand h).all hargument fun _ hrow => .pure (.item h hrow)
      rw [Lowering.statement]
      exact .skim fun _ => .ite hrest (.skim fun _ => hrest)
  | .switch discriminant cases span => by
      have hcases := switchCases cases
      refine ⟨fun {lo hi} h => ?_⟩
      rw [Lowering.statement]
      refine (Gathers.inside .operand h).part ⟨fun h => expression discriminant h .stop⟩ fun _ hg => ?_
      obtain ⟨mid, hrow, hlaid, hle⟩ := hg
      exact .bind (.between (hcases.run hle hlaid)) fun _ hc => .pure (.item h (hrow.append hc))
  | .labeled label body span => by
      have hbody := statement body
      refine ⟨fun {lo hi} h => ?_⟩
      have hg := Gathers.inside .item h
      have hg := hg.put (stands_labelNode hg.alone)
      rw [Lowering.statement]
      exact hg.part ⟨fun h => .insideLabel (hbody.run h)⟩ fun _ hg => .pure (.item h hg.row)
  | .try (.mk items blockSpan) handler finalizer span => by
      have hitems := statements true items
      refine ⟨fun {lo hi} h => ?_⟩
      obtain ⟨-, -, hin, -⟩ := Laid.region_alone.mp h
      rw [List.append_assoc] at hin
      have hg := Gathers.start .part span.offset_le_stop hin.unwrap
      have hrest (blockN catchN : Node) (hg : Gathers .part span.offset [blockN, catchN]
          (Piece.maybe Piece.of finalizer) span.stop) :
          Gives (InPlace .item lo · hi) (do
            let finallyN ← match finalizer with
              | some b => do pure [← Lowering.block true b]
              | none => pure []
            return .branch .tryBranch span (blockN :: catchN :: finallyN)) := by
        cases finalizer with
        | none => exact .pure (.item h hg.row)
        | some b => exact hg.part (block true b) fun _ hg => .pure (.item h hg.row)
      cases handler with
      | none =>
          rw [Lowering.statement]
          refine .bind (hitems.run blockSpan.offset_le_stop hg.opened) fun ns hrow => ?_
          have hg := hg.put (InPlace.operand (n := .branch .block blockSpan ns) hg.alone hrow)
          refine .bind (gives_emptySpanAt blockSpan.stop) fun r ⟨hlen, hstop⟩ => hrest _ _ ?_
          exact hg.hollow fun hrow => .hollow (Nat.le_refl _)
            (Nat.le_trans hstop (hrow.stop_le List.mem_cons_self)) hlen
      | some clause =>
          rw [Lowering.statement]
          refine .bind (hitems.run blockSpan.offset_le_stop hg.opened) fun ns hrow => ?_
          have hg := hg.put (InPlace.operand (n := .branch .block blockSpan ns) hg.alone hrow)
          exact hg.part (catchClause clause) fun _ hg => hrest _ _ hg
  | .exportDeclaration s span => by
      have hs := statement s
      refine ⟨fun {lo hi} h => ?_⟩
      rw [Lowering.statement]
      exact .skim fun _ => (Gathers.inside .item h).part hs fun _ hg => .pure (.item h hg.row)
  | .exportDefault value span => by
      have hs := statement value
      refine ⟨fun {lo hi} h => ?_⟩
      have hg := Gathers.inside .item h
      rw [Lowering.statement.eq_def]
      dsimp only
      refine .skim fun _ => ?_
      cases value with
      | expression e s =>
          exact hg.part (Lowers.within ⟨fun h => expression e h .stop⟩) fun _ hg =>
            .pure (.item h hg.row)
      | _ => exact hg.part hs fun _ hg => .pure (.item h hg.row)

end

end Lowers

end Lowering

end EcmaScript
