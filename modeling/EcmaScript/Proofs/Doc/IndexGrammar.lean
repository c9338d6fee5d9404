import EcmaScript.Proofs.Doc.IndexReader

/-!
# The grammar of types, by index and by region

Every reader of types by index follows the one of its name (`IndexReader.allMeet`). Where the two are not written
alike, the reader of regions is first given with the same conditions (`TypeReader.readBasic_succ`).

How deep the calls may go is bounded in both. A reader needs a depth that grows with the length of the region
(`IndexReader.Meets`), and since a character is consumed between two calls of one reader, so does each reader that
it calls. The depths of the two need not agree: once both are large enough, neither shows.

## Contents

* `TypeReader.readParamType_succ`, `TypeReader.readTypeExpression_succ`, `TypeReader.readBasic_succ`: three readers
  of regions, condition by condition.
* `IndexReader.AllMeet`, `IndexReader.allMeet`: the readers of the grammar.
* `IndexReader.follows_readBraced`, `IndexReader.follows_readAll`: what is read of a comment.
-/

namespace EcmaScript.Doc

/-! ## The readers of regions, condition by condition -/

namespace TypeReader

open IndexReader (endsType endsArguments)

variable (depth : Nat)

theorem readParamType_succ : readParamType (depth + 1) = (do
    if ← eatWord ['.', '.', '.'] then
      let next ← peek
      if endsArguments next then return .varArgs .unknown
      else return .varArgs (← readTopLevel depth)
    else
      let t ← readTopLevel depth
      if ← eat '=' then return .optional t else return t) := by
  rw [readParamType]
  refine congrArg (eatWord _ >>= ·) (funext fun word => ?_)
  cases word with
  | false => rfl
  | true =>
      refine congrArg (peek >>= ·) (funext fun next => ?_)
      split <;> simp_all [endsArguments]

theorem readTypeExpression_succ : readTypeExpression (depth + 1) = (do
    let c ← peek
    if c = some '?' then
      skip
      let next ← peek
      if endsType next then return .unknown else return .nullable (← readBasic depth)
    else if c = some '!' then
      skip
      return .nonNullable (← readBasic depth)
    else
      let t ← readBasic depth
      if ← eat '?' then return .nullable t
      else if ← eat '!' then return .nonNullable t
      else return t) := by
  rw [readTypeExpression]
  refine congrArg (peek >>= ·) (funext fun c => ?_)
  split
  · rw [if_pos rfl]
    refine congrArg (skip >>= ·) (funext fun _ => congrArg (peek >>= ·) (funext fun next => ?_))
    split <;> simp_all [endsType]
  · rfl
  next h h' => rw [if_neg h, if_neg h']

/-- What belongs to a name that was read from the region `start` on. -/
def afterName (start : Region) (name : String) (arguments : TypeReader (List TypeExpr)) : TypeReader TypeExpr := do
  if name == "typeof" then
    match ← name? with
    | some target => return .typeOf target
    | none => fail .notRecognized
  else if name.startsWith "." then
    set start
    fail .notRecognized
  else if ← eat '<' then
    let args ← arguments
    if ← eat '>' then return .named name args else fail .angleNotClosed
  else return .named name []

/-- What a reader goes on with depends on its run alone. -/
theorem bind_apply_congr {α β : Type} {p : TypeReader α} {f : α → TypeReader β} {r s : Region} (h : p r = p s) :
    (p >>= f) r = (p >>= f) s := by
  show (p r >>= fun x => f x.1 x.2 : Except TypeError (β × Region)) = (p s >>= fun x => f x.1 x.2)
  rw [h]

/-- Looking ahead changes nothing for what belongs to a name. -/
theorem peek_bind_afterName (start : Region) (name : String) (arguments : TypeReader (List TypeExpr)) :
    (peek >>= fun _ => afterName start name arguments) = afterName start name arguments := by
  funext r
  show afterName start name arguments r.skipBlank = afterName start name arguments r
  unfold afterName
  by_cases htype : (name == "typeof") = true
  · rw [if_pos htype]
    refine bind_apply_congr ?_
    unfold name?
    rw [Region.skipBlank_skipBlank]
  · rw [if_neg htype]
    by_cases hpoint : name.startsWith "." = true
    · rw [if_pos hpoint]
      rfl
    · rw [if_neg hpoint]
      refine bind_apply_congr ?_
      unfold eat
      rw [Region.skipBlank_skipBlank]

/-- A sign that was looked for ahead is consumed. -/
theorem peek_bind_skip {α : Type} (c : Char) (p q : TypeReader α) :
    (peek >>= fun d => if (d == some c) = true then skip >>= fun _ => p else q) =
      eat c >>= fun eaten => if eaten = true then p else q := by
  funext r
  show (if (r.skipBlank.head? == some c) = true then skip >>= fun _ => p else q) r.skipBlank =
    (eat c r >>= fun x => (if x.1 = true then p else q) x.2 : Except TypeError (α × Region))
  unfold eat
  by_cases h : (r.skipBlank.head? == some c) = true
  · rw [if_pos h, if_pos h]
    rfl
  · rw [if_neg h, if_neg h]
    rfl

/-- Behind a name the next character decides only if it is that of functions. -/
theorem peek_bind_function (isFunction : Bool) (start : Region) (name : String) (p : TypeReader TypeExpr)
    (arguments : TypeReader (List TypeExpr)) :
    (peek >>= fun d =>
        if (isFunction && d == some '(') = true then skip >>= fun _ => p else afterName start name arguments) =
      if isFunction = true then
        eat '(' >>= fun eaten => if eaten = true then p else afterName start name arguments
      else afterName start name arguments := by
  cases isFunction with
  | true => exact peek_bind_skip '(' p (afterName start name arguments)
  | false => exact peek_bind_afterName start name arguments

theorem readBasic_succ : readBasic (depth + 1) = (do
    let c ← peek
    if c = some '*' then
      skip
      return .all
    else if c = some '\x7b' then
      skip
      readRecord depth
    else if c = some '(' then
      skip
      let t ← readTopLevel depth
      if ← eat ')' then return t else fail .parenNotClosed
    else if c.any isTypeNameChar then
      let start ← get
      let name := (← name?).getD ""
      if name == "function" then
        if ← eat '(' then readFunction depth else afterName start name (readArguments depth)
      else afterName start name (readArguments depth)
    else fail .notRecognized) := by
  rw [readBasic]
  refine congrArg (peek >>= ·) (funext fun c => ?_)
  split
  · rfl
  · rfl
  · rfl
  next c hstar hopen hparen =>
    rw [if_neg fun h => hstar (Option.some.inj h), if_neg fun h => hopen (Option.some.inj h),
      if_neg fun h => hparen (Option.some.inj h)]
    refine congrArg (fun p => if isTypeNameChar c = true then p else fail .notRecognized) ?_
    refine congrArg (get >>= ·) (funext fun start => congrArg (name? >>= ·) (funext fun name => ?_))
    exact peek_bind_function _ _ _ _ _
  · rfl

/-- Blanks in front of a type in braces make no difference. -/
theorem readBraced_skipBlank (r : Region) : readBraced depth r.skipBlank = readBraced depth r := by
  unfold readBraced
  refine bind_apply_congr ?_
  unfold eat
  rw [Region.skipBlank_skipBlank]

/-- Blanks in front of a type make no difference. -/
theorem readTopLevel_skipBlank (r : Region) :
    readTopLevel (TypeReader.depth r) r.skipBlank = readTopLevel (TypeReader.depth r) r := by
  show readTopLevel (8 * r.chars.length + 6 + 2) r.skipBlank = _
  rw [readTopLevel]
  refine bind_apply_congr ?_
  rw [readTypeExpression_succ]
  refine bind_apply_congr ?_
  unfold peek
  rw [Region.skipBlank_skipBlank]

end TypeReader

namespace IndexReader

/-! ## All readers -/

section Meets

variable {w : Window} {limit d d' : Nat}

/-- Called with the depths `d` and `d'`, which are `c` more than eight for each character that may be left, the one
reader follows the other and consumes a character. -/
def Meets (w : Window) (limit c d d' : Nat) {α : Type} (p : IndexReader α) (q : TypeReader α) : Prop :=
  ∀ n, 8 * n + c ≤ d + 8 → 8 * n + c ≤ d' + 8 → Follows w limit (Below n) p q fun _ => Below (n - 1)

/-- What the readers of the grammar do at two depths. Each needs more depth than those that it calls. -/
structure AllMeet (w : Window) (limit d d' : Nat) : Prop where
  paramType : Meets w limit 4 d d' (readParamType w limit d) (TypeReader.readParamType d')
  topLevel : Meets w limit 3 d d' (readTopLevel w limit d) (TypeReader.readTopLevel d')
  alternatives : Meets w limit 3 d d' (readAlternatives w limit d) (TypeReader.readAlternatives d')
  typeExpression : Meets w limit 2 d d' (readTypeExpression w limit d) (TypeReader.readTypeExpression d')
  basic : Meets w limit 1 d d' (readBasic w limit d) (TypeReader.readBasic d')
  arguments : Meets w limit 4 d d' (readArguments w limit d) (TypeReader.readArguments d')
  record : Meets w limit 2 d d' (readRecord w limit d) (TypeReader.readRecord d')
  fields : Meets w limit 1 d d' (readFields w limit d) (TypeReader.readFields d')
  function : Meets w limit 6 d d' (readFunction w limit d) (TypeReader.readFunction d')
  parameters : ∀ receiver constructs params, Meets w limit 5 d d' (readParameters w limit d receiver constructs params)
    (TypeReader.readParameters d' receiver constructs params)

namespace AllMeet

theorem paramType_succ (h : AllMeet w limit d d') :
    Meets w limit 4 (d + 1) (d' + 1) (readParamType w limit (d + 1)) (TypeReader.readParamType (d' + 1)) := by
  intro n hd hd'
  rw [readParamType, TypeReader.readParamType_succ]
  refine .eatWord (List.cons_ne_nil _ _) ?_ ?_
  · refine .bind .peek fun next => .ite (fun _ => ?_) fun _ => ?_
    · exact .forget (.pure_below (Nat.le_refl _))
    · exact .forget (.bind (h.topLevel _ (by omega) (by omega)) fun t => .pure_below (by omega))
  · refine .bind (h.topLevel _ (by omega) (by omega)) fun t => .eat ?_ ?_
    · exact .pure_below (by omega)
    · exact .pure_below (by omega)

theorem topLevel_succ (h : AllMeet w limit d d') :
    Meets w limit 3 (d + 1) (d' + 1) (readTopLevel w limit (d + 1)) (TypeReader.readTopLevel (d' + 1)) := by
  intro n hd hd'
  rw [readTopLevel, TypeReader.readTopLevel]
  refine .bind (h.typeExpression _ (by omega) (by omega)) fun first => .eat ?_ ?_
  · exact .bind (h.alternatives _ (by omega) (by omega)) fun rest => .pure_below (by omega)
  · exact .pure_below (Nat.le_refl _)

theorem alternatives_succ (h : AllMeet w limit d d') : Meets w limit 3 (d + 1) (d' + 1)
    (readAlternatives w limit (d + 1)) (TypeReader.readAlternatives (d' + 1)) := by
  intro n hd hd'
  rw [readAlternatives, TypeReader.readAlternatives]
  refine .eat_any (.bind (h.typeExpression _ (by omega) (by omega)) fun t => .eat ?_ ?_)
  · exact .bind (h.alternatives _ (by omega) (by omega)) fun rest => .pure_below (by omega)
  · exact .pure_below (Nat.le_refl _)

theorem typeExpression_succ (h : AllMeet w limit d d') : Meets w limit 2 (d + 1) (d' + 1)
    (readTypeExpression w limit (d + 1)) (TypeReader.readTypeExpression (d' + 1)) := by
  intro n hd hd'
  rw [readTypeExpression, TypeReader.readTypeExpression_succ]
  refine .bind .peek fun c => .ite (fun hc => ?_) fun _ => .ite (fun hc => ?_) fun _ => ?_
  · subst hc
    refine .bind .skip fun _ => .bind .peek fun next => .ite (fun _ => ?_) fun _ => ?_
    · exact .forget (.pure_below (Nat.le_refl _))
    · exact .forget (.bind (h.basic _ (by omega) (by omega)) fun t => .pure_below (by omega))
  · subst hc
    exact .bind .skip fun _ => .bind (h.basic _ (by omega) (by omega)) fun t => .pure_below (by omega)
  · refine .forget (.bind (h.basic _ (by omega) (by omega)) fun t => .eat ?_ (.eat ?_ ?_))
    · exact .pure_below (by omega)
    · exact .pure_below (by omega)
    · exact .pure_below (Nat.le_refl _)

/-- What belongs to a name: only an opened list of arguments reads on. -/
theorem afterName {n k start : Nat} (hstart : w.Reaches start limit) (name : String) (hk : n ≤ k)
    {arguments : IndexReader (List TypeExpr)} {arguments' : TypeReader (List TypeExpr)}
    (h : Follows w limit (Below (n - 1)) arguments arguments' fun _ => Below (n - 1 - 1)) :
    Follows w limit (Below n) (IndexReader.afterName w limit start name arguments)
      (TypeReader.afterName (w.text.part start limit) name arguments') fun _ => Below k := by
  unfold IndexReader.afterName TypeReader.afterName
  refine .ite (fun _ => .bind .name? fun target => ?_) fun _ => .ite (fun _ => ?_) fun _ => .eat ?_ ?_
  · cases target with
    | none => exact .fail _
    | some target => exact .pure_below (Nat.le_trans (Nat.sub_le n 1) hk)
  · exact .reset hstart _
  · refine .bind h fun args => .eat ?_ (.fail _)
    exact .pure_below (by omega)
  · exact .pure_below hk

theorem basic_succ (h : AllMeet w limit d d') :
    Meets w limit 1 (d + 1) (d' + 1) (readBasic w limit (d + 1)) (TypeReader.readBasic (d' + 1)) := by
  intro n hd hd'
  rw [readBasic, TypeReader.readBasic_succ]
  refine .bind .peek fun c => .ite (fun hc => ?_) fun _ => .ite (fun hc => ?_) fun _ => .ite (fun hc => ?_) fun _ =>
    .ite (fun hc => ?_) fun _ => .fail _
  · subst hc
    exact .bind .skip fun _ => .pure_below (Nat.le_refl _)
  · subst hc
    exact .bind .skip fun _ => (h.record _ (by omega) (by omega)).mono (fun _ hr => hr) fun _ _ hr =>
      Nat.lt_of_lt_of_le hr (Nat.sub_le _ 1)
  · subst hc
    refine .bind .skip fun _ => .bind (h.topLevel _ (by omega) (by omega)) fun t => .eat ?_ (.fail _)
    exact .pure_below (by omega)
  · obtain ⟨first, rfl, hfirst⟩ := (Option.any_eq_true _ _).mp hc
    refine .mark fun start hstart => .bind (.name?_of_heads hfirst) fun name => .ite (fun _ => ?_) fun _ => ?_
    · refine .eat ?_ ?_
      · exact (h.function _ (by omega) (by omega)).mono (fun _ hr => hr) fun _ _ hr =>
          Nat.lt_of_lt_of_le hr (by omega)
      · exact afterName hstart _ (Nat.le_refl _) (h.arguments _ (by omega) (by omega))
    · exact afterName hstart _ (Nat.le_refl _) (h.arguments _ (by omega) (by omega))

theorem arguments_succ (h : AllMeet w limit d d') :
    Meets w limit 4 (d + 1) (d' + 1) (readArguments w limit (d + 1)) (TypeReader.readArguments (d' + 1)) := by
  intro n hd hd'
  rw [readArguments, TypeReader.readArguments]
  refine .bind (h.topLevel _ (by omega) (by omega)) fun t => .eat ?_ ?_
  · exact .bind (h.arguments _ (by omega) (by omega)) fun rest => .pure_below (by omega)
  · exact .pure_below (Nat.le_refl _)

theorem record_succ (h : AllMeet w limit d d') :
    Meets w limit 2 (d + 1) (d' + 1) (readRecord w limit (d + 1)) (TypeReader.readRecord (d' + 1)) := by
  intro n hd hd'
  rw [readRecord, TypeReader.readRecord]
  refine .eat ?_ ?_
  · exact .pure_below (Nat.le_refl _)
  · refine .bind (h.fields _ (by omega) (by omega)) fun fields => .eat ?_ (.fail _)
    exact .pure_below (by omega)

theorem fields_succ (h : AllMeet w limit d d') :
    Meets w limit 1 (d + 1) (d' + 1) (readFields w limit (d + 1)) (TypeReader.readFields (d' + 1)) := by
  intro n hd hd'
  rw [readFields, TypeReader.readFields]
  refine .bind .fieldKey fun key => ?_
  have hnext (value : Option TypeExpr) : Follows w limit (Below (n - 1))
      (do if ← IndexReader.eat w limit ',' then return (key, value) :: (← readFields w limit d)
          else return [(key, value)])
      (do if ← TypeReader.eat ',' then return (key, value) :: (← TypeReader.readFields d')
          else return [(key, value)])
      fun _ => Below (n - 1) := by
    refine .eat ?_ ?_
    · exact .bind (h.fields _ (by omega) (by omega)) fun rest => .pure_below (by omega)
    · exact .pure_below (Nat.le_refl _)
  refine .eat (.bind (.map (h.topLevel _ (by omega) (by omega))) fun value => ?_)
    (.known (hnext none))
  exact (hnext value).mono (fun r hr => Nat.lt_of_lt_of_le hr (by omega)) fun _ _ hr => hr

theorem function_succ (h : AllMeet w limit d d') :
    Meets w limit 6 (d + 1) (d' + 1) (readFunction w limit (d + 1)) (TypeReader.readFunction (d' + 1)) := by
  intro n hd hd'
  rw [readFunction, TypeReader.readFunction]
  have hresult (receiver constructs : Option TypeExpr) (params : List TypeExpr) : Follows w limit (Below (n - 1))
      (do
        let result ← if ← IndexReader.eat w limit ':' then some <$> readTypeExpression w limit d else pure none
        return TypeExpr.function receiver constructs params result)
      (do
        let result ← if ← TypeReader.eat ':' then some <$> TypeReader.readTypeExpression d' else pure none
        return TypeExpr.function receiver constructs params result)
      fun _ => Below (n - 1) := by
    refine .eat ?_ ?_
    · exact .bind (.map (h.typeExpression _ (by omega) (by omega))) fun result => .pure_below (by omega)
    · exact .bind (.pure_below (Nat.le_refl _)) fun result => .pure_below (Nat.le_refl _)
  refine .eat (.known (hresult none none [])) ?_
  refine .bind (h.parameters _ _ _ _ (by omega) (by omega)) fun parts => .eat (.known ?_) (.fail_bind _)
  exact (hresult parts.1 parts.2.1 parts.2.2).mono (fun r hr => Nat.lt_of_lt_of_le hr (by omega)) fun _ _ hr => hr

theorem parameters_succ (h : AllMeet w limit d d') (receiver constructs : Option TypeExpr) (params : List TypeExpr) :
    Meets w limit 5 (d + 1) (d' + 1) (readParameters w limit (d + 1) receiver constructs params)
      (TypeReader.readParameters (d' + 1) receiver constructs params) := by
  intro n hd hd'
  rw [readParameters, TypeReader.readParameters]
  have hnext (receiver constructs : Option TypeExpr) (params : List TypeExpr) : Follows w limit (Below (n - 1))
      (do
        if ← IndexReader.eat w limit ',' then readParameters w limit d receiver constructs params
        else return (receiver, constructs, params.reverse))
      (do
        if ← TypeReader.eat ',' then TypeReader.readParameters d' receiver constructs params
        else return (receiver, constructs, params.reverse))
      fun _ => Below (n - 1) := by
    refine .eat ?_ ?_
    · exact (h.parameters _ _ _ _ (by omega) (by omega)).mono (fun _ hr => hr) fun _ _ hr =>
        Nat.lt_of_lt_of_le hr (by omega)
    · exact .pure_below (Nat.le_refl _)
  have hafter {m : Nat} (hm : m ≤ n - 1) (r : Region) (hr : Below m r) : Below (n - 1) r := Nat.lt_of_lt_of_le hr hm
  refine .eatWord (by decide) ?_ (.eatWord (by decide) ?_ ?_)
  · exact .bind (h.topLevel _ (by omega) (by omega)) fun t =>
      .known ((hnext (some t) constructs params).mono (hafter (by omega)) fun _ _ hr => hr)
  · exact .bind (h.topLevel _ (by omega) (by omega)) fun t =>
      .known ((hnext receiver (some t) params).mono (hafter (by omega)) fun _ _ hr => hr)
  · exact .bind (h.paramType _ (by omega) (by omega)) fun t => .known (hnext receiver constructs (t :: params))

end AllMeet

/-- **The readers of types**, at any two depths. -/
theorem allMeet (w : Window) (limit d d' : Nat) : AllMeet w limit d d' := by
  -- without depth there is no region that is short enough
  have hnone {α : Type} {c e e' : Nat} (hc : 0 < c) (he : e = 0 ∨ e' = 0) (p : IndexReader α) (q : TypeReader α) :
      Meets w limit c e e' p q := by
    intro n hd hd' i hi hr
    have hn : n = 0 := by omega
    subst hn
    exact absurd hr (Nat.not_lt_zero _)
  have hvacuous {e e' : Nat} (he : e = 0 ∨ e' = 0) : AllMeet w limit e e' := by
    constructor <;> intros <;> exact hnone (by decide) he _ _
  induction d generalizing d' with
  | zero => exact hvacuous (Or.inl rfl)
  | succ d ih =>
      cases d' with
      | zero => exact hvacuous (Or.inr rfl)
      | succ d' =>
          have h := ih d'
          exact ⟨h.paramType_succ, h.topLevel_succ, h.alternatives_succ, h.typeExpression_succ, h.basic_succ,
            h.arguments_succ, h.record_succ, h.fields_succ, h.function_succ, h.parameters_succ⟩

/-- A type between braces. -/
theorem follows_readBraced {n : Nat} (hd : 8 * n + 4 ≤ d + 8) (hd' : 8 * n + 4 ≤ d' + 8) :
    Follows w limit (Below n) (readBraced w limit d) (TypeReader.readBraced d') fun _ => Below n := by
  have h := allMeet w limit d d'
  unfold readBraced TypeReader.readBraced
  refine .eat (.bind (h.paramType _ (by omega) (by omega)) fun t => .eat ?_ (.fail _)) (.fail _)
  exact .pure_below (by omega)

/-- A type that fills a region. -/
theorem follows_readAll {n : Nat} (hd : 8 * n + 4 ≤ d + 8) (hd' : 8 * n + 4 ≤ d' + 8) :
    Follows w limit (Below n) (readAll w limit d) (TypeReader.readAll d') fun _ => Below n := by
  have h := allMeet w limit d d'
  unfold readAll TypeReader.readAll
  refine .bind (h.paramType _ hd hd') fun t => .bind .peek fun next => ?_
  cases next with
  | none => exact .forget (.pure_below (Nat.sub_le n 1))
  | some c => exact .fail _

end Meets

end IndexReader

end EcmaScript.Doc
