import EcmaScript.Doc.Parser
import EcmaScript.Proofs.Doc.Documented

/-!
# Types are read as they are written

The text of a type can be read again, and the type comes back. `Readable t` says of a type that the readers of
the grammar give it back, each where its own signs follow. A type is readable if its parts are; the lists in a
type are read by induction over the lists. With every call the bound on the depth of calls falls by one, and
before a reader calls itself a character is taken, so eight calls for each character are enough.

## Contents

* `ReadBy`: a reader gives a type back.
* `Readable`: what the readers give on the text of a type.
* `Documented.readable`: the types of the documented grammar are readable.
* `parseInlineType_render`: a comment with the text of a type.
-/

namespace EcmaScript.Doc

open TypeReader

namespace TypeExpr

/-- The reader gives the type back where one of the signs follows. It needs a depth of eight calls for each
character and of `spare` calls, less one. -/
def ReadBy (p : Nat → TypeReader TypeExpr) (spare : Nat) (stops : List Char) (t : TypeExpr) : Prop :=
  ∀ ⦃depth : Nat⦄ ⦃rest : List Char⦄, 8 * t.chars.length + spare ≤ depth + 1 → Follows stops rest →
    Reads (p depth) (t.chars ++ rest) t (unblank rest)

/-- The readers of the grammar give the type back. -/
structure Readable (t : TypeExpr) : Prop where
  documented : t.Documented
  operand : t.isOperand = true → t.ReadBy readBasic 0 typeStops
  plain : t.isPlain = true → t.ReadBy readTypeExpression 1 typeStops
  param : t.ReadBy readParamType 3 paramEnds

variable {t : TypeExpr} {depth : Nat} {text rest : List Char}

/-! ## From level to level -/

/-- A type without a mark for null. -/
theorem Documented.readBy_expression (h : t.Documented) (hop : t.isOperand = true)
    (ht : t.ReadBy readBasic 0 typeStops) : t.ReadBy readTypeExpression 1 typeStops := by
  intro depth rest hdepth hrest
  obtain ⟨c, cs, hcs, -, -, hmarks⟩ := h.first
  obtain ⟨hne, hne'⟩ := hmarks hop
  cases depth with
  | zero => exact absurd hdepth (by have := h.length_pos; omega)
  | succ depth =>
      rw [readTypeExpression]
      refine .look ?_
      rw [hcs, List.cons_append, List.head?_cons, ← List.cons_append, ← hcs]
      split
      case h_1 heq => exact absurd (Option.some_inj.mp heq) hne
      case h_2 heq => exact absurd (Option.some_inj.mp heq) hne'
      case h_3 =>
        refine .bind (ht (by omega) hrest) ?_
        refine .bind (.eat_ne (hrest.head_ne (by decide))) ?_
        exact .bind (.eat_ne (hrest.head_ne (by decide))) (.pure _ _)

/-- A type that is no union without parentheses. -/
theorem readBy_topLevel (ht : t.ReadBy readTypeExpression 1 typeStops) : t.ReadBy readTopLevel 2 typeEnds := by
  intro depth rest hdepth hrest
  cases depth with
  | zero => exact absurd hdepth (by omega)
  | succ depth =>
      rw [readTopLevel]
      refine .bind (ht (by omega) (hrest.mono (List.subset_cons_self _ _))) ?_
      exact .bind (.eat_ne (hrest.head_ne (by decide))) (.pure _ _)

/-- A parameter that is a plain type. -/
theorem Documented.readBy_param (h : t.Documented) (hplain : t.isPlain = true)
    (ht : t.ReadBy readTypeExpression 1 typeStops) : t.ReadBy readParamType 3 paramEnds := by
  intro depth rest hdepth hrest
  obtain ⟨c, cs, hcs, -, hpoint, -⟩ := h.first
  cases depth with
  | zero => exact absurd hdepth (by omega)
  | succ depth =>
      rw [readParamType]
      refine .bind (.eatWord_ne fun hp => ?_) ?_
      · rw [hcs, List.cons_append, List.cons_prefix_cons] at hp
        exact hpoint hplain hp.1.symm
      · refine .bind (readBy_topLevel ht (by omega) (hrest.mono (by decide))) ?_
        exact .bind (.eat_ne (hrest.head_ne (by decide))) (.pure _ _)

theorem Documented.readable_of_operand (h : t.Documented) (hop : t.isOperand = true)
    (ht : t.ReadBy readBasic 0 typeStops) : t.Readable := by
  have hplain : t.isPlain = true := by
    cases t <;> first | rfl | cases hop
  have hexpr := h.readBy_expression hop ht
  exact ⟨h, fun _ => ht, fun _ => hexpr, h.readBy_param hplain hexpr⟩

theorem Documented.readable_of_plain (h : t.Documented) (hplain : t.isPlain = true) (hop : t.isOperand = false)
    (ht : t.ReadBy readTypeExpression 1 typeStops) : t.Readable :=
  ⟨h, fun hop' => absurd (hop.symm.trans hop') nofun, fun _ => ht, h.readBy_param hplain ht⟩

theorem Readable.topLevel (h : t.Readable) (hplain : t.isPlain = true) : t.ReadBy readTopLevel 2 typeEnds :=
  readBy_topLevel (h.plain hplain)

/-! ## Marks -/

theorem readBy_unknown : unknown.ReadBy readTypeExpression 1 typeStops := by
  intro depth rest hdepth hrest
  rw [chars_unknown] at hdepth ⊢
  rw [List.singleton_append]
  cases depth with
  | zero => exact absurd hdepth (by decide)
  | succ depth =>
      rw [readTypeExpression]
      refine .sign rfl (.look ?_)
      have hstop := hrest.stop
      cases hhead : (unblank rest).head? with
      | none => exact .pure _ _
      | some c =>
          have hc := hstop c hhead
          simp only [typeStops, typeEnds, List.mem_cons, List.not_mem_nil, or_false] at hc
          rcases hc with rfl | rfl | rfl | rfl | rfl | rfl <;> exact .pure _ _

/-- Behind a question mark stands a type that may be null, if a type can start there. -/
theorem readBy_nullable (hu : t.Documented) (ht : t.ReadBy readBasic 0 typeStops) :
    (nullable t).ReadBy readTypeExpression 1 typeStops := by
  intro depth rest hdepth hrest
  obtain ⟨c, cs, hcs, hstart, -⟩ := hu.first
  have hc := not_mem_of_isTypeStart hstart
  rw [chars_nullable, List.length_cons] at hdepth
  rw [chars_nullable, List.cons_append]
  cases depth with
  | zero => exact absurd hdepth (by omega)
  | succ depth =>
      rw [readTypeExpression]
      refine .sign rfl ?_
      rw [hu.unblank_chars]
      refine .look ?_
      rw [hcs, List.cons_append, List.head?_cons, ← List.cons_append, ← hcs]
      split
      case h_10 => exact .bind (ht (by omega) hrest) (.pure _ _)
      all_goals
        rename_i heq
        cases heq <;> exact absurd (by decide) hc

theorem readBy_nonNullable (hu : t.Documented) (ht : t.ReadBy readBasic 0 typeStops) :
    (nonNullable t).ReadBy readTypeExpression 1 typeStops := by
  intro depth rest hdepth hrest
  rw [chars_nonNullable, List.length_cons] at hdepth
  rw [chars_nonNullable, List.cons_append]
  cases depth with
  | zero => exact absurd hdepth (by omega)
  | succ depth =>
      rw [readTypeExpression]
      refine .sign rfl ?_
      rw [hu.unblank_chars]
      exact .bind (ht (by omega) hrest) (.pure _ _)

/-- A parameter that may be left out. -/
theorem readBy_optional (hu : t.Documented) (hplain : t.isPlain = true)
    (ht : t.ReadBy readTypeExpression 1 typeStops) : (optional t).ReadBy readParamType 3 paramEnds := by
  intro depth rest hdepth hrest
  obtain ⟨c, cs, hcs, -, hpoint, -⟩ := hu.first
  rw [chars_optional, List.length_append] at hdepth
  rw [chars_optional, List.append_assoc, List.singleton_append]
  cases depth with
  | zero => exact absurd hdepth (by omega)
  | succ depth =>
      rw [readParamType]
      refine .bind (.eatWord_ne fun hp => ?_) ?_
      · rw [hcs, List.cons_append, List.cons_prefix_cons] at hp
        exact hpoint hplain hp.1.symm
      · refine .bind (readBy_topLevel ht (by omega) (.cons (by decide) (by decide) _)) ?_
        rw [unblank_cons (by decide)]
        exact .bind (.eat '=' rest) (.pure _ _)

/-- A parameter that stands for any number of arguments. -/
theorem readBy_varArgs (hu : t.Documented) (ht : t.ReadBy readTypeExpression 1 typeStops) :
    (varArgs t).ReadBy readParamType 3 paramEnds := by
  intro depth rest hdepth hrest
  obtain ⟨c, cs, hcs, hstart, -⟩ := hu.first
  have hc := not_mem_of_isTypeStart hstart
  rw [chars_varArgs, List.length_append] at hdepth
  rw [chars_varArgs, List.append_assoc]
  cases depth with
  | zero => exact absurd hdepth (by omega)
  | succ depth =>
      rw [readParamType]
      refine .bind (.eatWord ['.', '.', '.'] _) ?_
      rw [hu.unblank_chars]
      refine .look ?_
      rw [hcs, List.cons_append, List.head?_cons, ← List.cons_append, ← hcs]
      split
      case h_5 =>
        exact .bind (readBy_topLevel ht (by omega) (hrest.mono (by decide))) (.pure _ _)
      all_goals
        rename_i heq
        cases heq <;> exact absurd (by decide) hc

/-! ## Signs and names -/

theorem readBy_all : all.ReadBy readBasic 0 typeStops := by
  intro depth rest hdepth hrest
  rw [chars_all] at hdepth ⊢
  cases depth with
  | zero => exact absurd hdepth (by decide)
  | succ depth =>
      rw [readBasic]
      exact .sign rfl (.pure _ _)

/-- What is read behind the name of a type. -/
def readBehindTypeName (depth : Nat) (name : String) : TypeReader TypeExpr := do
  if ← eat '<' then
    let args ← readArguments depth
    if ← eat '>' then return .named name args else fail .angleNotClosed
  else return .named name []

/-- What is read behind a name at the start of a type. -/
def readBehindName (depth : Nat) (start : Region) (name : String) : TypeReader TypeExpr := do
  if name == "function" && (← peek) == some '(' then
    skip
    readFunction depth
  else if name == "typeof" then
    match ← TypeReader.name? with
    | some target => return .typeOf target
    | none => fail .notRecognized
  else if name.startsWith "." then
    set start
    fail .notRecognized
  else readBehindTypeName depth name

/-- A type that starts with a name. -/
theorem reads_basic_name {name : String} (hname : isNameText name = true)
    (htext : ∀ c ∈ text.head?, isTypeNameChar c = false)
    (hpoint : name.toList.getLast? = some '.' → text.head? ≠ some '<')
    (h : ∀ start, Reads (readBehindName depth start name) (unblank text) t rest) :
    Reads (readBasic (depth + 1)) (name.toList ++ text) t rest := by
  obtain ⟨c, cs, hcs, hc⟩ := exists_cons_of_isNameText hname
  have hread := Reads.name (by rw [hcs]; exact List.cons_ne_nil c cs) (forall_of_isNameText hname) htext hpoint
  rw [String.ofList_toList] at hread
  rw [readBasic]
  refine .look ?_
  rw [hcs, List.cons_append, List.head?_cons, ← List.cons_append, ← hcs]
  split
  case h_4 d _ _ _ heq =>
    cases heq
    rw [if_pos hc]
    exact .get_bind fun start => .bind hread (h start)
  all_goals
    rename_i heq
    cases heq <;> exact absurd hc (by decide)

/-- A type with a name of its own. -/
theorem reads_basic_typeName {name : String} (hname : isTypeName name = true)
    (htext : ∀ c ∈ text.head?, isTypeNameChar c = false) (hparen : (unblank text).head? ≠ some '(')
    (h : Reads (readBehindTypeName depth name) (unblank text) t rest) :
    Reads (readBasic (depth + 1)) (name.toList ++ text) t rest := by
  obtain ⟨hchars, hfirst, hlast, htypeof⟩ := isTypeName_iff.mp hname
  refine reads_basic_name hchars htext (fun he => absurd he hlast) fun start => ?_
  refine .look (.ite_neg (fun hf => ?_) (.ite_neg (fun hf => ?_) (.ite_neg (fun hf => ?_) h)))
  · exact hparen (eq_of_beq (Bool.and_eq_true_iff.mp hf).2)
  · exact htypeof (eq_of_beq hf)
  · obtain ⟨c, cs, hcs, -⟩ := exists_cons_of_isNameText hchars
    have hprefix : ".".toList <+: name.toList := String.startsWith_string_iff.mp hf
    rw [hcs] at hprefix hfirst
    exact hfirst (congrArg some (List.cons_prefix_cons.mp hprefix).1.symm)

/-- A name without arguments. -/
theorem readBy_named_nil {name : String} (hname : isTypeName name = true) :
    (named name []).ReadBy readBasic 0 typeStops := by
  intro depth rest hdepth hrest
  obtain ⟨c, cs, hcs, -⟩ := exists_cons_of_isNameText (isNameText_of_isTypeName hname)
  rw [chars_named_nil] at hdepth ⊢
  cases depth with
  | zero => exact absurd hdepth (by rw [hcs, List.length_cons]; omega)
  | succ depth =>
      refine reads_basic_typeName hname hrest.apart (hrest.head_ne (by decide)) ?_
      exact .bind (.eat_ne (hrest.head_ne (by decide))) (.pure _ _)

/-- The type of a name. -/
theorem readBy_typeOf {name : String} (hname : isNameText name = true) :
    (typeOf name).ReadBy readBasic 0 typeStops := by
  intro depth rest hdepth hrest
  obtain ⟨c, cs, hcs, hc⟩ := exists_cons_of_isNameText hname
  have hread := Reads.name (by rw [hcs]; exact List.cons_ne_nil c cs) (forall_of_isNameText hname)
    hrest.apart fun _ => hrest.head?_ne (by decide) (by decide)
  have hblank : unblank (' ' :: (name.toList ++ rest)) = name.toList ++ rest := by
    rw [unblank_blank (by decide), hcs, List.cons_append, unblank_cons (isWhiteSpace_of_isTypeNameChar hc)]
  rw [String.ofList_toList] at hread
  rw [chars_typeOf] at hdepth ⊢
  rw [List.append_assoc, List.cons_append]
  cases depth with
  | zero => exact absurd hdepth (by rw [List.length_append, List.length_cons]; omega)
  | succ depth =>
      refine reads_basic_name (by decide) (fun c hc => Option.some_inj.mp hc ▸ by decide)
        (fun he => absurd he (by decide)) fun start => ?_
      rw [hblank]
      exact .look (.ite_neg nofun (.ite_pos rfl (.bind hread (.pure _ _))))

/-! ## Lists of types -/

/-- Types with commas between them, up to a closing bracket. -/
theorem reads_arguments {ts : List TypeExpr} (h : ∀ u ∈ t :: ts, u.Readable ∧ u.isPlain = true)
    (hdepth : 8 * (t.chars ++ tailChars ',' ts).length + 2 ≤ depth) :
    Reads (readArguments depth) (t.chars ++ (tailChars ',' ts ++ '>' :: rest)) (t :: ts) ('>' :: rest) := by
  induction ts generalizing t depth with
  | nil =>
      obtain ⟨ht, hplain⟩ := h t List.mem_cons_self
      rw [tailChars, List.append_nil] at hdepth
      rw [tailChars, List.nil_append]
      cases depth with
      | zero => exact absurd hdepth (by omega)
      | succ depth =>
          rw [readArguments]
          refine .bind (ht.topLevel hplain (by omega) (.cons (by decide) (by decide) rest)) ?_
          rw [unblank_cons (by decide)]
          exact .bind (.eat_ne (by rw [List.head?_cons]; decide)) (.pure _ _)
  | cons u us ih =>
      obtain ⟨ht, hplain⟩ := h t List.mem_cons_self
      obtain ⟨hu, -⟩ := h u (List.mem_cons_of_mem _ List.mem_cons_self)
      rw [tailChars, List.length_append, List.cons_append, List.length_cons] at hdepth
      rw [tailChars, List.cons_append, List.cons_append, List.append_assoc]
      cases depth with
      | zero => exact absurd hdepth (by omega)
      | succ depth =>
          rw [readArguments]
          refine .bind (ht.topLevel hplain (by omega) (.cons (by decide) (by decide) _)) ?_
          rw [unblank_cons (by decide)]
          refine .bind (.eat ',' _) ?_
          rw [hu.documented.unblank_chars]
          exact .bind (ih (fun v hv => h v (List.mem_cons_of_mem _ hv)) (by omega)) (.pure _ _)

/-- The alternatives of a type, up to a closing parenthesis. -/
theorem reads_alternatives {ts : List TypeExpr} (h : ∀ u ∈ t :: ts, u.Readable ∧ u.isPlain = true)
    (hdepth : 8 * (t.chars ++ tailChars '|' ts).length + 2 ≤ depth) :
    Reads (readAlternatives depth) (t.chars ++ (tailChars '|' ts ++ ')' :: rest)) (t :: ts) (')' :: rest) := by
  induction ts generalizing t depth with
  | nil =>
      obtain ⟨ht, hplain⟩ := h t List.mem_cons_self
      rw [tailChars, List.append_nil] at hdepth
      rw [tailChars, List.nil_append]
      cases depth with
      | zero => exact absurd hdepth (by omega)
      | succ depth =>
          rw [readAlternatives]
          refine .bind (.eat_ne (ht.documented.head_ne (by decide) _)) ?_
          refine .bind (ht.plain hplain (by omega) (.cons (by decide) (by decide) rest)) ?_
          rw [unblank_cons (by decide)]
          exact .bind (.eat_ne (by rw [List.head?_cons]; decide)) (.pure _ _)
  | cons u us ih =>
      obtain ⟨ht, hplain⟩ := h t List.mem_cons_self
      obtain ⟨hu, -⟩ := h u (List.mem_cons_of_mem _ List.mem_cons_self)
      rw [tailChars, List.length_append, List.cons_append, List.length_cons] at hdepth
      rw [tailChars, List.cons_append, List.cons_append, List.append_assoc]
      cases depth with
      | zero => exact absurd hdepth (by omega)
      | succ depth =>
          rw [readAlternatives]
          refine .bind (.eat_ne (ht.documented.head_ne (by decide) _)) ?_
          refine .bind (ht.plain hplain (by omega) (.cons (by decide) (by decide) _)) ?_
          rw [unblank_cons (by decide)]
          refine .bind (.eat '|' _) ?_
          rw [hu.documented.unblank_chars]
          exact .bind (ih (fun v hv => h v (List.mem_cons_of_mem _ hv)) (by omega)) (.pure _ _)

/-- A name with arguments. -/
theorem readBy_named_cons {name : String} {ts : List TypeExpr} (hname : isTypeName name = true)
    (h : ∀ u ∈ t :: ts, u.Readable ∧ u.isPlain = true) : (named name (t :: ts)).ReadBy readBasic 0 typeStops := by
  intro depth rest hdepth hrest
  obtain ⟨ht, -⟩ := h t List.mem_cons_self
  rw [chars_named_cons] at hdepth ⊢
  simp only [List.length_append, List.length_cons, List.length_nil] at hdepth
  simp only [List.append_assoc, List.cons_append, List.nil_append]
  cases depth with
  | zero => exact absurd hdepth (by omega)
  | succ depth =>
      refine reads_basic_typeName hname (fun c hc => Option.some_inj.mp hc ▸ by decide) nofun ?_
      rw [unblank_cons (by decide)]
      refine .bind (.eat '<' _) ?_
      rw [ht.documented.unblank_chars]
      refine .bind (reads_arguments h (by rw [List.length_append]; omega)) ?_
      exact .bind (.eat '>' rest) (.pure _ _)

/-- A union stands between parentheses. -/
theorem readBy_union {u : TypeExpr} {ts : List TypeExpr} (h : ∀ v ∈ t :: u :: ts, v.Readable ∧ v.isPlain = true) :
    (union (t :: u :: ts)).ReadBy readBasic 0 typeStops := by
  intro depth rest hdepth hrest
  obtain ⟨ht, hplain⟩ := h t List.mem_cons_self
  obtain ⟨hu, -⟩ := h u (List.mem_cons_of_mem _ List.mem_cons_self)
  rw [chars_union_cons, tailChars] at hdepth ⊢
  simp only [List.length_append, List.length_cons, List.length_nil] at hdepth
  simp only [List.append_assoc, List.cons_append, List.nil_append]
  obtain ⟨depth, rfl⟩ : ∃ d, depth = d + 2 := ⟨depth - 2, by omega⟩
  rw [readBasic]
  refine .sign rfl ?_
  rw [ht.documented.unblank_chars]
  rw [readTopLevel]
  refine .bind (.bind (ht.plain hplain (by omega) (.cons (by decide) (by decide) _)) ?_) (.bind (.eat ')' rest) (.pure _ _))
  rw [unblank_cons (by decide)]
  refine .bind (.eat '|' _) ?_
  rw [hu.documented.unblank_chars]
  exact .bind (reads_alternatives (fun v hv => h v (List.mem_cons_of_mem _ hv)) (by rw [List.length_append]; omega))
    (.pure _ _)

/-! ## Records -/

/-- The key of a field. -/
theorem reads_fieldKey {key : String} (hkey : isNameText key = true)
    (hrest : ∀ c ∈ rest.head?, isTypeNameChar c = false ∧ c ≠ '<') :
    Reads fieldKey (key.toList ++ rest) key (unblank rest) := by
  obtain ⟨c, cs, hcs, hc⟩ := exists_cons_of_isNameText hkey
  have hread := Reads.name (by rw [hcs]; exact List.cons_ne_nil c cs) (forall_of_isNameText hkey)
    (fun d hd => (hrest d hd).1) fun _ he => (hrest '<' he).2 rfl
  rw [String.ofList_toList] at hread
  unfold fieldKey
  refine .look ?_
  rw [hcs, List.cons_append, List.head?_cons, ← List.cons_append, ← hcs]
  refine .ite_neg (fun hquote => ?_) (.bind hread (.pure _ _))
  obtain hquote | hquote := Bool.or_eq_true_iff.mp hquote
  · rw [eq_of_beq hquote] at hc
    exact absurd hc (by decide)
  · rw [eq_of_beq hquote] at hc
    exact absurd hc (by decide)

/-- A field and what is read behind it. -/
theorem reads_field {α : Type} {k : String → Option TypeExpr → TypeReader α} {a : α} {rest' : List Char}
    {f : String × Option TypeExpr} (hkey : isNameText f.1 = true)
    (h : ∀ u ∈ f.2, u.Readable ∧ u.isPlain = true) (hdepth : 8 * (fieldChars f).length ≤ depth)
    (hrest : Follows typeEnds rest) (hk : Reads (k f.1 f.2) (unblank rest) a rest') :
    Reads (do
      let key ← fieldKey
      let value ← if ← eat ':' then some <$> readTopLevel depth else pure none
      k key value) (fieldChars f ++ rest) a rest' := by
  obtain ⟨key, value⟩ := f
  cases value with
  | none =>
      rw [fieldChars]
      refine .bind (reads_fieldKey hkey fun c hc => ⟨hrest.apart c hc, ?_⟩) ?_
      · rintro rfl
        exact hrest.head?_ne (by decide) (by decide) hc
      · refine .bind (.eat_ne (hrest.head_ne (by decide))) ?_
        exact .bind (.pure none _) hk
  | some u =>
      obtain ⟨hu, hplain⟩ := h u rfl
      rw [fieldChars] at hdepth ⊢
      simp only [List.length_append, List.length_cons] at hdepth
      simp only [List.append_assoc, List.cons_append]
      refine .bind (reads_fieldKey hkey fun c hc => Option.some_inj.mp hc ▸ by decide) ?_
      rw [unblank_cons (by decide)]
      refine .bind (.eat ':' _) ?_
      rw [unblank_blank (by decide), hu.documented.unblank_chars]
      exact .bind (.map (hu.topLevel hplain (by omega) hrest)) hk

/-- A field starts with a character of its key. -/
theorem fieldChars_first {f : String × Option TypeExpr} (hkey : isNameText f.1 = true) :
    ∃ c cs, fieldChars f = c :: cs ∧ isTypeNameChar c = true := by
  obtain ⟨key, value⟩ := f
  obtain ⟨c, cs, hcs, hc⟩ := exists_cons_of_isNameText hkey
  cases value with
  | none => exact ⟨c, cs, by rw [fieldChars, hcs], hc⟩
  | some u => exact ⟨c, _, by rw [fieldChars, hcs, List.cons_append], hc⟩

theorem unblank_fieldChars {f : String × Option TypeExpr} (hkey : isNameText f.1 = true) (text : List Char) :
    unblank (fieldChars f ++ text) = fieldChars f ++ text := by
  obtain ⟨c, cs, hcs, hc⟩ := fieldChars_first hkey
  rw [hcs, List.cons_append, unblank_cons (isWhiteSpace_of_isTypeNameChar hc)]

/-- Fields with commas between them, up to a closing brace. -/
theorem reads_fields {f : String × Option TypeExpr} {fs : List (String × Option TypeExpr)}
    (hkey : ∀ g ∈ f :: fs, isNameText g.1 = true)
    (h : ∀ g ∈ f :: fs, ∀ u ∈ g.2, u.Readable ∧ u.isPlain = true)
    (hdepth : 8 * (fieldChars f ++ fieldTailChars fs).length < depth) :
    Reads (readFields depth) (fieldChars f ++ (fieldTailChars fs ++ '\x7d' :: rest)) (f :: fs) ('\x7d' :: rest) := by
  induction fs generalizing f depth with
  | nil =>
      rw [fieldTailChars, List.append_nil] at hdepth
      rw [fieldTailChars, List.nil_append]
      cases depth with
      | zero => exact absurd hdepth (by omega)
      | succ depth =>
          rw [readFields]
          refine reads_field (hkey f List.mem_cons_self) (h f List.mem_cons_self) (by omega)
            (.cons (by decide) (by decide) rest) ?_
          rw [unblank_cons (by decide)]
          exact .bind (.eat_ne (by rw [List.head?_cons]; decide)) (.pure _ _)
  | cons g gs ih =>
      have hg := hkey g (List.mem_cons_of_mem _ List.mem_cons_self)
      rw [fieldTailChars] at hdepth ⊢
      simp only [List.length_append, List.length_cons] at hdepth
      simp only [List.append_assoc, List.cons_append]
      cases depth with
      | zero => exact absurd hdepth (by omega)
      | succ depth =>
          rw [readFields]
          refine reads_field (hkey f List.mem_cons_self) (h f List.mem_cons_self) (by omega)
            (.cons (by decide) (by decide) _) ?_
          rw [unblank_cons (by decide)]
          refine .bind (.eat ',' _) ?_
          rw [unblank_blank (by decide), unblank_fieldChars hg]
          exact .bind (ih (fun v hv => hkey v (List.mem_cons_of_mem _ hv))
            (fun v hv => h v (List.mem_cons_of_mem _ hv)) (by rw [List.length_append]; omega)) (.pure _ _)

theorem readBy_record_nil : (record []).ReadBy readBasic 0 typeStops := by
  intro depth rest hdepth hrest
  rw [chars_record_nil] at hdepth ⊢
  rw [List.cons_append, List.singleton_append]
  obtain ⟨depth, rfl⟩ : ∃ d, depth = d + 2 := ⟨depth - 2, by simp only [List.length_cons] at hdepth; omega⟩
  rw [readBasic]
  refine .sign rfl ?_
  rw [unblank_cons (by decide), readRecord]
  exact .bind (.eat '\x7d' rest) (.pure _ _)

theorem readBy_record_cons {f : String × Option TypeExpr} {fs : List (String × Option TypeExpr)}
    (hkey : ∀ g ∈ f :: fs, isNameText g.1 = true)
    (h : ∀ g ∈ f :: fs, ∀ u ∈ g.2, u.Readable ∧ u.isPlain = true) :
    (record (f :: fs)).ReadBy readBasic 0 typeStops := by
  intro depth rest hdepth hrest
  have hf := hkey f List.mem_cons_self
  obtain ⟨c, cs, hcs, hc⟩ := fieldChars_first hf
  rw [chars_record_cons] at hdepth ⊢
  simp only [List.length_append, List.length_cons, List.length_nil] at hdepth
  simp only [List.append_assoc, List.cons_append, List.nil_append]
  obtain ⟨depth, rfl⟩ : ∃ d, depth = d + 2 := ⟨depth - 2, by omega⟩
  rw [readBasic]
  refine .sign rfl ?_
  rw [unblank_fieldChars hf, readRecord]
  refine .bind (.eat_ne ?_) ?_
  · rw [hcs, List.cons_append, List.head?_cons]
    rintro he
    cases he
    exact absurd hc (by decide)
  · refine .bind (reads_fields hkey h (by rw [List.length_append]; omega)) ?_
    exact .bind (.eat '\x7d' rest) (.pure _ _)

/-! ## Function types -/

/-- What is read behind a parameter. -/
def readBehindParameter (depth : Nat) (receiver constructs : Option TypeExpr) (params : List TypeExpr) :
    TypeReader (Option TypeExpr × Option TypeExpr × List TypeExpr) := do
  if ← eat ',' then readParameters depth receiver constructs params
  else return (receiver, constructs, params.reverse)

section

variable {receiver constructs : Option TypeExpr} {params : List TypeExpr}
  {parts : Option TypeExpr × Option TypeExpr × List TypeExpr} {rest' : List Char}

theorem reads_receiver (ht : t.Readable) (hplain : t.isPlain = true) (hdepth : 8 * t.chars.length < depth)
    (hrest : Follows paramEnds rest)
    (hk : Reads (readBehindParameter depth (some t) constructs params) (unblank rest) parts rest') :
    Reads (readParameters (depth + 1) receiver constructs params) ("this:".toList ++ (t.chars ++ rest)) parts
      rest' := by
  rw [readParameters]
  refine .bind (.eatWord "this:".toList _) ?_
  rw [ht.documented.unblank_chars]
  exact .bind (ht.topLevel hplain (by omega) (hrest.mono (by decide))) hk

theorem reads_constructs (ht : t.Readable) (hplain : t.isPlain = true) (hdepth : 8 * t.chars.length < depth)
    (hrest : Follows paramEnds rest)
    (hk : Reads (readBehindParameter depth receiver (some t) params) (unblank rest) parts rest') :
    Reads (readParameters (depth + 1) receiver constructs params) ("new:".toList ++ (t.chars ++ rest)) parts
      rest' := by
  rw [readParameters]
  have hthis : ¬"this:".toList <+: "new:".toList ++ (t.chars ++ rest) :=
    fun h => absurd (List.cons_prefix_cons.mp h).1 (by decide)
  refine .bind (.eatWord_ne hthis) (.bind (.eatWord "new:".toList _) ?_)
  rw [ht.documented.unblank_chars]
  exact .bind (ht.topLevel hplain (by omega) (hrest.mono (by decide))) hk

theorem reads_parameter (ht : t.Readable) (hdepth : 8 * t.chars.length + 2 ≤ depth)
    (hrest : Follows paramEnds rest)
    (hk : Reads (readBehindParameter depth receiver constructs (t :: params)) (unblank rest) parts rest') :
    Reads (readParameters (depth + 1) receiver constructs params) (t.chars ++ rest) parts rest' := by
  have hcolon : ∀ c ∈ rest.head?, isTypeNameChar c = false ∧ c ≠ ':' := by
    intro c hc
    refine ⟨hrest.apart c hc, ?_⟩
    rintro rfl
    exact hrest.head?_ne (by decide) (by decide) hc
  have hthis : ¬"this".toList ++ [':'] <+: t.chars ++ rest := ht.documented.not_prefix (by decide) hcolon
  have hnew : ¬"new".toList ++ [':'] <+: t.chars ++ rest := ht.documented.not_prefix (by decide) hcolon
  rw [readParameters]
  refine .bind (.eatWord_ne hthis) (.bind (.eatWord_ne hnew) ?_)
  exact .bind (ht.param (by omega) hrest) hk

end

/-- A text that a comma starts, or nothing, stands behind a parameter. -/
theorem follows_of_comma (h : ∀ c ∈ text.head?, c = ',') (rest : List Char) :
    Follows paramEnds (text ++ ')' :: rest) ∧ unblank (text ++ ')' :: rest) = text ++ ')' :: rest := by
  cases text with
  | nil => exact ⟨.cons (by decide) (by decide) rest, unblank_cons (by decide) rest⟩
  | cons c cs =>
      rw [h c rfl]
      exact ⟨.cons (by decide) (by decide) _, unblank_cons (by decide) _⟩

theorem head_tailChars (ts : List TypeExpr) : ∀ c ∈ (tailChars ',' ts).head?, c = ',' := by
  cases ts with
  | nil => rw [tailChars]; exact fun c hc => (Option.not_mem_none c hc).elim
  | cons t ts => rw [tailChars]; exact fun c hc => (Option.some_inj.mp hc).symm

/-- The words before the receiver and before what is constructed are no blanks. -/
theorem unblank_this (text : List Char) : unblank ("this:".toList ++ text) = "this:".toList ++ text :=
  unblank_cons (c := 't') (by decide) _

theorem unblank_new (text : List Char) : unblank ("new:".toList ++ text) = "new:".toList ++ text :=
  unblank_cons (c := 'n') (by decide) _

theorem receiverChars_none : receiverChars none = [] := rfl

theorem constructsChars_none : constructsChars none = [] := rfl

theorem receiverChars_some (t : TypeExpr) (text : List Char) :
    receiverChars (some t) ++ text = ',' :: ("this:".toList ++ (t.chars ++ text)) := by
  rw [receiverChars.eq_def, ← List.append_assoc "this:".toList]
  rfl

theorem constructsChars_some (t : TypeExpr) (text : List Char) :
    constructsChars (some t) ++ text = ',' :: ("new:".toList ++ (t.chars ++ text)) := by
  rw [constructsChars.eq_def, ← List.append_assoc "new:".toList]
  rfl

theorem head_constructsChars (constructs : Option TypeExpr) (ts : List TypeExpr) :
    ∀ c ∈ (constructsChars constructs ++ tailChars ',' ts).head?, c = ',' := by
  cases constructs with
  | none => rw [constructsChars_none]; exact head_tailChars ts
  | some t => rw [constructsChars_some]; exact fun c hc => (Option.some_inj.mp hc).symm

variable {receiver constructs : Option TypeExpr} {params ts : List TypeExpr}

/-- Parameters with a comma before each of them, up to a closing parenthesis. -/
theorem reads_behindParameters (h : ∀ u ∈ ts, u.Readable) (hdepth : 8 * (tailChars ',' ts).length ≤ depth) :
    Reads (readBehindParameter depth receiver constructs params) (tailChars ',' ts ++ ')' :: rest)
      (receiver, constructs, params.reverse ++ ts) (')' :: rest) := by
  induction ts generalizing depth params with
  | nil =>
      rw [tailChars, List.nil_append, List.append_nil]
      exact .bind (.eat_ne (by rw [List.head?_cons]; decide)) (.pure _ _)
  | cons u us ih =>
      have hu := h u List.mem_cons_self
      obtain ⟨hrest, hblank⟩ := follows_of_comma (head_tailChars us) rest
      have hparams : params.reverse ++ u :: us = (u :: params).reverse ++ us := by
        rw [List.reverse_cons, List.append_assoc, List.singleton_append]
      rw [tailChars, List.length_append, List.length_cons] at hdepth
      rw [tailChars, List.cons_append, List.cons_append, List.append_assoc, hparams]
      obtain ⟨depth, rfl⟩ : ∃ d, depth = d + 1 := ⟨depth - 1, by omega⟩
      refine .bind (.eat ',' _) ?_
      rw [hu.documented.unblank_chars]
      refine reads_parameter hu (by omega) hrest ?_
      rw [hblank]
      exact ih (fun v hv => h v (List.mem_cons_of_mem _ hv)) (by omega)

/-- What a function type constructs and the parameters, with a comma before each of them. -/
theorem reads_behindReceiver (hc : ∀ u ∈ constructs, u.Readable ∧ u.isPlain = true) (h : ∀ u ∈ ts, u.Readable)
    (hdepth : 8 * (constructsChars constructs ++ tailChars ',' ts).length ≤ depth) :
    Reads (readBehindParameter depth receiver none [])
      (constructsChars constructs ++ tailChars ',' ts ++ ')' :: rest) (receiver, constructs, ts) (')' :: rest) := by
  cases constructs with
  | none => exact reads_behindParameters h hdepth
  | some u =>
      obtain ⟨hu, hplain⟩ := hc u rfl
      obtain ⟨hrest, hblank⟩ := follows_of_comma (head_tailChars ts) rest
      rw [constructsChars_some, List.length_cons, List.length_append, List.length_append] at hdepth
      rw [List.append_assoc, constructsChars_some]
      obtain ⟨depth, rfl⟩ : ∃ d, depth = d + 1 := ⟨depth - 1, by omega⟩
      refine .bind (.eat ',' _) ?_
      rw [unblank_new]
      refine reads_constructs hu hplain (by omega) hrest ?_
      rw [hblank]
      exact reads_behindParameters h (by omega)

/-- The parts of a function type with the closing parenthesis, and what is read behind it. -/
theorem reads_parts {α : Type} {a : α} {rest' : List Char}
    {k : Option TypeExpr × Option TypeExpr × List TypeExpr → TypeReader α}
    (hr : ∀ u ∈ receiver, u.Readable ∧ u.isPlain = true)
    (hc : ∀ u ∈ constructs, u.Readable ∧ u.isPlain = true) (h : ∀ u ∈ ts, u.Readable)
    (hdepth : 8 * (commaFree (receiverChars receiver ++ constructsChars constructs ++ tailChars ',' ts)).length + 3 ≤
      depth)
    (hk : Reads (k (receiver, constructs, ts)) (unblank rest) a rest') :
    Reads (do
      if ← eat ')' then k (← pure (none, none, []))
      else
        let parts ← readParameters depth none none []
        if ← eat ')' then k (← pure parts) else k (← fail .parenNotClosed))
      (unblank (commaFree (receiverChars receiver ++ constructsChars constructs ++ tailChars ',' ts) ++ ')' :: rest))
      a rest' := by
  obtain ⟨depth, rfl⟩ : ∃ d, depth = d + 1 := ⟨depth - 1, by omega⟩
  have close : Reads (do if ← eat ')' then k (← pure (receiver, constructs, ts)) else k (← fail .parenNotClosed))
      (')' :: rest) a rest' := .bind (.eat ')' rest) (.bind (.pure _ _) hk)
  cases receiver with
  | some t =>
      obtain ⟨ht, hplain⟩ := hr t rfl
      obtain ⟨hrest, hblank⟩ := follows_of_comma (head_constructsChars constructs ts) rest
      rw [List.append_assoc, receiverChars_some, commaFree] at hdepth ⊢
      rw [List.length_append, List.length_append] at hdepth
      rw [List.append_assoc "this:".toList, List.append_assoc t.chars, unblank_this]
      refine .bind (.eat_ne (by simp)) (.bind (reads_receiver ht hplain (by omega) hrest ?_) close)
      rw [hblank]
      exact reads_behindReceiver hc h (by omega)
  | none =>
      obtain ⟨hrest, hblank⟩ := follows_of_comma (head_tailChars ts) rest
      cases constructs with
      | some t =>
          obtain ⟨ht, hplain⟩ := hc t rfl
          rw [receiverChars_none, List.nil_append, constructsChars_some, commaFree] at hdepth ⊢
          rw [List.length_append, List.length_append] at hdepth
          rw [List.append_assoc "new:".toList, List.append_assoc t.chars, unblank_new]
          refine .bind (.eat_ne (by simp)) (.bind (reads_constructs ht hplain (by omega) hrest ?_) close)
          rw [hblank]
          exact reads_behindParameters h (by omega)
      | none =>
          cases ts with
          | nil =>
              rw [constructsChars_none, receiverChars_none, tailChars, List.nil_append, List.nil_append, commaFree,
                List.nil_append, unblank_cons (by decide)]
              exact .bind (.eat ')' rest) (.bind (.pure _ _) hk)
          | cons t ts =>
              have ht := h t List.mem_cons_self
              obtain ⟨hrest, hblank⟩ := follows_of_comma (head_tailChars ts) rest
              rw [constructsChars_none, receiverChars_none, tailChars, List.nil_append, List.nil_append,
                List.cons_append, commaFree] at hdepth ⊢
              rw [List.length_append] at hdepth
              rw [List.append_assoc, ht.documented.unblank_chars]
              refine .bind (.eat_ne (ht.documented.head_ne (by decide) _))
                (.bind (reads_parameter ht (by omega) hrest ?_) close)
              rw [hblank]
              exact reads_behindParameters (fun u hu => h u (List.mem_cons_of_mem _ hu)) (by omega)

theorem chars_function_append (receiver constructs : Option TypeExpr) (ts : List TypeExpr)
    (result : Option TypeExpr) (rest : List Char) :
    (function receiver constructs ts result).chars ++ rest = "function".toList ++
      '(' :: (commaFree (receiverChars receiver ++ constructsChars constructs ++ tailChars ',' ts) ++
        ')' :: (resultChars result ++ rest)) := by
  rw [chars_function]
  generalize commaFree _ = inner
  generalize "function".toList = word
  rw [List.append_assoc, List.cons_append, List.append_assoc, List.cons_append]

/-- A function type. -/
theorem readBy_function {result : Option TypeExpr} (hr : ∀ u ∈ receiver, u.Readable ∧ u.isPlain = true)
    (hc : ∀ u ∈ constructs, u.Readable ∧ u.isPlain = true) (h : ∀ u ∈ ts, u.Readable)
    (hresult : ∀ u ∈ result, u.Readable ∧ u.isPlain = true) :
    (function receiver constructs ts result).ReadBy readBasic 0 typeStops := by
  intro depth rest hdepth hrest
  rw [chars_function] at hdepth
  simp only [List.length_append, List.length_cons] at hdepth
  rw [chars_function_append]
  obtain ⟨depth, rfl⟩ : ∃ d, depth = d + 2 := ⟨depth - 2, by omega⟩
  refine reads_basic_name (by decide) (fun c hc => Option.some_inj.mp hc ▸ by decide)
    (fun he => absurd he (by decide)) fun start => ?_
  rw [unblank_cons (by decide)]
  refine .sign rfl ?_
  rw [readFunction]
  refine reads_parts hr hc h (by omega) ?_
  cases result with
  | none =>
      rw [resultChars, List.nil_append]
      exact .bind (.eat_ne (hrest.head_ne (by decide))) (.bind (.pure _ _) (.pure _ _))
  | some u =>
      obtain ⟨hu, hplain⟩ := hresult u rfl
      rw [resultChars, List.length_cons] at hdepth
      rw [resultChars, List.cons_append, unblank_cons (by decide)]
      refine .bind (.eat ':' _) ?_
      rw [hu.documented.unblank_chars]
      exact .bind (.map (hu.plain hplain (by omega) hrest)) (.pure _ _)

/-! ## All types -/

/-- The types of the documented grammar are readable. -/
theorem Documented.readable (h : t.Documented) : t.Readable := by
  induction h with
  | @intro t hshape hparts ih =>
      have hdoc : t.Documented := .intro hshape hparts
      cases t with
      | unknown => exact hdoc.readable_of_plain rfl rfl readBy_unknown
      | all => exact hdoc.readable_of_operand rfl readBy_all
      | named name args =>
          obtain ⟨hname, hargs⟩ := Bool.and_eq_true_iff.mp hshape
          refine hdoc.readable_of_operand rfl ?_
          cases args with
          | nil => exact readBy_named_nil hname
          | cons u us => exact readBy_named_cons hname fun v hv => ⟨ih v hv, List.all_eq_true.mp hargs v hv⟩
      | nullable u =>
          have hu := ih u List.mem_cons_self
          exact hdoc.readable_of_plain rfl rfl (readBy_nullable hu.documented (hu.operand hshape))
      | nonNullable u =>
          have hu := ih u List.mem_cons_self
          exact hdoc.readable_of_plain rfl rfl (readBy_nonNullable hu.documented (hu.operand hshape))
      | optional u =>
          have hu := ih u List.mem_cons_self
          exact ⟨hdoc, nofun, nofun, readBy_optional hu.documented hshape (hu.plain hshape)⟩
      | varArgs u =>
          have hu := ih u List.mem_cons_self
          exact ⟨hdoc, nofun, nofun, readBy_varArgs hu.documented (hu.plain hshape)⟩
      | union ts =>
          obtain ⟨hlength, hplain⟩ := Bool.and_eq_true_iff.mp hshape
          refine hdoc.readable_of_operand rfl ?_
          match ts, hlength with
          | u :: v :: us, _ => exact readBy_union fun w hw => ⟨ih w hw, List.all_eq_true.mp hplain w hw⟩
      | record fields =>
          have hkey : ∀ f ∈ fields, isNameText f.1 = true := fun f hf =>
            (Bool.and_eq_true_iff.mp (List.all_eq_true.mp hshape f hf)).1
          have hvalue : ∀ f ∈ fields, ∀ u ∈ f.2, u.Readable ∧ u.isPlain = true := fun f hf u hu =>
            ⟨ih u (List.mem_filterMap.mpr ⟨f, hf, hu⟩),
              (Option.all_eq_true _ _).mp (Bool.and_eq_true_iff.mp (List.all_eq_true.mp hshape f hf)).2 u hu⟩
          refine hdoc.readable_of_operand rfl ?_
          cases fields with
          | nil => exact readBy_record_nil
          | cons f fs => exact readBy_record_cons hkey hvalue
      | function receiver constructs params result =>
          obtain ⟨hshape, hresult⟩ := Bool.and_eq_true_iff.mp hshape
          obtain ⟨hreceiver, hconstructs⟩ := Bool.and_eq_true_iff.mp hshape
          refine hdoc.readable_of_operand rfl (readBy_function (fun u hu => ⟨?_, ?_⟩) (fun u hu => ⟨?_, ?_⟩)
            (fun u hu => ?_) fun u hu => ⟨?_, ?_⟩)
          · exact ih u (mem_parts_function.mpr (.inl hu))
          · exact (Option.all_eq_true _ _).mp hreceiver u hu
          · exact ih u (mem_parts_function.mpr (.inr (.inl hu)))
          · exact (Option.all_eq_true _ _).mp hconstructs u hu
          · exact ih u (mem_parts_function.mpr (.inr (.inr (.inl hu))))
          · exact ih u (mem_parts_function.mpr (.inr (.inr (.inr hu))))
          · exact (Option.all_eq_true _ _).mp hresult u hu
      | typeOf name => exact hdoc.readable_of_operand rfl (readBy_typeOf hshape)

end TypeExpr

/-! ## Comments -/

namespace Region

/-- Without line breaks, what is collected of a comment is what lies between the delimiters. -/
theorem rawText_collect (first last : Nat) {text : List Char} (h : ∀ c ∈ text, isLineTerminator c = false)
    (i : Nat) (p : Position) :
    (collect first last i p false text).1.map (·.1) = (text.take (last - i)).drop (first - i) := by
  induction text generalizing i p with
  | nil => rw [collect, List.take_nil, List.drop_nil]; rfl
  | cons c cs ih =>
      obtain ⟨hc, hcs⟩ := List.forall_mem_cons.mp h
      have hrest := ih hcs (i + 1) (after p c cs)
      rw [collect]
      by_cases hin : first ≤ i ∧ i < last
      · have htake : last - i = last - (i + 1) + 1 := by omega
        have hdrop : first - i = 0 ∧ first - (i + 1) = 0 := by omega
        rw [hdrop.2, List.drop_zero] at hrest
        rw [if_pos (by simpa using hin), hc, htake, List.take_succ_cons, hdrop.1, List.drop_zero, ← hrest]
        rfl
      · rw [if_neg (by simpa using hin), hrest]
        by_cases hbefore : i < first
        · have hdrop : first - i = first - (i + 1) + 1 := by omega
          cases hlast : last - i with
          | zero =>
              have : last - (i + 1) = 0 := by omega
              rw [this, List.take_zero, List.take_zero, List.drop_nil, List.drop_nil]
          | succ m =>
              have : last - (i + 1) = m := by omega
              rw [this, hdrop, List.take_succ_cons, List.drop_succ_cons]
        · have hlast : last - i = 0 ∧ last - (i + 1) = 0 := by omega
          rw [hlast.1, hlast.2, List.take_zero, List.take_zero, List.drop_nil, List.drop_nil]

/-- The text of a comment of one line. -/
theorem rawText_ofComment {text : String} (h : ∀ c ∈ text.toList, isLineTerminator c = false) (start : Position) :
    (ofComment ("/** " ++ text ++ " */") start).rawText = ' ' :: (text.toList ++ [' ']) := by
  have hraw : ("/** " ++ text ++ " */").toList = ['/', '*', '*', ' '] ++ text.toList ++ [' ', '*', '/'] := by
    rw [String.toList_append, String.toList_append]
    rfl
  have hlines : ∀ c ∈ ['/', '*', '*', ' '] ++ text.toList ++ [' ', '*', '/'], isLineTerminator c = false :=
    List.forall_mem_append.mpr ⟨List.forall_mem_append.mpr ⟨by decide, h⟩, by decide⟩
  have hclosed : isClosed (['/', '*', '*', ' '] ++ text.toList ++ [' ', '*', '/']) = true := by
    unfold isClosed
    rw [List.reverse_append]
    rfl
  have hlength : (['/', '*', '*', ' '] ++ text.toList ++ [' ', '*', '/']).length = text.toList.length + 7 := by
    simp only [List.length_append, List.length_cons, List.length_nil]
    omega
  have hfirst : openingLength 3 (['/', '*', '*', ' '] ++ text.toList ++ [' ', '*', '/']) = 3 := rfl
  unfold ofComment
  dsimp only
  rw [hraw, hfirst, hclosed, hlength, if_pos (by simp)]
  refine (rawText_collect 3 _ hlines 0 start).trans ?_
  have hinner : (['/', '*', '*', ' '] ++ text.toList ++ [' ', '*', '/']).drop 3 =
      ' ' :: (text.toList ++ [' ']) ++ ['*', '/'] := by
    simp only [List.append_assoc, List.cons_append, List.nil_append, List.drop_succ_cons, List.drop_zero]
  rw [List.drop_take, Nat.sub_zero, hinner]
  refine List.take_left' ?_
  simp only [List.length_append, List.length_cons, List.length_nil]
  omega

end Region

/-- A text without at signs has no tags. -/
theorem Tag.cut_eq {text : List (Char × Position)} (h : ∀ x ∈ text, x.1 ≠ '@') (blankBefore : Bool) :
    cut blankBefore text = (text, []) := by
  induction text generalizing blankBefore with
  | nil => rfl
  | cons x xs ih =>
      obtain ⟨hx, hxs⟩ := List.forall_mem_cons.mp h
      have hstart : startsAt blankBefore x.1 xs = false := by
        unfold startsAt
        rw [beq_eq_false_iff_ne.mpr hx, Bool.false_and, Bool.false_and]
      rw [cut, ih hxs, hstart]
      rfl

namespace TypeExpr

variable {t : TypeExpr}

/-- A type that fills a text between blanks is read as it is written. -/
theorem Documented.reads_all (h : t.Documented) {depth : Nat} (hdepth : 8 * t.chars.length + 2 ≤ depth) :
    Reads (readAll depth) (t.chars ++ [' ']) t [] := by
  have hrest : Follows paramEnds [' '] :=
    ⟨fun c hc => Option.some_inj.mp hc ▸ by decide, by rw [unblank_blank (by decide)]; nofun⟩
  have hblank : unblank [' '] = [] := unblank_blank (by decide) []
  unfold readAll
  refine .bind (h.readable.param (by omega) hrest) ?_
  rw [hblank]
  exact .look (.pure _ _)

/-- No character of a type breaks a line or starts a tag. -/
theorem not_of_isTypeChar {c : Char} (h : isTypeChar c = true) : isLineTerminator c = false ∧ c ≠ '@' := by
  have hlines : ∀ c ∈ ['\n', '\r', '\u2028', '\u2029'], isTypeChar c = false := by decide +kernel
  refine ⟨Bool.eq_false_iff.mpr fun hline => ?_, ?_⟩
  · unfold isLineTerminator at hline
    simp only [Bool.or_eq_true, beq_iff_eq, or_assoc] at hline
    have hc := hlines c (by simpa using hline)
    rw [hc] at h
    cases h
  · rintro rfl
    exact absurd h (by decide)

end TypeExpr

/-- A comment that is the text of a type of the documented grammar gives the type, and no warning. -/
theorem parseInlineType_render (t : TypeExpr) (h : t.Documented) (start : Position) :
    parseInlineType ("/** " ++ t.render ++ " */") start =
      (some { type := some t, inlineType := true }, []) := by
  have hchars := h.isTypeChar_chars
  have hrender : t.render.toList = t.chars := String.toList_ofList
  have hraw : (Region.ofComment ("/** " ++ t.render ++ " */") start).rawText = ' ' :: (t.chars ++ [' ']) := by
    rw [Region.rawText_ofComment (fun c hc => (TypeExpr.not_of_isTypeChar (hchars c (hrender ▸ hc))).1), hrender]
  unfold parseInlineType
  generalize Region.ofComment ("/** " ++ t.render ++ " */") start = region at hraw ⊢
  obtain ⟨c, cs, hcs, hstart, -⟩ := h.first
  have hblank : region.isBlank = false := by
    unfold Region.isBlank
    rw [hraw, hcs, List.cons_append, List.all_cons, List.all_cons, isWhiteSpace_of_isTypeStart hstart,
      Bool.false_and, Bool.and_false]
  have hsigns : ∀ x ∈ region.chars, x.1 ≠ '@' := by
    intro x hx
    have hmem : x.1 ∈ ' ' :: (t.chars ++ [' ']) := hraw ▸ List.mem_map_of_mem hx
    have hall : ∀ c ∈ ' ' :: (t.chars ++ [' ']), isTypeChar c = true :=
      List.forall_mem_cons.mpr ⟨by decide, List.forall_mem_append.mpr ⟨hchars, by decide⟩⟩
    exact (TypeExpr.not_of_isTypeChar (hall x.1 hmem)).2
  have hlength : region.chars.length = t.chars.length + 2 := by
    have hmap : region.rawText.length = region.chars.length := List.length_map _
    rw [← hmap, hraw, List.length_cons, List.length_append]
    rfl
  have hread : Reads (readAll (depth region)) (t.chars ++ [' ']) t [] :=
    h.reads_all (by unfold depth; omega)
  obtain ⟨rest, hrest, -⟩ := hread region (by rw [hraw, unblank_blank (by decide), h.unblank_chars])
  dsimp only
  rw [if_neg (by rw [hblank]; decide)]
  unfold Tag.split
  rw [Tag.cut_eq hsigns]
  dsimp only [Tag.ofPieces]
  rw [hrest]

/-- A function type with a receiver, a parameter that may be left out, one for all further arguments, and a
record as its result. -/
def callbackType : TypeExpr :=
  .function (some (.nullable (.named "a.B" [.unknown]))) none
    [.optional (.union [.named "a.B" [.unknown], .typeOf "c"]), .varArgs .all]
    (some (.record [("d", some .unknown), ("e", none)]))

theorem parseInlineType_render_callback : callbackType.Documented ∧
    parseInlineType ("/** " ++ callbackType.render ++ " */") ⟨1, 0, 0⟩ =
      (some { type := some callbackType, inlineType := true }, []) := by
  have hunknown : TypeExpr.unknown.Documented := .intro rfl nofun
  have hnamed : (TypeExpr.named "a.B" [.unknown]).Documented :=
    .intro (by decide +kernel) (List.forall_mem_singleton.mpr hunknown)
  have hreceiver : (TypeExpr.nullable (.named "a.B" [.unknown])).Documented :=
    .intro rfl (List.forall_mem_singleton.mpr hnamed)
  have hunion : (TypeExpr.union [.named "a.B" [.unknown], .typeOf "c"]).Documented :=
    .intro rfl (List.forall_mem_cons.mpr
      ⟨hnamed, List.forall_mem_singleton.mpr (.intro (by decide +kernel) nofun)⟩)
  have hrest : (TypeExpr.varArgs .all).Documented :=
    .intro rfl (List.forall_mem_singleton.mpr (.intro rfl nofun))
  have hoptional : (TypeExpr.optional (.union [.named "a.B" [.unknown], .typeOf "c"])).Documented :=
    .intro rfl (List.forall_mem_singleton.mpr hunion)
  have hresult : (TypeExpr.record [("d", some .unknown), ("e", none)]).Documented :=
    .intro (by decide +kernel) (List.forall_mem_singleton.mpr hunknown)
  have hdoc : callbackType.Documented := .intro rfl fun u hu => by
    obtain hu | hu | hu | hu := TypeExpr.mem_parts_function.mp hu
    · exact Option.some_inj.mp hu ▸ hreceiver
    · cases hu
    · exact List.forall_mem_cons.mpr ⟨hoptional, List.forall_mem_singleton.mpr hrest⟩ u hu
    · exact Option.some_inj.mp hu ▸ hresult
  exact ⟨hdoc, parseInlineType_render callbackType hdoc ⟨1, 0, 0⟩⟩

end EcmaScript.Doc
