import EcmaScript.Doc.Parser
import EcmaScript.Proofs.Doc.Reading

/-!
# The text of a type

The documented grammar of types, and what can be seen of a type at the start of its text. The grammar is read
with one sign of lookahead and without tokens: the first sign says what sort of type follows, the sign behind a
type says whether it goes on. A type of the grammar never starts with a sign that stands behind types, and
never with a word and a colon.

## Contents

* `TypeExpr.Documented`: the types of the documented grammar.
* `Follows`: what may stand behind a type.
* `TypeExpr.Documented.first`, `TypeExpr.Documented.lead`: the first sign and the first word of a type.
-/

namespace EcmaScript.Doc

open TypeReader (isTypeNameChar)

/-- What is said of all characters of a list is decided along the list, not along all characters. -/
scoped instance (priority := 2000) decidableForallMem (p : Char → Prop) [DecidablePred p] (cs : List Char) :
    Decidable (∀ c ∈ cs, p c) :=
  List.decidableBAll p cs

/-! ## The documented grammar -/

namespace TypeExpr

/-- Whether the type can stand outside of lists of parameters. -/
def isPlain (t : TypeExpr) : Bool := !t.isOptional && !t.isVarArgs

/-- Whether a mark for null can stand before the type. -/
def isOperand : TypeExpr → Bool
  | unknown | nullable _ | nonNullable _ | optional _ | varArgs _ => false
  | _ => true

/-- The types of which a type is made. -/
def parts : TypeExpr → List TypeExpr
  | unknown | all | typeOf _ => []
  | nullable t | nonNullable t | optional t | varArgs t => [t]
  | named _ ts | union ts => ts
  | record fields => fields.filterMap (·.2)
  | function receiver constructs params result =>
    receiver.toList ++ constructs.toList ++ params ++ result.toList

theorem mem_parts_function {receiver constructs result : Option TypeExpr} {params : List TypeExpr}
    {t : TypeExpr} : t ∈ (function receiver constructs params result).parts ↔
      t ∈ receiver ∨ t ∈ constructs ∨ t ∈ params ∨ t ∈ result := by
  simp only [parts, List.mem_append, Option.mem_toList, Option.mem_def, or_assoc]

/-- Whether the text consists of characters of names. -/
def isNameText (text : String) : Bool := !text.toList.isEmpty && text.toList.all isTypeNameChar

/-- Whether the text can name a type. -/
def isTypeName (name : String) : Bool :=
  isNameText name && name.toList.head? != some '.' && name.toList.getLast? != some '.' && name != "typeof"

/-- Whether the type is put together as documented, if its parts are. Only a parameter can be optional or
stand for any number of arguments. -/
def isWellShaped : TypeExpr → Bool
  | unknown | all => true
  | named name args => isTypeName name && args.all isPlain
  | nullable t | nonNullable t => t.isOperand
  | optional t | varArgs t => t.isPlain
  | union ts => 2 ≤ ts.length && ts.all isPlain
  | record fields => fields.all fun f => isNameText f.1 && f.2.all isPlain
  | function receiver constructs _ result =>
    receiver.all isPlain && constructs.all isPlain && result.all isPlain
  | typeOf name => isNameText name

/-- The types of the documented grammar. -/
inductive Documented : TypeExpr → Prop where
  | intro {t : TypeExpr} : t.isWellShaped = true → (∀ u ∈ t.parts, Documented u) → Documented t

end TypeExpr

/-! ## Signs -/

/-- The characters with some numbers in a row. -/
theorem mem_of_between {c : Char} {first count : Nat} (h : first ≤ c.toNat) (h' : c.toNat < first + count) :
    c ∈ (List.range' first count).map Char.ofNat :=
  List.mem_map.mpr ⟨c.toNat, List.mem_range'_1.mpr ⟨h, h'⟩, Char.ofNat_toNat c⟩

/-- Blanks are not part of names. -/
theorem isTypeNameChar_of_isWhiteSpace {c : Char} (h : Unicode.isWhiteSpace c = true) :
    isTypeNameChar c = false := by
  have hcontrols : ∀ c ∈ (List.range' 9 5).map Char.ofNat, isTypeNameChar c = false := by decide +kernel
  have hspaces : ∀ c ∈ (List.range' 0x2000 11).map Char.ofNat, isTypeNameChar c = false := by
    decide +kernel
  unfold Unicode.isWhiteSpace at h
  simp only [Bool.or_eq_true, beq_iff_eq, Bool.and_eq_true, decide_eq_true_eq] at h
  rcases h with ((((((((((rfl | h) | rfl) | rfl) | rfl) | h) | rfl) | rfl) | rfl) | rfl) | rfl)
  case inl.inl.inl.inl.inl.inl.inl.inl.inl.inr =>
      exact hcontrols c (mem_of_between h.1 (Nat.lt_succ_of_le h.2))
  case inl.inl.inl.inl.inl.inr => exact hspaces c (mem_of_between h.1 (Nat.lt_succ_of_le h.2))
  all_goals decide +kernel

theorem isWhiteSpace_of_isTypeNameChar {c : Char} (h : isTypeNameChar c = true) :
    Unicode.isWhiteSpace c = false := by
  refine Bool.eq_false_iff.mpr fun hblank => ?_
  rw [isTypeNameChar_of_isWhiteSpace hblank] at h
  cases h

/-- The signs that stand behind parameters. -/
def paramEnds : List Char := [',', ')']

/-- The signs that stand behind types. -/
def typeEnds : List Char := [',', '=', '\x7d', ')', '>']

/-- The signs that stand behind the alternatives of types. -/
def typeStops : List Char := '|' :: typeEnds

/-- The signs with which types start that do not start with a name. -/
def typeSigns : List Char := ['?', '*', '!', '(', '\x7b']

/-- Whether a type may start with the character. -/
def isTypeStart (c : Char) : Bool := isTypeNameChar c || typeSigns.contains c

theorem not_isTypeNameChar_of_mem {c : Char} (h : c ∈ [':', ']'] ++ typeStops ++ typeSigns) :
    isTypeNameChar c = false := by
  have hall : ∀ c ∈ [':', ']'] ++ typeStops ++ typeSigns, isTypeNameChar c = false := by decide +kernel
  exact hall c h

theorem isWhiteSpace_of_mem {c : Char} (h : c ∈ [':', ']'] ++ typeStops ++ typeSigns) :
    Unicode.isWhiteSpace c = false := by
  have hall : ∀ c ∈ [':', ']'] ++ typeStops ++ typeSigns, Unicode.isWhiteSpace c = false := by
    decide +kernel
  exact hall c h

theorem isWhiteSpace_of_isTypeStart {c : Char} (h : isTypeStart c = true) :
    Unicode.isWhiteSpace c = false := by
  obtain h | h := Bool.or_eq_true_iff.mp h
  · exact isWhiteSpace_of_isTypeNameChar h
  · exact isWhiteSpace_of_mem (List.mem_append_right _ (List.contains_iff_mem.mp h))

theorem isTypeStart_of_isTypeNameChar {c : Char} (h : isTypeNameChar c = true) : isTypeStart c = true :=
  Bool.or_eq_true_iff.mpr (.inl h)

/-- Marks for null are not part of names. -/
theorem ne_of_isTypeNameChar {c : Char} (h : isTypeNameChar c = true) : c ≠ '?' ∧ c ≠ '!' := by
  refine ⟨?_, ?_⟩
  · rintro rfl
    exact absurd h (by decide)
  · rintro rfl
    exact absurd h (by decide)

/-- Whether the character may stand in the text of a type. -/
def isTypeChar (c : Char) : Bool := isTypeStart c || (typeStops ++ ['<', ':', ' ']).contains c

theorem not_mem_of_isTypeStart {c : Char} (h : isTypeStart c = true) : c ∉ [':', ']'] ++ typeStops := by
  intro hm
  obtain h | h := Bool.or_eq_true_iff.mp h
  · rw [not_isTypeNameChar_of_mem (List.mem_append_left _ hm)] at h
    cases h
  · have hnone : ∀ c ∈ [':', ']'] ++ typeStops, typeSigns.contains c = false := by decide
    rw [hnone c hm] at h
    cases h

/-- What may stand behind a type: one of the signs, behind blanks, and no further character of a name. -/
structure Follows (stops rest : List Char) : Prop where
  apart : ∀ c ∈ rest.head?, isTypeNameChar c = false
  stop : ∀ c ∈ (unblank rest).head?, c ∈ stops

namespace Follows

variable {stops stops' rest : List Char} {c : Char}

theorem mono (h : Follows stops rest) (hs : stops ⊆ stops') : Follows stops' rest :=
  ⟨h.apart, fun c hc => hs (h.stop c hc)⟩

theorem head_ne (h : Follows stops rest) (hc : c ∉ stops) : (unblank rest).head? ≠ some c :=
  fun he => hc (h.stop c he)

theorem cons (hc : c ∈ typeStops) (hs : c ∈ stops) (text : List Char) : Follows stops (c :: text) := by
  have hmem : c ∈ [':', ']'] ++ typeStops ++ typeSigns :=
    List.mem_append_left _ (List.mem_append_right _ hc)
  refine ⟨fun d hd => ?_, fun d hd => ?_⟩
  · cases hd
    exact not_isTypeNameChar_of_mem hmem
  · rw [unblank_cons (isWhiteSpace_of_mem hmem)] at hd
    cases hd
    exact hs

/-- No sign of two parts stands behind a type. -/
theorem head?_ne (h : Follows stops rest) (hc : c ∉ stops) (hblank : Unicode.isWhiteSpace c = false) :
    rest.head? ≠ some c := by
  intro he
  cases rest with
  | nil => cases he
  | cons d text =>
      cases he
      exact h.head_ne hc (by rw [unblank_cons hblank, List.head?_cons])

end Follows

/-! ## The start of a type -/

namespace TypeExpr

/-! The text of each type. -/

theorem chars_unknown : unknown.chars = ['?'] := rfl

theorem chars_all : all.chars = ['*'] := rfl

theorem chars_named_nil (name : String) : (named name []).chars = name.toList := rfl

theorem chars_named_cons (name : String) (t : TypeExpr) (ts : List TypeExpr) :
    (named name (t :: ts)).chars = name.toList ++ '<' :: (t.chars ++ tailChars ',' ts ++ ['>']) :=
  List.append_assoc name.toList _ _

theorem chars_nullable (t : TypeExpr) : (nullable t).chars = '?' :: t.chars := rfl

theorem chars_nonNullable (t : TypeExpr) : (nonNullable t).chars = '!' :: t.chars := rfl

theorem chars_optional (t : TypeExpr) : (optional t).chars = t.chars ++ ['='] := rfl

theorem chars_varArgs (t : TypeExpr) : (varArgs t).chars = ['.', '.', '.'] ++ t.chars := rfl

theorem chars_union_cons (t : TypeExpr) (ts : List TypeExpr) :
    (union (t :: ts)).chars = '(' :: (t.chars ++ tailChars '|' ts ++ [')']) := rfl

theorem chars_record_nil : (record []).chars = ['\x7b', '\x7d'] := rfl

theorem chars_record_cons (f : String × Option TypeExpr) (fs : List (String × Option TypeExpr)) :
    (record (f :: fs)).chars = '\x7b' :: (fieldChars f ++ fieldTailChars fs ++ ['\x7d']) := rfl

theorem chars_function (receiver constructs : Option TypeExpr) (params : List TypeExpr)
    (result : Option TypeExpr) :
    (function receiver constructs params result).chars = "function".toList ++
      '(' :: (commaFree (receiverChars receiver ++ constructsChars constructs ++ tailChars ',' params) ++
        ')' :: resultChars result) :=
  List.append_assoc "function".toList ['('] _

theorem chars_typeOf (name : String) : (typeOf name).chars = "typeof".toList ++ ' ' :: name.toList :=
  rfl

/-- A name of characters of names has a first one. -/
theorem exists_cons_of_isNameText {name : String} (h : isNameText name = true) :
    ∃ c cs, name.toList = c :: cs ∧ isTypeNameChar c = true := by
  obtain ⟨hne, hall⟩ := Bool.and_eq_true_iff.mp h
  cases hn : name.toList with
  | nil =>
      rw [hn] at hne
      cases hne
  | cons c cs => exact ⟨c, cs, rfl, List.all_eq_true.mp hall c (hn ▸ List.mem_cons_self)⟩

theorem isTypeName_iff {name : String} : isTypeName name = true ↔ isNameText name = true ∧
    name.toList.head? ≠ some '.' ∧ name.toList.getLast? ≠ some '.' ∧ name ≠ "typeof" := by
  unfold isTypeName
  simp only [Bool.and_eq_true, bne_iff_ne, and_assoc]

theorem isNameText_of_isTypeName {name : String} (h : isTypeName name = true) : isNameText name = true :=
  (isTypeName_iff.mp h).1

theorem forall_of_isNameText {name : String} (h : isNameText name = true) :
    ∀ c ∈ name.toList, isTypeNameChar c = true :=
  List.all_eq_true.mp (Bool.and_eq_true_iff.mp h).2

/-- The text of a named type is its name with what stands in angle brackets. -/
theorem chars_named (name : String) (args : List TypeExpr) :
    ∃ text, (named name args).chars = name.toList ++ text ∧ ∀ c ∈ text.head?, c = '<' := by
  cases args with
  | nil => exact ⟨[], by rw [chars_named_nil, List.append_nil], nofun⟩
  | cons t ts => exact ⟨_, chars_named_cons name t ts, fun c hc => (Option.some_inj.mp hc).symm⟩

theorem chars_union (ts : List TypeExpr) : ∃ text, (union ts).chars = '(' :: text := by
  cases ts with
  | nil => exact ⟨_, rfl⟩
  | cons t ts => exact ⟨_, chars_union_cons t ts⟩

theorem chars_record (fields : List (String × Option TypeExpr)) :
    ∃ text, (record fields).chars = '\x7b' :: text := by
  cases fields with
  | nil => exact ⟨_, chars_record_nil⟩
  | cons f fs => exact ⟨_, chars_record_cons f fs⟩

namespace Documented

variable {t : TypeExpr}

theorem shape (h : t.Documented) : t.isWellShaped = true := by
  cases h
  assumption

theorem part (h : t.Documented) : ∀ u ∈ t.parts, u.Documented := by
  cases h
  assumption

/-- A type starts with a name or with one of some signs, and it is seen there whether it is plain and
whether a mark for null can stand before it. -/
theorem first (h : t.Documented) : ∃ c cs, t.chars = c :: cs ∧ isTypeStart c = true ∧
    (t.isPlain = true → c ≠ '.') ∧ (t.isOperand = true → c ≠ '?' ∧ c ≠ '!') := by
  induction h with
  | @intro t hshape hparts ih =>
      cases t with
      | unknown => exact ⟨'?', [], chars_unknown, by decide, fun _ => by decide, nofun⟩
      | all => exact ⟨'*', [], chars_all, by decide, fun _ => by decide, fun _ => by decide⟩
      | named name args =>
          have hname := (Bool.and_eq_true_iff.mp hshape).1
          obtain ⟨c, cs, hcs, hc⟩ := exists_cons_of_isNameText (isNameText_of_isTypeName hname)
          obtain ⟨text, htext, -⟩ := chars_named name args
          refine ⟨c, cs ++ text, by rw [htext, hcs, List.cons_append], isTypeStart_of_isTypeNameChar hc,
            fun _ he => (isTypeName_iff.mp hname).2.1 ?_, fun _ => ne_of_isTypeNameChar hc⟩
          rw [hcs, List.head?_cons, he]
      | nullable u => exact ⟨'?', u.chars, chars_nullable u, by decide, fun _ => by decide, nofun⟩
      | nonNullable u => exact ⟨'!', u.chars, chars_nonNullable u, by decide, fun _ => by decide, nofun⟩
      | optional u =>
          obtain ⟨c, cs, hcs, hc, -⟩ := ih u List.mem_cons_self
          exact ⟨c, cs ++ ['='], by rw [chars_optional, hcs, List.cons_append], hc, nofun, nofun⟩
      | varArgs u => exact ⟨'.', '.' :: '.' :: u.chars, chars_varArgs u, by decide, nofun, nofun⟩
      | union ts =>
          obtain ⟨text, htext⟩ := chars_union ts
          exact ⟨'(', text, htext, by decide, fun _ => by decide, fun _ => by decide⟩
      | record fields =>
          obtain ⟨text, htext⟩ := chars_record fields
          exact ⟨'\x7b', text, htext, by decide, fun _ => by decide, fun _ => by decide⟩
      | function receiver constructs params result =>
          exact ⟨'f', _, chars_function receiver constructs params result, by decide, fun _ => by decide,
            fun _ => by decide⟩
      | typeOf name => exact ⟨'t', _, chars_typeOf name, by decide, fun _ => by decide, fun _ => by decide⟩

/-- The characters of names at the start of a type end at a sign, and that is no colon. -/
theorem lead (h : t.Documented) : ∃ word text, t.chars = word ++ text ∧
    (∀ c ∈ word, isTypeNameChar c = true) ∧ ∀ c ∈ text.head?, isTypeNameChar c = false ∧ c ≠ ':' := by
  -- a type that starts with a sign
  have sign {c : Char} {t : TypeExpr} {text : List Char} (ht : t.chars = c :: text)
      (hc : isTypeNameChar c = false ∧ c ≠ ':') : ∃ word text, t.chars = word ++ text ∧
      (∀ c ∈ word, isTypeNameChar c = true) ∧ ∀ c ∈ text.head?, isTypeNameChar c = false ∧ c ≠ ':' :=
    ⟨[], c :: text, ht, nofun, fun d hd => Option.some_inj.mp hd ▸ hc⟩
  induction h with
  | @intro t hshape hparts ih =>
      cases t with
      | unknown => exact sign chars_unknown (by decide)
      | all => exact sign chars_all (by decide)
      | named name args =>
          obtain ⟨text, htext, hsign⟩ := chars_named name args
          have hname := isNameText_of_isTypeName (Bool.and_eq_true_iff.mp hshape).1
          exact ⟨name.toList, text, htext, forall_of_isNameText hname,
            fun c hc => hsign c hc ▸ by decide⟩
      | nullable u => exact sign (chars_nullable u) (by decide)
      | nonNullable u => exact sign (chars_nonNullable u) (by decide)
      | optional u =>
          obtain ⟨word, text, htext, hword, hsign⟩ := ih u List.mem_cons_self
          refine ⟨word, text ++ ['='], by rw [chars_optional, htext, List.append_assoc], hword, ?_⟩
          cases text with
          | nil => exact fun c hc => Option.some_inj.mp hc ▸ by decide
          | cons c cs => exact hsign
      | varArgs u =>
          obtain ⟨word, text, htext, hword, hsign⟩ := ih u List.mem_cons_self
          refine ⟨['.', '.', '.'] ++ word, text, by rw [chars_varArgs, htext, List.append_assoc],
            fun c hc => ?_, hsign⟩
          obtain hc | hc := List.mem_append.mp hc
          · have hpoints : ∀ c ∈ ['.', '.', '.'], isTypeNameChar c = true := by decide
            exact hpoints c hc
          · exact hword c hc
      | union ts =>
          obtain ⟨text, htext⟩ := chars_union ts
          exact sign htext (by decide)
      | record fields =>
          obtain ⟨text, htext⟩ := chars_record fields
          exact sign htext (by decide)
      | function receiver constructs params result =>
          exact ⟨"function".toList, _, chars_function receiver constructs params result, by decide,
            fun c hc => Option.some_inj.mp hc ▸ by decide⟩
      | typeOf name =>
          exact ⟨"typeof".toList, _, chars_typeOf name, by decide,
            fun c hc => Option.some_inj.mp hc ▸ by decide⟩

/-- A type does not start with a word and a colon. -/
theorem not_prefix (h : t.Documented) {word rest : List Char} (hword : ∀ c ∈ word, isTypeNameChar c = true)
    (hrest : ∀ c ∈ rest.head?, isTypeNameChar c = false ∧ c ≠ ':') : ¬word ++ [':'] <+: t.chars ++ rest := by
  rintro ⟨text, htext⟩
  obtain ⟨lead, sign, ht, hlead, hsign⟩ := h.lead
  -- both texts go on behind their names: one with a colon, the other with another sign
  have hcolon : (t.chars ++ rest).dropWhile isTypeNameChar = ':' :: text := by
    rw [← htext, List.append_assoc, List.dropWhile_append_of_pos hword]
    rfl
  have hother : ∀ c ∈ (sign ++ rest).head?, isTypeNameChar c = false ∧ c ≠ ':' := by
    cases sign with
    | nil => exact hrest
    | cons c cs => exact hsign
  rw [ht, List.append_assoc, List.dropWhile_append_of_pos hlead] at hcolon
  cases hs : sign ++ rest with
  | nil =>
      rw [hs] at hcolon
      cases hcolon
  | cons c cs =>
      obtain ⟨hname, hne⟩ := hother c (by rw [hs]; rfl)
      rw [hs, List.dropWhile_cons_of_neg (Bool.eq_false_iff.mp hname)] at hcolon
      exact hne (List.cons.inj hcolon).1

theorem unblank_chars (h : t.Documented) (text : List Char) :
    unblank (t.chars ++ text) = t.chars ++ text := by
  obtain ⟨c, cs, hcs, hc, -⟩ := h.first
  rw [hcs, List.cons_append, unblank_cons (isWhiteSpace_of_isTypeStart hc)]

/-- No sign that stands behind types stands at the start of one. -/
theorem head_ne (h : t.Documented) {d : Char} (hd : d ∈ [':', ']'] ++ typeStops) (text : List Char) :
    (t.chars ++ text).head? ≠ some d := by
  obtain ⟨c, cs, hcs, hc, -⟩ := h.first
  rw [hcs, List.cons_append, List.head?_cons]
  rintro he
  cases he
  exact not_mem_of_isTypeStart hc hd

theorem length_pos (h : t.Documented) : 0 < t.chars.length := by
  obtain ⟨c, cs, hcs, -⟩ := h.first
  rw [hcs]
  exact Nat.succ_pos _

/-! All characters of a type. -/

theorem isTypeChar_of_isTypeNameChar {c : Char} (h : isTypeNameChar c = true) : isTypeChar c = true :=
  Bool.or_eq_true_iff.mpr (.inl (isTypeStart_of_isTypeNameChar h))

theorem isTypeChar_of_mem_name {name : String} (h : isNameText name = true) :
    ∀ c ∈ name.toList, isTypeChar c = true :=
  fun c hc => isTypeChar_of_isTypeNameChar (forall_of_isNameText h c hc)

theorem isTypeChar_tailChars (separator : Char) (hs : isTypeChar separator = true) {ts : List TypeExpr}
    (h : ∀ u ∈ ts, ∀ c ∈ u.chars, isTypeChar c = true) : ∀ c ∈ tailChars separator ts, isTypeChar c = true := by
  induction ts with
  | nil => rw [tailChars]; nofun
  | cons u us ih =>
      obtain ⟨hu, hus⟩ := List.forall_mem_cons.mp h
      rw [tailChars]
      exact List.forall_mem_append.mpr ⟨List.forall_mem_cons.mpr ⟨hs, hu⟩, ih hus⟩

theorem isTypeChar_fieldChars {f : String × Option TypeExpr} (hkey : isNameText f.1 = true)
    (h : ∀ u ∈ f.2, ∀ c ∈ u.chars, isTypeChar c = true) : ∀ c ∈ fieldChars f, isTypeChar c = true := by
  obtain ⟨key, value⟩ := f
  have hkey' := isTypeChar_of_mem_name hkey
  cases value with
  | none => rwa [fieldChars]
  | some u =>
      rw [fieldChars]
      exact List.forall_mem_append.mpr
        ⟨hkey', List.forall_mem_cons.mpr ⟨by decide, List.forall_mem_cons.mpr ⟨by decide, h u rfl⟩⟩⟩

theorem isTypeChar_fieldTailChars {fs : List (String × Option TypeExpr)}
    (hkey : ∀ f ∈ fs, isNameText f.1 = true)
    (h : ∀ f ∈ fs, ∀ u ∈ f.2, ∀ c ∈ u.chars, isTypeChar c = true) :
    ∀ c ∈ fieldTailChars fs, isTypeChar c = true := by
  induction fs with
  | nil => rw [fieldTailChars]; nofun
  | cons f fs ih =>
      obtain ⟨hf, hfs⟩ := List.forall_mem_cons.mp h
      obtain ⟨hkeyf, hkeyfs⟩ := List.forall_mem_cons.mp hkey
      rw [fieldTailChars]
      refine List.forall_mem_append.mpr ⟨?_, ih hkeyfs hfs⟩
      exact List.forall_mem_cons.mpr ⟨by decide, List.forall_mem_cons.mpr
        ⟨by decide, isTypeChar_fieldChars hkeyf hf⟩⟩

theorem isTypeChar_commaFree {text : List Char} (h : ∀ c ∈ text, isTypeChar c = true) :
    ∀ c ∈ commaFree text, isTypeChar c = true := by
  cases text with
  | nil => exact h
  | cons c cs => exact (List.forall_mem_cons.mp h).2

/-- A further part of a function type, if there is one. -/
theorem isTypeChar_part (part : Option TypeExpr → List Char) (word : List Char)
    (hpart : ∀ o, part o = o.elim [] fun u => word ++ u.chars) (hword : ∀ c ∈ word, isTypeChar c = true)
    {o : Option TypeExpr} (h : ∀ u ∈ o, ∀ c ∈ u.chars, isTypeChar c = true) :
    ∀ c ∈ part o, isTypeChar c = true := by
  rw [hpart]
  cases o with
  | none => nofun
  | some u => exact List.forall_mem_append.mpr ⟨hword, h u rfl⟩

/-- The characters of a type. -/
theorem isTypeChar_chars (h : t.Documented) : ∀ c ∈ t.chars, isTypeChar c = true := by
  induction h with
  | @intro t hshape hparts ih =>
      cases t with
      | unknown => rw [chars_unknown]; decide
      | all => rw [chars_all]; decide
      | named name args =>
          have hname := isTypeChar_of_mem_name (isNameText_of_isTypeName (Bool.and_eq_true_iff.mp hshape).1)
          cases args with
          | nil => rwa [chars_named_nil]
          | cons u us =>
              obtain ⟨hu, hus⟩ := List.forall_mem_cons.mp ih
              have hargs := List.forall_mem_append.mpr ⟨hu, isTypeChar_tailChars ',' (by decide) hus⟩
              rw [chars_named_cons]
              exact List.forall_mem_append.mpr ⟨hname, List.forall_mem_cons.mpr
                ⟨by decide, List.forall_mem_append.mpr ⟨hargs, by decide⟩⟩⟩
      | nullable u =>
          rw [chars_nullable]
          exact List.forall_mem_cons.mpr ⟨by decide, ih u List.mem_cons_self⟩
      | nonNullable u =>
          rw [chars_nonNullable]
          exact List.forall_mem_cons.mpr ⟨by decide, ih u List.mem_cons_self⟩
      | optional u =>
          rw [chars_optional]
          exact List.forall_mem_append.mpr ⟨ih u List.mem_cons_self, by decide⟩
      | varArgs u =>
          rw [chars_varArgs]
          exact List.forall_mem_append.mpr ⟨by decide, ih u List.mem_cons_self⟩
      | union ts =>
          cases ts with
          | nil => cases hshape
          | cons u us =>
              obtain ⟨hu, hus⟩ := List.forall_mem_cons.mp ih
              have hargs := List.forall_mem_append.mpr ⟨hu, isTypeChar_tailChars '|' (by decide) hus⟩
              rw [chars_union_cons]
              exact List.forall_mem_cons.mpr ⟨by decide, List.forall_mem_append.mpr ⟨hargs, by decide⟩⟩
      | record fields =>
          have hkey : ∀ f ∈ fields, isNameText f.1 = true := fun f hf =>
            (Bool.and_eq_true_iff.mp (List.all_eq_true.mp hshape f hf)).1
          have hvalue : ∀ f ∈ fields, ∀ u ∈ f.2, ∀ c ∈ u.chars, isTypeChar c = true := fun f hf u hu =>
            ih u (List.mem_filterMap.mpr ⟨f, hf, hu⟩)
          cases fields with
          | nil => rw [chars_record_nil]; decide
          | cons f fs =>
              obtain ⟨hf, hfs⟩ := List.forall_mem_cons.mp hvalue
              obtain ⟨hkeyf, hkeyfs⟩ := List.forall_mem_cons.mp hkey
              rw [chars_record_cons]
              exact List.forall_mem_cons.mpr ⟨by decide, List.forall_mem_append.mpr
                ⟨List.forall_mem_append.mpr ⟨isTypeChar_fieldChars hkeyf hf, isTypeChar_fieldTailChars hkeyfs hfs⟩,
                  by decide⟩⟩
      | function receiver constructs params result =>
          have hparams := isTypeChar_tailChars ',' (by decide)
            fun u hu => ih u (mem_parts_function.mpr (.inr (.inr (.inl hu))))
          have hreceiver := isTypeChar_part receiverChars ",this:".toList (fun o => by
            cases o <;> rfl) (by decide)
            fun u hu => ih u (mem_parts_function.mpr (.inl hu))
          have hconstructs := isTypeChar_part constructsChars ",new:".toList (fun o => by
            cases o <;> rfl) (by decide)
            fun u hu => ih u (mem_parts_function.mpr (.inr (.inl hu)))
          have hresult := isTypeChar_part resultChars [':'] (fun o => by
            cases o <;> rfl) (by decide)
            fun u hu => ih u (mem_parts_function.mpr (.inr (.inr (.inr hu))))
          have hall := isTypeChar_commaFree (List.forall_mem_append.mpr
            ⟨List.forall_mem_append.mpr ⟨hreceiver, hconstructs⟩, hparams⟩)
          rw [chars_function]
          exact List.forall_mem_append.mpr ⟨by decide, List.forall_mem_cons.mpr ⟨by decide,
            List.forall_mem_append.mpr ⟨hall, List.forall_mem_cons.mpr ⟨by decide, hresult⟩⟩⟩⟩
      | typeOf name =>
          rw [chars_typeOf]
          exact List.forall_mem_append.mpr ⟨by decide, List.forall_mem_cons.mpr
            ⟨by decide, isTypeChar_of_mem_name hshape⟩⟩

end Documented

end TypeExpr

end EcmaScript.Doc
