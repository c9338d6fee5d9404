import EcmaScript.Doc.TypeReader
import Mathlib.Data.List.DropRight

/-!
# What readers of types read

All readers of the grammar of types pass over blanks before every sign. What they do depends on the text
behind the blanks only, and they are done when what follows is reached up to blanks. `Reads p text a rest`
says so of a reader: on any region with this text behind blanks it gives `a`, and `rest` is the text behind
blanks of what is left. There is one rule for each step of a reader, so the reading of a text is composed as
the readers are.

## Contents

* `unblank`: a text behind its leading blanks.
* `TypeReader.Reads`: what a reader reads.
* `Reads.bind`, `Reads.look`, `Reads.sign`, `Reads.ite`: readers one behind the other.
* `Reads.eat`, `Reads.eatWord`, `Reads.name`: single signs, words and names.
-/

namespace EcmaScript.Doc

/-- The text behind its leading blanks. -/
def unblank (text : List Char) : List Char := text.dropWhile Unicode.isWhiteSpace

@[simp] theorem unblank_nil : unblank [] = [] := rfl

theorem unblank_cons {c : Char} (h : Unicode.isWhiteSpace c = false) (text : List Char) :
    unblank (c :: text) = c :: text := List.dropWhile_cons_of_neg (Bool.eq_false_iff.mp h)

theorem unblank_blank {c : Char} (h : Unicode.isWhiteSpace c = true) (text : List Char) :
    unblank (c :: text) = unblank text := List.dropWhile_cons_of_pos h

@[simp] theorem unblank_unblank (text : List Char) : unblank (unblank text) = unblank text :=
  List.dropWhile_idempotent _ _

namespace Region

theorem rawText_skipBlank (r : Region) : r.skipBlank.rawText = unblank r.rawText := by
  unfold skipBlank dropWhile rawText unblank
  rw [List.dropWhile_map]
  rfl

theorem rawText_tail (r : Region) : r.tail.rawText = r.rawText.tail := List.map_tail

theorem head?_eq (r : Region) : r.head? = r.rawText.head? := by
  unfold head? rawText
  rw [List.head?_map]

theorem takeWhile_eq (r : Region) (p : Char → Bool) : r.takeWhile p = r.rawText.takeWhile p := by
  unfold takeWhile rawText
  rw [List.takeWhile_map]
  rfl

theorem rawText_dropWhile (r : Region) (p : Char → Bool) :
    (r.dropWhile p).rawText = r.rawText.dropWhile p := by
  unfold dropWhile rawText
  rw [List.dropWhile_map]
  rfl

end Region

namespace TypeReader

variable {α β : Type}

/-- On a region with this text behind blanks the reader gives the value, and this is left behind blanks. -/
def Reads (p : TypeReader α) (text : List Char) (a : α) (rest : List Char) : Prop :=
  ∀ r : Region, unblank r.rawText = text → ∃ r' : Region, p r = .ok (a, r') ∧ unblank r'.rawText = rest

namespace Reads

variable {p q : TypeReader α} {f : β → TypeReader α} {text mid rest : List Char} {a : α} {b : β} {c : Char}

/-! ## Readers one behind the other -/

theorem pure (a : α) (text : List Char) : Reads (Pure.pure a) text a text := fun r h => ⟨r, rfl, h⟩

theorem bind {p : TypeReader β} (hp : Reads p text b mid) (hf : Reads (f b) mid a rest) :
    Reads (p >>= f) text a rest := by
  intro r hr
  obtain ⟨r', hr', hmid⟩ := hp r hr
  obtain ⟨r'', hr'', hrest⟩ := hf r' hmid
  refine ⟨r'', ?_, hrest⟩
  show (p r >>= fun x => f x.1 x.2) = _
  rw [hr']
  exact hr''

theorem map {g : β → α} {p : TypeReader β} (hp : Reads p text b rest) :
    Reads (g <$> p) text (g b) rest := by
  intro r hr
  obtain ⟨r', hr', hrest⟩ := hp r hr
  refine ⟨r', ?_, hrest⟩
  show (p r >>= fun x => Pure.pure (g x.1, x.2)) = _
  rw [hr']
  rfl

theorem ite_pos {cond : Prop} [Decidable cond] (h : cond) (hp : Reads p text a rest) :
    Reads (if cond then p else q) text a rest := by
  rwa [if_pos h]

theorem ite_neg {cond : Prop} [Decidable cond] (h : ¬cond) (hq : Reads q text a rest) :
    Reads (if cond then p else q) text a rest := by
  rwa [if_neg h]

/-- A look at the region changes nothing. -/
theorem get_bind {f : Region → TypeReader α} (h : ∀ s, Reads (f s) text a rest) :
    Reads (get >>= f) text a rest := fun r hr => h r r hr

/-! ## Single signs -/

/-- A look at the first sign. -/
theorem look {f : Option Char → TypeReader α} (h : Reads (f text.head?) text a rest) :
    Reads (peek >>= f) text a rest := by
  intro r hr
  have hskip : r.skipBlank.rawText = text := r.rawText_skipBlank.trans hr
  obtain ⟨r', hr', hrest⟩ := h r.skipBlank (by rw [hskip, ← hr, unblank_unblank])
  refine ⟨r', ?_, hrest⟩
  show f r.skipBlank.head? r.skipBlank = _
  rw [Region.head?_eq, hskip]
  exact hr'

/-- A look at the first sign, which is then taken. -/
theorem sign {f : Option Char → TypeReader α} {g : Unit → TypeReader α}
    (hf : f (some c) = skip >>= g) (hg : Reads (g ()) (unblank text) a rest) :
    Reads (peek >>= f) (c :: text) a rest := by
  intro r hr
  have hskip : r.skipBlank.rawText = c :: text := r.rawText_skipBlank.trans hr
  have htail : r.skipBlank.tail.rawText = text := by rw [Region.rawText_tail, hskip, List.tail_cons]
  obtain ⟨r', hr', hrest⟩ := hg r.skipBlank.tail (by rw [htail])
  refine ⟨r', ?_, hrest⟩
  show f r.skipBlank.head? r.skipBlank = _
  rw [Region.head?_eq, hskip, List.head?_cons, hf]
  exact hr'

/-- The sign that is asked for. -/
theorem eat (c : Char) (text : List Char) : Reads (TypeReader.eat c) (c :: text) true (unblank text) := by
  intro r hr
  have hskip : r.skipBlank.rawText = c :: text := r.rawText_skipBlank.trans hr
  refine ⟨r.skipBlank.tail, ?_, ?_⟩
  · unfold TypeReader.eat
    rw [Region.head?_eq, hskip, List.head?_cons, beq_self_eq_true, if_pos rfl]
  · rw [Region.rawText_tail, hskip, List.tail_cons]

/-- Another sign than the one that is asked for. -/
theorem eat_ne (h : text.head? ≠ some c) : Reads (TypeReader.eat c) text false text := by
  intro r hr
  have hskip : r.skipBlank.rawText = text := r.rawText_skipBlank.trans hr
  refine ⟨r.skipBlank, ?_, ?_⟩
  · unfold TypeReader.eat
    rw [Region.head?_eq, hskip, if_neg (mt eq_of_beq h)]
  · rw [hskip, ← hr, unblank_unblank]

/-- The word that is asked for. -/
theorem eatWord (word text : List Char) :
    Reads (TypeReader.eatWord word) (word ++ text) true (unblank text) := by
  intro r hr
  have hskip : r.skipBlank.rawText = word ++ text := r.rawText_skipBlank.trans hr
  refine ⟨⟨r.skipBlank.chars.drop word.length, r.skipBlank.stop⟩, ?_, ?_⟩
  · unfold TypeReader.eatWord
    dsimp only
    rw [hskip, if_pos (List.isPrefixOf_iff_prefix.mpr (List.prefix_append word text))]
  · have hdrop : (r.skipBlank.chars.drop word.length).map (·.1) = r.skipBlank.rawText.drop word.length :=
      List.map_drop
    unfold Region.rawText
    rw [hdrop, hskip, List.drop_left]

/-- Another text than the word that is asked for. -/
theorem eatWord_ne {word : List Char} (h : ¬word <+: text) : Reads (TypeReader.eatWord word) text false text := by
  intro r hr
  have hskip : r.skipBlank.rawText = text := r.rawText_skipBlank.trans hr
  refine ⟨r.skipBlank, ?_, ?_⟩
  · unfold TypeReader.eatWord
    dsimp only
    rw [hskip, if_neg (mt List.isPrefixOf_iff_prefix.mp h)]
  · rw [hskip, ← hr, unblank_unblank]

/-! ## Names -/

/-- A name that ends where no character of a name follows. -/
theorem name {cs : List Char} (hne : cs ≠ []) (hcs : ∀ c ∈ cs, isTypeNameChar c = true)
    (hrest : ∀ c ∈ text.head?, isTypeNameChar c = false)
    (hpoint : cs.getLast? = some '.' → text.head? ≠ some '<') :
    Reads name? (cs ++ text) (some (String.ofList cs)) (unblank text) := by
  intro r hr
  have hskip : r.skipBlank.rawText = cs ++ text := r.rawText_skipBlank.trans hr
  have hstops : text.takeWhile isTypeNameChar = [] ∧ text.dropWhile isTypeNameChar = text := by
    cases text with
    | nil => exact ⟨rfl, rfl⟩
    | cons c text =>
        have hc := Bool.eq_false_iff.mp (hrest c rfl)
        exact ⟨List.takeWhile_cons_of_neg hc, List.dropWhile_cons_of_neg hc⟩
  have htake : r.skipBlank.takeWhile isTypeNameChar = cs := by
    rw [Region.takeWhile_eq, hskip, List.takeWhile_append_of_pos hcs, hstops.1, List.append_nil]
  have hdrop : (r.skipBlank.dropWhile isTypeNameChar).rawText = text := by
    rw [Region.rawText_dropWhile, hskip, List.dropWhile_append_of_pos hcs, hstops.2]
  refine ⟨r.skipBlank.dropWhile isTypeNameChar, ?_, by rw [hdrop]⟩
  unfold name?
  dsimp only
  rw [htake]
  split
  · exact absurd rfl hne
  · rw [Region.head?_eq, hdrop, if_neg]
    intro h
    simp only [Bool.and_eq_true, beq_iff_eq] at h
    exact hpoint h.1 h.2

end Reads

end TypeReader

end EcmaScript.Doc
