import EcmaScript.Doc.TypeReader
import Mathlib.Data.List.DropRight
import Mathlib.Data.List.TakeWhile

/-!
# Characters asked for by their index

Readers of a comment consume regions, and a region has no character but its own. A program that keeps an index
into the text of the comment has to see to that itself: every index and both ends of every slice must be in
range, and while a tag is read they must not leave the tag. A `Window` is the text with the range that may be
asked for; whatever else is asked for halts the run.

The loops over a window are compared with what they do to the region from an index up to a limit
(`Region.part`). Each of them reaches its end without halting when the limit is in the window
(`Window.Reaches`).

## Contents

* `Scan`, `Window`: runs that can halt, and what they may ask for.
* `Window.passWhile`, `Window.find`, `Window.skipBraced`: the loops.
* `Region.part`: the region between two indices.
* `Region.dropWhile_ne_eq_skipBlank`: blanks before the first brace may be skipped or searched over.
-/

namespace EcmaScript.Doc

/-! ## Blanks at the start of a region -/

/-- A search that passes over more, but not over the place where the other one ends, ends there as well. -/
theorem dropWhile_eq_of_imp {α : Type} {p q : α → Bool} (hpq : ∀ x, p x = true → q x = true) {l : List α}
    (h : ∀ x ∈ (l.dropWhile p).head?, q x = false) : l.dropWhile q = l.dropWhile p := by
  induction l with
  | nil => rfl
  | cons x l ih =>
      by_cases hx : p x = true
      · rw [List.dropWhile_cons_of_pos hx] at h ⊢
        rw [List.dropWhile_cons_of_pos (hpq x hx), ih h]
      · rw [List.dropWhile_cons_of_neg hx] at h ⊢
        rw [List.dropWhile_cons_of_neg (by rw [h x rfl]; exact Bool.false_ne_true)]

namespace Region

theorem skipBlank_skipBlank (r : Region) : r.skipBlank.skipBlank = r.skipBlank :=
  congrArg (Region.mk · _) (List.dropWhile_idempotent _ _)

theorem head?_skipBlank (r : Region) : r.skipBlank.head? = (r.rawText.dropWhile Unicode.isWhiteSpace).head? := by
  unfold skipBlank dropWhile head? rawText
  rw [List.dropWhile_map, List.head?_map]
  rfl

/-- A region is blank where nothing is left behind its blanks. -/
theorem isBlank_eq (r : Region) : r.isBlank = r.skipBlank.chars.isEmpty := by
  unfold isBlank rawText skipBlank dropWhile
  rw [List.all_map, Bool.eq_iff_iff, List.all_eq_true, List.isEmpty_iff, List.dropWhile_eq_nil_iff]
  rfl

/-- The first character that is not a blank is found as well by the search for that character. -/
theorem dropWhile_ne_eq_skipBlank {c : Char} {r : Region} (h : r.skipBlank.head? = some c)
    (hc : Unicode.isWhiteSpace c = false) : r.dropWhile (· != c) = r.skipBlank := by
  refine congrArg (Region.mk · _) (dropWhile_eq_of_imp (fun x hx => ?_) fun x hx => ?_)
  · exact bne_iff_ne.mpr fun hxc => Bool.noConfusion (hc.symm.trans (hxc ▸ hx))
  · have hxc : some x.1 = some c := (congrArg (Option.map Prod.fst) hx).symm.trans h
    simpa using hxc

/-! ## The region between two indices -/

/-- The place of the character at an index, or behind the region. -/
def place (r : Region) (i : Nat) : Position :=
  match r.chars[i]? with
  | some x => x.2
  | none => r.stop

/-- The characters from the index `a` up to the index `b`. -/
def part (r : Region) (a b : Nat) : Region := ⟨(r.chars.take b).drop a, r.place b⟩

variable {r : Region} {a b c : Nat}

@[simp] theorem stop_part (r : Region) (a b : Nat) : (r.part a b).stop = r.place b := rfl

theorem part_self (r : Region) : r.part 0 r.chars.length = r := by
  unfold part place
  rw [List.getElem?_eq_none (Nat.le_refl _), List.take_length, List.drop_zero]

theorem chars_part_of_le (h : b ≤ a) : (r.part a b).chars = [] :=
  List.drop_eq_nil_of_le (Nat.le_trans (List.length_take_le _ _) h)

/-- An index behind the end is as good as the end. -/
theorem part_min (r : Region) (a b : Nat) : r.part (min a b) b = r.part a b := by
  by_cases h : a ≤ b
  · rw [Nat.min_eq_left h]
  · have hle := Nat.le_of_not_le h
    rw [Nat.min_eq_right hle]
    exact congrArg (Region.mk · _) ((chars_part_of_le (Nat.le_refl b)).trans (chars_part_of_le hle).symm)

theorem length_part (h : b ≤ r.chars.length) : (r.part a b).chars.length = b - a := by
  rw [part, List.length_drop, List.length_take, Nat.min_eq_left h]

/-- The first character stands at the first index. -/
theorem exists_part_cons (h : a < b) (hb : b ≤ r.chars.length) :
    ∃ x, r.chars[a]? = some x ∧ (r.part a b).chars = x :: (r.part (a + 1) b).chars := by
  have ha : a < (r.chars.take b).length := by
    rw [List.length_take]
    omega
  have hlt : a < r.chars.length := Nat.lt_of_lt_of_le h hb
  refine ⟨r.chars[a], List.getElem?_eq_getElem hlt, ?_⟩
  show (r.chars.take b).drop a = _
  rw [List.drop_eq_getElem_cons ha, List.getElem_take]
  rfl

theorem tail_part (r : Region) (a b : Nat) : (r.part a b).tail = r.part (a + 1) b := by
  unfold tail part
  rw [List.tail_drop]

theorem position_part (h : a ≤ b) (hb : b ≤ r.chars.length) : (r.part a b).position = r.place a := by
  rcases Nat.lt_or_eq_of_le h with hlt | rfl
  · obtain ⟨x, hx, hcons⟩ := exists_part_cons hlt hb
    unfold position place
    rw [hcons, hx]
  · unfold position
    rw [chars_part_of_le (Nat.le_refl a)]
    rfl

/-- Dropping characters moves the first index. -/
theorem drop_part (r : Region) (a b n : Nat) : ⟨(r.part a b).chars.drop n, r.place b⟩ = r.part (a + n) b := by
  unfold part
  rw [List.drop_drop]

/-- Taking characters moves the second index. -/
theorem take_part (r : Region) (n : Nat) (h : a + n ≤ b) : (r.part a b).chars.take n = (r.part a (a + n)).chars := by
  unfold part
  rw [List.take_drop, List.take_take, Nat.min_eq_left h]

/-- Regions one behind the other. -/
theorem chars_part_append (r : Region) (hab : a ≤ b) (hbc : b ≤ c) :
    (r.part a b).chars ++ (r.part b c).chars = (r.part a c).chars := by
  have hb : a + (b - a) = b := Nat.add_sub_cancel' hab
  have htake : (r.part a c).chars.take (b - a) = (r.part a b).chars := by
    rw [take_part r _ (hb.symm ▸ hbc), hb]
  have hdrop : (r.part a c).chars.drop (b - a) = (r.part b c).chars := by
    have := congrArg chars (r.drop_part a c (b - a))
    rwa [hb] at this
  rw [← htake, ← hdrop, List.take_append_drop]

end Region

/-! ## Runs that can halt -/

/-- Why a run halts before its end. -/
inductive Halt where
  /-- Something was asked for that is not in the window. -/
  | outOfRange (index : Nat)
  /-- The bound on the depth of calls was used up. -/
  | unfinished
  deriving DecidableEq, Repr

/-- A run that may halt before its end. -/
abbrev Scan (α : Type) := Except Halt α

/-- What a run goes on with behind a part that came to its end. -/
theorem Scan.ok_bind {α β : Type} (a : α) (f : α → Scan β) : (Except.ok a >>= f : Scan β) = f a := rfl

/-- A text of which only the characters from `lo` up to `hi` may be asked for. -/
structure Window where
  text : Region
  lo : Nat
  hi : Nat

namespace Window

/-- The character at an index. -/
def read (w : Window) (i : Nat) : Scan Char :=
  match w.text.chars[i]? with
  | some x => if w.lo ≤ i ∧ i < w.hi then .ok x.1 else .error (.outOfRange i)
  | none => .error (.outOfRange i)

/-- The characters from one index up to another one. -/
def slice (w : Window) (a b : Nat) : Scan (List Char) :=
  if w.lo ≤ a ∧ a ≤ b ∧ b ≤ w.hi ∧ b ≤ w.text.chars.length then .ok (w.text.part a b).rawText
  else .error (.outOfRange b)

/-- Goes on from `i` while the characters satisfy `p`, at most up to the limit. -/
def passWhile (w : Window) (p : Char → Bool) (limit i : Nat) : Scan Nat :=
  if i < limit then
    match w.read i with
    | .ok c => if p c then w.passWhile p limit (i + 1) else .ok i
    | .error halt => .error halt
  else .ok i
termination_by limit - i

/-- The index behind the brace that closes the first open one, or the limit when none does. -/
def skipBraced (w : Window) (limit nesting i : Nat) : Scan Nat :=
  if i < limit then
    match w.read i with
    | .ok c =>
      if c = '\x7b' then w.skipBraced limit (nesting + 1) (i + 1)
      else if c = '\x7d' then
        if nesting - 1 = 0 then .ok (i + 1) else w.skipBraced limit (nesting - 1) (i + 1)
      else w.skipBraced limit nesting (i + 1)
    | .error halt => .error halt
  else .ok limit
termination_by limit - i

theorem lt_of_read {w : Window} {i : Nat} {c : Char} (h : w.read i = .ok c) : i < w.hi := by
  unfold read at h
  split at h
  · split at h
    next hin => exact hin.2
    next => cases h
  · cases h

/-- Goes on from `i` up to the character `c`. No limit is looked at: where the character is missing, the run
halts at the end of the window. -/
def find (w : Window) (c : Char) (i : Nat) : Scan Nat :=
  match _h : w.read i with
  | .ok d => if d = c then .ok i else w.find c (i + 1)
  | .error halt => .error halt
termination_by w.hi - i
decreasing_by
  have := lt_of_read _h
  omega

/-- The characters from one index up to another one or the end of the text, without blanks at both ends. -/
def trimmed (w : Window) (a b : Nat) : Scan (List Char) :=
  let stop := min b w.text.chars.length
  if stop ≤ a then .ok [] else Unicode.trim <$> w.slice a stop

/-- The same text, if there is any. -/
def trimmed? (w : Window) (a b : Nat) : Scan (Option String) := do
  match ← w.trimmed a b with
  | [] => return none
  | cs => return some (String.ofList cs)

/-! ## What is in range -/

/-- The indices from `i` up to the limit are in the window and in the text. -/
structure Reaches (w : Window) (i limit : Nat) : Prop where
  lo : w.lo ≤ i
  le : i ≤ limit
  hi : limit ≤ w.hi
  length : limit ≤ w.text.chars.length

variable {w : Window} {i j limit : Nat}

theorem Reaches.mono (h : w.Reaches i limit) (hij : i ≤ j) (hj : j ≤ limit) : w.Reaches j limit :=
  ⟨Nat.le_trans h.lo hij, hj, h.hi, h.length⟩

/-- A character in range can be asked for. -/
theorem Reaches.read_eq (h : w.Reaches i limit) (hlt : i < limit) {x : Char × Position}
    (hx : w.text.chars[i]? = some x) : w.read i = .ok x.1 := by
  have hin : w.lo ≤ i ∧ i < w.hi := ⟨h.lo, Nat.lt_of_lt_of_le hlt h.hi⟩
  unfold read
  rw [hx]
  exact if_pos hin

/-- It is the first one of what is left. -/
theorem Reaches.exists_read (h : w.Reaches i limit) (hlt : i < limit) :
    ∃ c, w.read i = .ok c ∧ ∃ p, (w.text.part i limit).chars = (c, p) :: (w.text.part (i + 1) limit).chars := by
  obtain ⟨x, hx, hcons⟩ := Region.exists_part_cons hlt h.length
  exact ⟨x.1, h.read_eq hlt hx, x.2, hcons⟩

/-- A slice in range. -/
theorem Reaches.slice_eq (h : w.Reaches i limit) (hij : i ≤ j) (hj : j ≤ limit) :
    w.slice i j = .ok (w.text.part i j).rawText :=
  if_pos ⟨h.lo, hij, Nat.le_trans hj h.hi, Nat.le_trans hj h.length⟩

/-! ## The loops -/

/-- A character that can be asked for is passed or not. -/
theorem passWhile_of_read {p : Char → Bool} {c : Char} (hlt : i < limit) (hread : w.read i = .ok c) :
    w.passWhile p limit i = if p c then w.passWhile p limit (i + 1) else .ok i := by
  rw [passWhile, if_pos hlt, hread]

theorem passWhile_of_le {p : Char → Bool} (hle : limit ≤ i) : w.passWhile p limit i = .ok i := by
  rw [passWhile, if_neg (Nat.not_lt.mpr hle)]

/-- Characters are passed only as far as up to one that is not passed, also if the limit is behind it. -/
theorem Reaches.passWhile_of_stop (h : w.Reaches i limit) {p : Char → Bool} (hij : i ≤ j) (hj : j ≤ limit)
    (hstop : j < limit → ∃ x ∈ w.text.chars[j]?, p x.1 = false) : w.passWhile p limit i = w.passWhile p j i := by
  induction hn : j - i generalizing i with
  | zero =>
      obtain rfl : i = j := by omega
      rw [passWhile_of_le (Nat.le_refl i)]
      by_cases hlt : i < limit
      · obtain ⟨x, hx, hp⟩ := hstop hlt
        rw [passWhile_of_read hlt (h.read_eq hlt hx), if_neg (Bool.not_eq_true _ ▸ hp)]
      · exact passWhile_of_le (Nat.le_of_not_lt hlt)
  | succ n ih =>
      have hlt : i < j := by omega
      have hlt' := Nat.lt_of_lt_of_le hlt hj
      obtain ⟨c, hread, -⟩ := h.exists_read hlt'
      rw [passWhile_of_read hlt hread, passWhile_of_read hlt' hread, ih (h.mono (Nat.le_succ i) hlt') hlt (by omega)]

/-- Passing characters counts those that the region's own loop passes. -/
theorem Reaches.passWhile_eq (h : w.Reaches i limit) (p : Char → Bool) :
    w.passWhile p limit i = .ok (i + ((w.text.part i limit).takeWhile p).length) := by
  unfold Region.takeWhile
  fun_induction Window.passWhile w p limit i with
  | case1 i hlt c hread hp ih =>
      obtain ⟨d, hread', q, hcons⟩ := h.exists_read hlt
      cases hread.symm.trans hread'
      rw [ih (h.mono (Nat.le_succ i) hlt), hcons, List.takeWhile_cons_of_pos (by exact hp), List.map_cons,
        List.length_cons, Nat.add_assoc, Nat.add_comm 1]
  | case2 i hlt c hread hp =>
      obtain ⟨d, hread', q, hcons⟩ := h.exists_read hlt
      cases hread.symm.trans hread'
      rw [hcons, List.takeWhile_cons_of_neg (by exact hp)]
      rfl
  | case3 i hlt halt hread =>
      obtain ⟨d, hread', -⟩ := h.exists_read hlt
      cases hread.symm.trans hread'
  | case4 i hlt =>
      rw [Region.chars_part_of_le (Nat.le_of_not_lt hlt)]
      rfl

/-- **Passing characters** comes to an index in range, and what is passed is what the region's own loop passes. -/
theorem Reaches.exists_passWhile (h : w.Reaches i limit) (p : Char → Bool) :
    ∃ j, w.passWhile p limit i = .ok j ∧ i ≤ j ∧ w.Reaches j limit ∧
      w.text.part j limit = (w.text.part i limit).dropWhile p ∧
      (w.text.part i j).rawText = (w.text.part i limit).takeWhile p := by
  obtain ⟨front, hfront⟩ : ∃ front, (w.text.part i limit).chars.takeWhile (p ·.1) = front := ⟨_, rfl⟩
  have hsplit : front ++ (w.text.part i limit).chars.dropWhile (p ·.1) = (w.text.part i limit).chars :=
    hfront ▸ List.takeWhile_append_dropWhile
  have hle : i + front.length ≤ limit := by
    have hshort := hfront ▸ (List.takeWhile_prefix (p ·.1) (l := (w.text.part i limit).chars)).length_le
    have := h.le
    rw [Region.length_part h.length] at hshort
    omega
  have hpass := h.passWhile_eq p
  rw [Region.takeWhile, List.length_map, hfront] at hpass
  have hij : i ≤ i + front.length := Nat.le_add_right _ _
  refine ⟨i + front.length, hpass, hij, h.mono hij hle, ?_, ?_⟩
  · rw [← Region.drop_part]
    exact congrArg (Region.mk · _) ((congrArg (List.drop _) hsplit.symm).trans List.drop_left)
  · unfold Region.rawText Region.takeWhile
    rw [← Region.take_part _ _ hle, hfront]
    exact congrArg (List.map _) ((congrArg (List.take _) hsplit.symm).trans List.take_left)

/-- **The search for a brace** comes to an index in range, behind which the same region is left. -/
theorem Reaches.exists_skipBraced (h : w.Reaches i limit) (nesting : Nat) :
    ∃ j, w.skipBraced limit nesting i = .ok j ∧ w.Reaches j limit ∧
      (w.text.part j limit).chars = Doc.skipBraced nesting (w.text.part i limit).chars := by
  induction hn : limit - i generalizing i nesting with
  | zero =>
      have hge : ¬i < limit := by omega
      refine ⟨limit, ?_, h.mono h.le (Nat.le_refl _), ?_⟩
      · rw [Window.skipBraced, if_neg hge]
      · rw [Region.chars_part_of_le (Nat.le_refl _), Region.chars_part_of_le (Nat.le_of_not_lt hge)]
        rfl
  | succ n ih =>
      have hlt : i < limit := by omega
      obtain ⟨c, hread, q, hcons⟩ := h.exists_read hlt
      have hbehind := h.mono (Nat.le_succ i) hlt
      have hnext (nesting : Nat) := ih hbehind nesting (by omega)
      rw [Window.skipBraced, if_pos hlt, hread, hcons, Doc.skipBraced]
      by_cases hopen : c = '\x7b'
      · obtain ⟨j, hskip, hj, hchars⟩ := hnext (nesting + 1)
        simp only [hopen, if_true, beq_self_eq_true]
        exact ⟨j, hskip, hj, hchars⟩
      · by_cases hclose : c = '\x7d'
        · have hne : ('\x7d' == '\x7b') = false := rfl
          by_cases hlast : nesting ≤ 1
          · have hzero : nesting - 1 = 0 := by omega
            simp only [hclose, hne, hzero, hlast, if_true, beq_self_eq_true]
            exact ⟨i + 1, rfl, hbehind, rfl⟩
          · obtain ⟨j, hskip, hj, hchars⟩ := hnext (nesting - 1)
            have hpos : nesting - 1 ≠ 0 := by omega
            simp only [hclose, hne, hpos, hlast, if_true, if_false, beq_self_eq_true]
            exact ⟨j, hskip, hj, hchars⟩
        · obtain ⟨j, hskip, hj, hchars⟩ := hnext nesting
          simp only [hopen, hclose, if_false, beq_iff_eq]
          exact ⟨j, hskip, hj, hchars⟩

/-- **The search without a limit** comes to its character where there is one in the window. -/
theorem Reaches.exists_find (h : w.Reaches i limit) {c : Char} (hc : c ∈ (w.text.part i limit).rawText) :
    ∃ j, w.find c i = .ok j ∧ i ≤ j ∧ j < limit ∧
      w.text.part j limit = (w.text.part i limit).dropWhile (· != c) := by
  induction hn : limit - i generalizing i with
  | zero =>
      rw [Region.rawText, Region.chars_part_of_le (by omega)] at hc
      cases hc
  | succ n ih =>
      have hlt : i < limit := by omega
      obtain ⟨d, hread, q, hcons⟩ := h.exists_read hlt
      rw [Region.rawText, hcons, List.map_cons, List.mem_cons] at hc
      have hfind : w.find c i = if d = c then .ok i else w.find c (i + 1) := by
        rw [Window.find]
        split
        next d' hd' =>
          cases hread.symm.trans hd'
          rfl
        next halt hhalt => cases hread.symm.trans hhalt
      rw [hfind]
      by_cases hd : d = c
      · refine ⟨i, if_pos hd, Nat.le_refl i, hlt, ?_⟩
        unfold Region.dropWhile
        rw [hcons, List.dropWhile_cons_of_neg (by simp [hd]), ← hcons]
      · rw [if_neg hd]
        have hrest : c ∈ (w.text.part (i + 1) limit).rawText := by
          rcases hc with rfl | hrest
          · exact absurd rfl hd
          · exact hrest
        obtain ⟨j, hj, hij, hlimit, hdrop⟩ := ih (h.mono (Nat.le_succ i) hlt) hrest (by omega)
        refine ⟨j, hj, Nat.le_of_succ_le hij, hlimit, ?_⟩
        rw [hdrop]
        unfold Region.dropWhile
        rw [hcons, List.dropWhile_cons_of_pos (by simp [hd])]
        rfl

/-- A text without the blanks at its ends. -/
theorem Reaches.trimmed_eq (h : w.Reaches i limit) : w.trimmed i limit = .ok (w.text.part i limit).text := by
  unfold trimmed Region.text
  rw [Nat.min_eq_left h.length]
  by_cases hle : limit ≤ i
  · rw [if_pos hle, Region.rawText, Region.chars_part_of_le hle]
    rfl
  · rw [if_neg hle, h.slice_eq h.le (Nat.le_refl _)]
    rfl

theorem Reaches.trimmed?_eq (h : w.Reaches i limit) : w.trimmed? i limit = .ok (w.text.part i limit).text? := by
  unfold trimmed? Region.text?
  rw [h.trimmed_eq, Scan.ok_bind]
  cases (w.text.part i limit).text <;> rfl

end Window

end EcmaScript.Doc
