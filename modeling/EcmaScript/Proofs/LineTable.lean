import EcmaScript.Lexer.Basic
import EcmaScript.LineMap

/-!
# Two ways to count lines

The lexer keeps line and column while it reads; a line table finds them by bisection from the offset
alone. This module shows that both give the same place for every offset of every text, also between a
carriage return and its line feed: `LineMap.position_eq_ahead`.

What a table does is brought to the list it was made from in two steps. Bisection finds the last start
of a line that is not behind the offset (`LineMap.bisect_spec`), and so does a search from the front
(`LineMap.search`); and the search follows the recursion that collects the starts of lines.

`Position.Located` and `Span.Located` are the form in which the later theory uses this: a place that is
the place of its offset, and a region that starts at one and ends within the text.
-/

namespace EcmaScript

/-! ## A text from an offset on -/

section Drop

variable {text rest : List Char} {c : Char} {i : Nat}

/-- What is left from an offset on starts with the character there. -/
theorem getElem?_of_drop (h : text.drop i = c :: rest) : text[i]? = some c := by
  rw [← List.head?_drop, h, List.head?_cons]

theorem drop_succ_of_drop (h : text.drop i = c :: rest) : text.drop (i + 1) = rest := by
  rw [← List.drop_drop, h, List.drop_one, List.tail_cons]

theorem getElem?_succ_of_drop (h : text.drop i = c :: rest) : text[i + 1]? = rest.head? := by
  rw [← List.head?_drop, drop_succ_of_drop h]

end Drop

/-! ## Reading ahead -/

/-- The place behind the next `n` characters, where `p` is the place before `text`. -/
def Position.ahead (p : Position) : Nat → List Char → Position
  | 0, _ => p
  | _ + 1, [] => p
  | n + 1, c :: rest => (p.after c rest).ahead n rest

namespace Position

@[simp] theorem offset_after (p : Position) (c : Char) (rest : List Char) :
    (p.after c rest).offset = p.offset + 1 := by
  unfold after
  split <;> rfl

@[simp] theorem ahead_zero (p : Position) (text : List Char) : p.ahead 0 text = p := by
  unfold ahead
  rfl

/-- Behind the end nothing moves. -/
@[simp] theorem ahead_nil (p : Position) (n : Nat) : p.ahead n [] = p := by
  cases n <;> rfl

theorem ahead_cons (p : Position) (n : Nat) (c : Char) (rest : List Char) :
    p.ahead (n + 1) (c :: rest) = (p.after c rest).ahead n rest := rfl

theorem offset_ahead (p : Position) (n : Nat) (text : List Char) :
    (p.ahead n text).offset = p.offset + min n text.length := by
  induction text generalizing p n with
  | nil => simp
  | cons c rest ih =>
      cases n with
      | zero => simp
      | succ n =>
          rw [ahead_cons, ih, offset_after, List.length_cons]
          omega

/-- One character more. -/
theorem ahead_succ {p : Position} {n : Nat} {text rest : List Char} {c : Char}
    (h : text.drop n = c :: rest) : p.ahead (n + 1) text = (p.ahead n text).after c rest := by
  induction text generalizing p n with
  | nil => simp at h
  | cons d text ih =>
      cases n with
      | zero =>
          rw [List.drop_zero] at h
          cases h
          rw [ahead_cons, ahead_zero, ahead_zero]
      | succ n =>
          rw [List.drop_succ_cons] at h
          rw [ahead_cons, ahead_cons, ih h]

/-- Offsets behind the end stand for the end. -/
theorem ahead_min (p : Position) (n : Nat) (text : List Char) :
    p.ahead (min n text.length) text = p.ahead n text := by
  induction text generalizing p n with
  | nil => simp
  | cons c rest ih =>
      cases n with
      | zero => simp
      | succ n => rw [List.length_cons, Nat.succ_min_succ, ahead_cons, ahead_cons, ih]

end Position

/-! ## Bisection -/

namespace LineMap

/-- **Bisection** finds the place in a sorted array where the entries begin to exceed `offset`. -/
theorem bisect_spec {starts : Array Nat} {offset : Nat} {lo hi : Nat}
    (hs : ∀ i j, i ≤ j → j < starts.size → starts.getD i 0 ≤ starts.getD j 0)
    (hle : lo ≤ hi) (hhi : hi ≤ starts.size) (hlow : ∀ i < lo, starts.getD i 0 ≤ offset)
    (hhigh : ∀ i, hi ≤ i → i < starts.size → offset < starts.getD i 0) :
    bisect starts offset lo hi ≤ starts.size ∧
      (∀ i < bisect starts offset lo hi, starts.getD i 0 ≤ offset) ∧
      ∀ i, bisect starts offset lo hi ≤ i → i < starts.size → offset < starts.getD i 0 := by
  fun_induction bisect starts offset lo hi with
  | case1 lo hi hlt mid hmid ih =>
      have hm : mid < hi := by omega
      refine ih (by omega) hhi (fun i hi' => ?_) hhigh
      exact Nat.le_trans (hs i mid (by omega) (by omega)) hmid
  | case2 lo hi hlt mid hmid ih =>
      have hm : mid < hi := by omega
      refine ih (by omega) (by omega) hlow fun i hi' hsize => ?_
      exact Nat.lt_of_lt_of_le (Nat.lt_of_not_le hmid) (hs mid i hi' hsize)
  | case3 lo hi hlt =>
      have he : lo = hi := by omega
      subst he
      exact ⟨hhi, hlow, hhigh⟩

/-! ## Search from the front -/

/-- The place of `offset` when the line number `line` starts at `base` and the further lines start at
the listed offsets. -/
def search (line base offset : Nat) : List Nat → Position
  | [] => ⟨line, offset - base, offset⟩
  | e :: rest =>
    if e ≤ offset then search (line + 1) e offset rest else ⟨line, offset - base, offset⟩

/-- The search stops at the last start that is not behind the offset. -/
theorem search_eq {line base offset n : Nat} {rest : List Nat} (hn : n < (base :: rest).length)
    (hlow : ∀ i ≤ n, (base :: rest).getD i 0 ≤ offset)
    (hhigh : ∀ i, n < i → i < (base :: rest).length → offset < (base :: rest).getD i 0) :
    search line base offset rest = ⟨line + n, offset - (base :: rest).getD n 0, offset⟩ := by
  induction rest generalizing line base n with
  | nil =>
      have hz : n = 0 := by simpa using hn
      subst hz
      rfl
  | cons e rest ih =>
      unfold search
      cases n with
      | zero =>
          have he : offset < e := hhigh 1 Nat.one_pos (by simp)
          rw [if_neg (Nat.not_le.mpr he)]
          rfl
      | succ n =>
          have he : e ≤ offset := hlow 1 (by omega)
          rw [if_pos he, ih (n := n)]
          · rw [Nat.add_right_comm, Nat.add_assoc]
            rfl
          · simpa using hn
          · exact fun i hi => hlow (i + 1) (by omega)
          · exact fun i hi hsize => hhigh (i + 1) (by omega) (by simpa using hsize)

/-! ## The starts of lines -/

/-- The starts of lines come in increasing order, behind the place where the text begins. -/
theorem pairwise_breakEnds (offset : Nat) (text : List Char) :
    (offset :: breakEnds offset text).Pairwise (· < ·) := by
  fun_induction breakEnds offset text with
  | case1 => simp
  | case2 offset rest ih =>
      simp only [List.pairwise_cons, List.mem_cons] at ih ⊢
      refine ⟨?_, ih⟩
      rintro e (rfl | he)
      · omega
      · have := ih.1 e he
        omega
  | case3 offset c rest _ _ ih =>
      simp only [List.pairwise_cons, List.mem_cons] at ih ⊢
      refine ⟨?_, ih⟩
      rintro e (rfl | he)
      · omega
      · have := ih.1 e he
        omega
  | case4 offset c rest _ _ ih =>
      simp only [List.pairwise_cons] at ih ⊢
      refine ⟨fun e he => ?_, ih.2⟩
      have := ih.1 e he
      omega

/-- The starts that are behind the offset are not reached. -/
theorem search_of_lt {line base offset start : Nat} {text : List Char} (h : offset ≤ start) :
    search line base offset (breakEnds start text) = ⟨line, offset - base, offset⟩ := by
  have hp := (List.pairwise_cons.mp (pairwise_breakEnds start text)).1
  cases he : breakEnds start text with
  | nil => rfl
  | cons e rest =>
      have := hp e (he ▸ List.mem_cons_self)
      unfold search
      rw [if_neg (by omega)]

/-- The search through the starts of lines counts like the lexer. -/
theorem search_breakEnds {line base start offset : Nat} {text : List Char} (hb : base ≤ start)
    (hs : start ≤ offset) (ht : offset ≤ start + text.length) :
    search line base offset (breakEnds start text) =
      Position.ahead ⟨line, start - base, start⟩ (offset - start) text := by
  fun_induction breakEnds start text generalizing line base with
  | case1 start =>
      have he : offset = start := by simp at ht; omega
      subst he
      simp [search]
  | case2 start rest ih =>
      simp only [List.length_cons] at ht
      -- the offset lies before the pair, inside it, or behind it
      obtain rfl | rfl | hlt : offset = start ∨ offset = start + 1 ∨ start + 2 ≤ offset := by omega
      · unfold search
        rw [if_neg (by omega), Nat.sub_self, Position.ahead_zero]
      · have hn : start + 1 - start = 0 + 1 := by omega
        unfold search
        rw [if_neg (by omega), hn, Position.ahead_cons, Position.ahead_zero]
        simp [Position.after, isLineTerminator]
        omega
      · obtain ⟨n, rfl⟩ := Nat.exists_eq_add_of_le hlt
        have hn : start + 2 + n - start = n + 1 + 1 := by omega
        unfold search
        rw [if_pos hlt, ih (Nat.le_refl _) hlt (by omega), hn, Position.ahead_cons,
          Position.ahead_cons]
        simp [Position.after, isLineTerminator]
  | case3 start c rest hc hl ih =>
      simp only [List.length_cons] at ht
      have hafter : Position.after ⟨line, start - base, start⟩ c rest =
          ⟨line + 1, 0, start + 1⟩ := by
        unfold Position.after
        rw [if_pos]
        simp only [hl, Bool.true_and, Bool.not_eq_true', Bool.and_eq_false_iff, beq_eq_false_iff_ne]
        by_cases hcr : c = '\r'
        · refine Or.inr fun hh => ?_
          obtain ⟨d, tail, hd⟩ : ∃ d tail, rest = d :: tail := List.exists_cons_of_ne_nil (by
            rintro rfl
            simp at hh)
          rw [hd, List.head?_cons, Option.some.injEq] at hh
          exact hc tail (by rw [hcr]) (by rw [hd, hh])
        · exact Or.inl hcr
      obtain rfl | hlt : offset = start ∨ start + 1 ≤ offset := by omega
      · unfold search
        rw [if_neg (by omega), Nat.sub_self, Position.ahead_zero]
      · obtain ⟨n, rfl⟩ := Nat.exists_eq_add_of_le hlt
        have hn : start + 1 + n - start = n + 1 := by omega
        unfold search
        rw [if_pos hlt, ih (Nat.le_refl _) hlt (by omega), hn, Position.ahead_cons, hafter,
          Nat.sub_self, Nat.add_sub_cancel_left]
  | case4 start c rest hc hl ih =>
      simp only [List.length_cons] at ht
      have hafter : Position.after ⟨line, start - base, start⟩ c rest =
          ⟨line, start + 1 - base, start + 1⟩ := by
        unfold Position.after
        rw [if_neg (by simp [hl])]
        simp only [Position.mk.injEq, true_and, and_true]
        omega
      obtain rfl | hlt : offset = start ∨ start + 1 ≤ offset := by omega
      · rw [search_of_lt (Nat.le_succ _), Nat.sub_self, Position.ahead_zero]
      · obtain ⟨n, rfl⟩ := Nat.exists_eq_add_of_le hlt
        have hn : start + 1 + n - start = n + 1 := by omega
        rw [ih (by omega) hlt (by omega), hn, Position.ahead_cons, hafter, Nat.add_sub_cancel_left]

/-- A table gives the place that a search from the front finds. -/
theorem position_eq_search (text : List Char) (offset : Nat) :
    (ofChars text).position offset =
      search 1 0 (min offset text.length) (breakEnds 0 text) := by
  have hp := pairwise_breakEnds 0 text
  let starts := (0 :: breakEnds 0 text).toArray
  let o := min offset text.length
  have hget (i : Nat) : starts.getD i 0 = (0 :: breakEnds 0 text).getD i 0 := by
    simp [starts, Array.getD_eq_getD_getElem?, List.getD_eq_getElem?_getD]
  have hsorted : ∀ i j, i ≤ j → j < starts.size → starts.getD i 0 ≤ starts.getD j 0 := by
    intro i j hij hj
    have hj' : j < (0 :: breakEnds 0 text).length := by simpa [starts] using hj
    rw [hget, hget, List.getD_eq_getElem?_getD, List.getD_eq_getElem?_getD,
      List.getElem?_eq_getElem hj', List.getElem?_eq_getElem (Nat.lt_of_le_of_lt hij hj')]
    obtain rfl | hlt := Nat.eq_or_lt_of_le hij
    · exact Nat.le_refl _
    · exact Nat.le_of_lt (List.pairwise_iff_getElem.mp hp i j (by omega) hj' hlt)
  have hnone : ∀ i < 0, starts.getD i 0 ≤ o := fun i hi => absurd hi (Nat.not_lt_zero i)
  obtain ⟨hr, hlow, hhigh⟩ := bisect_spec hsorted (Nat.zero_le _) (Nat.le_refl _) hnone
    fun i hi hsize => absurd hsize (Nat.not_lt.mpr hi)
  -- the first line starts at the start, so at least one start is not behind the offset
  have hpos : 0 < bisect starts o 0 starts.size := by
    refine Nat.pos_of_ne_zero fun hz => ?_
    have := hhigh 0 (Nat.le_of_eq hz) (by simp [starts])
    rw [hget] at this
    exact absurd this (by simp)
  have hsize : starts.size = (0 :: breakEnds 0 text).length := by simp [starts]
  show (⟨bisect starts o 0 starts.size, o - starts.getD (bisect starts o 0 starts.size - 1) 0, o⟩ :
    Position) = search 1 0 o (breakEnds 0 text)
  generalize bisect starts o 0 starts.size = r at *
  obtain ⟨n, rfl⟩ : ∃ n, r = 1 + n := ⟨r - 1, by omega⟩
  rw [Nat.add_sub_cancel_left, search_eq (n := n), hget]
  · omega
  · intro i hi
    rw [← hget]
    exact hlow i (by omega)
  · intro i hi hi'
    rw [← hget]
    exact hhigh i (by omega) (by omega)

/-- **The table and the lexer count alike.** -/
theorem position_eq_ahead (text : List Char) (offset : Nat) :
    (ofChars text).position offset = Position.start.ahead offset text := by
  have hle : min offset text.length ≤ 0 + text.length := by omega
  rw [position_eq_search, search_breakEnds (Nat.le_refl 0) (Nat.zero_le _) hle]
  exact Position.ahead_min _ _ _

end LineMap

/-! ## Places and regions of a text -/

/-- The place is the one that the line table of the text gives for its offset. -/
def Position.Located (text : List Char) (p : Position) : Prop :=
  (LineMap.ofChars text).position p.offset = p

/-- The region starts at a place of the text and ends within it. -/
def Span.Located (text : List Char) (s : Span) : Prop :=
  s.start.Located text ∧ s.stop ≤ text.length

namespace Position

variable {text : List Char} {p : Position}

theorem located_iff : p.Located text ↔ p = start.ahead p.offset text := by
  unfold Located
  rw [LineMap.position_eq_ahead]
  exact eq_comm

theorem located_start (text : List Char) : start.Located text := located_iff.mpr (ahead_zero _ _).symm

theorem Located.offset_le (h : p.Located text) : p.offset ≤ text.length := by
  have ho := congrArg offset (located_iff.mp h)
  rw [offset_ahead] at ho
  have hz : start.offset = 0 := rfl
  omega

/-- The place comes earlier, by line and column. -/
def Earlier (p q : Position) : Prop := p.line < q.line ∨ p.line = q.line ∧ p.column < q.column

theorem earlier_after (p : Position) (c : Char) (rest : List Char) : p.Earlier (p.after c rest) := by
  unfold after
  split
  · exact .inl (Nat.lt_succ_self _)
  · exact .inr ⟨rfl, Nat.lt_succ_self _⟩

theorem Earlier.trans {q r : Position} (h : p.Earlier q) (h' : q.Earlier r) : p.Earlier r := by
  unfold Earlier at *
  omega

/-- **Line and column grow with the offset.** -/
theorem earlier_ahead (p : Position) {m n : Nat} (hm : m < n) (hn : n ≤ text.length) :
    (p.ahead m text).Earlier (p.ahead n text) := by
  induction n with
  | zero => exact absurd hm (Nat.not_lt_zero m)
  | succ n ih =>
      obtain ⟨c, rest, hdrop⟩ := List.exists_cons_of_length_pos (l := text.drop n) (by
        rw [List.length_drop]
        omega)
      have hnext := earlier_after (p.ahead n text) c rest
      rw [ahead_succ hdrop]
      rcases Nat.lt_succ_iff_lt_or_eq.mp hm with hlt | rfl
      · exact (ih hlt (Nat.le_of_lt hn)).trans hnext
      · exact hnext

theorem Located.earlier {q : Position} (hp : p.Located text) (hq : q.Located text)
    (h : p.offset < q.offset) : p.Earlier q := by
  have he := earlier_ahead start h hq.offset_le
  rwa [← located_iff.mp hp, ← located_iff.mp hq] at he

/-- A place of the text is told by its line and its column. -/
theorem Located.offset_eq {q : Position} (hp : p.Located text) (hq : q.Located text)
    (hline : p.line = q.line) (hcolumn : p.column = q.column) : p.offset = q.offset := by
  rcases Nat.lt_trichotomy p.offset q.offset with h | h | h
  · have he := hp.earlier hq h
    unfold Earlier at he
    omega
  · exact h
  · have he := hq.earlier hp h
    unfold Earlier at he
    omega

/-- The place that a table gives is one of the text. -/
theorem located_position (text : List Char) (offset : Nat) :
    ((LineMap.ofChars text).position offset).Located text := by
  rw [located_iff, LineMap.position_eq_ahead, offset_ahead, ← ahead_min start offset]
  show _ = start.ahead (0 + _) text
  rw [Nat.zero_add]

/-- One character on is a place again. -/
theorem Located.after (h : p.Located text) {c : Char} {rest : List Char}
    (hr : text.drop p.offset = c :: rest) : (p.after c rest).Located text := by
  rw [located_iff] at h ⊢
  rw [offset_after, ahead_succ hr, ← h]

/-- On a line the column goes with the offset. -/
theorem after_of_not_isLineTerminator (p : Position) {c : Char} (h : isLineTerminator c = false)
    (rest : List Char) : p.after c rest = ⟨p.line, p.column + 1, p.offset + 1⟩ := by
  unfold Position.after
  rw [h]
  rfl

end Position

namespace Span

variable {text : List Char} {s t : Span} {p : Position} {n : Nat}

/-- Whatever starts at a place and ends at an offset of the text, also when the offset lies before the
place, is a region of the text. -/
theorem located_between (hp : p.Located text) (hn : n ≤ text.length) :
    (between p n).Located text := by
  refine ⟨hp, ?_⟩
  have := hp.offset_le
  show p.offset + (n - p.offset) ≤ text.length
  omega

theorem located_emptyAt (hp : p.Located text) : (emptyAt p).Located text :=
  ⟨hp, hp.offset_le⟩

theorem Located.extendTo (hs : s.Located text) (ht : t.stop ≤ text.length) :
    (s.extendTo t).Located text := located_between hs.1 (Nat.max_le.mpr ⟨hs.2, ht⟩)

theorem Located.withStop (hs : s.Located text) (hn : n ≤ text.length) :
    (s.withStop n).Located text := located_between hs.1 hn

end Span

end EcmaScript
