import EcmaScript.Source

/-!
# Regions one behind the other

The statements of a list lie one behind the other between two offsets, those of the list itself or those
that a reader has come from and to. A list grows at its end, by a region that starts where the last one has
ended or further on (`Ascending.snoc`).
-/

namespace EcmaScript

/-- The regions lie between the two offsets, in this order and none of them reaching into the next. -/
structure Ascending (start : Nat) (spans : List Span) (stop : Nat) : Prop where
  within : ∀ s ∈ spans, start ≤ s.offset ∧ s.stop ≤ stop
  apart : spans.Pairwise (·.stop ≤ ·.offset)

/-- The regions lie in the whole one behind the other. -/
def Span.Arranges (whole : Span) (spans : List Span) : Prop := Ascending whole.offset spans whole.stop

theorem Span.offset_le_stop (s : Span) : s.offset ≤ s.stop := Nat.le_add_right _ _

theorem Span.le_stop_between (p : Position) (n : Nat) : n ≤ (between p n).stop := by
  show n ≤ p.offset + (n - p.offset)
  omega

theorem Span.stop_between_le {p : Position} {n m : Nat} (hp : p.offset ≤ m) (hn : n ≤ m) :
    (between p n).stop ≤ m := by
  show p.offset + (n - p.offset) ≤ m
  omega

namespace Ascending

variable {start start' stop stop' middle : Nat} {s : Span} {spans : List Span}

theorem nil (start stop : Nat) : Ascending start [] stop := ⟨nofun, .nil⟩

theorem mono (h : Ascending start spans stop) (hstart : start' ≤ start) (hstop : stop ≤ stop') :
    Ascending start' spans stop' :=
  ⟨fun s hs => ⟨Nat.le_trans hstart (h.within s hs).1, Nat.le_trans (h.within s hs).2 hstop⟩, h.apart⟩

theorem snoc (h : Ascending start spans middle) (hm : middle ≤ s.offset) (hstart : start ≤ s.offset)
    (hstop : s.stop ≤ stop) : Ascending start (spans ++ [s]) stop := by
  have hle := s.offset_le_stop
  refine ⟨fun t ht => ?_, List.pairwise_append.mpr ⟨h.apart, List.pairwise_singleton _ _, ?_⟩⟩
  · obtain ht | ht := List.mem_append.mp ht
    · exact ⟨(h.within t ht).1, Nat.le_trans (h.within t ht).2 (by omega)⟩
    · cases List.mem_singleton.mp ht
      exact ⟨hstart, hstop⟩
  · intro t ht u hu
    cases List.mem_singleton.mp hu
    exact Nat.le_trans (h.within t ht).2 hm

end Ascending

/-- A region alone in itself. -/
theorem Span.arranges_self (s : Span) : s.Arranges [s] :=
  (Ascending.nil s.offset s.offset).snoc (Nat.le_refl _) (Nat.le_refl _) (Nat.le_refl _)

/-- Regions one behind the other lie between the start of the first and the end of the last. -/
theorem Ascending.extendTo {start stop : Nat} {spans : List Span} (h : Ascending start spans stop)
    {first last : Span} (hf : spans.head? = some first) (hl : spans.getLast? = some last) :
    (first.extendTo last).Arranges spans := by
  obtain ⟨rest, rfl⟩ := List.head?_eq_some_iff.mp hf
  obtain ⟨front, hfront⟩ := List.getLast?_eq_some_iff.mp hl
  refine ⟨fun s hs => ⟨?_, ?_⟩, h.apart⟩
  · show first.offset ≤ s.offset
    obtain rfl | hs := List.mem_cons.mp hs
    · exact Nat.le_refl _
    · exact Nat.le_trans first.offset_le_stop ((List.pairwise_cons.mp h.apart).1 s hs)
  · rw [Span.stop_extendTo]
    refine Nat.le_trans ?_ (Nat.le_max_right _ _)
    have happart := h.apart
    rw [hfront] at hs happart
    obtain hs | hs := List.mem_append.mp hs
    · have := (List.pairwise_append.mp happart).2.2 s hs last List.mem_cons_self
      exact Nat.le_trans this last.offset_le_stop
    · cases List.mem_singleton.mp hs
      exact Nat.le_refl _

end EcmaScript
