import EcmaScript.Proofs.LexerReads

/-!
# From one state of the lexer to another

`Passes read s t` says that the lexer came from `s` to `t` over the characters `read`: they stood before what
is left in `t`, and the offset has grown by their number. Nothing is said of the notes of the lexer, and nothing
is asked of its state. What a reader has passed over composes by appending.

## Contents

* `Lexer.Passes`, with one lemma for each single operation.
-/

namespace EcmaScript

namespace Lexer

/-- The lexer came from `s` to `t` over the characters `read`. -/
structure Passes (read : List Char) (s t : Lexer) : Prop where
  rest : s.rest = read ++ t.rest
  offset : t.position.offset = s.position.offset + read.length

namespace Passes

variable {xs ys : List Char} {r s t : Lexer} {c : Char} {rest : List Char}

theorem refl (s : Lexer) : Passes [] s s := ⟨rfl, rfl⟩

theorem trans (h : Passes xs r s) (h' : Passes ys s t) : Passes (xs ++ ys) r t := by
  refine ⟨?_, ?_⟩
  · rw [h.rest, h'.rest, List.append_assoc]
  · rw [h'.offset, h.offset, List.length_append, Nat.add_assoc]

/-- What a state holds besides what is left of the text and the place in it does not matter. -/
theorem congr (h : Passes xs r s) (hr : t.rest = s.rest) (hp : t.position = s.position) : Passes xs r t :=
  ⟨hr ▸ h.rest, hp ▸ h.offset⟩

theorem advance (h : s.rest = c :: rest) : Passes [c] s s.advance := by
  rw [advance_cons h]
  exact ⟨h, Position.offset_after _ _ _⟩

/-- One more character in front. -/
theorem cons (h : s.rest = c :: rest) (h' : Passes xs s.advance t) : Passes (c :: xs) s t :=
  (advance h).trans h'

theorem skipWhile (p : Char → Bool) (s : Lexer) : Passes (s.rest.takeWhile p) s (s.skipWhile p) := by
  fun_induction Lexer.skipWhile p s with
  | case1 s hs => rw [hs]; exact refl s
  | case2 s c rest hs hp ih =>
      rw [rest_advance hs] at ih
      rw [hs, List.takeWhile_cons_of_pos hp]
      exact cons hs ih
  | case3 s c rest hs hp => rw [hs, List.takeWhile_cons_of_neg hp]; exact refl s

theorem pushComment (h : Passes xs r s) (k : CommentKind) (p : Position) :
    Passes xs r (s.pushComment k p) := by
  refine h.congr (rest_pushComment s k p) ?_
  unfold Lexer.pushComment cutSince
  dsimp only
  split <;> rfl

/-- Where what is left is the text from the present place on, the characters make up the region that was read. -/
theorem slice_between (h : Passes xs s t) (hs : s.rest = s.text.drop s.position.offset) :
    (Span.between s.position t.position.offset).slice s.text = xs := by
  show (s.text.drop s.position.offset).take (t.position.offset - s.position.offset) = xs
  rw [← hs, h.offset, Nat.add_sub_cancel_left, h.rest, List.take_left]

/-- In one text the offsets follow from what is left. -/
theorem of_sound (hs : s.Sound) (ht : t.Sound) (htext : t.text = s.text) (h : s.rest = xs ++ t.rest) :
    Passes xs s t := by
  refine ⟨h, ?_⟩
  have hlength := congrArg List.length h
  have hsPlace := hs.place.offset_le
  have htPlace := ht.place.offset_le
  rw [hs.rest, ht.rest, htext, List.length_append, List.length_drop, List.length_drop] at hlength
  rw [htext] at htPlace
  omega

/-- What stands behind the characters is left. -/
theorem rest_eq (h : Passes xs s t) (hs : s.rest = xs ++ rest) : t.rest = rest :=
  List.append_cancel_left (h.rest.symm.trans hs)

end Passes

end Lexer

end EcmaScript
