import EcmaScript.Proofs.Doc.IndexTag
import EcmaScript.Proofs.LineTable

/-!
# A whole comment read by index

What is left of a reader by index: the search for the tags, and the delimiters and margins that are taken off
before. Then a whole comment is read from its first character to its last with every use of a character guarded.

The search for tags looks at the characters before and behind an at sign, and the end of a name is searched for up
to the end of the text, not only up to the next tag. It stops in time all the same: the next tag starts with an at
sign, which no name contains (`Window.Reaches.passWhile_of_stop`). The tags that are found follow each other without
a gap from the end of the preamble to the end of the text (`TagSpan.Tiles`), and they are those that the text is cut
into.

What a run over a comment has to show is that it comes to its end. It halts where something is asked for that is out
of range, and where the calls go deeper than a bound; that it does neither, whatever the comment, is said by giving
its result, which is the one of `parse`. The bound may be any number from `TypeReader.depth` of the text on, so no
comment makes the calls go deeper than that.

## Contents

* `TagSpan.findTags`: preamble and tags of a text.
* `TagSpan.Tiles`, `TagSpan.exists_findTags`: what is found tiles the text.
* `readText`: the text of a comment.
* `parseAt`, `parseInlineTypeAt`: the record of a comment.
* `parse_stays_in_range`: both come to their end, and no tag looks outside of its region.
-/

namespace EcmaScript.Doc

/-- The window that is a whole text. -/
def Window.whole (text : Region) : Window := ⟨text, 0, text.chars.length⟩

@[simp] theorem Window.text_whole (text : Region) : (Window.whole text).text = text := rfl

theorem Window.reaches_whole {text : Region} {i j : Nat} (hi : i ≤ j) (hj : j ≤ text.chars.length) :
    (Window.whole text).Reaches i j :=
  ⟨Nat.zero_le i, hi, hj, hj⟩

namespace TagSpan

/-! ## The search -/

section Search

variable (w : Window)

/-- Whether nothing or white space stands before the index. -/
def boundaryAt (i : Nat) : Scan Bool := do
  if i = 0 then return true else return Unicode.isWhiteSpace (← w.read (i - 1))

/-- Whether a letter stands behind the index. -/
def namedAt (i : Nat) : Scan Bool := do
  if i + 1 < w.text.chars.length then return (← w.read (i + 1)).isAlpha else return false

/-- Whether a tag starts at the index. -/
def startsAt (i : Nat) : Scan Bool := do
  let boundary ← boundaryAt w i
  let named ← namedAt w i
  return (← w.read i) == '@' && boundary && named

/-- The indices from `i` on at which a tag starts. -/
def startsFrom (i : Nat) : Scan (List Nat) :=
  if i < w.text.chars.length then do
    let here ← startsAt w i
    let rest ← startsFrom (i + 1)
    return if here then i :: rest else rest
  else return []
termination_by w.text.chars.length - i

/-- The tag from one index up to another one. -/
def spanAt (first bodyEnd : Nat) : Scan TagSpan := do
  let stop ← w.passWhile Char.isAlphanum w.text.chars.length (first + 1)
  let name ← w.slice (first + 1) stop
  return ⟨String.ofList name, first, stop, bodyEnd⟩

end Search

/-- Where the first of the tags starts, or the end of the text. -/
def firstStart (text : Region) : List Nat → Nat
  | [] => text.chars.length
  | first :: _ => first

/-- The tags that start at the indices. -/
def spansOf (w : Window) : List Nat → Scan (List TagSpan)
  | [] => return []
  | first :: rest => do
    let s ← spanAt w first (firstStart w.text rest)
    let further ← spansOf w rest
    return s :: further

/-- The end of the preamble, and the tags. -/
def findTags (w : Window) : Scan (Nat × List TagSpan) := do
  let starts ← startsFrom w 0
  let spans ← spansOf w starts
  return (firstStart w.text starts, spans)

/-! ## Where tags start -/

section Starts

variable {text : Region} {i first : Nat} {starts : List Nat}

/-- Whether nothing or white space stands before the index. -/
def blankBefore (text : Region) : Nat → Bool
  | 0 => true
  | i + 1 => text.chars[i]?.any (Unicode.isWhiteSpace ·.1)

/-- The indices grow from `lo` on, and at each of them there is an at sign. -/
def AtSigns (text : Region) : Nat → List Nat → Prop
  | _, [] => True
  | lo, first :: rest => lo ≤ first ∧ (∃ p, text.chars[first]? = some ('@', p)) ∧ AtSigns text (first + 1) rest

theorem AtSigns.mono {lo lo' : Nat} (h : AtSigns text lo starts) (hlo : lo' ≤ lo) : AtSigns text lo' starts := by
  cases starts with
  | nil => trivial
  | cons first rest => exact ⟨Nat.le_trans hlo h.1, h.2⟩

theorem AtSigns.firstStart_le (h : AtSigns text i starts) : firstStart text starts ≤ text.chars.length := by
  cases starts with
  | nil => exact Nat.le_refl _
  | cons first rest =>
      obtain ⟨-, ⟨p, hp⟩, -⟩ := h
      exact Nat.le_of_lt (List.getElem?_eq_some_iff.mp hp).1

theorem AtSigns.le_firstStart (h : AtSigns text i starts) (hi : i ≤ text.chars.length) :
    i ≤ firstStart text starts := by
  cases starts with
  | nil => exact hi
  | cons first rest => exact h.1

/-- Where the first tag starts there is an at sign. -/
theorem AtSigns.sign_firstStart (h : AtSigns text i starts) (hlt : firstStart text starts < text.chars.length) :
    ∃ p, text.chars[firstStart text starts]? = some ('@', p) := by
  cases starts with
  | nil => exact absurd hlt (Nat.lt_irrefl _)
  | cons first rest => exact h.2.1

/-- The characters of the tags that start at the indices. -/
def piecesOf (text : Region) : List Nat → List (List (Char × Position))
  | [] => []
  | first :: rest => (text.part first (firstStart text rest)).chars :: piecesOf text rest

theorem read_whole {x : Char × Position} (hx : text.chars[i]? = some x) :
    (Window.whole text).read i = .ok x.1 := by
  have hi : i < text.chars.length := (List.getElem?_eq_some_iff.mp hx).1
  exact (Window.reaches_whole (Nat.le_of_lt hi) (Nat.le_refl _)).read_eq hi hx

theorem boundaryAt_eq (hi : i ≤ text.chars.length) :
    boundaryAt (Window.whole text) i = .ok (blankBefore text i) := by
  unfold boundaryAt
  cases i with
  | zero => rfl
  | succ i =>
      have hx := List.getElem?_eq_getElem (l := text.chars) (i := i) hi
      rw [if_neg (Nat.succ_ne_zero i), Nat.add_sub_cancel, read_whole hx, blankBefore, hx]
      rfl

theorem namedAt_eq (text : Region) (i : Nat) : namedAt (Window.whole text) i =
    .ok ((text.part (i + 1) text.chars.length).chars.head?.any (·.1.isAlpha)) := by
  unfold namedAt
  rw [Window.text_whole]
  by_cases hlt : i + 1 < text.chars.length
  · obtain ⟨x, hx, hcons⟩ := Region.exists_part_cons hlt (Nat.le_refl _)
    rw [if_pos hlt, read_whole hx, hcons]
    rfl
  · rw [if_neg hlt, Region.chars_part_of_le (Nat.le_of_not_lt hlt)]
    rfl

theorem startsAt_eq {x : Char × Position} (hx : text.chars[i]? = some x) : startsAt (Window.whole text) i =
    .ok (Tag.startsAt (blankBefore text i) x.1 (text.part (i + 1) text.chars.length).chars) := by
  have hi : i < text.chars.length := (List.getElem?_eq_some_iff.mp hx).1
  unfold startsAt Tag.startsAt
  rw [boundaryAt_eq (Nat.le_of_lt hi), namedAt_eq, read_whole hx]
  rfl

/-- **The search for tags** cuts the text. -/
theorem exists_startsFrom (hi : i ≤ text.chars.length) : ∃ starts,
    startsFrom (Window.whole text) i = .ok starts ∧ AtSigns text i starts ∧
      Tag.cut (blankBefore text i) (text.part i text.chars.length).chars =
        ((text.part i (firstStart text starts)).chars, piecesOf text starts) := by
  induction hn : text.chars.length - i generalizing i with
  | zero =>
      have hge : text.chars.length ≤ i := by omega
      refine ⟨[], ?_, trivial, ?_⟩
      · rw [startsFrom, Window.text_whole, if_neg (Nat.not_lt.mpr hge)]
        rfl
      · rw [firstStart, Region.chars_part_of_le hge]
        rfl
  | succ n ih =>
      have hlt : i < text.chars.length := by omega
      obtain ⟨x, hx, hcons⟩ := Region.exists_part_cons hlt (Nat.le_refl _)
      obtain ⟨starts, hstarts, hsigns, hcut⟩ := ih hlt (by omega)
      have hblank : blankBefore text (i + 1) = Unicode.isWhiteSpace x.1 := by
        rw [blankBefore, hx]
        rfl
      have hle := hsigns.le_firstStart hlt
      obtain ⟨y, hy, hpart⟩ := Region.exists_part_cons (Nat.lt_of_lt_of_le (Nat.lt_succ_self i) hle)
        hsigns.firstStart_le
      cases hx.symm.trans hy
      rw [startsFrom, Window.text_whole, if_pos hlt, startsAt_eq hx, Scan.ok_bind, hstarts, Scan.ok_bind, hcons,
        Tag.cut, ← hblank, hcut]
      dsimp only
      by_cases hhere : Tag.startsAt (blankBefore text i) x.1 (text.part (i + 1) text.chars.length).chars = true
      · have hsign : x.1 = '@' := by
          unfold Tag.startsAt at hhere
          simp only [Bool.and_eq_true, beq_iff_eq] at hhere
          exact hhere.1.1
        rw [if_pos hhere, if_pos hhere]
        refine ⟨i :: starts, rfl, ⟨Nat.le_refl i, ⟨x.2, ?_⟩, hsigns⟩, ?_⟩
        · rw [hx, ← hsign]
        · rw [piecesOf, firstStart, Region.chars_part_of_le (Nat.le_refl i), hpart]
      · rw [if_neg hhere, if_neg hhere]
        exact ⟨starts, rfl, hsigns.mono (Nat.le_succ i), by rw [hpart]⟩

end Starts

/-! ## What is found -/

section Tiles

variable {text : Region} {i first : Nat} {starts : List Nat} {spans : List TagSpan}

/-- **Tags one behind the other**: the first one starts at the index, each further one where the one before ends,
and the last one ends with the text. -/
def Tiles (text : Region) : Nat → List TagSpan → Prop
  | i, [] => i = text.chars.length
  | i, s :: rest => s.first = i ∧ (∃ p, text.chars[i]? = some ('@', p)) ∧ s.first < s.bodyStart ∧
      s.bodyStart ≤ s.bodyEnd ∧ s.bodyEnd ≤ text.chars.length ∧ Tiles text s.bodyEnd rest

/-- The first tag starts where the characters of the first piece do. -/
theorem place_firstStart (h : AtSigns text i starts) :
    (match piecesOf text starts with
      | [] => text.stop
      | piece :: _ => Region.position ⟨piece, text.stop⟩) = text.place (firstStart text starts) := by
  cases starts with
  | nil =>
      unfold firstStart Region.place
      rw [List.getElem?_eq_none (Nat.le_refl _)]
      rfl
  | cons first rest =>
      obtain ⟨-, ⟨p, hp⟩, hrest⟩ := h
      have hlt := (List.getElem?_eq_some_iff.mp hp).1
      have hle := hrest.le_firstStart hlt
      obtain ⟨x, hx, hcons⟩ := Region.exists_part_cons (Nat.lt_of_lt_of_le (Nat.lt_succ_self first) hle)
        hrest.firstStart_le
      unfold piecesOf Region.place Region.position
      dsimp only
      rw [hcons, firstStart, hx]

/-- A tag ends where the next one starts. -/
theorem ofPieces_cons (stop : Position) (piece : List (Char × Position)) (pieces : List (List (Char × Position))) :
    Tag.ofPieces stop (piece :: pieces) =
      Tag.ofPiece piece (match pieces with
        | [] => stop
        | next :: _ => Region.position ⟨next, stop⟩) :: Tag.ofPieces stop pieces := by
  cases pieces <;> rfl

/-- **A tag** from its at sign up to the next one: its name ends before the next one starts. -/
theorem exists_spanAt (h : AtSigns text i (first :: starts)) : ∃ s,
    spanAt (Window.whole text) first (firstStart text starts) = .ok s ∧ s.first = first ∧ first < s.bodyStart ∧
      s.bodyStart ≤ s.bodyEnd ∧ s.bodyEnd = firstStart text starts ∧
      s.toTag text = Tag.ofPiece (text.part first (firstStart text starts)).chars
        (text.place (firstStart text starts)) := by
  obtain ⟨-, ⟨p, hp⟩, hrest⟩ := h
  have hlt := (List.getElem?_eq_some_iff.mp hp).1
  have hle := hrest.le_firstStart hlt
  have hend := hrest.firstStart_le
  have hreach := Window.reaches_whole hlt (Nat.le_refl text.chars.length)
  have hstop : (Window.whole text).passWhile Char.isAlphanum text.chars.length (first + 1) =
      (Window.whole text).passWhile Char.isAlphanum (firstStart text starts) (first + 1) := by
    refine hreach.passWhile_of_stop hle hend fun hmore => ?_
    obtain ⟨q, hq⟩ := hrest.sign_firstStart hmore
    exact ⟨_, hq, rfl⟩
  obtain ⟨j, hpass, hij, hj, hdrop, htake⟩ := (Window.reaches_whole hle hend).exists_passWhile Char.isAlphanum
  have hslice := (Window.reaches_whole hle hend).slice_eq hij hj.le
  refine ⟨⟨String.ofList (text.part (first + 1) j).rawText, first, j, firstStart text starts⟩, ?_, rfl, hij,
    hj.le, rfl, ?_⟩
  · unfold spanAt
    rw [Window.text_whole, hstop, hpass, Scan.ok_bind, hslice]
    rfl
  · show Tag.mk (String.ofList (text.part (first + 1) j).rawText) (text.place first)
        (text.part j (firstStart text starts)) =
      ⟨String.ofList ((text.part first (firstStart text starts)).tail.takeWhile Char.isAlphanum),
        (text.part first (firstStart text starts)).position,
        (text.part first (firstStart text starts)).tail.dropWhile Char.isAlphanum⟩
    rw [Region.tail_part, Region.position_part (Nat.le_of_lt hle) hend]
    exact congrArg₂ (fun name body => Tag.mk (String.ofList name) _ body) htake hdrop

/-- **The tags that are found** are those of the pieces, one behind the other. -/
theorem exists_spansOf (h : AtSigns text i starts) : ∃ spans,
    spansOf (Window.whole text) starts = .ok spans ∧ Tiles text (firstStart text starts) spans ∧
      Tag.ofPieces text.stop (piecesOf text starts) = spans.map (toTag text) := by
  induction starts generalizing i with
  | nil => exact ⟨[], rfl, rfl, rfl⟩
  | cons first rest ih =>
      obtain ⟨s, hspan, hfirst, hname, hbody, hend, htag⟩ := exists_spanAt h
      obtain ⟨-, hsign, hrest⟩ := h
      obtain ⟨spans, hspans, htiles, hpieces⟩ := ih hrest
      refine ⟨s :: spans, ?_, ⟨hfirst, hsign, hfirst ▸ hname, hbody, ?_, ?_⟩, ?_⟩
      · unfold spansOf
        rw [Window.text_whole, hspan, Scan.ok_bind, hspans]
        rfl
      · rw [hend]
        exact hrest.firstStart_le
      · rw [hend]
        exact htiles
      · rw [piecesOf, ofPieces_cons, place_firstStart hrest, hpieces, List.map_cons, htag]

/-- **Finding the tags** comes to its end; they tile the text behind the preamble and are those that it is cut
into. -/
theorem exists_findTags (text : Region) : ∃ preambleEnd spans,
    findTags (Window.whole text) = .ok (preambleEnd, spans) ∧ preambleEnd ≤ text.chars.length ∧
      Tiles text preambleEnd spans ∧ Tag.split text = (text.part 0 preambleEnd, spans.map (toTag text)) := by
  obtain ⟨starts, hstarts, hsigns, hcut⟩ := exists_startsFrom (Nat.zero_le text.chars.length)
  obtain ⟨spans, hspans, htiles, hpieces⟩ := exists_spansOf hsigns
  refine ⟨firstStart text starts, spans, ?_, hsigns.firstStart_le, htiles, ?_⟩
  · unfold findTags
    rw [hstarts, Scan.ok_bind, hspans]
    rfl
  · rw [Region.part_self] at hcut
    unfold Tag.split
    rw [show Tag.cut true text.chars = _ from hcut]
    dsimp only
    rw [hpieces]
    exact congrArg (fun stop => (Region.mk _ stop, _)) (place_firstStart hsigns)

/-- The characters of a tiled text are those of its tags. -/
theorem Tiles.chars_eq (h : Tiles text i spans) :
    (text.part i text.chars.length).chars = spans.flatMap fun s => (text.part s.first s.bodyEnd).chars := by
  induction spans generalizing i with
  | nil => exact Region.chars_part_of_le (Nat.le_of_eq h.symm)
  | cons s rest ih =>
      obtain ⟨rfl, -, hname, hbody, hend, hrest⟩ := h
      rw [List.flatMap_cons, ← ih hrest, Region.chars_part_append text (Nat.le_trans (Nat.le_of_lt hname) hbody) hend]

/-- A tag of a tiling lies in the text, its name before its body. -/
theorem Tiles.bounds (h : Tiles text i spans) {s : TagSpan} (hs : s ∈ spans) :
    s.first < s.bodyStart ∧ s.bodyStart ≤ s.bodyEnd ∧ s.bodyEnd ≤ text.chars.length := by
  induction spans generalizing i with
  | nil => cases hs
  | cons t rest ih =>
      obtain ⟨-, -, hname, hbody, hend, hrest⟩ := h
      rcases List.mem_cons.mp hs with rfl | hs
      · exact ⟨hname, hbody, hend⟩
      · exact ih hrest hs

end Tiles

end TagSpan

open Region

/-! ## Delimiters and margins -/

section Text

variable (raw : List Char)

/-- A character of the comment. -/
def readRaw (i : Nat) : Scan Char :=
  match raw[i]? with
  | some c => .ok c
  | none => .error (.outOfRange i)

/-- The index behind the opening delimiter, which has no more than three characters. -/
def openingFrom (i : Nat) : Scan Nat :=
  if i < raw.length ∧ i < 3 then do
    let c ← readRaw raw i
    if c == '/' || c == '*' then openingFrom (i + 1) else return i
  else return i
termination_by 3 - i

/-- The index of the closing delimiter, which does not share a character with the opening one that ends at
`first`. -/
def closingBehind (first : Nat) : Scan Nat := do
  if first + 2 ≤ raw.length then
    if (← readRaw raw (raw.length - 2)) == '*' then
      if (← readRaw raw (raw.length - 1)) == '/' then return raw.length - 2 else return raw.length
    else return raw.length
  else return raw.length

/-- What is kept of the character at the index, and whether only the margin of a line stands before the next
one. -/
def keptAt (first last i : Nat) (inMargin isBreak : Bool) (c : Char) : List Char × Bool :=
  if first ≤ i ∧ i < last then
    if isLineTerminator c then (if isBreak then ['\n'] else [], true)
    else if inMargin && (c == ' ' || c == '\t') then ([], true)
    else if inMargin && c == '*' then ([], false)
    else ([c], false)
  else ([], inMargin)

/-- The place behind a character. -/
def nextPlace (p : Position) (isBreak : Bool) (c : Char) : Position :=
  if isBreak then ⟨p.line + 1, 0, p.offset + 1⟩
  else if isLineTerminator c then ⟨p.line, p.column, p.offset + 1⟩
  else ⟨p.line, p.column + 1, p.offset + 1⟩

/-- The text between two indices with its places, from the index `i` on. -/
def stripFrom (first last i : Nat) (p : Position) (inMargin : Bool) : Scan (List (Char × Position) × Position) :=
  if i < raw.length then do
    let c ← readRaw raw i
    let isBreak := isLineTerminator c && !(c == '\r' && raw[i + 1]? == some '\n')
    let (kept, inMargin) := keptAt first last i inMargin isBreak c
    let (chars, stop) ← stripFrom first last (i + 1) (nextPlace p isBreak c) inMargin
    return (kept.map (·, p) ++ chars, stop)
  else return ([], p)
termination_by raw.length - i

end Text

/-- The text of a comment that starts at `start`. -/
def readText (comment : String) (start : Position) : Scan Region := do
  let raw := comment.toList
  let first ← openingFrom raw 0
  let last ← closingBehind raw first
  let (chars, stop) ← stripFrom raw first last 0 start false
  return ⟨chars, stop⟩

section Text

variable {raw rest : List Char} {c : Char} {i first last : Nat}

theorem readRaw_eq (h : raw[i]? = some c) : readRaw raw i = .ok c := by
  rw [readRaw, h]

theorem lt_length_of_drop (h : raw.drop i = c :: rest) : i < raw.length :=
  (List.getElem?_eq_some_iff.mp (getElem?_of_drop h)).1

theorem openingFrom_eq (raw : List Char) (i : Nat) :
    openingFrom raw i = .ok (i + openingLength (3 - i) (raw.drop i)) := by
  induction hn : 3 - i generalizing i with
  | zero =>
      rw [openingFrom, if_neg (by omega)]
      rfl
  | succ n ih =>
      rw [openingFrom]
      cases hdrop : raw.drop i with
      | nil =>
          have := List.drop_eq_nil_iff.mp hdrop
          rw [if_neg (by omega)]
          rfl
      | cons c rest =>
          rw [if_pos ⟨lt_length_of_drop hdrop, by omega⟩, readRaw_eq (getElem?_of_drop hdrop), Scan.ok_bind,
            openingLength]
          by_cases hc : (c == '/' || c == '*') = true
          · rw [if_pos hc, if_pos hc, ih (i + 1) (by omega), drop_succ_of_drop hdrop, Nat.add_assoc, Nat.add_comm 1]
          · rw [if_neg hc, if_neg hc]
            rfl

/-- A comment is closed if its last two characters say so. -/
theorem isClosed_append (front : List Char) (c d : Char) :
    isClosed (front ++ [c, d]) = (c == '*' && d == '/') := by
  unfold isClosed
  rw [List.reverse_append]
  simp [List.isPrefixOf, Bool.and_comm, BEq.comm]

theorem closingBehind_eq (raw : List Char) (first : Nat) : closingBehind raw first =
    .ok (if first + 2 ≤ raw.length && isClosed raw then raw.length - 2 else raw.length) := by
  unfold closingBehind
  by_cases h : first + 2 ≤ raw.length
  · obtain ⟨c, d, hend⟩ : ∃ c d, raw.drop (raw.length - 2) = [c, d] := by
      refine List.length_eq_two.mp ?_
      rw [List.length_drop]
      omega
    obtain ⟨front, rfl⟩ : ∃ front, raw = front ++ [c, d] := ⟨_, hend ▸ (List.take_append_drop _ _).symm⟩
    have hc : (front ++ [c, d])[(front ++ [c, d]).length - 2]? = some c := by simp
    have hd : (front ++ [c, d])[(front ++ [c, d]).length - 1]? = some d := by simp
    rw [if_pos h, readRaw_eq hc, Scan.ok_bind, readRaw_eq hd, Scan.ok_bind, isClosed_append, decide_eq_true h]
    cases (c == '*') <;> cases (d == '/') <;> rfl
  · rw [if_neg h, decide_eq_false h]
    rfl

/-- One turn of the loop that collects a text. -/
theorem collect_eq (p : Position) (inMargin : Bool) :
    let kept := keptAt first last i inMargin (breaksLine c rest) c
    let further := collect first last (i + 1) (after p c rest) kept.2 rest
    collect first last i p inMargin (c :: rest) = (kept.1.map (·, p) ++ further.1, further.2) := by
  have hin : (decide (first ≤ i) && decide (i < last)) = true ↔ first ≤ i ∧ i < last := by simp
  rw [collect]
  simp only [keptAt, hin]
  split_ifs <;> rfl

theorem stripFrom_eq (raw : List Char) (first last i : Nat) (p : Position) (inMargin : Bool) :
    stripFrom raw first last i p inMargin = .ok (collect first last i p inMargin (raw.drop i)) := by
  induction hn : raw.length - i generalizing i p inMargin with
  | zero =>
      have hle : raw.length ≤ i := by omega
      rw [stripFrom, if_neg (Nat.not_lt.mpr hle), List.drop_eq_nil_of_le hle]
      rfl
  | succ n ih =>
      have hlt : i < raw.length := by omega
      obtain ⟨c, rest, hdrop⟩ : ∃ c rest, raw.drop i = c :: rest := ⟨_, _, List.drop_eq_getElem_cons hlt⟩
      have hbreak : (isLineTerminator c && !(c == '\r' && raw[i + 1]? == some '\n')) = breaksLine c rest := by
        rw [getElem?_succ_of_drop hdrop]
        rfl
      have hplace : nextPlace p (breaksLine c rest) c = after p c rest := rfl
      rw [stripFrom, if_pos hlt, readRaw_eq (getElem?_of_drop hdrop), Scan.ok_bind, hbreak, hdrop, collect_eq]
      dsimp only
      rw [hplace, ih _ _ _ (by omega), drop_succ_of_drop hdrop]
      rfl

end Text

theorem readText_eq (comment : String) (start : Position) :
    readText comment start = .ok (ofComment comment start) := by
  unfold readText ofComment
  dsimp only
  rw [openingFrom_eq, Scan.ok_bind, closingBehind_eq, Scan.ok_bind, stripFrom_eq, Nat.zero_add]
  rfl

/-! ## The record of a comment -/

section Record

variable (depth : Nat)

/-- The record of a comment that starts at `start`, unless the comment is blank. -/
def parseAt (options : Options) (comment : String) (start : Position) : Scan (Noted (Option Info)) := do
  let text ← readText comment start
  if text.isBlank then return (none, [])
  else
    let w := Window.whole text
    let (preambleEnd, spans) ← TagSpan.findTags w
    let description ← w.trimmed? 0 preambleEnd
    let (info, warnings) ← TagSpan.applyAll w depth options spans { description }
    return (some info, warnings)

/-- The record of a comment that is a bare type. There is none for a blank comment or one with tags. -/
def parseInlineTypeAt (comment : String) (start : Position) : Scan (Noted (Option Info)) := do
  let text ← readText comment start
  if text.isBlank then return (none, [])
  else
    let w := Window.whole text
    let (_, spans) ← TagSpan.findTags w
    if spans.isEmpty then
      match ← (IndexReader.readAll w text.chars.length depth).run 0 with
      | .ok (t, _) => return (some { type := some t, inlineType := true }, [])
      | .error e => return (some {}, [⟨e.position, .badType e.fault⟩])
    else return (none, [])

end Record

/-- The window that is the region of a tag, from its at sign up to the next one. -/
def TagSpan.window (s : TagSpan) (text : Region) : Window := ⟨text, s.first, s.bodyEnd⟩

section Record

variable {text : Region} {spans : List TagSpan} {i depth : Nat}

/-- A tag of a tiling fits into the window that is its region. -/
theorem TagSpan.Tiles.fits_window (h : TagSpan.Tiles text i spans) {s : TagSpan} (hs : s ∈ spans)
    (hd : TypeReader.depth text ≤ depth) : s.Fits (s.window text) depth := by
  obtain ⟨hname, hbody, hend⟩ := h.bounds hs
  unfold TypeReader.depth at hd
  exact ⟨⟨Nat.le_of_lt hname, hbody, Nat.le_refl _, hend⟩, by omega⟩

/-- So it does into the whole text. -/
theorem TagSpan.Tiles.fits_whole (h : TagSpan.Tiles text i spans) {s : TagSpan} (hs : s ∈ spans)
    (hd : TypeReader.depth text ≤ depth) : s.Fits (Window.whole text) depth := by
  obtain ⟨hreach, hdepth⟩ := h.fits_window hs hd
  exact ⟨Window.reaches_whole hreach.le hreach.length, hdepth⟩

theorem parseAt_eq (options : Options) (comment : String) (start : Position)
    (hd : TypeReader.depth (ofComment comment start) ≤ depth) :
    parseAt depth options comment start = .ok (parse options comment start) := by
  obtain ⟨preambleEnd, spans, hfind, hle, htiles, hsplit⟩ := TagSpan.exists_findTags (ofComment comment start)
  unfold parseAt parse
  rw [readText_eq, Scan.ok_bind]
  dsimp only
  by_cases hblank : (ofComment comment start).isBlank = true
  · rw [if_pos hblank, if_pos hblank]
    rfl
  · have hdescription := (Window.reaches_whole (Nat.zero_le preambleEnd) hle).trimmed?_eq
    rw [if_neg hblank, if_neg hblank, hfind, Scan.ok_bind, hsplit]
    dsimp only
    rw [hdescription, Scan.ok_bind, TagSpan.applyAll_eq fun s hs => htiles.fits_whole hs hd]
    rfl

/-- A type that is the whole text. -/
theorem follows_readAll_whole (hd : TypeReader.depth text ≤ depth) :
    match TypeReader.readAll (TypeReader.depth text) text with
    | .ok (t, _) => ∃ j, IndexReader.readAll (Window.whole text) text.chars.length depth 0 = pure (t, j)
    | .error e => IndexReader.readAll (Window.whole text) text.chars.length depth 0 = throw e := by
  have hreach := Window.reaches_whole (Nat.zero_le text.chars.length) (Nat.le_refl _)
  have hdepth : 8 * (text.chars.length + 1) + 4 ≤ TypeReader.depth text + 8 := by
    unfold TypeReader.depth
    omega
  have hrun := IndexReader.follows_readAll (Nat.le_trans hdepth (Nat.add_le_add_right hd 8)) hdepth 0 hreach
    ((IndexReader.below_part hreach).mpr (by omega))
  rw [Window.text_whole, Region.part_self] at hrun
  split
  next t rest hread =>
    rw [hread] at hrun
    obtain ⟨j, hj, -⟩ := hrun
    exact ⟨j, hj⟩
  next e hread =>
    rw [hread] at hrun
    exact hrun

theorem parseInlineTypeAt_eq (comment : String) (start : Position)
    (hd : TypeReader.depth (ofComment comment start) ≤ depth) :
    parseInlineTypeAt depth comment start = .ok (parseInlineType comment start) := by
  obtain ⟨preambleEnd, spans, hfind, hle, htiles, hsplit⟩ := TagSpan.exists_findTags (ofComment comment start)
  unfold parseInlineTypeAt parseInlineType
  rw [readText_eq, Scan.ok_bind]
  dsimp only
  by_cases hblank : (ofComment comment start).isBlank = true
  · rw [if_pos hblank, if_pos hblank]
    rfl
  · rw [if_neg hblank, if_neg hblank, hfind, Scan.ok_bind, hsplit]
    cases spans with
    | cons s rest => rfl
    | nil =>
        have hrun := follows_readAll_whole hd
        dsimp only [List.map_nil, List.isEmpty_nil]
        rw [if_pos rfl, StateT.run]
        cases hread : TypeReader.readAll (TypeReader.depth (ofComment comment start)) (ofComment comment start) with
        | ok x =>
            rw [hread] at hrun
            obtain ⟨j, hj⟩ := hrun
            rw [hj]
            rfl
        | error e =>
            rw [hread] at hrun
            rw [hrun]
            rfl

end Record

/-- **Reading a comment stays in range.** Both readers of a comment come to their end with every use of a character
guarded by the text, however much deeper than `TypeReader.depth` the calls may go. The tags that are found tile the
text behind the preamble. And the effect of each of them is had as well where no character can be asked for but
those of its own region, from its at sign up to the next one. -/
theorem parse_stays_in_range (options : Options) (comment : String) (start : Position) (extra : Nat) :
    let text := ofComment comment start
    let depth := TypeReader.depth text + extra
    parseAt depth options comment start = .ok (parse options comment start) ∧
    parseInlineTypeAt depth comment start = .ok (parseInlineType comment start) ∧
    ∃ preambleEnd spans,
      TagSpan.findTags (Window.whole text) = .ok (preambleEnd, spans) ∧
      preambleEnd ≤ text.chars.length ∧
      TagSpan.Tiles text preambleEnd spans ∧
      text.chars = (text.part 0 preambleEnd).chars ++
        spans.flatMap (fun s => (text.part s.first s.bodyEnd).chars) ∧
      Tag.split text = (text.part 0 preambleEnd, spans.map (TagSpan.toTag text)) ∧
      ∀ s ∈ spans, ∀ info,
        s.applyAt (s.window text) depth options info = .ok ((s.toTag text).apply options info) := by
  intro text depth
  have hd : TypeReader.depth text ≤ depth := Nat.le_add_right _ _
  obtain ⟨preambleEnd, spans, hfind, hle, htiles, hsplit⟩ := TagSpan.exists_findTags text
  refine ⟨parseAt_eq options comment start hd, parseInlineTypeAt_eq comment start hd, preambleEnd, spans, hfind, hle,
    htiles, ?_, hsplit, ?_⟩
  · rw [← htiles.chars_eq, chars_part_append text (Nat.zero_le _) hle, part_self]
  · intro s hs info
    exact TagSpan.applyAt_eq (htiles.fits_window hs hd) info

end EcmaScript.Doc
