import EcmaScript.Proofs.Doc.Window

/-!
# Type expressions read by index

The readers of types once more, as they work on an index into the text and on the end of the tag. The grammar is
the one of `TypeReader`; what is new is how a reader gets at its characters, and that it can halt.

`Follows P p q Q` compares a reader by index with a reader of regions: from an index whose region satisfies `P`
the one does what the other does, without halting, and leaves an index whose region satisfies `Q`. It has a rule
for each piece that a reader is made of, so that two readers are compared along their common text.

## Contents

* `IndexReader`: the readers.
* `IndexReader.Follows`: the comparison.
* `IndexReader.Follows.bind`, `IndexReader.Follows.eat`, `IndexReader.Follows.name?`, …: its rules.
-/

namespace EcmaScript.Doc

/-- A reader that keeps an index: it gives a value and moves the index, fails with a fault, or halts. -/
abbrev IndexReader (α : Type) := StateT Nat (ExceptT TypeError Scan) α

namespace IndexReader

/-! ## The pieces of readers -/

section Pieces

variable (w : Window) (limit : Nat)

/-- Fails at the present index. -/
def fail {α : Type} (fault : TypeFault) : IndexReader α := do
  throw ⟨fault, w.text.place (← get)⟩

def skipBlank : IndexReader Unit := do
  set (← w.passWhile Unicode.isWhiteSpace limit (← get))

/-- The next character behind blanks, which are consumed. -/
def peek : IndexReader (Option Char) := do
  skipBlank w limit
  let i ← get
  if i < limit then return some (← w.read i) else return none

/-- Consumes one character. -/
def skip : IndexReader Unit := modify (· + 1)

/-- Consumes blanks and then the character `c`, if it follows. -/
def eat (c : Char) : IndexReader Bool := do
  if (← peek w limit) = some c then
    skip
    return true
  else return false

/-- Consumes blanks and then `word`, if it follows. -/
def eatWord (word : List Char) : IndexReader Bool := do
  skipBlank w limit
  let i ← get
  if i + word.length ≤ limit then
    if (← w.slice i (i + word.length)) = word then
      set (i + word.length)
      return true
    else return false
  else return false

/-- Reads a name behind blanks. A point before an angle bracket is not part of the name. -/
def name? : IndexReader (Option String) := do
  skipBlank w limit
  let start ← get
  let stop ← w.passWhile TypeReader.isTypeNameChar limit start
  set stop
  if start = stop then return none
  else
    let name ← w.slice start stop
    if name.getLast? = some '.' ∧ stop < limit then
      if (← w.read stop) = '<' then return some (String.ofList name.dropLast)
      else return some (String.ofList name)
    else return some (String.ofList name)

/-- Reads a text in quotation marks `c`; the first one is the next character. -/
def quoted (c : Char) : IndexReader String := do
  skip
  let start ← get
  let stop ← w.passWhile (· != c) limit start
  let key ← w.slice start stop
  set (if stop < limit then stop + 1 else stop)
  return String.ofList key

/-- Reads the key of a field: a quoted text or a name. -/
def fieldKey : IndexReader String := do
  match ← peek w limit with
  | some c =>
    if c == '\'' || c == '"' then quoted w limit c
    else match ← name? w limit with
      | some name => return name
      | none => fail w .notRecognized
  | none => fail w .notRecognized

/-- Reads what belongs to a name that was read from the index `start` on. -/
def afterName (start : Nat) (name : String) (arguments : IndexReader (List TypeExpr)) : IndexReader TypeExpr := do
  if name == "typeof" then
    match ← name? w limit with
    | some target => return .typeOf target
    | none => fail w .notRecognized
  else if name.startsWith "." then
    set start
    fail w .notRecognized
  else if ← eat w limit '<' then
    let args ← arguments
    if ← eat w limit '>' then return .named name args else fail w .angleNotClosed
  else return .named name []

end Pieces

/-! ## The readers -/

/-- Whether no type comes next that a question mark could stand before. -/
def endsType (next : Option Char) : Bool :=
  next == none || next == some ',' || next == some '=' || next == some '\x7d' || next == some ')' ||
    next == some '>' || next == some '|' || next == some ']' || next == some ':'

/-- Whether no type comes next that three points could stand before. -/
def endsArguments (next : Option Char) : Bool :=
  next == none || next == some '\x7d' || next == some ')' || next == some ','

section Readers

variable (w : Window) (limit : Nat)

mutual

def readParamType : Nat → IndexReader TypeExpr
  | 0 => throwThe Halt .unfinished
  | depth + 1 => do
    if ← eatWord w limit ['.', '.', '.'] then
      let next ← peek w limit
      if endsArguments next then return .varArgs .unknown
      else return .varArgs (← readTopLevel depth)
    else
      let t ← readTopLevel depth
      if ← eat w limit '=' then return .optional t else return t

def readTopLevel : Nat → IndexReader TypeExpr
  | 0 => throwThe Halt .unfinished
  | depth + 1 => do
    let first ← readTypeExpression depth
    if ← eat w limit '|' then return .union (first :: (← readAlternatives depth)) else return first

/-- Reads the alternatives behind a bar; a second bar is passed over. -/
def readAlternatives : Nat → IndexReader (List TypeExpr)
  | 0 => throwThe Halt .unfinished
  | depth + 1 => do
    let _ ← eat w limit '|'
    let t ← readTypeExpression depth
    if ← eat w limit '|' then return t :: (← readAlternatives depth) else return [t]

def readTypeExpression : Nat → IndexReader TypeExpr
  | 0 => throwThe Halt .unfinished
  | depth + 1 => do
    let c ← peek w limit
    if c = some '?' then
      skip
      let next ← peek w limit
      if endsType next then return .unknown else return .nullable (← readBasic depth)
    else if c = some '!' then
      skip
      return .nonNullable (← readBasic depth)
    else
      let t ← readBasic depth
      if ← eat w limit '?' then return .nullable t
      else if ← eat w limit '!' then return .nonNullable t
      else return t

def readBasic : Nat → IndexReader TypeExpr
  | 0 => throwThe Halt .unfinished
  | depth + 1 => do
    let c ← peek w limit
    if c = some '*' then
      skip
      return .all
    else if c = some '\x7b' then
      skip
      readRecord depth
    else if c = some '(' then
      skip
      let t ← readTopLevel depth
      if ← eat w limit ')' then return t else fail w .parenNotClosed
    else if c.any TypeReader.isTypeNameChar then
      let start ← get
      let name := (← name? w limit).getD ""
      if name == "function" then
        if ← eat w limit '(' then readFunction depth else afterName w limit start name (readArguments depth)
      else afterName w limit start name (readArguments depth)
    else fail w .notRecognized

/-- Reads types with commas between them. -/
def readArguments : Nat → IndexReader (List TypeExpr)
  | 0 => throwThe Halt .unfinished
  | depth + 1 => do
    let t ← readTopLevel depth
    if ← eat w limit ',' then return t :: (← readArguments depth) else return [t]

/-- Reads a record type behind its opening brace. -/
def readRecord : Nat → IndexReader TypeExpr
  | 0 => throwThe Halt .unfinished
  | depth + 1 => do
    if ← eat w limit '\x7d' then return .record []
    else
      let fields ← readFields depth
      if ← eat w limit '\x7d' then return .record fields else fail w .braceNotClosed

/-- Reads fields with commas between them. -/
def readFields : Nat → IndexReader (List (String × Option TypeExpr))
  | 0 => throwThe Halt .unfinished
  | depth + 1 => do
    let key ← fieldKey w limit
    let value ← if ← eat w limit ':' then some <$> readTopLevel depth else pure none
    if ← eat w limit ',' then return (key, value) :: (← readFields depth) else return [(key, value)]

/-- Reads a function type behind its opening parenthesis. -/
def readFunction : Nat → IndexReader TypeExpr
  | 0 => throwThe Halt .unfinished
  | depth + 1 => do
    let (receiver, constructs, params) ←
      if ← eat w limit ')' then pure (none, none, [])
      else
        let parts ← readParameters depth none none []
        if ← eat w limit ')' then pure parts else fail w .parenNotClosed
    let result ← if ← eat w limit ':' then some <$> readTypeExpression depth else pure none
    return .function receiver constructs params result

/-- Reads the parameters of a function type. -/
def readParameters : Nat → Option TypeExpr → Option TypeExpr → List TypeExpr →
    IndexReader (Option TypeExpr × Option TypeExpr × List TypeExpr)
  | 0, _, _, _ => throwThe Halt .unfinished
  | depth + 1, receiver, constructs, params => do
    let (receiver, constructs, params) ←
      if ← eatWord w limit "this:".toList then
        let t ← readTopLevel depth
        pure (some t, constructs, params)
      else do
        if ← eatWord w limit "new:".toList then
          let t ← readTopLevel depth
          pure (receiver, some t, params)
        else
          let t ← readParamType depth
          pure (receiver, constructs, t :: params)
    if ← eat w limit ',' then readParameters depth receiver constructs params
    else return (receiver, constructs, params.reverse)

end

/-- Reads a type between braces. -/
def readBraced (depth : Nat) : IndexReader TypeExpr := do
  if ← eat w limit '\x7b' then
    let t ← readParamType w limit depth
    if ← eat w limit '\x7d' then return t else fail w .braceNotClosed
  else fail w .notRecognized

/-- Reads a type that fills the whole region. -/
def readAll (depth : Nat) : IndexReader TypeExpr := do
  let t ← readParamType w limit depth
  match ← peek w limit with
  | none => return t
  | some _ => fail w .notRecognized

end Readers

/-! ## Following a reader of regions -/

/-- From an index in range whose region satisfies `P` the reader `p` does what `q` does with the region, without
halting, and leaves an index whose region satisfies `Q`. -/
def Follows (w : Window) (limit : Nat) {α : Type} (P : Region → Prop) (p : IndexReader α) (q : TypeReader α)
    (Q : α → Region → Prop) : Prop :=
  ∀ i, w.Reaches i limit → P (w.text.part i limit) →
    match q (w.text.part i limit) with
    | .ok (a, r) => ∃ j, p i = pure (a, j) ∧ w.Reaches j limit ∧ r = w.text.part j limit ∧ Q a r
    | .error e => p i = throw e

/-- The region has less than `n` characters. -/
def Below (n : Nat) (r : Region) : Prop := r.chars.length < n

/-- The region has less than `n` characters and starts with `c` and not with a blank. -/
structure Heads (n : Nat) (c : Option Char) (r : Region) : Prop where
  below : Below n r
  head : r.head? = c
  skipBlank : r.skipBlank = r

namespace Follows

variable {w : Window} {limit m n k : Nat} {α β : Type} {P P' : Region → Prop} {p : IndexReader α} {q : TypeReader α}
  {Q : α → Region → Prop} {f : α → IndexReader β} {g : α → TypeReader β} {R : β → Region → Prop}

/-- A stronger assumption and a weaker conclusion. -/
theorem mono {Q' : α → Region → Prop} (h : Follows w limit P p q Q) (hP : ∀ r, P' r → P r)
    (hQ : ∀ a r, Q a r → Q' a r) : Follows w limit P' p q Q' := by
  intro i hi hr
  have hrun := h i hi (hP _ hr)
  cases hq : q (w.text.part i limit) with
  | error e =>
      rw [hq] at hrun
      exact hrun
  | ok x =>
      rw [hq] at hrun
      obtain ⟨j, hp, hj, hpart, hQa⟩ := hrun
      exact ⟨j, hp, hj, hpart, hQ _ _ hQa⟩

theorem pure {a : α} (h : ∀ r, P r → Q a r) : Follows w limit P (Pure.pure a) (Pure.pure a) Q := by
  intro i hi hr
  exact ⟨i, rfl, hi, rfl, h _ hr⟩

theorem bind (hp : Follows w limit P p q Q) (hf : ∀ a, Follows w limit (Q a) (f a) (g a) R) :
    Follows w limit P (p >>= f) (q >>= g) R := by
  intro i hi hr
  have hrun := hp i hi hr
  show match (q (w.text.part i limit) >>= fun x => g x.1 x.2 : Except TypeError (β × Region)) with
    | .ok (b, r) => ∃ j, (p i >>= fun x => f x.1 x.2) = Pure.pure (b, j) ∧ w.Reaches j limit ∧
        r = w.text.part j limit ∧ R b r
    | .error e => (p i >>= fun x => f x.1 x.2) = throw e
  cases hq : q (w.text.part i limit) with
  | error e =>
      rw [hq] at hrun
      rw [hrun]
      rfl
  | ok x =>
      rw [hq] at hrun
      obtain ⟨j, hpi, hj, hpart, hQa⟩ := hrun
      rw [hpi, pure_bind]
      have := hf x.1 j hj
      rw [← hpart] at this
      exact this hQa

/-- A value that is known goes into what follows. -/
theorem known {a : α} (h : Follows w limit P (f a) (g a) R) :
    Follows w limit P (Pure.pure a >>= f) (Pure.pure a >>= g) R := h

theorem map {h : α → β} (hp : Follows w limit P p q fun _ => P') :
    Follows w limit P (h <$> p) (h <$> q) fun _ => P' :=
  bind (f := fun a => Pure.pure (h a)) (g := fun a => Pure.pure (h a)) hp fun _ => pure fun _ hr => hr

theorem ite {c : Prop} [Decidable c] {p' : IndexReader α} {q' : TypeReader α} (h : c → Follows w limit P p q Q)
    (h' : ¬c → Follows w limit P p' q' Q) : Follows w limit P (if c then p else p') (if c then q else q') Q := by
  by_cases hc : c
  · rw [if_pos hc, if_pos hc]
    exact h hc
  · rw [if_neg hc, if_neg hc]
    exact h' hc

/-- The first character does not matter. -/
theorem forget {c : Option Char} (h : Follows w limit (Below n) p q Q) : Follows w limit (Heads n c) p q Q :=
  h.mono (fun _ hr => hr.below) fun _ _ h => h

theorem pure_below {a : α} (h : m ≤ k) :
    Follows w limit (Below m) (Pure.pure a) (Pure.pure a) fun _ => Below k :=
  pure fun _ hr => Nat.lt_of_lt_of_le hr h

theorem fail (fault : TypeFault) : Follows w limit P (IndexReader.fail w fault) (TypeReader.fail fault) Q := by
  intro i hi hr
  show IndexReader.fail w fault i = throw ⟨fault, (w.text.part i limit).position⟩
  rw [Region.position_part hi.le hi.length]
  rfl

/-- Nothing goes on behind a fault. -/
theorem fail_bind (fault : TypeFault) :
    Follows w limit P (IndexReader.fail w fault >>= f) (TypeReader.fail fault >>= g) R :=
  bind (Q := fun _ _ => False) (fail fault) fun _ _ _ h => h.elim

end Follows

/-! ### The rules for the pieces -/

section Pieces

variable {w : Window} {limit i n : Nat} {α : Type} {R : α → Region → Prop}

theorem below_part (hi : w.Reaches i limit) : Below n (w.text.part i limit) ↔ limit - i < n := by
  unfold Below
  rw [Region.length_part hi.length]

theorem lt_of_head? {c : Char} (h : (w.text.part i limit).head? = some c) : i < limit := by
  refine Nat.lt_of_not_le fun hge => ?_
  rw [Region.head?, Region.chars_part_of_le hge] at h
  cases h

/-- Blanks are passed, and nothing else is asked for. -/
theorem exists_skipBlank (hi : w.Reaches i limit) :
    ∃ j, skipBlank w limit i = pure ((), j) ∧ i ≤ j ∧ w.Reaches j limit ∧
      w.text.part j limit = (w.text.part i limit).skipBlank := by
  obtain ⟨j, hpass, hij, hj, hdrop, -⟩ := hi.exists_passWhile Unicode.isWhiteSpace
  refine ⟨j, ?_, hij, hj, hdrop⟩
  show (liftM (w.passWhile Unicode.isWhiteSpace limit i) >>= fun j => set j : IndexReader Unit) i = _
  rw [hpass]
  rfl

/-- The next character is asked for only where one is left. -/
theorem exists_peek (hi : w.Reaches i limit) :
    ∃ j, peek w limit i = pure ((w.text.part j limit).head?, j) ∧ i ≤ j ∧ w.Reaches j limit ∧
      w.text.part j limit = (w.text.part i limit).skipBlank := by
  obtain ⟨j, hskip, hij, hj, hpart⟩ := exists_skipBlank hi
  refine ⟨j, ?_, hij, hj, hpart⟩
  show (skipBlank w limit i >>= fun x =>
    (if x.2 < limit then (do return some (← w.read x.2)) else return none : IndexReader (Option Char)) x.2) = _
  rw [hskip, pure_bind]
  dsimp only
  by_cases hlt : j < limit
  · obtain ⟨c, hread, p, hcons⟩ := hj.exists_read hlt
    rw [if_pos hlt, hread, Region.head?, hcons]
    rfl
  · rw [if_neg hlt, Region.head?, Region.chars_part_of_le (Nat.le_of_not_lt hlt)]
    rfl

/-- Whether a sign is consumed. -/
theorem exists_eat (hi : w.Reaches i limit) (c : Char) :
    ∃ j, i ≤ j ∧ w.Reaches j limit ∧ w.text.part j limit = (w.text.part i limit).skipBlank ∧
      if (w.text.part j limit).head? = some c then eat w limit c i = pure (true, j + 1)
      else eat w limit c i = pure (false, j) := by
  obtain ⟨j, hpeek, hij, hj, hpart⟩ := exists_peek hi
  refine ⟨j, hij, hj, hpart, ?_⟩
  have heat : eat w limit c i = (peek w limit i >>= fun x =>
    (if x.1 = some c then (do skip; return true) else return false : IndexReader Bool) x.2) := rfl
  rw [heat, hpeek, pure_bind]
  dsimp only
  by_cases hc : (w.text.part j limit).head? = some c
  · rw [if_pos hc, if_pos hc]
    rfl
  · rw [if_neg hc, if_neg hc]
    rfl

namespace Follows

theorem peek : Follows w limit (Below n) (IndexReader.peek w limit) TypeReader.peek (Heads n) := by
  intro i hi hr
  obtain ⟨j, hpeek, hij, hj, hpart⟩ := exists_peek hi
  rw [below_part hi] at hr
  refine ⟨j, ?_, hj, hpart.symm, ?_, rfl, ?_⟩
  · rw [hpeek, hpart]
  · rw [← hpart, below_part hj]
    omega
  · exact Region.skipBlank_skipBlank _

theorem skip {c : Char} :
    Follows w limit (Heads n (some c)) IndexReader.skip TypeReader.skip fun _ => Below (n - 1) := by
  intro i hi hr
  have hlt := lt_of_head? hr.head
  have hj : w.Reaches (i + 1) limit := hi.mono (Nat.le_succ i) hlt
  have hbelow := (below_part hi).mp hr.below
  refine ⟨i + 1, rfl, hj, Region.tail_part .., ?_⟩
  show Below (n - 1) (w.text.part i limit).tail
  rw [Region.tail_part, below_part hj]
  omega

theorem eat_run (c : Char) : Follows w limit (Below n) (IndexReader.eat w limit c) (TypeReader.eat c) fun eaten =>
    Below (if eaten = true then n - 1 else n) := by
  intro i hi hr
  obtain ⟨j, hij, hj, hpart, heat⟩ := exists_eat hi c
  rw [below_part hi] at hr
  unfold TypeReader.eat
  rw [← hpart]
  by_cases hc : (w.text.part j limit).head? = some c
  · rw [if_pos hc] at heat
    have hlt := lt_of_head? hc
    have hnext : w.Reaches (j + 1) limit := hj.mono (Nat.le_succ j) hlt
    simp only [hc, beq_self_eq_true, if_true]
    refine ⟨j + 1, heat, hnext, Region.tail_part .., ?_⟩
    rw [Region.tail_part, below_part hnext]
    omega
  · rw [if_neg hc] at heat
    simp only [beq_iff_eq, hc, if_false]
    refine ⟨j, heat, hj, rfl, ?_⟩
    rw [below_part hj]
    exact Nat.lt_of_le_of_lt (Nat.sub_le_sub_left hij limit) hr

/-- A sign that may be there. -/
theorem eat {c : Char} {p p' : IndexReader α} {q q' : TypeReader α}
    (h : Follows w limit (Below (n - 1)) p q R) (h' : Follows w limit (Below n) p' q' R) :
    Follows w limit (Below n) (IndexReader.eat w limit c >>= fun eaten => if eaten = true then p else p')
      (TypeReader.eat c >>= fun eaten => if eaten = true then q else q') R := by
  refine bind (eat_run c) fun eaten => ?_
  cases eaten with
  | true => exact h
  | false => exact h'

/-- A sign that makes no difference. -/
theorem eat_any {c : Char} {p : IndexReader α} {q : TypeReader α} (h : Follows w limit (Below n) p q R) :
    Follows w limit (Below n) (IndexReader.eat w limit c >>= fun _ => p) (TypeReader.eat c >>= fun _ => q) R := by
  refine bind (eat_run c) fun eaten => h.mono (fun r hr => ?_) fun _ _ h => h
  cases eaten with
  | true => exact Nat.lt_of_lt_of_le hr (Nat.sub_le n 1)
  | false => exact hr

theorem eatWord_run (word : List Char) :
    Follows w limit (Below n) (IndexReader.eatWord w limit word) (TypeReader.eatWord word) fun eaten =>
      Below (if eaten = true then n - word.length else n) := by
  intro i hi hr
  obtain ⟨j, hskip, hij, hj, hpart⟩ := exists_skipBlank hi
  rw [below_part hi] at hr
  have hrun : IndexReader.eatWord w limit word i = (skipBlank w limit i >>= fun x =>
    (if x.2 + word.length ≤ limit then do
        if (← w.slice x.2 (x.2 + word.length)) = word then
          set (x.2 + word.length)
          return true
        else return false
      else return false : IndexReader Bool) x.2) := rfl
  rw [hrun, hskip, pure_bind]
  unfold TypeReader.eatWord
  rw [← hpart]
  dsimp only
  have hstay : Below n (w.text.part j limit) :=
    (below_part hj).mpr (Nat.lt_of_le_of_lt (Nat.sub_le_sub_left hij limit) hr)
  by_cases hfits : j + word.length ≤ limit
  · have hle : j ≤ j + word.length := Nat.le_add_right _ _
    have htake : (w.text.part j (j + word.length)).rawText = (w.text.part j limit).rawText.take word.length := by
      unfold Region.rawText
      rw [← Region.take_part _ _ hfits, List.map_take]
    rw [if_pos hfits, hj.slice_eq hle hfits, htake]
    by_cases hword : (w.text.part j limit).rawText.take word.length = word
    · have hpre : word.isPrefixOf (w.text.part j limit).rawText = true :=
        List.isPrefixOf_iff_prefix.mpr (List.prefix_iff_eq_take.mpr hword.symm)
      rw [if_pos hpre, hword]
      have hnext := hj.mono hle hfits
      refine ⟨j + word.length, ?_, hnext, Region.drop_part .., ?_⟩
      · show (if word = word then _ else _ : IndexReader Bool) j = _
        rw [if_pos rfl]
        rfl
      · show Below (n - word.length) ⟨(w.text.part j limit).chars.drop word.length, w.text.place limit⟩
        rw [Region.drop_part, below_part hnext]
        omega
    · have hpre : ¬word.isPrefixOf (w.text.part j limit).rawText = true := fun h =>
        hword (List.prefix_iff_eq_take.mp (List.isPrefixOf_iff_prefix.mp h)).symm
      rw [if_neg hpre]
      refine ⟨j, ?_, hj, rfl, hstay⟩
      show (if _ = word then _ else _ : IndexReader Bool) j = _
      rw [if_neg hword]
      rfl
  · have hpre : ¬word.isPrefixOf (w.text.part j limit).rawText = true := by
      intro h
      have hlength := (List.isPrefixOf_iff_prefix.mp h).length_le
      rw [Region.rawText, List.length_map, Region.length_part hj.length] at hlength
      have := hj.le
      omega
    rw [if_neg hfits, if_neg hpre]
    exact ⟨j, rfl, hj, rfl, hstay⟩

/-- A word that may be there. -/
theorem eatWord {word : List Char} (hword : word ≠ []) {p p' : IndexReader α} {q q' : TypeReader α}
    (h : Follows w limit (Below (n - 1)) p q R) (h' : Follows w limit (Below n) p' q' R) :
    Follows w limit (Below n) (IndexReader.eatWord w limit word >>= fun eaten => if eaten = true then p else p')
      (TypeReader.eatWord word >>= fun eaten => if eaten = true then q else q') R := by
  refine bind (eatWord_run word) fun eaten => ?_
  cases eaten with
  | true =>
      have hpos := List.length_pos_of_ne_nil hword
      exact mono h (fun r hr => Nat.lt_of_lt_of_le hr (Nat.sub_le_sub_left hpos n)) fun _ _ h => h
  | false => exact h'

/-- What a name is when the characters were passed: a point at its end may not belong to it. -/
theorem exists_name {j stop : Nat} (hj : w.Reaches j limit) (hs : w.Reaches stop limit) (hjs : j < stop) :
    let cs := (w.text.part j stop).rawText
    let name := if cs.getLast? == some '.' && (w.text.part stop limit).head? == some '<' then cs.dropLast else cs
    (do
      let name ← w.slice j stop
      if name.getLast? = some '.' ∧ stop < limit then
        if (← w.read stop) = '<' then return some (String.ofList name.dropLast)
        else return some (String.ofList name)
      else return some (String.ofList name) : IndexReader (Option String)) stop =
        Pure.pure (some (String.ofList name), stop) := by
  intro cs name
  rw [hj.slice_eq (Nat.le_of_lt hjs) hs.le]
  show (if cs.getLast? = some '.' ∧ stop < limit then do
      if (← w.read stop) = '<' then return some (String.ofList cs.dropLast)
      else return some (String.ofList cs)
    else return some (String.ofList cs) : IndexReader (Option String)) stop = _
  by_cases hpoint : cs.getLast? = some '.' ∧ stop < limit
  · obtain ⟨c, hread, p, hcons⟩ := hs.exists_read hpoint.2
    have hhead : (w.text.part stop limit).head? = some c := by rw [Region.head?, hcons]; rfl
    rw [if_pos hpoint, hread]
    show (if c = '<' then return some (String.ofList cs.dropLast)
      else return some (String.ofList cs) : IndexReader (Option String)) stop = _
    by_cases hc : c = '<'
    · have hname : name = cs.dropLast := if_pos (by simp [hpoint.1, hhead, hc])
      rw [if_pos hc, hname]
      rfl
    · have hname : name = cs := if_neg (by simp [hhead, hc])
      rw [if_neg hc, hname]
      rfl
  · have hname : name = cs := by
      refine if_neg fun h => hpoint ?_
      rw [Bool.and_eq_true, beq_iff_eq, beq_iff_eq] at h
      exact ⟨h.1, lt_of_head? h.2⟩
    rw [if_neg hpoint, hname]
    rfl

/-- A name, with what is left when there is one. -/
theorem name? : Follows w limit (Below n) (IndexReader.name? w limit) TypeReader.name? fun name =>
    Below (if name.isSome then n - 1 else n) := by
  intro i hi hr
  obtain ⟨j, hskip, hij, hj, hpart⟩ := exists_skipBlank hi
  obtain ⟨stop, hpass, hjs, hstop, hdrop, htake⟩ := hj.exists_passWhile TypeReader.isTypeNameChar
  rw [below_part hi] at hr
  have hrun : IndexReader.name? w limit i = (skipBlank w limit i >>= fun x =>
    (do
      let stop ← w.passWhile TypeReader.isTypeNameChar limit x.2
      set stop
      if x.2 = stop then return none
      else
        let name ← w.slice x.2 stop
        if name.getLast? = some '.' ∧ stop < limit then
          if (← w.read stop) = '<' then return some (String.ofList name.dropLast)
          else return some (String.ofList name)
        else return some (String.ofList name) : IndexReader (Option String)) x.2) := rfl
  rw [hrun, hskip, pure_bind]
  unfold TypeReader.name?
  dsimp only
  rw [← hpart, ← htake, hpass]
  by_cases hempty : j = stop
  · subst hempty
    rw [Region.rawText, Region.chars_part_of_le (Nat.le_refl j)]
    refine ⟨j, ?_, hj, rfl, ?_⟩
    · show (if j = j then _ else _ : IndexReader (Option String)) j = _
      rw [if_pos rfl]
      rfl
    · show Below n (w.text.part j limit)
      rw [below_part hj]
      omega
  · have hlt : j < stop := Nat.lt_of_le_of_ne hjs hempty
    cases hcs : (w.text.part j stop).rawText with
    | nil =>
        have hlength := congrArg List.length hcs
        rw [Region.rawText, List.length_map, Region.length_part (Nat.le_trans hstop.le hj.length)] at hlength
        simp only [List.length_nil] at hlength
        omega
    | cons c cs =>
        dsimp only
        rw [← hdrop]
        refine ⟨stop, ?_, hstop, rfl, ?_⟩
        · show (if j = stop then _ else _ : IndexReader (Option String)) stop = _
          rw [if_neg hempty, ← hcs]
          exact exists_name hj hstop hlt
        · show Below (n - 1) (w.text.part stop limit)
          have := hstop.le
          rw [below_part hstop]
          omega

/-- A name whose first character was seen. -/
theorem name?_of_heads {c : Char} (hc : TypeReader.isTypeNameChar c = true) :
    Follows w limit (Heads n (some c)) (IndexReader.name? w limit) TypeReader.name? fun _ => Below (n - 1) := by
  intro i hi hr
  have hrun := name? i hi hr.below
  have hhead : ∃ x rest, (w.text.part i limit).chars = x :: rest ∧ x.1 = c := by
    have hhead := hr.head
    unfold Region.head? at hhead
    cases hchars : (w.text.part i limit).chars with
    | nil =>
        rw [hchars] at hhead
        cases hhead
    | cons x rest =>
        rw [hchars] at hhead
        exact ⟨x, rest, rfl, Option.some.inj hhead⟩
  obtain ⟨x, rest, hchars, hx⟩ := hhead
  have htake : (w.text.part i limit).skipBlank.takeWhile TypeReader.isTypeNameChar =
      c :: ((rest.takeWhile (TypeReader.isTypeNameChar ·.1)).map (·.1)) := by
    rw [hr.skipBlank, Region.takeWhile, hchars, List.takeWhile_cons_of_pos (by rw [hx]; exact hc), List.map_cons, hx]
  -- so there is a name
  unfold TypeReader.name? at hrun ⊢
  dsimp only at hrun ⊢
  rw [htake] at hrun ⊢
  exact hrun

/-- A text in quotation marks, whose first one was seen. -/
theorem quoted {c d : Char} : Follows w limit (Heads n (some d)) (IndexReader.quoted w limit c)
    (fun r => .ok (String.ofList (r.tail.takeWhile (· != c)), (r.tail.dropWhile (· != c)).tail))
    fun _ => Below (n - 1) := by
  intro i hi hr
  have hlt := lt_of_head? hr.head
  have hbelow := (below_part hi).mp hr.below
  have hj : w.Reaches (i + 1) limit := hi.mono (Nat.le_succ i) hlt
  obtain ⟨stop, hpass, hjs, hstop, hdrop, htake⟩ := hj.exists_passWhile (· != c)
  have hrun : IndexReader.quoted w limit c i = (do
      let stop ← w.passWhile (· != c) limit (i + 1)
      let key ← w.slice (i + 1) stop
      set (if stop < limit then stop + 1 else stop)
      return String.ofList key : IndexReader String) (i + 1) := rfl
  have hset : IndexReader.quoted w limit c i =
      Pure.pure (String.ofList (w.text.part (i + 1) stop).rawText, if stop < limit then stop + 1 else stop) := by
    rw [hrun, hpass]
    show (do
      let key ← w.slice (i + 1) stop
      set (if stop < limit then stop + 1 else stop)
      return String.ofList key : IndexReader String) (i + 1) = _
    rw [hj.slice_eq hjs hstop.le]
    rfl
  dsimp only
  rw [Region.tail_part, ← hdrop, ← htake]
  by_cases hmore : stop < limit
  · rw [if_pos hmore] at hset
    have hend : w.Reaches (stop + 1) limit := hstop.mono (Nat.le_succ stop) hmore
    refine ⟨stop + 1, hset, hend, Region.tail_part .., ?_⟩
    rw [Region.tail_part, below_part hend]
    omega
  · rw [if_neg hmore] at hset
    have hempty : (w.text.part stop limit).tail = w.text.part stop limit := by
      unfold Region.tail
      rw [Region.chars_part_of_le (Nat.le_of_not_lt hmore)]
      exact congrArg (Region.mk · _) (Region.chars_part_of_le (Nat.le_of_not_lt hmore)).symm
    refine ⟨stop, hset, hstop, hempty, ?_⟩
    rw [hempty, below_part hstop]
    omega

/-- An index that is remembered, beside the region from there on. -/
theorem mark {P : Region → Prop} {f : Nat → IndexReader α} {g : Region → TypeReader α}
    (h : ∀ i, w.Reaches i limit → Follows w limit P (f i) (g (w.text.part i limit)) R) :
    Follows w limit P (get >>= f) (get >>= g) R := by
  intro i hi hr
  exact h i hi i hi hr

/-- Coming back to an index only to fail there. -/
theorem reset {i : Nat} (hi : w.Reaches i limit) (fault : TypeFault) {P : Region → Prop} :
    Follows w limit P (do set i; IndexReader.fail w fault)
      (do MonadStateOf.set (w.text.part i limit); TypeReader.fail fault) R := by
  intro j hj hr
  exact fail (P := fun _ => True) (Q := R) fault i hi trivial

theorem fieldKey :
    Follows w limit (Below n) (IndexReader.fieldKey w limit) TypeReader.fieldKey fun _ => Below (n - 1) := by
  unfold IndexReader.fieldKey TypeReader.fieldKey
  refine bind peek fun next => ?_
  cases next with
  | none => exact fail _
  | some c =>
      refine ite (fun _ => quoted) fun _ => ?_
      refine forget (bind name? fun name => ?_)
      cases name with
      | none => exact fail _
      | some name => exact pure fun _ h => h

end Follows

end Pieces

end IndexReader

end EcmaScript.Doc
