import EcmaScript.Proofs.Spelling.Token

/-!
# How names are written

Each character of a name can be written as itself or by its code. A name that starts with a raw character, one that
starts with an escape and one behind a number sign are read on different ways, which meet in the reader for the rest
of a name. That reader carries along whether it has seen an escape, and its induction follows the spelling.

## Contents

* `NameSpelling`: the spellings of a name, and whether they hold an escape.
* `Lexer.exists_nameRest`, `Lexer.exists_nameToken`, `Lexer.exists_privateName`: the readers.
* `Lexer.tokens_name`: names as whole texts.
-/

namespace EcmaScript

/-! ## Spellings -/

/-- The name, a spelling of it, and whether a character is written as an escape. -/
inductive NameSpelling : List Char → List Char → Bool → Prop where
  | nil : NameSpelling [] [] false
  | raw {name spelling : List Char} {escaped : Bool} (c : Char) : NameSpelling name spelling escaped →
      NameSpelling (c :: name) (c :: spelling) escaped
  | escape {c : Char} {code name spelling : List Char} {escaped : Bool} : UnicodeSpells c code →
      NameSpelling name spelling escaped → NameSpelling (c :: name) ('\\' :: 'u' :: (code ++ spelling)) true

/-- A character that can start a name, and others that can go on with it. -/
structure IsName (name : List Char) : Prop where
  start : name.head?.any isNameStart = true
  parts : ∀ c ∈ name.tail, isNamePart c = true

namespace Lexer

/-! ## Reserved words -/

/-- A name is the reserved word that it spells, if there is one. -/
theorem classifyName_cases (name : String) :
    (∃ word : Keyword, word.spelling = name ∧ classifyName name = .keyword word) ∨
      (∀ word : Keyword, word.spelling ≠ name) ∧ classifyName name = .identifier name := by
  unfold classifyName
  cases hword : Keyword.ofSpelling? name with
  | some word =>
      unfold Keyword.ofSpelling? at hword
      have hspelling := List.find?_some hword
      exact .inl ⟨word, eq_of_beq hspelling, rfl⟩
  | none =>
      refine .inr ⟨fun word hspelling => ?_, rfl⟩
      have hall : word ∈ Keyword.all := by cases word <;> decide
      exact List.find?_eq_none.mp hword word hall (beq_iff_eq.mpr hspelling)

theorem classifyName_spelling (word : Keyword) : classifyName word.spelling = .keyword word := by
  cases word <;> decide

/-! ## Characters of names -/

section

variable {c d : Char}

/-- Below U+0080 these are the letters, the dollar sign and the underscore, and the digits in other places than the
first. -/
theorem isName_of_ascii (hc : c.toNat < 0x80) :
    isNameStart c = (c.isAlpha || c == '_' || c == '$') ∧ isNamePart c = (c.isAlphanum || c == '_' || c == '$') := by
  refine of_range (p := fun c => isNameStart c = (c.isAlpha || c == '_' || c == '$') ∧
    isNamePart c = (c.isAlphanum || c == '_' || c == '$')) 0 0x80 ?_ (Nat.zero_le _) (by omega)
  decide +kernel

theorem isNameStart_of_ascii (hc : c.toNat < 0x80) : isNameStart c = (c.isAlpha || c == '_' || c == '$') :=
  (isName_of_ascii hc).1

theorem ne_of_isNameStart (h : isNameStart c = true) (hd : d.toNat < 0x80)
    (hother : (d.isAlpha || d == '_' || d == '$') = false) : c ≠ d := by
  rintro rfl
  cases (h.symm.trans (isNameStart_of_ascii hd)).trans hother

/-- The first character of a spelling is one that starts names, or a backslash. -/
theorem ne_of_opensName (h : isNameStart c = true ∨ c = '\\') (hd : d.toNat < 0x80)
    (hother : (d.isAlpha || d == '_' || d == '$' || d == '\\') = false) : c ≠ d := by
  obtain ⟨hname, hslash⟩ := Bool.or_eq_false_iff.mp hother
  rcases h with h | rfl
  · exact ne_of_isNameStart h hd hname
  · exact Ne.symm (beq_eq_false_iff_ne.mp hslash)

/-- No blank starts a name. -/
theorem isBlank_of_isNameStart (h : isNameStart c = true) : isBlank c = false := by
  have hspaces : ∀ n < 11, isNameStart (Char.ofNat (0x2000 + n)) = false := by decide +kernel
  have hother : (" \t\x0b\x0c\u00A0\uFEFF\u1680\u202F\u205F\u3000".toList.all fun d => !isNameStart d) = true := by
    decide +kernel
  refine Bool.eq_false_iff.mpr fun hblank => ?_
  -- the spaces of typography are a range of codes, the other blanks are a list
  by_cases hrange : 0x2000 ≤ c.toNat ∧ c.toNat ≤ 0x200A
  · have hspace : isNameStart c = false :=
      of_range (p := fun c => isNameStart c = false) 0x2000 11 hspaces hrange.1 (Nat.lt_succ_of_le hrange.2)
    cases h.symm.trans hspace
  · have hmem : c ∈ " \t\x0b\x0c\u00A0\uFEFF\u1680\u202F\u205F\u3000".toList := by
      simpa [isBlank, hrange, or_assoc] using hblank
    have hnot : (!isNameStart c) = true := List.all_eq_true.mp hother c hmem
    rw [h] at hnot
    cases hnot

theorem isDigit_of_isNameStart (h : isNameStart c = true) : c.isDigit = false := by
  refine Bool.eq_false_iff.mpr fun hdigit => ?_
  have hother := of_isDigit (p := fun c => c.toNat < 0x80 ∧ (c.isAlpha || c == '_' || c == '$') = false) (by decide) hdigit
  exact ne_of_isNameStart h hother.1 hother.2 rfl

/-- No mark starts as a name does. -/
theorem atStart?_of_isNameStart (h : isNameStart c = true ∨ c = '\\') (rest : List Char) :
    Punctuator.atStart? (c :: rest) = none := by
  have hmarks : (Punctuator.longestFirst.all fun m => m.1.head?.any fun d =>
      decide (d.toNat < 0x80) && !(d.isAlpha || d == '_' || d == '$' || d == '\\')) = true := by decide
  have hnone : (Punctuator.longestFirst.find? fun m => m.1.isPrefixOf (c :: rest)) = none := by
    refine List.find?_eq_none.mpr fun m hm hstarts => ?_
    have hmark := List.all_eq_true.mp hmarks m hm
    obtain ⟨mark, p⟩ := m
    cases mark with
    | nil => cases hmark
    | cons d mark =>
        simp only [List.head?_cons, Option.any_some, Bool.and_eq_true, Bool.not_eq_true', decide_eq_true_eq] at hmark
        simp only [List.isPrefixOf, Bool.and_eq_true, beq_iff_eq] at hstarts
        exact ne_of_opensName h hmark.1 hmark.2 hstarts.1.symm
  unfold Punctuator.atStart?
  rw [hnone]

theorem startsPlainly_of_isNameStart (h : isNameStart c = true ∨ c = '\\') : startsPlainly c = true := by
  rcases h with h | rfl
  · have hline : isLineTerminator c = false := isLineTerminator_of_isNamePart (by simp [isNamePart, h])
    have hstarts : startsToken c = true := by simp [startsToken, h]
    have hne : c ≠ '/' ∧ c ≠ '<' ∧ c ≠ '-' ∧ c ≠ '#' := by
      refine ⟨?_, ?_, ?_, ?_⟩ <;> exact ne_of_isNameStart h (by decide) (by decide)
    simp [startsPlainly, hstarts, hline, isBlank_of_isNameStart h, hne]
  · decide

end

/-! ## The readers -/

section

variable {s t : Lexer} {c d : Char} {name spelling rest : List Char} {escaped : Bool}

/-- A name is read as long as its characters and escapes go on. -/
theorem nameRest_part (hs : s.rest = c :: rest) (hc : isNamePart c = true) (read : List Char) (escaped : Bool) :
    s.nameRest read escaped = s.advance.nameRest (c :: read) escaped := by
  rw [nameRest]
  split
  next hn => cases hs.symm.trans hn
  next heq => cases hs.symm.trans heq; exact if_pos hc

theorem nameRest_stop (h : s.nextIs (fun c => isNamePart c || c == '\\') = false) (read : List Char) (escaped : Bool) :
    s.nameRest read escaped = (some (read, escaped), s) := by
  rw [nameRest]
  split
  next => rfl
  next c rest hs =>
    simp only [nextIs, hs, List.head?_cons, Option.any_some, Bool.or_eq_false_iff] at h
    rw [if_neg (by simp [h.1]), if_neg (by simp [h.2])]

theorem nameRest_escape (hs : s.rest = '\\' :: 'u' :: rest)
    (hread : s.advance.advance.unicodeEscapeOrReport .invalidEscape = (some d, t)) (hd : isNamePart d = true)
    (read : List Char) (escaped : Bool) : s.nameRest read escaped = t.nameRest (d :: read) true := by
  have hslash : isNamePart '\\' = false := (isName_of_ascii (by decide)).2
  have hletter : s.advance.nextIs (· == 'u') = true := nextIs_cons (rest_advance hs) _
  rw [nameRest]
  split
  next hn => cases hs.symm.trans hn
  next heq =>
    cases hs.symm.trans heq
    rw [if_neg (by simp [hslash]), if_pos (by decide), if_pos hletter]
    split
    next heq => cases hread.symm.trans heq; exact if_pos hd
    next heq => cases hread.symm.trans heq

/-- **The rest of a name** is read to its end, by induction on the spelling. -/
theorem exists_nameRest (h : NameSpelling name spelling escaped) (hparts : ∀ c ∈ name, isNamePart c = true)
    (hs : s.rest = spelling ++ rest) (hstop : rest.head?.any (fun c => isNamePart c || c == '\\') = false)
    (read : List Char) (before : Bool) :
    ∃ t, s.nameRest read before = (some (name.reverse ++ read, before || escaped), t) ∧ Quietly spelling s t := by
  induction h generalizing s read before with
  | nil =>
      have hend : s.nextIs (fun c => isNamePart c || c == '\\') = false := by
        rw [nextIs, hs]
        exact hstop
      refine ⟨s, ?_, .refl s⟩
      rw [nameRest_stop hend, Bool.or_false]
      rfl
  | @raw name spelling escaped c _ ih =>
      obtain ⟨hc, hparts⟩ := List.forall_mem_cons.mp hparts
      obtain ⟨t, hread, ht⟩ := ih hparts (rest_advance hs) (c :: read) before
      refine ⟨t, ?_, ht.cons hs⟩
      rw [nameRest_part hs hc, hread]
      simp
  | @escape c code name spelling escaped hcode _ ih =>
      obtain ⟨hc, hparts⟩ := List.forall_mem_cons.mp hparts
      have hletter : s.advance.rest = 'u' :: (code ++ (spelling ++ rest)) := by
        rw [rest_advance hs]
        simp
      -- the escape ends where its spelling does, and the rest of the name starts there
      obtain ⟨r, hdecoded, hr⟩ := exists_unicodeEscapeOrReport hcode (rest_advance hletter) .invalidEscape
      obtain ⟨t, hread, ht⟩ := ih hparts (hr.rest_eq (rest_advance hletter)) (c :: read) true
      refine ⟨t, ?_, .cons hs (.cons hletter (hr.trans ht))⟩
      rw [nameRest_escape hs hdecoded hc, hread]
      simp

theorem exists_nameFrom (h : NameSpelling name spelling escaped) (hparts : ∀ c ∈ name, isNamePart c = true)
    (hs : s.rest = spelling ++ rest) (hstop : rest.head?.any (fun c => isNamePart c || c == '\\') = false)
    (first : Char) (before : Bool) (start : Position) :
    ∃ t, s.nameFrom first before start = ((classifyName (String.ofList (first :: name)), before || escaped), t) ∧
      Quietly spelling s t := by
  obtain ⟨t, hread, ht⟩ := exists_nameRest h hparts hs hstop [first] before
  refine ⟨t, ?_, ht⟩
  unfold nameFrom
  rw [hread]
  simp

/-- **A name** is read behind its first character, a raw one or a backslash. -/
theorem exists_nameToken (h : NameSpelling name (d :: spelling) escaped) (hname : IsName name)
    (hs : s.rest = spelling ++ rest) (hstop : rest.head?.any (fun c => isNamePart c || c == '\\') = false)
    (start : Position) :
    ∃ t, s.nameToken d start = ((classifyName (String.ofList name), escaped), t) ∧ Quietly spelling s t := by
  obtain ⟨hstart, hparts⟩ := hname
  cases h with
  | @raw name _ _ _ h =>
      have hslash : d ≠ '\\' := ne_of_isNameStart hstart (by decide) (by decide)
      obtain ⟨t, hread, ht⟩ := exists_nameFrom h hparts hs hstop d false start
      refine ⟨t, ?_, ht⟩
      unfold nameToken
      rw [if_neg (by simpa using hslash), hread, Bool.false_or]
  | @escape c code name spelling escaped hcode h =>
      have hletter : s.rest = 'u' :: (code ++ (spelling ++ rest)) := by
        rw [hs]
        simp
      have hnext : s.nextIs (· == 'u') = true := nextIs_cons hletter _
      obtain ⟨r, hdecoded, hr⟩ := exists_unicodeEscapeOrReport hcode (rest_advance hletter) .invalidEscape
      obtain ⟨t, hread, ht⟩ := exists_nameFrom h hparts (hr.rest_eq (rest_advance hletter)) hstop c true start
      refine ⟨t, ?_, .cons hletter (hr.trans ht)⟩
      unfold nameToken escapedName
      rw [if_pos (by decide), if_pos hnext, hdecoded]
      have hfirst : isNameStart c = true := hstart
      dsimp only
      rw [if_pos hfirst, hread, Bool.true_or]

/-- A name starts with a character that starts names, or with a backslash. -/
theorem isNameStart_of_spelling (h : NameSpelling name (d :: spelling) escaped) (hname : IsName name) :
    isNameStart d = true ∨ d = '\\' := by
  cases h with
  | raw => exact .inl hname.start
  | escape => exact .inr rfl

/-- **The name of a private member** is a name, reserved or not. -/
theorem exists_privateName (h : NameSpelling name (d :: spelling) escaped) (hname : IsName name)
    (hs : s.rest = d :: (spelling ++ rest)) (hstop : rest.head?.any (fun c => isNamePart c || c == '\\') = false) :
    ∃ t, s.privateName = ((.privateName (String.ofList name), escaped), t) ∧ Quietly (d :: spelling) s t := by
  obtain ⟨t, hread, ht⟩ := exists_nameToken h hname (rest_advance hs) hstop s.position
  refine ⟨t, ?_, ht.cons hs⟩
  unfold privateName
  split
  next hn => cases hs.symm.trans hn
  next heq =>
    cases hs.symm.trans heq
    rw [hread]
    rcases classifyName_cases (String.ofList name) with ⟨word, hword, hkind⟩ | ⟨-, hkind⟩ <;> rw [hkind]
    dsimp only
    rw [hword]

/-! ## Names as whole texts -/

theorem scan_name (hs : s.rest = c :: rest) (hc : isNameStart c = true ∨ c = '\\') :
    s.scan c = s.advance.nameToken c s.position := by
  have hdigit : c.isDigit = false := by
    rcases hc with h | rfl
    · exact isDigit_of_isNameStart h
    · decide
  have hother {d : Char} (hd : d.toNat < 0x80)
      (hd' : (d.isAlpha || d == '_' || d == '$' || d == '\\') = false) : (c == d) = false :=
    beq_eq_false_iff_ne.mpr (ne_of_opensName hc hd hd')
  have htick : (c == '\x60') = false := hother (by decide) (by decide)
  have hquote : (c == '"' || c == '\'') = false := by
    rw [hother (d := '"') (by decide) (by decide), hother (d := '\'') (by decide) (by decide)]
    rfl
  have hsign : (c == '#') = false := hother (by decide) (by decide)
  have hpoint : (c == '.') = false := hother (by decide) (by decide)
  unfold scan
  dsimp only
  rw [htick, hquote, hsign, hdigit, hpoint, hs, atStart?_of_isNameStart hc]
  rfl

/-- A number sign before a name is neither a blank nor a fault. -/
theorem nextToken_privateName (hs : s.rest = '#' :: d :: rest) (hd : isNameStart d = true ∨ d = '\\') :
    s.nextToken =
      match ({ s with atLineStart := false } : Lexer).advance.privateName with
      | ((kind, escaped), u) => (u.finish kind s.position false escaped, u) := by
  have hbang : d ≠ '!' := ne_of_opensName hd (by decide) (by decide)
  have hfault : s.skipFault? = none := by
    unfold skipFault?
    rw [hs]
    split
    next heq => cases heq
    next heq =>
      cases heq
      split
      next heq => exact absurd (List.cons.inj heq).1 hbang
      next heq => cases heq; exact if_pos (by simpa using hd)
      next heq => cases heq
    next hsign heq => exact absurd (List.cons.inj heq).1.symm hsign
  have htrivia : s.skipTrivia false = (false, s) :=
    skipTrivia_eq_self hs (by decide) (by decide) (by decide) (by decide) (by decide) false
  rw [nextToken_of_scan hs htrivia hfault]
  rfl

/-- **A name as a whole text**, alone and behind a number sign. -/
theorem exists_sole_name (h : NameSpelling name (d :: spelling) escaped) (hname : IsName name) (strict : Bool) :
    (∃ t, Sole (d :: spelling) strict (classifyName (String.ofList name)) escaped t) ∧
      ∃ t, Sole ('#' :: d :: spelling) strict (.privateName (String.ofList name)) escaped t := by
  have hd := isNameStart_of_spelling h hname
  constructor
  · have hrest : (behindFirst (d :: spelling) strict).rest = spelling ++ [] := (List.append_nil _).symm
    have hkind : classifyName (String.ofList name) ≠ .endOfText := by
      rcases classifyName_cases (String.ofList name) with ⟨word, -, hkind⟩ | ⟨-, hkind⟩ <;> simp [hkind]
    obtain ⟨t, hread, ht⟩ := exists_nameToken h hname hrest rfl Position.start
    exact ⟨t, .of_scan (startsPlainly_of_isNameStart hd) ((scan_name rfl hd).trans hread) hkind ht⟩
  -- the sign starts no token plainly, so its first step is its own
  · have hrest : (behindFirst ('#' :: d :: spelling) strict).rest = d :: (spelling ++ []) := by
      rw [List.append_nil]
      rfl
    have hbang : d ≠ '!' := ne_of_opensName hd (by decide) (by decide)
    obtain ⟨t, hread, ht⟩ := exists_privateName h hname hrest rfl
    refine ⟨t, .of_nextToken ?_ (by simp) (List.cons_ne_nil _ _) (by simp [List.isPrefixOf, Ne.symm hbang])
      ((quietly_behindFirst '#' (d :: spelling) strict).trans ht)⟩
    have hscan : (atStart ('#' :: d :: spelling) strict).nextToken = _ := nextToken_privateName rfl hd
    rw [hscan]
    exact congrArg (fun answer : (TokenKind × Bool) × Lexer =>
      (answer.2.finish answer.1.1 Position.start false answer.1.2, answer.2)) hread

end

/-- **Escapes in names change nothing but the flag that says so.** Any spelling of a name is one token, the reserved
word with that name or the name. Behind a number sign it is the name of a private member, reserved or not. -/
theorem tokens_name (strict : Bool) (name spelling : List Char) (escaped : Bool) (hname : IsName name)
    (h : NameSpelling name spelling escaped) :
    (∃ kind t, Sole spelling strict kind escaped t ∧
      (∀ word : Keyword, word.spelling = String.ofList name → kind = .keyword word) ∧
      ((∀ word : Keyword, word.spelling ≠ String.ofList name) → kind = .identifier (String.ofList name))) ∧
    ∃ t, Sole ('#' :: spelling) strict (.privateName (String.ofList name)) escaped t := by
  cases spelling with
  | nil =>
      cases h
      cases hname.start
  | cons d spelling =>
      obtain ⟨⟨t, ht⟩, hprivate⟩ := exists_sole_name h hname strict
      refine ⟨⟨_, t, ht, ?_, ?_⟩, hprivate⟩
      · intro word hword
        rw [← hword, classifyName_spelling]
      · intro hnone
        rcases classifyName_cases (String.ofList name) with ⟨word, hword, -⟩ | ⟨-, hkind⟩
        · exact absurd hword (hnone word)
        · exact hkind

/-- A reserved word with an escape for its first letter, and a name with a digit in braces behind a raw character that
is no letter. -/
theorem tokens_name_escaped :
    ((∃ kind t, Sole "\\u0069f".toList false kind true t ∧
        (∀ word : Keyword, word.spelling = String.ofList ['i', 'f'] → kind = .keyword word) ∧
        ((∀ word : Keyword, word.spelling ≠ String.ofList ['i', 'f']) →
          kind = .identifier (String.ofList ['i', 'f']))) ∧
      ∃ t, Sole "#\\u0069f".toList false (.privateName (String.ofList ['i', 'f'])) true t) ∧
    ((∃ kind t, Sole "\u2118\\u\x7b31\x7d".toList false kind true t ∧
        (∀ word : Keyword, word.spelling = String.ofList ['\u2118', '1'] → kind = .keyword word) ∧
        ((∀ word : Keyword, word.spelling ≠ String.ofList ['\u2118', '1']) →
          kind = .identifier (String.ofList ['\u2118', '1']))) ∧
      ∃ t, Sole "#\u2118\\u\x7b31\x7d".toList false (.privateName (String.ofList ['\u2118', '1'])) true t) := by
  have letter : UnicodeSpells 'i' ['0', '0', '6', '9'] := .four rfl ⟨[0, 0, 6, 9], by decide, by decide⟩
  have digit : UnicodeSpells '1' ('\x7b' :: (['3', '1'] ++ ['\x7d'])) :=
    .braced (by decide) ⟨[3, 1], by decide, by decide⟩
  have word : IsName ['i', 'f'] :=
    ⟨(isName_of_ascii (by decide)).1, List.forall_mem_singleton.mpr (isName_of_ascii (by decide)).2⟩
  have name : IsName ['\u2118', '1'] :=
    ⟨by simp [isNameStart, isOtherNameStart], List.forall_mem_singleton.mpr (isName_of_ascii (by decide)).2⟩
  exact ⟨tokens_name false ['i', 'f'] _ true word (.escape letter (.raw 'f' .nil)),
    tokens_name false ['\u2118', '1'] _ true name (.raw '\u2118' (.escape digit .nil))⟩

end Lexer

end EcmaScript
