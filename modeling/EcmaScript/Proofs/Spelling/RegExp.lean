import EcmaScript.Proofs.LexerSession
import EcmaScript.Proofs.Spelling.Escape
import EcmaScript.Proofs.Spelling.Token
import Mathlib.Data.List.TakeWhile

/-!
# Where a regular expression ends

Between its slashes a regular expression is a row of pieces: characters that stand for themselves, a backslash with
the character behind it, and classes in brackets, in which a slash or an opening bracket is nothing special. The
lexer knows no pieces. It reads character by character and remembers whether it is in a class, which every
opening bracket begins and every closing one ends.

`Lexer.exists_regExpBody` says that it stops behind the slash that follows a row of pieces, and
`Lexer.regExpChars_of_regExpBody` that what it has read without an error is such a row.

## Contents

* `RegExpClass`, `RegExpPiece`, `RegExpChars`, `RegExpBody`: the grammar.
* `Lexer.exists_regExpLiteral`, `Lexer.exists_of_regExpLiteral`: the reader and the grammar, both ways.
* `Session.slashes_serveAll`: the slashes that a lexer in use has given out.
* `Session.regExp_delimited`: such a slash, read again.
-/

namespace EcmaScript

/-! ## The grammar -/

/-- What stands in a class behind its bracket, up to and with the closing one. -/
inductive RegExpClass : List Char → Prop where
  | close : RegExpClass [']']
  | plain {c : Char} {rest : List Char} : isLineTerminator c = false → c ≠ ']' → c ≠ '\\' → RegExpClass rest →
      RegExpClass (c :: rest)
  | escape {c : Char} {rest : List Char} : isLineTerminator c = false → RegExpClass rest →
      RegExpClass ('\\' :: c :: rest)

/-- A piece of a regular expression. -/
inductive RegExpPiece : List Char → Prop where
  | plain {c : Char} : isLineTerminator c = false → c ≠ '\\' → c ≠ '/' → c ≠ '[' → RegExpPiece [c]
  | escape {c : Char} : isLineTerminator c = false → RegExpPiece ['\\', c]
  | characters {rest : List Char} : RegExpClass rest → RegExpPiece ('[' :: rest)

/-- Pieces one behind the other. -/
inductive RegExpChars : List Char → Prop where
  | nil : RegExpChars []
  | append {piece rest : List Char} : RegExpPiece piece → RegExpChars rest → RegExpChars (piece ++ rest)

/-- What can stand between the slashes of a regular expression: neither nothing nor a star at the start, which would
make the first slash that of a comment. -/
structure RegExpBody (body : List Char) : Prop where
  chars : RegExpChars body
  nonempty : body ≠ []
  start : body.head? ≠ some '*'

theorem RegExpClass.isLineTerminator_eq_false {body : List Char} (h : RegExpClass body) :
    ∀ c ∈ body, isLineTerminator c = false := by
  induction h with
  | close => exact List.forall_mem_singleton.mpr rfl
  | plain hc _ _ _ ih => exact List.forall_mem_cons.mpr ⟨hc, ih⟩
  | escape hc _ ih => exact List.forall_mem_cons.mpr ⟨rfl, List.forall_mem_cons.mpr ⟨hc, ih⟩⟩

/-- No line ends in a regular expression. -/
theorem RegExpChars.isLineTerminator_eq_false {body : List Char} (h : RegExpChars body) :
    ∀ c ∈ body, isLineTerminator c = false := by
  induction h with
  | nil => nofun
  | append hpiece _ ih =>
      refine List.forall_mem_append.mpr ⟨?_, ih⟩
      cases hpiece with
      | plain hc => exact List.forall_mem_singleton.mpr hc
      | escape hc => exact List.forall_mem_cons.mpr ⟨rfl, List.forall_mem_singleton.mpr hc⟩
      | characters hclass => exact List.forall_mem_cons.mpr ⟨rfl, hclass.isLineTerminator_eq_false⟩

/-- A slash does not start a piece. -/
theorem RegExpChars.head?_ne_slash {body : List Char} (h : RegExpChars body) : body.head? ≠ some '/' := by
  cases h with
  | nil => nofun
  | append hpiece _ =>
      cases hpiece with
      | plain _ _ hslash => simpa using hslash
      | escape => simp
      | characters => simp

namespace Lexer

variable {r s t : Lexer} {xs rest read : List Char} {c e : Char} {inClass : Bool}

/-! ## One round of the reader -/

/-- The loop, for a text that goes on. -/
theorem regExpBody_cons (hs : s.rest = c :: rest) (inClass : Bool) (read : List Char) :
    s.regExpBody inClass read =
      if isLineTerminator c then (read, s.error s.position .unterminatedRegExp)
      else if c == '\\' then
        match s.advance.rest with
        | [] => (c :: read, s.advance.error s.advance.position .lineBreakInRegExp)
        | e :: _ =>
          if isLineTerminator e then (c :: read, s.advance.error s.advance.position .lineBreakInRegExp)
          else s.advance.advance.regExpBody inClass (e :: c :: read)
      else if c == '/' && !inClass then (read, s.advance)
      else s.advance.regExpBody (c == '[' || (inClass && c != ']')) (c :: read) := by
  rw [regExpBody]
  split
  next hn => cases hs.symm.trans hn
  next heq =>
    cases hs.symm.trans heq
    rfl

/-- A character that is read for itself; brackets change whether the lexer is in a class. -/
theorem regExpBody_plain (hs : s.rest = c :: rest) (hline : isLineTerminator c = false) (hescape : c ≠ '\\')
    (hslash : c = '/' → inClass = true) (read : List Char) :
    s.regExpBody inClass read = s.advance.regExpBody (c == '[' || (inClass && c != ']')) (c :: read) := by
  rw [regExpBody_cons hs, if_neg (by simp [hline]), if_neg (by simpa using hescape), if_neg (by simpa using hslash)]

/-- A backslash takes the character behind it with it. -/
theorem regExpBody_escape (hs : s.rest = '\\' :: c :: rest) (hline : isLineTerminator c = false)
    (inClass : Bool) (read : List Char) :
    s.regExpBody inClass read = s.advance.advance.regExpBody inClass (c :: '\\' :: read) := by
  rw [regExpBody_cons hs, if_neg (by decide), if_pos (by decide), rest_advance hs]
  exact if_neg (by simp [hline])

/-- Outside of a class a slash is the end. -/
theorem regExpBody_slash (hs : s.rest = '/' :: rest) (read : List Char) :
    s.regExpBody false read = (read, s.advance) := by
  rw [regExpBody_cons hs, if_neg (by decide), if_neg (by decide), if_pos (by decide)]

/-! ## From the grammar to the reader -/

theorem exists_regExpBody_class (h : RegExpClass xs) (hs : s.rest = xs ++ rest) (read : List Char) :
    ∃ t, s.regExpBody true read = t.regExpBody false (xs.reverse ++ read) ∧ Quietly xs s t := by
  induction h generalizing s read with
  | close => exact ⟨_, regExpBody_plain hs rfl (by decide) nofun read, .advance hs⟩
  | @plain c xs hline hbracket hescape _ ih =>
      obtain ⟨t, hbody, ht⟩ := ih (rest_advance hs) (c :: read)
      have hstays : (c == '[' || (true && c != ']')) = true := by simp [bne_iff_ne.mpr hbracket]
      refine ⟨t, ?_, ht.cons hs⟩
      rw [regExpBody_plain hs hline hescape fun _ => rfl, hstays, hbody, List.reverse_cons, List.append_assoc]
      rfl
  | @escape c xs hline _ ih =>
      have hnext : s.advance.rest = c :: (xs ++ rest) := rest_advance hs
      obtain ⟨t, hbody, ht⟩ := ih (rest_advance hnext) (c :: '\\' :: read)
      refine ⟨t, ?_, (ht.cons hnext).cons hs⟩
      rw [regExpBody_escape hs hline, hbody]
      simp

theorem exists_regExpBody_piece (h : RegExpPiece xs) (hs : s.rest = xs ++ rest) (read : List Char) :
    ∃ t, s.regExpBody false read = t.regExpBody false (xs.reverse ++ read) ∧ Quietly xs s t := by
  cases h with
  | @plain c hline hescape hslash hbracket =>
      have hstays : (c == '[' || (false && c != ']')) = false := by simp [beq_eq_false_iff_ne.mpr hbracket]
      refine ⟨s.advance, ?_, .advance hs⟩
      rw [regExpBody_plain hs hline hescape fun h => absurd h hslash, hstays]
      rfl
  | @escape c hline =>
      have hnext : s.advance.rest = c :: rest := rest_advance hs
      exact ⟨s.advance.advance, regExpBody_escape hs hline false read, (Quietly.advance hnext).cons hs⟩
  | @characters xs hclass =>
      obtain ⟨t, hbody, ht⟩ := exists_regExpBody_class hclass (rest_advance hs) ('[' :: read)
      refine ⟨t, ?_, ht.cons hs⟩
      rw [regExpBody_plain hs rfl (by decide) nofun, List.reverse_cons, List.append_assoc]
      exact hbody

/-- **The reader stops at the slash behind the pieces.** -/
theorem exists_regExpBody (h : RegExpChars xs) (hs : s.rest = xs ++ '/' :: rest) (read : List Char) :
    ∃ t, s.regExpBody false read = (xs.reverse ++ read, t) ∧ Quietly (xs ++ ['/']) s t := by
  induction h generalizing s read with
  | nil => exact ⟨s.advance, regExpBody_slash hs read, .advance hs⟩
  | @append piece xs hpiece _ ih =>
      rw [List.append_assoc] at hs ⊢
      obtain ⟨t, hround, ht⟩ := exists_regExpBody_piece hpiece hs read
      obtain ⟨u, hbody, hu⟩ := ih (ht.rest_eq hs) (piece.reverse ++ read)
      refine ⟨u, ?_, ht.trans hu⟩
      rw [hround, hbody, List.reverse_append, List.append_assoc]

theorem Passes.charsUntil_eq (h : Passes xs s t) : s.charsUntil t = xs := by
  unfold charsUntil
  rw [h.offset, Nat.add_sub_cancel_left, h.rest, List.take_left]

/-- **A regular expression is read up to the end of its flags.** -/
theorem exists_regExpLiteral {pattern flags tail : List Char} (h : RegExpChars pattern)
    (hflags : ∀ c ∈ flags, isNamePart c = true) (htail : ∀ c ∈ tail.head?, isNamePart c = false)
    (hs : s.rest = pattern ++ '/' :: (flags ++ tail)) :
    ∃ t, s.regExpLiteral = ((String.ofList pattern, String.ofList flags), t) ∧ t.rest = tail ∧
      Quietly (pattern ++ '/' :: flags) s t := by
  obtain ⟨t, hbody, ht⟩ := exists_regExpBody h hs []
  have hrest : t.rest = flags ++ tail := ht.rest_eq (by simpa using hs)
  have hwhile : t.rest.takeWhile isNamePart = flags := by
    rw [hrest, List.takeWhile_append_of_pos hflags]
    cases tail with
    | nil => rw [List.takeWhile_nil, List.append_nil]
    | cons c tail => rw [List.takeWhile_cons_of_neg (by simp [htail c rfl]), List.append_nil]
  have hu := Quietly.skipWhile isNamePart t
  rw [hwhile] at hu
  refine ⟨t.skipWhile isNamePart, ?_, hu.rest_eq hrest, by simpa using ht.trans hu⟩
  unfold regExpLiteral
  rw [hbody, List.append_nil]
  dsimp only
  rw [List.reverse_reverse, hu.toPasses.charsUntil_eq]

/-! ## From the reader to the grammar -/

/-- What is left of a row of pieces when the reader is in a class or outside of one. -/
def RegExpRest : Bool → List Char → Prop
  | false, body => RegExpChars body
  | true, body => ∃ characters rest, RegExpClass characters ∧ RegExpChars rest ∧ body = characters ++ rest

theorem RegExpRest.plain (hline : isLineTerminator c = false) (hescape : c ≠ '\\') (hslash : c = '/' → inClass = true)
    (h : RegExpRest (c == '[' || (inClass && c != ']')) xs) : RegExpRest inClass (c :: xs) := by
  cases inClass with
  | false =>
      by_cases hbracket : c = '['
      · subst hbracket
        obtain ⟨characters, rest, hclass, hrest, rfl⟩ := h
        exact .append (.characters hclass) hrest
      · rw [beq_eq_false_iff_ne.mpr hbracket] at h
        exact .append (.plain hline hescape (fun hc => nomatch hslash hc) hbracket) h
  | true =>
      by_cases hbracket : c = ']'
      · subst hbracket
        exact ⟨[']'], xs, .close, h, rfl⟩
      · rw [bne_iff_ne.mpr hbracket, Bool.and_true, Bool.or_true] at h
        obtain ⟨characters, rest, hclass, hrest, rfl⟩ := h
        exact ⟨c :: characters, rest, .plain hline hbracket hescape hclass, hrest, rfl⟩

theorem RegExpRest.escape (hline : isLineTerminator c = false) (h : RegExpRest inClass xs) :
    RegExpRest inClass ('\\' :: c :: xs) := by
  cases inClass with
  | false => exact .append (.escape hline) h
  | true =>
      obtain ⟨characters, rest, hclass, hrest, rfl⟩ := h
      exact ⟨_, rest, .escape hline hclass, hrest, rfl⟩

/-- **What is read without an error is a row of pieces**, up to a slash. -/
theorem exists_of_regExpBody (hg : Grows r s) (hf : r.ErrorFree (s.regExpBody inClass read).2) :
    ∃ body, RegExpRest inClass body ∧ (s.regExpBody inClass read).1 = body.reverse ++ read ∧
      Passes (body ++ ['/']) s (s.regExpBody inClass read).2 := by
  fun_induction regExpBody s inClass read with
  | case1 => exact absurd rfl (hf _ (hg.mem_reportedSince_error _ _))
  | case2 => exact absurd rfl (hf _ (hg.mem_reportedSince_error _ _))
  | case3 => exact absurd rfl (hf _ (hg.advance.mem_reportedSince_error _ _))
  | case4 => exact absurd rfl (hf _ (hg.advance.mem_reportedSince_error _ _))
  | case5 s inClass read c rest hs hline hc e rest' hnext hline' ih =>
      obtain ⟨body, hbody, hread, hpass⟩ := ih hg.advance.advance hf
      cases eq_of_beq hc
      refine ⟨'\\' :: e :: body, hbody.escape (Bool.eq_false_iff.mpr hline'), ?_, (hpass.cons hnext).cons hs⟩
      rw [hread]
      simp
  | case6 s inClass read c rest hs hline hc hend =>
      obtain ⟨hslash, hclass⟩ := Bool.and_eq_true_iff.mp hend
      cases eq_of_beq hslash
      cases (Bool.not_eq_true' _).mp hclass
      exact ⟨[], .nil, rfl, .advance hs⟩
  | case7 s inClass read c rest hs hline hc hend ih =>
      obtain ⟨body, hbody, hread, hpass⟩ := ih hg.advance hf
      refine ⟨c :: body, hbody.plain (Bool.eq_false_iff.mpr hline) (by simpa using hc) (by simpa using hend), ?_,
        hpass.cons hs⟩
      rw [hread, List.reverse_cons, List.append_assoc]
      rfl

/-- **What is read without an error** is a pattern, a slash and flags. -/
theorem exists_of_regExpLiteral (hg : Grows r s) (hf : r.ErrorFree s.regExpLiteral.2) :
    ∃ pattern flags, RegExpChars pattern ∧ (∀ c ∈ flags, isNamePart c = true) ∧
      s.regExpLiteral.1 = (String.ofList pattern, String.ofList flags) ∧
      Passes (pattern ++ '/' :: flags) s s.regExpLiteral.2 := by
  have hlast : s.regExpLiteral.2 = (s.regExpBody false []).2.skipWhile isNamePart := rfl
  have hu := Quietly.skipWhile isNamePart (s.regExpBody false []).2
  have hbody : r.ErrorFree (s.regExpBody false []).2 := by
    unfold ErrorFree reportedSince at hf ⊢
    rwa [hlast, hu.diagnostics] at hf
  obtain ⟨pattern, hpattern, hread, hpass⟩ := exists_of_regExpBody hg hbody
  have hall := hpass.trans hu.toPasses
  rw [List.append_assoc] at hall
  refine ⟨pattern, _, hpattern, fun c hc => List.mem_takeWhile_imp hc, ?_, hall⟩
  unfold regExpLiteral
  dsimp only
  rw [hread, List.append_nil, List.reverse_reverse, hu.toPasses.charsUntil_eq]

/-! ## The slash in front -/

theorem diagnostics_advanceBy (n : Nat) (s : Lexer) : (s.advanceBy n).diagnostics = s.diagnostics := by
  induction n generalizing s with
  | zero => rfl
  | succ n ih => exact (ih s.advance).trans s.diagnostics_advance

/-- A text that starts with a slash starts with a mark. -/
theorem exists_atStart?_slash (rest : List Char) : ∃ mark size, Punctuator.atStart? ('/' :: rest) = some (mark, size) := by
  have hsome : (Punctuator.longestFirst.find? fun m => m.1.isPrefixOf ('/' :: rest)).isSome = true := by
    refine List.find?_isSome.mpr ⟨(['/'], .slash), by decide, ?_⟩
    simp [List.isPrefixOf]
  obtain ⟨⟨word, mark⟩, hfind⟩ := Option.isSome_iff_exists.mp hsome
  unfold Punctuator.atStart?
  rw [hfind]
  dsimp only
  split
  · exact ⟨_, _, rfl⟩
  · exact ⟨_, _, rfl⟩

/-- **A slash that starts no comment** is a token, or the start of one. -/
theorem exists_nextToken_slash (hs : s.rest = '/' :: rest) (hline : rest.head? ≠ some '/')
    (hblock : rest.head? ≠ some '*') :
    ∃ mark t, s.nextToken = (t.finish (.punctuator mark) s.position false false, t) ∧ t.text = s.text ∧
      t.diagnostics = s.diagnostics := by
  let u : Lexer := { s with atLineStart := false }
  obtain ⟨mark, size, hmark⟩ := exists_atStart?_slash rest
  have htrivia : s.skipTrivia false = (false, s) := by
    rw [skipTrivia]
    split
    next hn => cases hs.symm.trans hn
    next heq =>
      cases hs.symm.trans heq
      simp [startsWith, hs, List.isPrefixOf, hline, hblock, show isLineTerminator '/' = false by decide,
        show isBlank '/' = false by decide]
  have hfault : s.skipFault? = none := by
    unfold skipFault?
    rw [hs]
    rfl
  have hscan : scan u '/' = ((.punctuator mark, false), u.advanceBy size) := by
    unfold scan
    rw [show u.rest = '/' :: rest from hs, hmark]
    rfl
  refine ⟨mark, u.advanceBy size, ?_, ((Grows.refl u).advanceBy size).text, diagnostics_advanceBy size u⟩
  unfold nextToken
  rw [nextTokenFrom, htrivia]
  dsimp only
  split
  next hf => cases hfault.symm.trans hf
  next =>
    split
    next hn => cases hs.symm.trans hn
    next heq =>
      cases hs.symm.trans heq
      rw [hscan]

/-- **Read again from its slash on**, a regular expression is one token. -/
theorem exists_rescanRegExp {pattern flags tail : List Char} (slash : Token) (h : RegExpChars pattern)
    (hflags : ∀ c ∈ flags, isNamePart c = true) (htail : ∀ c ∈ tail.head?, isNamePart c = false)
    (hs : s.text.drop slash.span.offset = '/' :: (pattern ++ '/' :: (flags ++ tail))) :
    ∃ t, s.rescanRegExp slash = (⟨.regexp (String.ofList pattern) (String.ofList flags),
        Span.ofStart slash.start (pattern.length + flags.length + 2), slash.newlineBefore, false⟩, t) ∧
      t.rest = tail ∧ t.diagnostics = s.diagnostics := by
  have hrest : (s.rewind slash.start).rest = '/' :: (pattern ++ '/' :: (flags ++ tail)) := hs
  obtain ⟨t, hliteral, htail, ht⟩ := exists_regExpLiteral h hflags htail (rest_advance hrest)
  have hall := ht.cons hrest
  have hspan : Span.between slash.start t.position.offset =
      Span.ofStart slash.start (pattern.length + flags.length + 2) := by
    unfold Span.between
    rw [hall.offset]
    show Span.ofStart _ (slash.start.offset + _ - slash.start.offset) = _
    rw [Nat.add_sub_cancel_left]
    simp only [List.length_cons, List.length_append]
    exact congrArg _ (by omega)
  refine ⟨t, ?_, htail, hall.diagnostics⟩
  unfold rescanRegExp finish
  rw [hliteral]
  dsimp only
  rw [hspan]

/-- **A slash that is read again without an error** is the start of a pattern, a slash and flags. -/
theorem exists_of_rescanRegExp {slash : Token} (hs : s.text.drop slash.span.offset = '/' :: rest)
    (hf : s.ErrorFree (s.rescanRegExp slash).2) :
    ∃ pattern flags, RegExpChars pattern ∧ (∀ c ∈ flags, isNamePart c = true) ∧
      (s.rescanRegExp slash).1.kind = .regexp (String.ofList pattern) (String.ofList flags) ∧
      (s.rescanRegExp slash).1.span.slice s.text = '/' :: (pattern ++ '/' :: flags) ∧
      pattern ++ '/' :: flags <+: rest := by
  have hrest : (s.rewind slash.start).rest = '/' :: rest := hs
  obtain ⟨pattern, flags, hpattern, hflags, hread, hpass⟩ :=
    exists_of_regExpLiteral ((Grows.refl s).rewind slash.start).advance hf
  have hslice := (hpass.cons hrest).slice_between rfl
  have hpre : pattern ++ '/' :: flags <+: rest := ⟨_, by rw [← hpass.rest, rest_advance hrest]⟩
  unfold rescanRegExp
  generalize (s.rewind slash.start).advance.regExpLiteral = answer at hread hslice ⊢
  obtain ⟨_, t⟩ := answer
  cases hread
  exact ⟨pattern, flags, hpattern, hflags, rfl, hslice, hpre⟩

end Lexer

/-! ## A lexer in use -/

/-- Whether the token starts with a slash. -/
def Token.isSlash (t : Token) : Bool := t.isMark .slash || t.isMark .slashAssign

/-- If the token is a slash, one stands in the text that starts no comment. -/
def Token.SlashStands (text : List Char) (t : Token) : Prop :=
  t.isSlash = true →
    ∃ rest, text.drop t.span.offset = '/' :: rest ∧ rest.head? ≠ some '/' ∧ rest.head? ≠ some '*'

/-- A text that starts with a slash mark starts with a slash. -/
theorem Punctuator.Spells.head?_slash {mark : Punctuator} {size : Nat} {text : List Char} (h : mark.Spells size text)
    (hmark : mark = .slash ∨ mark = .slashAssign) : text.head? = some '/' := by
  obtain ⟨word, hmem, -, tail, rfl⟩ := h
  have hwords : ∀ m ∈ longestFirst, m.2 = .slash ∨ m.2 = .slashAssign → m.1.head? = some '/' := by decide
  rw [List.head?_append, hwords _ hmem hmark]
  rfl

theorem Token.slashStands_of_kind {text : List Char} {t : Token} (h : ∀ mark, t.kind ≠ .punctuator mark) :
    t.SlashStands text := by
  intro hslash
  obtain hslash | hslash := Bool.or_eq_true_iff.mp hslash
  · exact absurd (Token.kind_of_isMark hslash) (h _)
  · exact absurd (Token.kind_of_isMark hslash) (h _)

theorem Lexer.kind_rescanRegExp_ne_punctuator (s : Lexer) (t : Token) (mark : Punctuator) :
    (s.rescanRegExp t).1.kind ≠ .punctuator mark := by
  unfold rescanRegExp
  split
  nofun

theorem Lexer.kind_rescanTemplate_ne_punctuator (s : Lexer) (t : Token) (mark : Punctuator) :
    (s.rescanTemplate t).1.kind ≠ .punctuator mark := by
  unfold rescanTemplate
  split
  nofun

theorem Lexer.Sound.slashStands_nextToken {s : Lexer} (h : s.Sound) : s.nextToken.1.SlashStands s.text := by
  intro hslash
  obtain ⟨mark, hkind, hmark⟩ :
      ∃ mark, s.nextToken.1.kind = .punctuator mark ∧ (mark = .slash ∨ mark = .slashAssign) :=
    (Bool.or_eq_true_iff.mp hslash).elim (fun hm => ⟨_, Token.kind_of_isMark hm, .inl rfl⟩)
      fun hm => ⟨_, Token.kind_of_isMark hm, .inr rfl⟩
  have he : (s.nextTokenFrom false).1.isEnd = false :=
    (Bool.or_eq_true_iff.mp hslash).elim Token.isEnd_of_isMark Token.isEnd_of_isMark
  obtain ⟨t, c, rest, broken, ht, hg, hrest, hline, hstart, hread⟩ := h.exists_scan false he
  unfold nextToken at hkind ⊢
  rw [hread] at hkind ⊢
  have hhead := ((Scans.scan ht hrest hline).spelled mark hkind).head?_slash hmark
  rw [hrest] at hhead
  cases hhead
  refine ⟨rest, ?_, hstart rfl⟩
  show s.text.drop t.position.offset = '/' :: rest
  rw [← hg.text, ← ht.rest, hrest]

namespace Session

variable {text : List Char} {s : Session}

theorem slashes_receive (h : ∀ t ∈ s.tokens, t.SlashStands text) {answer : Token × Lexer}
    (ha : answer.1.SlashStands text) : ∀ t ∈ (s.receive answer).tokens, t.SlashStands text := by
  intro t ht
  obtain ht | rfl := Array.mem_push.mp ht
  · exact h t ht
  · exact ha

theorem slashes_rescan (h : ∀ t ∈ s.tokens, t.SlashStands text) {read : Lexer → Token → Token × Lexer} (i : Nat)
    (hr : ∀ t mark, (read s.lexer t).1.kind ≠ .punctuator mark) :
    ∀ t ∈ (s.rescan read i).tokens, t.SlashStands text := by
  unfold rescan
  split
  · split
    · exact h
    · exact slashes_receive h (Token.slashStands_of_kind (hr _))
  · exact h

/-- **The slashes that were given out stand in the text**, whatever is asked of the lexer. -/
theorem slashes_serveAll (hs : s.Sound text) (h : ∀ t ∈ s.tokens, t.SlashStands text) (requests : List Request) :
    ∀ t ∈ (s.serveAll requests).tokens, t.SlashStands text := by
  induction requests generalizing s with
  | nil => exact h
  | cons request rest ih =>
      refine ih (hs.serve request) ?_
      cases request with
      | nextToken =>
          have hnext := hs.lexer.slashStands_nextToken
          rw [hs.reads] at hnext
          exact slashes_receive h hnext
      | rescanRegExp i => exact slashes_rescan h i (Lexer.kind_rescanRegExp_ne_punctuator _)
      | rescanTemplate i => exact slashes_rescan h i (Lexer.kind_rescanTemplate_ne_punctuator _)
      | restore i =>
          dsimp only [serve]
          split
          · exact h
          · exact h
      | save | takeComments | takeDiagnostics | takeFeatures => exact h

/-- **A regular expression ends where the grammar says.** Let a lexer be in use over a text, whatever was asked of
it before.

* Where it comes to a slash, a pattern of the grammar, a slash, flags and something else, the next token, which is
  the slash or a slash with an equals sign, read again is the regular expression with this pattern and these
  flags, over exactly these characters. Nothing is objected to.
* Any slash that it has given out, read again without an error, is a slash, a pattern of the grammar, in which no
  line ends, a slash and flags. -/
theorem regExp_delimited (text : List Char) (strict : Bool) (requests : List Request) :
    let s := serveAll { lexer := Lexer.ofChars text strict } requests
    (∀ pattern flags tail, RegExpBody pattern → (∀ c ∈ flags, isNamePart c = true) →
      (∀ c ∈ tail.head?, isNamePart c = false) →
      s.lexer.rest = '/' :: (pattern ++ '/' :: (flags ++ tail)) →
      ∃ t, s.lexer.nextToken.2.rescanRegExp s.lexer.nextToken.1 =
          (⟨.regexp (String.ofList pattern) (String.ofList flags),
            Span.ofStart s.lexer.position (pattern.length + flags.length + 2), false, false⟩, t) ∧
        t.rest = tail ∧ t.diagnostics = s.lexer.diagnostics) ∧
    ∀ slash ∈ s.tokens, slash.isSlash = true → s.lexer.ErrorFree (s.lexer.rescanRegExp slash).2 →
      ∃ pattern flags, RegExpBody pattern ∧ (∀ c ∈ pattern, isLineTerminator c = false) ∧
        (∀ c ∈ flags, isNamePart c = true) ∧
        (s.lexer.rescanRegExp slash).1.kind = .regexp (String.ofList pattern) (String.ofList flags) ∧
        (s.lexer.rescanRegExp slash).1.span.slice text = '/' :: (pattern ++ '/' :: flags) := by
  have hstart := sound_ofChars text strict
  have hsound := hstart.serveAll requests
  have hslashes := slashes_serveAll hstart (fun _ h => absurd h (Array.not_mem_empty _)) requests
  intro s
  refine ⟨fun pattern flags tail hbody hflags htail hrest => ?_, fun slash hmem hslash hfree => ?_⟩
  · have hhead : (pattern ++ '/' :: (flags ++ tail)).head? = pattern.head? := by
      obtain ⟨c, rest, rfl⟩ := List.exists_cons_of_ne_nil hbody.nonempty
      rfl
    obtain ⟨mark, u, htoken, htext, hquiet⟩ := Lexer.exists_nextToken_slash hrest
      (by rw [hhead]; exact hbody.chars.head?_ne_slash) (by rw [hhead]; exact hbody.start)
    have hrest' : u.text.drop s.lexer.position.offset = '/' :: (pattern ++ '/' :: (flags ++ tail)) := by
      rw [htext, ← hrest]
      exact hsound.lexer.rest.symm
    rw [htoken]
    obtain ⟨t, hread, ht, hquiet'⟩ := Lexer.exists_rescanRegExp
      (u.finish (.punctuator mark) s.lexer.position false false) hbody.chars hflags htail hrest'
    exact ⟨t, hread, ht, hquiet'.trans hquiet⟩
  · obtain ⟨rest, htext, hline, hblock⟩ := hslashes slash hmem hslash
    have htext' : s.lexer.text.drop slash.span.offset = '/' :: rest := hsound.reads ▸ htext
    obtain ⟨pattern, flags, hpattern, hflags, hkind, hslice, tail, rfl⟩ := Lexer.exists_of_rescanRegExp htext' hfree
    refine ⟨pattern, flags, ⟨hpattern, ?_, ?_⟩, hpattern.isLineTerminator_eq_false, hflags, hkind,
      hsound.reads ▸ hslice⟩
    · rintro rfl
      exact hline rfl
    · intro hstar
      refine hblock ?_
      rw [List.append_assoc, List.head?_append, hstar]
      rfl

/-- A slash in a class and one behind a backslash do not end the regular expression. -/
theorem regExp_delimited_class :
    let text := "/a[/]b\\//gi.x".toList
    let s := Lexer.ofChars text false
    let answer := s.nextToken.2.rescanRegExp s.nextToken.1
    answer.1.kind = .regexp "a[/]b\\/" "gi" ∧ answer.1.span = Span.ofStart Position.start 11 ∧
      answer.2.rest = ".x".toList ∧ answer.2.diagnostics = #[] ∧
      ∃ pattern flags, RegExpBody pattern ∧ answer.1.kind = .regexp (String.ofList pattern) (String.ofList flags) ∧
        answer.1.span.slice text = '/' :: (pattern ++ '/' :: flags) := by
  intro text s answer
  have hclass : RegExpClass ['/', ']'] := .plain rfl (by decide) (by decide) .close
  have hchars : RegExpChars (['a'] ++ (('[' :: ['/', ']']) ++ (['b'] ++ (['\\', '/'] ++ [])))) :=
    .append (.plain rfl (by decide) (by decide) (by decide)) (.append (.characters hclass)
      (.append (.plain rfl (by decide) (by decide) (by decide)) (.append (.escape rfl) .nil)))
  have hflags : ∀ c ∈ ['g', 'i'], isNamePart c = true :=
    List.forall_mem_cons.mpr ⟨by decide, List.forall_mem_singleton.mpr (by decide)⟩
  have hdot : ∀ c ∈ ['.', 'x'].head?, isNamePart c = false := by
    intro c hc
    cases hc
    decide
  obtain ⟨t, hread, htail, hquiet⟩ := (regExp_delimited text false []).1 _ ['g', 'i'] ['.', 'x']
    ⟨hchars, by decide, by decide⟩ hflags hdot rfl
  have hanswer : answer = _ := hread
  have hslash : s.nextToken.1.isSlash = true := by decide +kernel
  have hnone : s.nextToken.2.diagnostics = #[] := by decide +kernel
  have hfree : s.nextToken.2.ErrorFree answer.2 := by
    rw [hanswer]
    exact Lexer.errorFree_of_eq (hquiet.trans hnone.symm)
  obtain ⟨pattern, flags, hbody, -, -, hkind, hslice⟩ :=
    (regExp_delimited text false [.nextToken]).2 s.nextToken.1 (by exact Array.mem_push_self) hslash hfree
  rw [hanswer]
  exact ⟨rfl, rfl, htail, hquiet, pattern, flags, hbody, hanswer ▸ hkind, hanswer ▸ hslice⟩

end Session

end EcmaScript
