import EcmaScript.Proofs.Spelling.StringLiteral

/-!
# Escapes by code units

A text can be written down in its UTF-16 code units, each as an escape of four digits. A character beyond the
first 65536 then takes two escapes, a pair of surrogates that means nothing apart.

The lexer decodes one escape at a time, in strings and in templates alike, and a surrogate becomes the replacement
character. So such a character is read as two replacement characters, and nothing is objected to; every
other text is read back.

## Contents

* `utf16`, `UnitSpells`: the code units of a character and how one is written.
* `decodedUnits`: what the lexer makes of the units of a character.
* `Lexer.exists_nextToken_template`: a template of such escapes.
* `Lexer.nextToken_codeUnits`: a literal of code units, and when it is read back.
-/

namespace EcmaScript

/-! ## Code units -/

/-- The UTF-16 code units of a character. -/
def utf16 (c : Char) : List Nat :=
  if c.toNat < 0x10000 then [c.toNat]
  else [0xD800 + (c.toNat - 0x10000) / 0x400, 0xDC00 + (c.toNat - 0x10000) % 0x400]

/-- An escape of four digits for the code unit. -/
inductive UnitSpells : Nat → List Char → Prop where
  | four {unit : Nat} {digits : List Char} : digits.length = 4 → HexSpells unit digits →
      UnitSpells unit ('\\' :: 'u' :: digits)

/-- The character that a code unit is decoded to. -/
def decodedUnit (unit : Nat) : Char := (charOfCode? unit).getD '\uFFFD'

/-- What the code units of a character are decoded to. -/
def decodedUnits (c : Char) : List Char := if c.toNat < 0x10000 then [c] else ['\uFFFD', '\uFFFD']

/-- A surrogate is decoded to the replacement character. -/
theorem decodedUnit_of_surrogate {unit : Nat} (h : 0xD800 ≤ unit) (h' : unit ≤ 0xDFFF) : decodedUnit unit = '\uFFFD' := by
  unfold decodedUnit charOfCode?
  rw [if_neg (by omega), if_pos (by simp [h, h'])]
  rfl

theorem map_decodedUnit_utf16 (c : Char) : (utf16 c).map decodedUnit = decodedUnits c := by
  have hvalid : c.toNat < 0xD800 ∨ 0xDFFF < c.toNat ∧ c.toNat < 0x110000 := c.valid
  unfold utf16 decodedUnits
  split
  · simp [decodedUnit, charOfCode?_toNat]
  · have hhigh : (c.toNat - 0x10000) / 0x400 < 0x400 := by omega
    have hlow : (c.toNat - 0x10000) % 0x400 < 0x400 := Nat.mod_lt _ (by decide)
    simp only [List.map_cons, List.map_nil]
    rw [decodedUnit_of_surrogate (by omega) (by omega), decodedUnit_of_surrogate (by omega) (by omega)]

/-- No character is lost. -/
theorem length_le_flatMap_decodedUnits (value : List Char) : value.length ≤ (value.flatMap decodedUnits).length := by
  induction value with
  | nil => exact Nat.le_refl _
  | cons c value ih =>
      have hc : 1 ≤ (decodedUnits c).length := by
        unfold decodedUnits
        split <;> simp
      rw [List.flatMap_cons, List.length_append, List.length_cons]
      omega

/-- **A text is read back if and only if it has no character with two code units**, which would make it longer. -/
theorem flatMap_decodedUnits_eq_iff (value : List Char) :
    value.flatMap decodedUnits = value ↔ ∀ c ∈ value, c.toNat < 0x10000 := by
  induction value with
  | nil => exact ⟨fun _ => nofun, fun _ => rfl⟩
  | cons c value ih =>
      rw [List.flatMap_cons, List.forall_mem_cons, ← ih]
      unfold decodedUnits
      split
      next hc => simp [hc]
      next hc =>
        refine ⟨fun h => ?_, fun h => absurd h.1 hc⟩
        have hlonger := length_le_flatMap_decodedUnits value
        have hlength := congrArg List.length h
        simp only [List.length_append, List.length_cons, List.length_nil] at hlength
        unfold decodedUnits at hlonger
        omega

namespace Lexer

variable {s : Lexer} {quote : Char} {unit : Nat} {units : List Nat} {spelling rest : List Char}
  {spellings : List (List Char)}

/-! ## One escape -/

theorem stringRound_of_unitSpells (h : UnitSpells unit spelling) (hq : IsQuote quote) :
    StringRound quote (decodedUnit unit) spelling := by
  intro s rest hs start read continued
  cases h with
  | @four digits hlength hspells =>
      have hnext : s.advance.rest = 'u' :: (digits ++ rest) := rest_advance hs
      obtain ⟨t, hread, ht⟩ := exists_unicodeEscape_four hlength hspells (rest_advance hnext)
      have hescape : s.advance.stringEscape start 'u' = ([decodedUnit unit], t) := by
        simp [stringEscape, controlEscape?, unicodeEscapeOrReport, hread, decodedUnit]
      refine ⟨t, ?_, (ht.cons hnext).cons hs⟩
      rw [stringBody_escape start read continued hq hs (by decide), hescape]
      rfl

/-- A template decodes the escape to the same character and keeps it as it is written. -/
theorem exists_templateBody_unit (h : UnitSpells unit spelling) (hs : s.rest = spelling ++ rest) (start : Position)
    (d : TemplateDraft) :
    ∃ t, templateBody start s d = templateBody start t ((d.write spelling).cook (decodedUnit unit)) ∧
      Quietly spelling s t := by
  cases h with
  | @four digits hlength hspells =>
      have hnext : s.advance.rest = 'u' :: (digits ++ rest) := rest_advance hs
      obtain ⟨t, hread, ht⟩ := exists_unicodeEscape_four hlength hspells (rest_advance hnext)
      obtain ⟨read, hrest, -, hwritten⟩ := s.advance.advance.writes_unicodeEscape (d.write ['\\', 'u'])
      rw [hread] at hrest hwritten
      cases List.append_cancel_right (ht.rest.symm.trans hrest)
      have hescape : s.advance.templateEscape s.position 'u' (d.write ['\\']) =
          ((d.write ('\\' :: 'u' :: digits)).cook (decodedUnit unit), t) := by
        simp [templateEscape, controlEscape?, hwritten, decodedUnit]
      refine ⟨t, ?_, (ht.cons hnext).cons hs⟩
      rw [templateBody_escape start d hs (by decide), hescape]

/-! ## The literal -/

theorem exists_templateBody_units (h : List.Forall₂ UnitSpells units spellings)
    (hs : s.rest = spellings.flatten ++ '\x60' :: rest) (start : Position) (d : TemplateDraft) :
    ∃ t, templateBody start s d =
        ({ d.write spellings.flatten with cooked := (units.map decodedUnit).reverse ++ d.cooked }, true, t) ∧
      Quietly (spellings.flatten ++ ['\x60']) s t := by
  induction h generalizing s d with
  | nil => exact ⟨s.advance, templateBody_tick start d hs, .advance hs⟩
  | @cons unit spelling units spellings hspelling _ ih =>
      rw [List.flatten_cons, List.append_assoc] at hs ⊢
      obtain ⟨t, hround, ht⟩ := exists_templateBody_unit hspelling hs start d
      obtain ⟨u, hbody, hu⟩ := ih (ht.rest_eq hs) ((d.write spelling).cook (decodedUnit unit))
      refine ⟨u, ?_, ht.trans hu⟩
      rw [hround, hbody]
      simp [TemplateDraft.write, TemplateDraft.cook]

/-- **Wherever a template of such escapes stands**, the lexer reads it as one token. -/
theorem exists_nextToken_template (h : List.Forall₂ UnitSpells units spellings)
    (hs : s.rest = '\x60' :: (spellings.flatten ++ '\x60' :: rest)) :
    ∃ t, s.nextToken =
        (⟨.template ⟨some (String.ofList (units.map decodedUnit)), String.ofList spellings.flatten, true, []⟩,
          Span.between s.position t.position.offset, false, false⟩, t) ∧
      Quietly ('\x60' :: (spellings.flatten ++ ['\x60'])) s t := by
  let u : Lexer := { s with atLineStart := false }
  have hu : u.rest = '\x60' :: (spellings.flatten ++ '\x60' :: rest) := hs
  obtain ⟨t, hbody, ht⟩ := exists_templateBody_units h (rest_advance hu) s.position {}
  have hpart : u.advance.templatePart s.position =
      (⟨some (String.ofList (units.map decodedUnit)), String.ofList spellings.flatten, true, []⟩, t) := by
    unfold templatePart
    rw [hbody]
    simp [TemplateDraft.finish, TemplateDraft.write]
  refine ⟨t, ?_, (((Quietly.refl s).congr (t := u) rfl rfl rfl).trans (.advance hu)).trans ht⟩
  rw [nextToken_template hs, hpart]
  rfl

/-- **A literal of code units is read back if and only if each character has one.** Let the code units of a text be
written as escapes of four digits, with digits of either case. Between quotes, or as a template, this is one token
over all that was written, whatever follows, and nothing is objected to. Its value is the text in which two
replacement characters stand for each character with two code units. -/
theorem nextToken_codeUnits (value : String) (spellings : List (List Char))
    (h : List.Forall₂ UnitSpells (value.toList.flatMap utf16) spellings) (s : Lexer) (rest : List Char) :
    let decoded := String.ofList (value.toList.flatMap decodedUnits)
    (∀ quote, quote = '"' ∨ quote = '\'' → s.rest = quote :: (spellings.flatten ++ quote :: rest) →
      ∃ t, s.nextToken = (⟨.string decoded, Span.between s.position t.position.offset, false, false⟩, t) ∧
        t.rest = rest ∧ t.diagnostics = s.diagnostics) ∧
    (s.rest = '\x60' :: (spellings.flatten ++ '\x60' :: rest) →
      ∃ t, s.nextToken = (⟨.template ⟨some decoded, String.ofList spellings.flatten, true, []⟩,
          Span.between s.position t.position.offset, false, false⟩, t) ∧
        t.rest = rest ∧ t.diagnostics = s.diagnostics) ∧
    (decoded = value ↔ ∀ c ∈ value.toList, c.toNat < 0x10000) := by
  intro decoded
  have hdecoded : String.ofList ((value.toList.flatMap utf16).map decodedUnit) = decoded := by
    rw [List.map_flatMap]
    exact congrArg String.ofList (List.flatMap_congr fun c _ => map_decodedUnit_utf16 c)
  refine ⟨fun quote hq hs => ?_, fun hs => ?_, ?_⟩
  · have hrounds := List.forall₂_map_left_iff.mpr (h.imp fun _ _ hunit => stringRound_of_unitSpells hunit hq)
    obtain ⟨t, htoken, ht⟩ := exists_nextToken_rounds hrounds hq hs
    rw [hdecoded] at htoken
    exact ⟨t, htoken, ht.rest_eq (by simpa using hs), ht.diagnostics⟩
  · obtain ⟨t, htoken, ht⟩ := exists_nextToken_template h hs
    rw [hdecoded] at htoken
    exact ⟨t, htoken, ht.rest_eq (by simpa using hs), ht.diagnostics⟩
  · rw [← flatMap_decodedUnits_eq_iff, ← String.toList_inj, String.toList_ofList]

/-- A letter and a sign of the first 65536 characters. -/
theorem nextToken_codeUnits_sign :
    ∃ t, (ofChars "\"\\u0041\\u20ac\"".toList false).nextToken =
        (⟨.string "A\u20ac", Span.between Position.start t.position.offset, false, false⟩, t) ∧
      t.rest = [] ∧ t.diagnostics = #[] :=
  have letter : UnitSpells 0x41 ['\\', 'u', '0', '0', '4', '1'] := .four rfl ⟨[0, 0, 4, 1], by decide, by decide⟩
  have sign : UnitSpells 0x20ac ['\\', 'u', '2', '0', 'a', 'c'] := .four rfl ⟨[2, 0, 10, 12], by decide, by decide⟩
  (nextToken_codeUnits "A\u20ac" _ (.cons letter (.cons sign .nil)) (ofChars "\"\\u0041\\u20ac\"".toList false) []).1
    '"' (.inl rfl) rfl

/-- Two characters that are read as the same value, which is neither of them. -/
theorem nextToken_codeUnits_surrogates :
    List.Forall₂ UnitSpells ("😀".toList.flatMap utf16) ["\\uD83D".toList, "\\uDE00".toList] ∧
      List.Forall₂ UnitSpells ("😁".toList.flatMap utf16) ["\\uD83D".toList, "\\uDE01".toList] ∧
      ∀ literal ∈ ["\"\\uD83D\\uDE00\"", "\"\\uD83D\\uDE01\""],
        (ofChars literal.toList false).nextToken.1.kind = .string "\uFFFD\uFFFD" ∧
          (ofChars literal.toList false).nextToken.2.diagnostics = #[] := by
  have high : UnitSpells 0xD83D "\\uD83D".toList := .four rfl ⟨[13, 8, 3, 13], by decide, by decide⟩
  have low : UnitSpells 0xDE00 "\\uDE00".toList := .four rfl ⟨[13, 14, 0, 0], by decide, by decide⟩
  have low' : UnitSpells 0xDE01 "\\uDE01".toList := .four rfl ⟨[13, 14, 0, 1], by decide, by decide⟩
  exact ⟨.cons high (.cons low .nil), .cons high (.cons low' .nil), by decide +kernel⟩

end Lexer

end EcmaScript
