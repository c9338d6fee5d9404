import EcmaScript.Unicode

/-!
# Characters of names, and blanks

Which characters start and continue a name, and which ones separate tokens without ending a line.
-/

namespace EcmaScript

/-- Characters that start names although they are not alphabetic. -/
def isOtherNameStart (c : Char) : Bool :=
  c == '\u2118' || c == '\u212E' || c == '\u309B' || c == '\u309C'

/-- Whether a name can start with the character. -/
def isNameStart (c : Char) : Bool :=
  c == '_' || c == '$' || Unicode.isAlphabetic c || isOtherNameStart c

/-- Combining marks and connectors that occur inside names. -/
def nameMarks : List (Nat × Nat) :=
  [(0x0300, 0x036F), (0x0483, 0x0487), (0x0591, 0x05BD), (0x0610, 0x061A), (0x064B, 0x065F),
   (0x0900, 0x0903), (0x093A, 0x094F), (0x1AB0, 0x1AFF), (0x1DC0, 0x1DFF), (0x203F, 0x2040),
   (0x2054, 0x2054), (0x20D0, 0x20FF), (0xFE00, 0xFE0F), (0xFE20, 0xFE2F), (0xFE33, 0xFE34),
   (0xFE4D, 0xFE4F), (0xFF3F, 0xFF3F)]

/-- Joiners, middle dots and digits that occur inside names. -/
def otherNamePart : List (Nat × Nat) :=
  [(0x00B7, 0x00B7), (0x0387, 0x0387), (0x1369, 0x1371), (0x19DA, 0x19DA), (0x200C, 0x200D)]

/-- Whether a name can go on with the character. Below U+0080 these are the letters, the digits, the
dollar sign and the underscore. -/
def isNamePart (c : Char) : Bool :=
  isNameStart c || Unicode.isNumeric c ||
    (0x80 ≤ c.toNat && (Unicode.inRanges otherNamePart c.toNat || Unicode.inRanges nameMarks c.toNat))

/-- Whether the character separates tokens on one line. -/
def isBlank (c : Char) : Bool :=
  c == ' ' || c == '\t' || c == '\x0b' || c == '\x0c' || c == '\u00A0' || c == '\uFEFF' ||
    c == '\u1680' || (0x2000 ≤ c.toNat && c.toNat ≤ 0x200A) || c == '\u202F' || c == '\u205F' ||
    c == '\u3000'

end EcmaScript
