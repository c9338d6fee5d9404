import EcmaScript.Lexer.Escape

/-!
# Strings, templates and regular expressions

The literals whose inside is text. Each reader starts behind the opening delimiter.

## Contents

* `Lexer.stringLiteral`: a quoted string with its escapes decoded.
* `Lexer.templatePart`: a piece of a template, decoded and as written.
* `Lexer.regExpLiteral`: pattern and flags of a regular expression.
-/

namespace EcmaScript

namespace Lexer

/-! ## Strings -/

/-- The control character that a letter stands for in an escape. -/
def controlEscape? : Char → Option Char
  | 'b' => some '\x08'
  | 'f' => some '\x0c'
  | 'n' => some '\n'
  | 'r' => some '\r'
  | 't' => some '\t'
  | 'v' => some '\x0b'
  | _ => none

/-- Reads up to `n` further octal digits of an escape. -/
def octalDigits : Nat → Lexer → Nat → Nat × Lexer
  | 0, s, code => (code, s)
  | n + 1, s, code =>
    match s.peek?.bind (digitValue? 8) with
    | none => (code, s)
    | some d => octalDigits n s.advance (code * 8 + d)

/-- Reads an escape of a string, from the character `c` behind the backslash on; gives the characters
it stands for. The string starts at `start`. -/
def stringEscape (s : Lexer) (start : Position) (c : Char) : List Char × Lexer :=
  let t := s.advance
  if c == '\'' || c == '"' || c == '\x60' || c == '\\' || c == '/' then ([c], t)
  else match controlEscape? c with
  | some control => ([control], t)
  | none =>
    if c == 'x' then
      match hexDigits 2 t 0 with
      | (some code, u) => ([(charOfCode? code).getD '\uFFFD'], u)
      | (none, u) => ([], u.error u.position .hexDigitExpected)
    else if c == 'u' then
      match t.unicodeEscapeOrReport .hexDigitExpected with
      | (some d, u) => ([d], u)
      | (none, u) => ([], u)
    else match digitValue? 8 c with
    | some value =>
      if c == '0' && !t.nextIs Char.isDigit then (['\x00'], t)
      else
        match octalDigits (if value ≤ 3 then 2 else 1) t value with
        | (code, u) =>
          ([Char.ofNat code], u.report s.position .legacyOctal (if s.strict then .error else .warning))
    | none => ([c], t.warning start (.unnecessaryEscape c))

theorem length_rest_octalDigits_le (n : Nat) (s : Lexer) (code : Nat) :
    (octalDigits n s code).2.rest.length ≤ s.rest.length := by
  induction n generalizing s code with
  | zero => simp [octalDigits]
  | succ n ih =>
    unfold octalDigits
    split
    · simp
    · exact Nat.le_trans (ih _ _) s.length_rest_advance_le

theorem length_rest_stringEscape_le (s : Lexer) (start : Position) (c : Char) :
    (s.stringEscape start c).2.rest.length ≤ s.rest.length := by
  have ha := s.length_rest_advance_le
  have hh := Nat.le_trans (length_rest_hexDigits_le 2 s.advance 0) ha
  have hu := Nat.le_trans (s.advance.length_rest_unicodeEscapeOrReport_le .hexDigitExpected) ha
  have ho := fun n v => Nat.le_trans (length_rest_octalDigits_le n s.advance v) ha
  simp only [stringEscape]
  split
  · exact ha
  · split
    · exact ha
    · split
      · split
        next heq => rw [heq] at hh; exact hh
        next heq => rw [heq] at hh; exact hh
      · split
        · split
          next heq => rw [heq] at hu; exact hu
          next heq => rw [heq] at hu; exact hu
        · split
          · split
            · exact ha
            · exact ho _ _
          · exact ha

/-- Reads a string up to its closing quote. Gives its characters in reverse, whether a line was
continued, and the lexer behind it. -/
def stringBody (quote : Char) (start : Position) (s : Lexer) (read : List Char)
    (continued : Bool) : List Char × Bool × Lexer :=
  match _h : s.rest with
  | [] => (read, continued, s.error start .unterminatedString)
  | c :: _ =>
    if c == '\n' || c == '\r' then (read, continued, s.error start .unterminatedString)
    else if c == quote then (read, continued, s.advance)
    else if c == '\\' then
      match _h' : s.advance.rest with
      | [] => (read, continued, s.advance.error start .unterminatedString)
      | e :: _ =>
        if isLineTerminator e then stringBody quote start s.advance.skipLineBreak read true
        else
          stringBody quote start (s.advance.stringEscape start e).2
            ((s.advance.stringEscape start e).1 ++ read) continued
    else if c == '\u2028' || c == '\u2029' then
      stringBody quote start (s.advance.record .unescapedUnicodeLineOrParagraphSep start)
        (c :: read) continued
    else stringBody quote start s.advance (c :: read) continued
termination_by s.rest.length
decreasing_by
  all_goals
    have hs := congrArg List.length _h
    have ha := s.length_rest_advance
    simp only [List.length_cons] at hs
  · have := s.advance.length_rest_skipLineBreak_le; omega
  · have := s.advance.length_rest_stringEscape_le start e; omega
  · simp only [rest_record]; omega
  · omega

/-- Reads a string behind its opening quote at `start`. -/
def stringLiteral (s : Lexer) (quote : Char) (start : Position) : String × Lexer :=
  match stringBody quote start s [] false with
  | (read, continued, t) =>
    (String.ofList read.reverse,
      if continued then
        (t.warning start .lineContinuation).record .stringContinuation start
      else t)

/-! ## Templates -/

/-- A template piece that is being read: decoded and written text in reverse, and the problems found
so far in reverse. -/
structure TemplateDraft where
  cooked : List Char := []
  raw : List Char := []
  valid : Bool := true
  problems : List LexicalDiagnostic := []
  continued : Bool := false
  deriving Repr

namespace TemplateDraft

/-- Adds a character that stands for itself. -/
def push (d : TemplateDraft) (c : Char) : TemplateDraft :=
  { d with cooked := c :: d.cooked, raw := c :: d.raw }

/-- Adds the decoded character `c` of an escape. -/
def cook (d : TemplateDraft) (c : Char) : TemplateDraft := { d with cooked := c :: d.cooked }

/-- Adds written characters that decode to nothing of their own. -/
def write (d : TemplateDraft) (cs : List Char) : TemplateDraft :=
  { d with raw := cs.reverse ++ d.raw }

@[simp] theorem write_write (d : TemplateDraft) (xs ys : List Char) : (d.write xs).write ys = d.write (xs ++ ys) := by
  simp [write]

/-- Notes an invalid escape. -/
def fault (d : TemplateDraft) (position : Position) (problem : LexicalProblem) : TemplateDraft :=
  { d with valid := false, problems := ⟨position, problem, .error⟩ :: d.problems }

/-- Notes a doubtful escape. -/
def doubt (d : TemplateDraft) (position : Position) (problem : LexicalProblem) : TemplateDraft :=
  { d with problems := ⟨position, problem, .warning⟩ :: d.problems }

/-- The finished piece, which started at `start`. -/
def finish (d : TemplateDraft) (start : Position) (tail : Bool) : TemplatePart :=
  let problems := if d.continued then ⟨start, .lineContinuation, .warning⟩ :: d.problems else d.problems
  ⟨if d.valid then some (String.ofList d.cooked.reverse) else none,
    String.ofList d.raw.reverse, tail, problems.reverse⟩

end TemplateDraft

/-- Reads exactly `n` hexadecimal digits, or as many as there are and gives none, and writes them down. -/
def writtenHexDigits : Nat → Lexer → Nat → TemplateDraft → Option Nat × TemplateDraft × Lexer
  | 0, s, code, d => (some code, d, s)
  | n + 1, s, code, d =>
    match s.rest with
    | [] => (none, d, s)
    | c :: _ =>
      match digitValue? 16 c with
      | none => (none, d, s)
      | some digit => writtenHexDigits n s.advance (code * 16 + digit) (d.write [c])

/-- Reads hexadecimal digits and a closing brace and writes them down; stops at anything else and gives none.
A code that is too large for 32 bits becomes the greatest one. -/
def writtenBracedDigits (s : Lexer) (code : Nat) (d : TemplateDraft) :
    Option Nat × TemplateDraft × Lexer :=
  match _h : s.rest with
  | [] => (none, d, s)
  | c :: _ =>
    if c == '\x7d' then (some code, d.write [c], s.advance)
    else match digitValue? 16 c with
      | none => (none, d, s)
      | some digit => writtenBracedDigits s.advance (min (code * 16 + digit) greatestCode) (d.write [c])
termination_by s.rest.length
decreasing_by simp [length_rest_advance, _h]

/-- Reads the body of a Unicode escape and writes it down. -/
def writtenUnicodeEscape (s : Lexer) (d : TemplateDraft) :
    Except EscapeFault Char × TemplateDraft × Lexer :=
  match s.rest with
  | '\x7b' :: '\x7d' :: _ => (.error .empty, d.write ['\x7b', '\x7d'], s.advance.advance)
  | '\x7b' :: _ =>
    match s.advance.writtenBracedDigits 0 (d.write ['\x7b']) with
    | (none, d, t) => (.error .badDigit, d, t)
    | (some code, d, t) =>
      match charOfCode? code with
      | none => (.error .undefined, d, t)
      | some c => (.ok c, d, t)
  | _ =>
    match writtenHexDigits 4 s 0 d with
    | (none, d, t) => (.error .badDigit, d, t)
    | (some code, d, t) => (.ok ((charOfCode? code).getD '\uFFFD'), d, t)

/-- Reads an escape of a template, from the character `c` behind the backslash on; the backslash is
at `place`. -/
def templateEscape (s : Lexer) (place : Position) (c : Char) (d : TemplateDraft) :
    TemplateDraft × Lexer :=
  let t := s.advance
  let d := d.write [c]
  if c == '\\' || c == '\x60' || c == '$' then (d.cook c, t)
  else match controlEscape? c with
  | some control => (d.cook control, t)
  | none =>
    if c == '0' && !t.nextIs Char.isDigit then (d.cook '\x00', t)
    else if c.isDigit then (d.fault place .invalidEscape, t)
    else if c == 'x' then
      match writtenHexDigits 2 t 0 d with
      | (some code, d, u) => (d.cook ((charOfCode? code).getD '\uFFFD'), u)
      | (none, d, u) => (d.fault place .hexDigitExpected, u)
    else if c == 'u' then
      match t.writtenUnicodeEscape d with
      | (.ok e, d, u) => (d.cook e, u)
      | (.error fault, d, u) => (d.fault place (fault.problem .hexDigitExpected), u)
    else if c == '\'' then ((d.cook c).doubt place .unnecessaryQuoteEscape, t)
    else ((d.cook c).doubt place (.unnecessaryEscape c), t)

/-! ### Escapes of templates and of strings

A template reads the body of an escape as a string does, and writes down what it reads. What the two keep of a code that
is too large differs on the way and makes no difference in the end. -/

/-- Whether the character can stand in an escape behind its letter. -/
def isEscapeBody (c : Char) : Bool := isDigitOf 16 c || c == '\x7b' || c == '\x7d'

theorem isEscapeBody_of_digitValue? {c : Char} {digit : Nat} (h : digitValue? 16 c = some digit) :
    isEscapeBody c = true := by
  unfold isEscapeBody isDigitOf
  rw [h]
  rfl

/-- The reader of a string answered `answer`; that of a template answers the same and has written down what it read. -/
def Writes {α : Type} (s : Lexer) (d : TemplateDraft) (answer : α × Lexer) (written : α × TemplateDraft × Lexer) :
    Prop :=
  ∃ read, s.rest = read ++ answer.2.rest ∧ (∀ c ∈ read, isEscapeBody c = true) ∧
    written = (answer.1, d.write read, answer.2)

namespace Writes

variable {α : Type} {s : Lexer} {d : TemplateDraft} {answer : α × Lexer} {written : α × TemplateDraft × Lexer}
  {c : Char} {rest : List Char}

theorem refl (a : α) : Writes s d (a, s) (a, d, s) := ⟨[], rfl, nofun, rfl⟩

/-- One more character in front. -/
theorem cons (hs : s.rest = c :: rest) (hc : isEscapeBody c = true) (h : Writes s.advance (d.write [c]) answer written) :
    Writes s d answer written := by
  obtain ⟨read, hread, hall, rfl⟩ := h
  refine ⟨c :: read, ?_, List.forall_mem_cons.mpr ⟨hc, hall⟩, ?_⟩
  · rw [hs, List.cons_append, ← hread]
    unfold advance
    rw [hs]
  · simp [TemplateDraft.write]

theorem lexer_eq (h : Writes s d answer written) : written.2.2 = answer.2 := by
  obtain ⟨_, _, _, rfl⟩ := h
  rfl

end Writes

theorem writes_hexDigits (n : Nat) (s : Lexer) (code : Nat) (d : TemplateDraft) :
    Writes s d (hexDigits n s code) (writtenHexDigits n s code d) := by
  induction n generalizing s code d with
  | zero => exact .refl _
  | succ n ih =>
    unfold writtenHexDigits hexDigits peek?
    cases hs : s.rest with
    | nil => exact .refl _
    | cons c rest =>
      dsimp only [List.head?_cons, Option.bind_some]
      cases hd : digitValue? 16 c with
      | none => exact .refl _
      | some digit => exact .cons hs (isEscapeBody_of_digitValue? hd) (ih _ _ _)

theorem writtenBracedDigits_cons {s : Lexer} {c : Char} {rest : List Char} (hs : s.rest = c :: rest) (code : Nat)
    (d : TemplateDraft) :
    s.writtenBracedDigits code d =
      if c == '\x7d' then (some code, d.write [c], s.advance)
      else match digitValue? 16 c with
        | none => (none, d, s)
        | some digit => s.advance.writtenBracedDigits (min (code * 16 + digit) greatestCode) (d.write [c]) := by
  rw [writtenBracedDigits]
  split
  next hn => cases hs.symm.trans hn
  next heq => cases hs.symm.trans heq; rfl

theorem writes_bracedDigits (s : Lexer) (code : BoundedCode) (d : TemplateDraft) :
    Writes s d ((s.bracedDigits code).1.map BoundedCode.saturated, (s.bracedDigits code).2)
      (s.writtenBracedDigits code.saturated d) := by
  fun_induction bracedDigits s code generalizing d with
  | case1 s code hs =>
    rw [writtenBracedDigits]
    split
    next => exact .refl _
    next heq => cases hs.symm.trans heq
  | case2 s code c rest hs hc =>
    rw [writtenBracedDigits_cons hs, if_pos hc]
    exact .cons hs (by rw [eq_of_beq hc]; decide) (.refl _)
  | case3 s code c rest hs hc hd =>
    rw [writtenBracedDigits_cons hs, if_neg hc, hd]
    exact .refl _
  | case4 s code c rest hs hc digit hd ih =>
    rw [writtenBracedDigits_cons hs, if_neg hc, hd]
    dsimp only
    rw [← BoundedCode.saturated_add]
    exact .cons hs (isEscapeBody_of_digitValue? hd) (ih _)

/-- **A Unicode escape means the same in a template as in a string**, and ends at the same place. -/
theorem writes_unicodeEscape (s : Lexer) (d : TemplateDraft) :
    Writes s d s.unicodeEscape (s.writtenUnicodeEscape d) := by
  unfold writtenUnicodeEscape
  split
  next tail hs =>
    have hnext : s.advance.rest = '\x7d' :: tail := by
      unfold advance
      rw [hs]
    rw [unicodeEscape_empty hs]
    exact .cons hs (by decide) (.cons hnext (by decide) (.refl _))
  next tail hempty hs =>
    rw [unicodeEscape_braced hs fun hclose => by
      obtain ⟨tail, rfl⟩ := List.head?_eq_some_iff.mp hclose
      exact hempty _ rfl]
    refine .cons hs (by decide) ?_
    have hbraced := writes_bracedDigits s.advance {} (d.write ['\x7b'])
    rw [show BoundedCode.saturated {} = 0 from rfl] at hbraced
    generalize s.advance.bracedDigits {} = answer at hbraced ⊢
    obtain ⟨code, t⟩ := answer
    obtain ⟨read, hread, hall, heq⟩ := hbraced
    rw [heq]
    cases code with
    | none => exact ⟨read, hread, hall, rfl⟩
    | some code =>
      dsimp only [Option.map_some]
      rw [code.char?_eq]
      cases charOfCode? code.saturated with
      | none => exact ⟨read, hread, hall, rfl⟩
      | some c => exact ⟨read, hread, hall, rfl⟩
  next hempty hopen =>
    rw [unicodeEscape_digits fun hbrace => by
      obtain ⟨tail, hs⟩ := List.head?_eq_some_iff.mp hbrace
      exact hopen _ hs]
    have hfour := writes_hexDigits 4 s 0 d
    generalize hexDigits 4 s 0 = answer at hfour ⊢
    obtain ⟨code, t⟩ := answer
    obtain ⟨read, hread, hall, heq⟩ := hfour
    rw [heq]
    cases code with
    | none => exact ⟨read, hread, hall, rfl⟩
    | some code => exact ⟨read, hread, hall, rfl⟩

theorem length_rest_templateEscape_le (s : Lexer) (place : Position) (c : Char)
    (d : TemplateDraft) : (s.templateEscape place c d).2.rest.length ≤ s.rest.length := by
  have ha := s.length_rest_advance_le
  have hh := Nat.le_trans (length_rest_hexDigits_le 2 s.advance 0) ha
  have hu := Nat.le_trans s.advance.length_rest_unicodeEscape_le ha
  rw [← (writes_hexDigits 2 s.advance 0 (d.write [c])).lexer_eq] at hh
  rw [← (s.advance.writes_unicodeEscape (d.write [c])).lexer_eq] at hu
  simp only [templateEscape]
  split
  · exact ha
  · split
    · exact ha
    · split
      · exact ha
      · split
        · exact ha
        · split
          · split
            next heq => rw [heq] at hh; exact hh
            next heq => rw [heq] at hh; exact hh
          · split
            · split
              next heq => rw [heq] at hu; exact hu
              next heq => rw [heq] at hu; exact hu
            · split <;> exact ha

/-- Reads a template up to a substitution or to its end; says whether the end was reached. -/
def templateBody (start : Position) (s : Lexer) (d : TemplateDraft) :
    TemplateDraft × Bool × Lexer :=
  match _h : s.rest with
  | [] => (d, true, s.error start .unterminatedTemplate)
  | c :: rest =>
    if c == '\x60' then (d, true, s.advance)
    else if c == '$' && rest.head? == some '\x7b' then (d, false, s.advance.advance)
    else if c == '\r' then templateBody start s.skipLineBreak (d.push '\n')
    else if c == '\\' then
      match s.advance.rest with
      | [] => templateBody start s.advance (d.write ['\\'])
      | e :: _ =>
        if isLineTerminator e then
          templateBody start s.advance.skipLineBreak
            { d.write ['\\', '\n'] with continued := true }
        else
          templateBody start (s.advance.templateEscape s.position e (d.write ['\\'])).2
            (s.advance.templateEscape s.position e (d.write ['\\'])).1
    else templateBody start s.advance (d.push c)
termination_by s.rest.length
decreasing_by
  all_goals
    have hs := congrArg List.length _h
    have ha := s.length_rest_advance
    simp only [List.length_cons] at hs
  · have : s.skipLineBreak.rest.length ≤ s.advance.rest.length := by
      unfold skipLineBreak
      split
      · exact s.advance.length_rest_advance_le
      · simp
    omega
  · omega
  · have := s.advance.length_rest_skipLineBreak_le; omega
  · have := s.advance.length_rest_templateEscape_le s.position e (d.write ['\\']); omega
  · omega

/-- Reads a piece of a template that starts at `start`, behind its opening delimiter. -/
def templatePart (s : Lexer) (start : Position) : TemplatePart × Lexer :=
  match templateBody start s {} with
  | (d, tail, t) => (d.finish start tail, t)

/-! ## Regular expressions -/

/-- The characters read from `s` to `t`. -/
def charsUntil (s t : Lexer) : List Char := s.rest.take (t.position.offset - s.position.offset)

/-- Reads a pattern up to its closing slash; a slash inside a class does not close it. Gives the
pattern in reverse. -/
def regExpBody (s : Lexer) (inClass : Bool) (read : List Char) : List Char × Lexer :=
  match _h : s.rest with
  | [] => (read, s.error s.position .unterminatedRegExp)
  | c :: _ =>
    if isLineTerminator c then (read, s.error s.position .unterminatedRegExp)
    else if c == '\\' then
      match s.advance.rest with
      | [] => (c :: read, s.advance.error s.advance.position .lineBreakInRegExp)
      | e :: _ =>
        if isLineTerminator e then
          (c :: read, s.advance.error s.advance.position .lineBreakInRegExp)
        else regExpBody s.advance.advance inClass (e :: c :: read)
    else if c == '/' && !inClass then (read, s.advance)
    else regExpBody s.advance (c == '[' || (inClass && c != ']')) (c :: read)
termination_by s.rest.length
decreasing_by
  all_goals
    have hs := congrArg List.length _h
    have ha := s.length_rest_advance
    simp only [List.length_cons] at hs
  · have := s.advance.length_rest_advance; omega
  · omega

/-- Reads a regular expression behind its opening slash: pattern and flags. -/
def regExpLiteral (s : Lexer) : (String × String) × Lexer :=
  match s.regExpBody false [] with
  | (read, t) =>
    let u := t.skipWhile isNamePart
    ((String.ofList read.reverse, String.ofList (t.charsUntil u)), u)

end Lexer

end EcmaScript
