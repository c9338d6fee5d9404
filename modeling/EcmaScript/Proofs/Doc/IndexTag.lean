import EcmaScript.Doc.Parser
import EcmaScript.Proofs.Doc.IndexGrammar

/-!
# Tags read by index

A tag as a program with an index into the text sees it: where its at sign stands, and between which indices its
body lies (`TagSpan`). Its effect on the record is computed once more from there, with every use of a character
going through a window.

The window may be as narrow as the tag. `TagSpan.applyAt_eq` asks only that the body is in the window: the run
then comes to its end, and its effect is the one that is read from the region of the tag. So no character outside
of the tag is asked for, also behind a fault in a type, where the reader goes on behind the closing brace.

## Contents

* `TagSpan`: a tag by indices.
* `TagSpan.bracedAt`, `TagSpan.paramAt`, `TagSpan.suppressAt`, `TagSpan.applyAt`: the effect of a tag.
* `TagSpan.Fits`: what a window has to hold for a tag.
* `TagSpan.exists_bracedAt`: a type in braces, and what is behind it.
* `TagSpan.applyAt_eq`, `TagSpan.applyAll_eq`: the effect is that of the region.
-/

namespace EcmaScript.Doc

/-- A tag by the index of its at sign and the ends of its body. -/
structure TagSpan where
  name : String
  first : Nat
  bodyStart : Nat
  bodyEnd : Nat

namespace TagSpan

/-- The tag with its region. -/
def toTag (text : Region) (s : TagSpan) : Tag := ⟨s.name, text.place s.first, text.part s.bodyStart s.bodyEnd⟩

@[simp] theorem toTag_name (text : Region) (s : TagSpan) : (s.toTag text).name = s.name := rfl

@[simp] theorem toTag_body (text : Region) (s : TagSpan) :
    (s.toTag text).body = text.part s.bodyStart s.bodyEnd := rfl

/-! ## The effect of a tag -/

section Effect

variable (w : Window) (depth : Nat) (options : Options) (s : TagSpan)

/-- Whether the first sign of the body is an opening brace. -/
def startsWithBrace : Scan Bool := do
  let body ← w.slice s.bodyStart (min s.bodyEnd w.text.chars.length)
  return body.find? (!Unicode.isWhiteSpace ·) == some '\x7b'

/-- The type in braces at the start of the body, and the index behind the braces. -/
def bracedAt : Scan (Noted (Option TypeExpr × Nat)) := do
  let opening ← w.passWhile Unicode.isWhiteSpace s.bodyEnd s.bodyStart
  match ← (IndexReader.readBraced w s.bodyEnd depth).run opening with
  | .ok (t, i) => return ((some t, i), [])
  | .error e =>
    let i ← w.skipBraced s.bodyEnd 0 opening
    return ((none, i), [⟨e.position, .badType e.fault⟩])

/-- The type in braces at the start of the body, if there are braces, and the index behind them. -/
def leadingTypeAt : Scan (Noted (Option TypeExpr × Nat)) := do
  if ← startsWithBrace w s then bracedAt w depth s else return ((none, s.bodyStart), [])

/-- The type at the start of the body, with or without braces. -/
def anyTypeAt : Scan (Noted (Option TypeExpr)) := do
  if ← startsWithBrace w s then
    let ((t, _), warnings) ← bracedAt w depth s
    return (t, warnings)
  else
    let start ← w.passWhile Unicode.isWhiteSpace s.bodyEnd s.bodyStart
    if start < s.bodyEnd then
      match ← (IndexReader.readTopLevel w s.bodyEnd depth).run start with
      | .ok (t, _) => return (some t, [])
      | .error e => return (none, [⟨e.position, .badType e.fault⟩])
    else return (none, [⟨w.text.place s.first, .badType .notRecognized⟩])

/-- The type in braces behind a tag, if there are braces. -/
def optionalTypeAt : Scan (Noted (Option TypeExpr)) := do
  let ((t, _), warnings) ← leadingTypeAt w depth s
  return (t, warnings)

/-- The names behind a template tag: those of the first line. -/
def templateAt : Scan (Noted (List String)) := do
  let ((_, i), warnings) ← leadingTypeAt w depth s
  let names ← w.trimmed i s.bodyEnd
  return (splitTrimmed (· == ',') (names.takeWhile (· != '\n')), warnings)

/-- Whether the bracket of an optional parameter stands at the index. -/
def bracketAt (i : Nat) : Scan Bool := do
  if i < s.bodyEnd then return (← w.read i) == '[' else return false

/-- The index behind the bracket that closes the name of an optional parameter. -/
def closeAt (bracketed : Bool) (i : Nat) : Scan Nat := do
  if bracketed then
    let close ← w.passWhile (· != ']') s.bodyEnd i
    return min (close + 1) s.bodyEnd
  else return i

/-- Whether a declared type and a declared signature meet. -/
def conflictAt (conflict : Bool) : List Warning :=
  if conflict then [⟨w.text.place s.first, .typeConflict⟩] else []

/-- The effect of a parameter tag. Brackets around the name make its type optional. -/
def paramAt (info : Info) : Scan (Noted Info) := do
  let conflict := conflictAt w s info.conflictsWithSignature
  let ((type, i), warnings) ← leadingTypeAt w depth s
  let i ← w.passWhile Unicode.isWhiteSpace s.bodyEnd i
  let bracketed ← bracketAt w s i
  let start := if bracketed then i + 1 else i
  let stop ← w.passWhile TypeReader.isTypeNameChar s.bodyEnd start
  let name ← w.slice start stop
  let behind ← closeAt w s bracketed stop
  if name.isEmpty then
    return (info, conflict ++ warnings ++ [⟨w.text.place s.first, .badType .parameterName⟩])
  else
    let type := type.map fun t => if bracketed && !t.isOptional then .optional t else t
    if options.documentation then
      let description ← w.trimmed? behind s.bodyEnd
      return ({ info with params := info.params ++ [⟨String.ofList name, type, description⟩] },
        conflict ++ warnings)
    else return ({ info with params := info.params ++ [⟨String.ofList name, type, none⟩] }, conflict ++ warnings)

/-- The effect of a suppression tag. The opening brace is searched for without a look at the end of the body. -/
def suppressAt (info : Info) : Scan (Noted Info) := do
  let malformed : Noted Info := (info, [⟨w.text.place s.first, .malformedSuppress⟩])
  if ← startsWithBrace w s then
    let opening ← w.find '\x7b' s.bodyStart
    let stop ← w.passWhile (· != '\x7d') s.bodyEnd (opening + 1)
    if s.bodyEnd ≤ stop then return malformed
    else
      let list ← w.slice (opening + 1) stop
      return ((splitTrimmed (fun c => c == ',' || c == '|') list).foldl Info.addSuppression info, [])
  else return malformed

/-- The effect of the tag on the record. -/
def applyAt (info : Info) : Scan (Noted Info) :=
  let withType (f : Option TypeExpr → Info) : Scan (Noted Info) := do
    let (t, warnings) ← anyTypeAt w depth s
    return (f t, warnings)
  let withOptionalType (f : Option TypeExpr → Info) : Scan (Noted Info) := do
    let (t, warnings) ← optionalTypeAt w depth s
    return (f t, warnings)
  let withText (f : Option String → Noted Info) : Scan (Noted Info) := do
    return f (← w.trimmed? s.bodyStart s.bodyEnd)
  let warn (problem : Problem) : List Warning := [⟨w.text.place s.first, problem⟩]
  let silent (i : Info) : Scan (Noted Info) := return (i, [])
  match s.name with
  | "type" =>
    if info.type.isSome then return (info, warn .extraType)
    else do
      let (t, warnings) ← anyTypeAt w depth s
      return ({ info with type := t }, conflictAt w s info.conflictsWithType ++ warnings)
  | "param" => paramAt w depth options s info
  | "return" | "returns" => do
    let (t, warnings) ← optionalTypeAt w depth s
    return ({ info with result := t }, conflictAt w s info.conflictsWithSignature ++ warnings)
  | "define" => withType fun t => { info with defineType := t, isConst := true }
  | "enum" => withOptionalType fun t => { info with enumType := some (t.getD (.ofName "number")) }
  | "typedef" => withType fun t => { info with typedefType := t }
  | "this" => withType fun t => { info with thisType := t }
  | "extends" | "augments" => withType fun t => { info with baseType := t }
  | "implements" => withType fun t => { info with interfaces := info.interfaces ++ t.toList }
  | "template" => do
    let (names, warnings) ← templateAt w depth s
    return ({ info with templateNames := info.templateNames ++ names }, warnings)
  | "const" | "final" => withOptionalType fun t => ({ info with isConst := true }).orType t
  | "constructor" => silent { info with isConstructor := true }
  | "interface" => silent { info with isInterface := true }
  | "record" => silent { info with isRecord := true }
  | "export" => withOptionalType fun t => ({ info with isExport := true }).orType t
  | "private" => withOptionalType fun t => ({ info with visibility := .privateName }).orType t
  | "protected" => withOptionalType fun t => ({ info with visibility := .protectedName }).orType t
  | "public" => withOptionalType fun t => ({ info with visibility := .publicName }).orType t
  | "package" => withOptionalType fun t => ({ info with visibility := .packageName }).orType t
  | "deprecated" => withText fun text => ({ info with deprecated := some (text.getD "") }, [])
  | "override" => silent { info with isOverride := true }
  | "nosideeffects" => silent { info with noSideEffects := true }
  | "nocollapse" => silent { info with noCollapse := true }
  | "closureUnaware" =>
    return ({ info with unaware := true }, if options.unawareCodeAllowed then [] else warn .unawareNotAllowed)
  | "suppress" => suppressAt w s info
  | "fileoverview" => withText fun text => ({ info with hasFileOverview := true, fileOverview := text }, [])
  | "externs" => silent { info with isExterns := true }
  | "typeSummary" => silent { info with isTypeSummary := true }
  | "license" | "preserve" => do return (info.addLicense (String.ofList (← w.slice s.bodyStart s.bodyEnd)), [])
  | "see" => withText fun text =>
    match text with
    | some text => ({ info with seeReferences := info.seeReferences ++ [text] }, [])
    | none => (info, if options.documentation then warn .missingReference else [])
  | "author" => withText fun text =>
    match text with
    | some text => ({ info with authors := info.authors ++ [text] }, [])
    | none => (info, if options.documentation then warn .missingAuthor else [])
  | "desc" => withText fun text => ({ info with messageDescription := text }, [])
  | name => return (info, if ignoredTags.contains name then [] else warn (.unknownTag name))

end Effect

/-! ## What each part of a body gives -/

section Parts

variable {w : Window} {depth : Nat} {options : Options} {s : TagSpan}

/-- The body of a tag is in the window, and the depth is enough for its types. -/
structure Fits (s : TagSpan) (w : Window) (depth : Nat) : Prop where
  body : w.Reaches s.bodyStart s.bodyEnd
  depth : 8 * (s.bodyEnd - s.bodyStart) + 4 ≤ depth

/-- Behind the blanks at its start the body goes on in range, and is short enough for both depths. -/
theorem Fits.exists_passBlank (h : s.Fits w depth) : ∃ i,
    w.passWhile Unicode.isWhiteSpace s.bodyEnd s.bodyStart = .ok i ∧ w.Reaches i s.bodyEnd ∧
      w.text.part i s.bodyEnd = (w.text.part s.bodyStart s.bodyEnd).skipBlank ∧
      ∃ n, IndexReader.Below n (w.text.part i s.bodyEnd) ∧ 8 * n + 4 ≤ depth + 8 ∧
        8 * n + 4 ≤ TypeReader.depth (w.text.part s.bodyStart s.bodyEnd) + 8 := by
  obtain ⟨i, hpass, hle, hi, hpart, -⟩ := h.body.exists_passWhile Unicode.isWhiteSpace
  have hdepth := h.depth
  refine ⟨i, hpass, hi, hpart, s.bodyEnd - s.bodyStart + 1, ?_, by omega, ?_⟩
  · rw [IndexReader.below_part hi]
    omega
  · unfold TypeReader.depth
    rw [Region.length_part h.body.length]
    omega

theorem startsWithBrace_eq (h : s.Fits w depth) :
    startsWithBrace w s = .ok (w.text.part s.bodyStart s.bodyEnd).startsWithBrace := by
  unfold startsWithBrace Region.startsWithBrace
  rw [Nat.min_eq_left h.body.length, h.body.slice_eq h.body.le (Nat.le_refl _), Region.head?_skipBlank,
    ← List.find?_not_eq_head?_dropWhile]
  rfl

/-- **A type in braces** is read, and the index behind it found, within the body; the same is left there. -/
theorem exists_bracedAt (h : s.Fits w depth) : ∃ t j warnings,
    bracedAt w depth s = .ok ((t, j), warnings) ∧ w.Reaches j s.bodyEnd ∧
      bracedType (w.text.part s.bodyStart s.bodyEnd) = ((t, w.text.part j s.bodyEnd), warnings) := by
  obtain ⟨opening, hpass, hopening, hpart, n, hbelow, hd, hd'⟩ := h.exists_passBlank
  have hrun := IndexReader.follows_readBraced hd hd' opening hopening hbelow
  rw [hpart, TypeReader.readBraced_skipBlank] at hrun
  unfold bracedAt bracedType
  rw [hpass, Scan.ok_bind]
  split
  next t rest hread =>
    rw [hread] at hrun
    obtain ⟨j, hj, hreach, rfl, -⟩ := hrun
    refine ⟨some t, j, [], ?_, hreach, rfl⟩
    rw [StateT.run, hj]
    rfl
  next e hread =>
    rw [hread] at hrun
    obtain ⟨j, hskip, hj, hchars⟩ := hopening.exists_skipBraced 0
    refine ⟨none, j, [⟨e.position, .badType e.fault⟩], ?_, hj, ?_⟩
    · rw [StateT.run, hrun]
      show (w.skipBraced s.bodyEnd 0 opening >>= _ : Scan _) = _
      rw [hskip]
      rfl
    · rw [← hpart, ← hchars]
      rfl

/-- **What a tag starts with**: a type in braces and what is behind it, or the whole body. -/
theorem exists_leadingTypeAt (h : s.Fits w depth) : ∃ t j warnings,
    leadingTypeAt w depth s = .ok ((t, j), warnings) ∧ w.Reaches j s.bodyEnd ∧
      (if (w.text.part s.bodyStart s.bodyEnd).startsWithBrace then bracedType (w.text.part s.bodyStart s.bodyEnd)
        else ((none, w.text.part s.bodyStart s.bodyEnd), [])) = ((t, w.text.part j s.bodyEnd), warnings) := by
  unfold leadingTypeAt
  rw [startsWithBrace_eq h, Scan.ok_bind]
  by_cases hbrace : (w.text.part s.bodyStart s.bodyEnd).startsWithBrace = true
  · simp only [if_pos hbrace]
    exact exists_bracedAt h
  · simp only [if_neg hbrace]
    exact ⟨none, s.bodyStart, [], rfl, h.body, rfl⟩

theorem optionalTypeAt_eq (h : s.Fits w depth) : optionalTypeAt w depth s = .ok (optionalType (s.toTag w.text)) := by
  obtain ⟨t, j, warnings, hrun, -, htype⟩ := exists_leadingTypeAt h
  unfold optionalTypeAt optionalType
  rw [hrun, Scan.ok_bind, toTag_body]
  by_cases hbrace : (w.text.part s.bodyStart s.bodyEnd).startsWithBrace = true
  · rw [if_pos hbrace] at htype ⊢
    rw [htype]
    rfl
  · rw [if_neg hbrace, Prod.mk.injEq, Prod.mk.injEq] at htype
    obtain ⟨⟨rfl, -⟩, rfl⟩ := htype
    rw [if_neg hbrace]
    rfl

theorem anyTypeAt_eq (h : s.Fits w depth) : anyTypeAt w depth s = .ok (anyType (s.toTag w.text)) := by
  unfold anyTypeAt anyType
  rw [startsWithBrace_eq h, Scan.ok_bind, toTag_body]
  by_cases hbrace : (w.text.part s.bodyStart s.bodyEnd).startsWithBrace = true
  · obtain ⟨t, j, warnings, hrun, -, htype⟩ := exists_bracedAt h
    rw [if_pos hbrace, if_pos hbrace, htype, hrun]
    rfl
  · obtain ⟨start, hpass, hstart, hpart, n, hbelow, hd, hd'⟩ := h.exists_passBlank
    rw [if_neg hbrace, if_neg hbrace, hpass, Scan.ok_bind, Region.isBlank_eq, ← hpart]
    by_cases hlt : start < s.bodyEnd
    · obtain ⟨c, -, p, hcons⟩ := hstart.exists_read hlt
      have hrun := (IndexReader.allMeet w s.bodyEnd depth _).topLevel n (by omega) (Nat.le_trans (by omega) hd')
        start hstart hbelow
      rw [hpart, TypeReader.readTopLevel_skipBlank] at hrun
      rw [if_pos hlt, hcons, StateT.run, if_neg (by simp)]
      split
      next t rest hread =>
        rw [hread] at hrun
        obtain ⟨j, hj, -⟩ := hrun
        rw [hj]
        rfl
      next e hread =>
        rw [hread] at hrun
        rw [hrun]
        rfl
    · rw [if_neg hlt, Region.chars_part_of_le (Nat.le_of_not_lt hlt)]
      rfl

theorem templateAt_eq (h : s.Fits w depth) : templateAt w depth s = .ok (templateTag (s.toTag w.text)) := by
  obtain ⟨t, j, warnings, hrun, hj, htype⟩ := exists_leadingTypeAt h
  unfold templateAt templateTag
  rw [hrun, Scan.ok_bind, toTag_body]
  dsimp only
  rw [hj.trimmed_eq]
  by_cases hbrace : (w.text.part s.bodyStart s.bodyEnd).startsWithBrace = true
  · rw [if_pos hbrace] at htype ⊢
    rw [htype]
    rfl
  · rw [if_neg hbrace, Prod.mk.injEq, Prod.mk.injEq] at htype
    obtain ⟨⟨-, hpart⟩, rfl⟩ := htype
    rw [if_neg hbrace, hpart]
    rfl

theorem bracketAt_eq {i : Nat} (hi : w.Reaches i s.bodyEnd) :
    bracketAt w s i = .ok ((w.text.part i s.bodyEnd).head? == some '[') := by
  unfold bracketAt
  by_cases hlt : i < s.bodyEnd
  · obtain ⟨c, hread, p, hcons⟩ := hi.exists_read hlt
    rw [if_pos hlt, hread, Region.head?, hcons]
    rfl
  · rw [if_neg hlt, Region.head?, Region.chars_part_of_le (Nat.le_of_not_lt hlt)]
    rfl

/-- Behind a bracket that is found the name of a parameter starts one further. -/
theorem reaches_start {i : Nat} (hi : w.Reaches i s.bodyEnd) :
    let bracketed := (w.text.part i s.bodyEnd).head? == some '['
    let start := if bracketed then i + 1 else i
    w.Reaches start s.bodyEnd ∧ w.text.part start s.bodyEnd =
      if bracketed then (w.text.part i s.bodyEnd).tail else w.text.part i s.bodyEnd := by
  intro bracketed start
  by_cases hb : bracketed = true
  · have hlt := IndexReader.lt_of_head? (beq_iff_eq.mp hb)
    have hstart : start = i + 1 := if_pos hb
    rw [if_pos hb, hstart]
    exact ⟨hi.mono (Nat.le_succ i) hlt, (Region.tail_part ..).symm⟩
  · have hstart : start = i := if_neg hb
    rw [if_neg hb, hstart]
    exact ⟨hi, rfl⟩

/-- Behind the brackets the same is left. -/
theorem exists_closeAt {i : Nat} (hi : w.Reaches i s.bodyEnd) (bracketed : Bool) : ∃ j,
    closeAt w s bracketed i = .ok j ∧ w.Reaches j s.bodyEnd ∧ w.text.part j s.bodyEnd =
      if bracketed then ((w.text.part i s.bodyEnd).dropWhile (· != ']')).tail else w.text.part i s.bodyEnd := by
  unfold closeAt
  cases bracketed with
  | false => exact ⟨i, rfl, hi, rfl⟩
  | true =>
      obtain ⟨close, hpass, -, hj, hpart, -⟩ := hi.exists_passWhile (· != ']')
      have hle : close ≤ min (close + 1) s.bodyEnd := Nat.le_min.mpr ⟨Nat.le_succ close, hj.le⟩
      simp only [if_true]
      rw [hpass, Scan.ok_bind, ← hpart, Region.tail_part]
      exact ⟨_, rfl, hj.mono hle (Nat.min_le_right _ _), Region.part_min _ _ _⟩

theorem paramAt_eq (h : s.Fits w depth) (info : Info) :
    paramAt w depth options s info = .ok (paramTag options (s.toTag w.text) info) := by
  obtain ⟨t, j, warnings, hrun, hj, htype⟩ := exists_leadingTypeAt h
  obtain ⟨i, hblank, -, hi, hpart, -⟩ := hj.exists_passWhile Unicode.isWhiteSpace
  obtain ⟨hstart, hname⟩ := reaches_start hi
  obtain ⟨stop, hpass, hle, hstop, hrest, htake⟩ := hstart.exists_passWhile TypeReader.isTypeNameChar
  obtain ⟨behind, hclose, hbehind, hdescription⟩ := exists_closeAt hstop
    ((w.text.part i s.bodyEnd).head? == some '[')
  unfold paramAt paramTag
  rw [hrun, Scan.ok_bind, toTag_body, htype]
  dsimp only
  rw [hblank, Scan.ok_bind, bracketAt_eq hi, Scan.ok_bind, hpass, Scan.ok_bind, hstart.slice_eq hle hstop.le,
    Scan.ok_bind, hclose, Scan.ok_bind]
  have hskip : (w.text.part j s.bodyEnd).skipBlank = w.text.part i s.bodyEnd := hpart.symm
  rw [hskip, ← hname, ← htake, ← hrest, ← hdescription]
  by_cases hempty : (w.text.part (if ((w.text.part i s.bodyEnd).head? == some '[') = true then i + 1 else i)
      stop).rawText.isEmpty = true
  · rw [if_pos hempty, if_pos hempty]
    rfl
  · rw [if_neg hempty, if_neg hempty]
    by_cases hdoc : options.documentation = true
    · rw [if_pos hdoc, if_pos hdoc, hbehind.trimmed?_eq]
      rfl
    · rw [if_neg hdoc, if_neg hdoc]
      rfl

theorem suppressAt_eq (h : s.Fits w depth) (info : Info) :
    suppressAt w s info = .ok (suppressTag (s.toTag w.text) info) := by
  unfold suppressAt suppressTag
  rw [startsWithBrace_eq h, Scan.ok_bind, toTag_body]
  by_cases hbrace : (w.text.part s.bodyStart s.bodyEnd).startsWithBrace = true
  · rw [if_pos hbrace, if_pos hbrace]
    have hhead : (w.text.part s.bodyStart s.bodyEnd).skipBlank.head? = some '\x7b' := beq_iff_eq.mp hbrace
    have hmem : '\x7b' ∈ (w.text.part s.bodyStart s.bodyEnd).rawText := by
      rw [Region.head?_skipBlank] at hhead
      exact (List.dropWhile_sublist _).mem (List.mem_of_head? hhead)
    obtain ⟨opening, hfind, hle, hlt, hpart⟩ := h.body.exists_find hmem
    have hinside : w.Reaches (opening + 1) s.bodyEnd := h.body.mono (Nat.le_succ_of_le hle) hlt
    obtain ⟨stop, hpass, hle', hstop, hrest, htake⟩ := hinside.exists_passWhile (· != '\x7d')
    rw [hfind, Scan.ok_bind, hpass, Scan.ok_bind]
    have hskip : (w.text.part s.bodyStart s.bodyEnd).skipBlank.tail = w.text.part (opening + 1) s.bodyEnd := by
      rw [← Region.tail_part, hpart]
      exact congrArg Region.tail (Region.dropWhile_ne_eq_skipBlank hhead rfl).symm
    dsimp only
    rw [hskip, ← hrest, ← htake]
    by_cases hend : s.bodyEnd ≤ stop
    · rw [if_pos hend, Region.head?, Region.chars_part_of_le hend]
      rfl
    · obtain ⟨c, -, p, hcons⟩ := hstop.exists_read (Nat.lt_of_not_le hend)
      rw [if_neg hend, Region.head?, hcons, hinside.slice_eq hle' hstop.le]
      rfl
  · rw [if_neg hbrace, if_neg hbrace]
    rfl

/-- **The effect of a tag** is that of its region. -/
theorem applyAt_eq (h : s.Fits w depth) (info : Info) :
    applyAt w depth options s info = .ok ((s.toTag w.text).apply options info) := by
  unfold applyAt Tag.apply
  rw [anyTypeAt_eq h, optionalTypeAt_eq h, templateAt_eq h, paramAt_eq h, suppressAt_eq h, h.body.trimmed?_eq,
    h.body.slice_eq h.body.le (Nat.le_refl _), toTag_name]
  generalize s.name = name
  split
  · cases info.type.isSome <;> rfl
  -- a name without an effect is in neither table, and the other one has to be gone through for that
  all_goals first
    | rfl
    | refine (congrArg Except.ok ?_).symm
      dsimp only
      split <;> first | contradiction | rfl

end Parts

/-! ## The tags of a comment -/

/-- The effect of several tags in order. -/
def applyAll (w : Window) (depth : Nat) (options : Options) : List TagSpan → Info → Scan (Noted Info)
  | [], info => return (info, [])
  | s :: rest, info => do
    let (info, warnings) ← s.applyAt w depth options info
    let (info, further) ← applyAll w depth options rest info
    return (info, warnings ++ further)

theorem applyAll_eq {w : Window} {depth : Nat} {options : Options} {spans : List TagSpan}
    (h : ∀ s ∈ spans, s.Fits w depth) (info : Info) :
    applyAll w depth options spans info = .ok (applyTags options (spans.map (toTag w.text)) info) := by
  induction spans generalizing info with
  | nil => rfl
  | cons s rest ih =>
      unfold applyAll
      rw [applyAt_eq (h s (List.mem_cons_self ..)), Scan.ok_bind]
      dsimp only
      rw [ih fun t ht => h t (List.mem_cons_of_mem s ht)]
      rfl

end TagSpan

end EcmaScript.Doc
