import EcmaScript.Proofs.Script.Findings

/-!
# The edition gates diagnostics and nothing else

The edition is asked in three places: whether a feature is objected to, whether a list may end in a
comma, and whether a shorthand may have its name. All three are about what to report. So two parses that
differ in the edition find the same tree, features and comments, and what they report differs only in the
texts of those three places (`dependsOnEdition`).

The sink could still couple these texts with the others, by letting a report through in one parse that it
takes for a repetition in the other. It cannot since it compares texts (`Sink.kept_reports`).
-/

namespace EcmaScript

/-! ## The texts that an edition decides about -/

/-- The word that the complaint about a reserved word would be about, if the text is that complaint:
what is left without its twenty first and seven last characters. -/
def quotedWord (text : String) : String :=
  .ofList ((text.toList.drop 20).take (text.length - 27))

/-- Whether some edition reports this text where another one does not: objections to features, errors
about a trailing comma, and errors about a reserved shorthand. -/
def dependsOnEdition (text : String) : Bool :=
  Feature.all.any (fun f => f.objection?.any (·.1 == text)) ||
    text == Problem.trailingCommaInParameters.message ||
    text == Problem.trailingCommaInArguments.message ||
    text == Problem.keywordInShorthand.message ||
    text == (Problem.keywordNotAllowed (quotedWord text)).message

theorem Feature.mem_all (f : Feature) : f ∈ Feature.all := by cases f <;> decide

theorem dependsOnEdition_objection {f : Feature} {message : String} {severity : Severity}
    (h : f.objection? = some (message, severity)) : dependsOnEdition message = true := by
  have hf : Feature.all.any (fun f => f.objection?.any (·.1 == message)) = true := by
    rw [List.any_eq_true]
    refine ⟨f, f.mem_all, ?_⟩
    rw [h]
    exact beq_self_eq_true message
  unfold dependsOnEdition
  rw [hf]
  rfl

theorem dependsOnEdition_comma (place : CommaPlace) : dependsOnEdition place.problem.message = true := by
  unfold dependsOnEdition
  cases place <;> simp [CommaPlace.problem]

theorem quotedWord_keywordNotAllowed (word : String) :
    quotedWord (Problem.keywordNotAllowed word).message = word := by
  have ht : (Problem.keywordNotAllowed word).message.toList =
      "cannot use keyword '".toList ++ (word.toList ++ "' here.".toList) := by
    show ("cannot use keyword '" ++ word ++ "' here.").toList = _
    rw [String.toList_append, String.toList_append, List.append_assoc]
  unfold quotedWord
  rw [← String.length_toList, ht]
  simp

theorem dependsOnEdition_shorthand (place : ShorthandPlace) (name : String) :
    dependsOnEdition (place.problem name).message = true := by
  unfold dependsOnEdition
  cases place with
  | literal => simp [ShorthandPlace.problem]
  | pattern => simp [ShorthandPlace.problem, quotedWord_keywordNotAllowed]

/-! ## What is left of the reports -/

/-- An edition decides only whether to report one of its texts. -/
theorem Remark.report?_eq_or (r : Remark) :
    (∀ e₁ e₂, r.report? e₁ = r.report? e₂) ∨
      ∀ e q, r.report? e = some q → dependsOnEdition q.message = true := by
  cases r with
  | lexical d => exact Or.inl fun _ _ => rfl
  | problem position p => exact Or.inl fun _ _ => rfl
  | duplicate position name => exact Or.inl fun _ _ => rfl
  | feature f position =>
      refine Or.inr fun e q hq => ?_
      simp only [report?] at hq
      split at hq
      · cases hq
      · obtain ⟨⟨message, severity⟩, ho, rfl⟩ := Option.map_eq_some_iff.mp hq
        exact dependsOnEdition_objection ho
  | trailingComma comma place =>
      refine Or.inr fun e q hq => ?_
      simp only [report?] at hq
      split at hq <;> cases hq
      exact dependsOnEdition_comma place
  | shorthand position strict name place =>
      refine Or.inr fun e q hq => ?_
      simp only [report?] at hq
      split at hq <;> cases hq
      exact dependsOnEdition_shorthand place name

theorem Remark.report?_filter (r : Remark) (e₁ e₂ : Edition) :
    (r.report? e₁).filter (!dependsOnEdition ·.message) =
      (r.report? e₂).filter (!dependsOnEdition ·.message) := by
  rcases r.report?_eq_or with heq | hgate
  · rw [heq e₁ e₂]
  · have hnone (e : Edition) : (r.report? e).filter (!dependsOnEdition ·.message) = none := by
      rw [Option.filter_eq_none_iff]
      intro q hq
      simp [hgate e q hq]
    rw [hnone, hnone]

theorem Remark.reports_filter (rs : List Remark) (e₁ e₂ : Edition) :
    (reports e₁ rs).filter (!dependsOnEdition ·.message) =
      (reports e₂ rs).filter (!dependsOnEdition ·.message) := by
  unfold reports
  rw [List.filter_filterMap, List.filter_filterMap]
  congr 1
  funext r
  exact r.report?_filter e₁ e₂

/-- The diagnostics with other texts are those of every edition, in the same order. -/
theorem Findings.kept_sink (f : Findings) (name : String) (e₁ e₂ : Edition) :
    (f.sink name e₁).kept (!dependsOnEdition ·) = (f.sink name e₂).kept (!dependsOnEdition ·) := by
  unfold sink
  simp only [Sink.kept_reports, Sink.sourceName_reports]
  rw [Remark.reports_filter f.remarks e₁ e₂]

/-- **The edition only gates diagnostics.** Parses of one source that differ in the edition give the same
features, comments and source map, the same tree if they go on behind errors, and the same diagnostics in
the same order up to the texts that the edition decides about. -/
theorem parse_edition (name source : String) (o : Options) (e₁ e₂ : Edition) :
    let left := parse name source { o with edition := e₁ }
    let right := parse name source { o with edition := e₂ }
    left.features = right.features ∧ left.comments = right.comments ∧
      left.sourceMapUrl = right.sourceMapUrl ∧
      (o.keepGoing = true → left.root = right.root) ∧
      left.sink.reported.toList.filter (!dependsOnEdition ·.message) =
        right.sink.reported.toList.filter (!dependsOnEdition ·.message) := by
  obtain ⟨f, _, hparse⟩ := exists_findings name source o
  intro left right
  have hl : left = f.result name { o with edition := e₁ } := hparse e₁
  have hr : right = f.result name { o with edition := e₂ } := hparse e₂
  rw [hl, hr]
  refine ⟨rfl, rfl, rfl, fun hk => ?_, f.kept_sink name e₁ e₂⟩
  have hroot (e : Edition) : (f.result name { o with edition := e }).root = f.root := by
    show (if !o.keepGoing && _ then none else f.root) = f.root
    rw [hk]
    rfl
  rw [hroot, hroot]

/-- A shorthand that only the third edition objects to has the same tree in the sixth. -/
theorem parse_edition_shorthand :
    (parse "a.js" "x = \x7blet\x7d;"
      { edition := .es3, strictness := .sloppy, onError := .keepGoing }).root =
    (parse "a.js" "x = \x7blet\x7d;"
      { edition := .es2015, strictness := .sloppy, onError := .keepGoing }).root :=
  (parse_edition "a.js" "x = \x7blet\x7d;" { strictness := .sloppy, onError := .keepGoing }
    .es3 .es2015).2.2.2.1 rfl

end EcmaScript
