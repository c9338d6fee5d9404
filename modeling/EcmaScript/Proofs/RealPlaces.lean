import EcmaScript.Proofs.Places.Script

/-!
# Every place is real

Whatever a parse returns stands where it says. Its regions lie within the source and start where the line
table of the source puts their offset, and line and column of every diagnostic are those of an offset of the
source (`inSource_parse`).
-/

namespace EcmaScript

/-- The region lies within the source, and its line and column are those that the line table of the source
gives for its offset. -/
def Span.InSource (source : String) (s : Span) : Prop :=
  s.offset + s.length ≤ source.length ∧ (LineMap.ofText source).position s.offset = s.start

instance (source : String) (s : Span) : Decidable (s.InSource source) :=
  inferInstanceAs (Decidable (_ ∧ _))

theorem Span.Located.inSource {source : String} {s : Span} (h : s.Located source.toList) :
    s.InSource source := by
  refine ⟨?_, h.1⟩
  rw [← String.length_toList]
  exact h.2

/-- Line and column of a place that is shown are those of an offset. -/
theorem Position.Shown.exists_offset {source : String} {p : Position} (h : p.Shown source.toList) :
    ∃ o ≤ source.length, ((LineMap.ofText source).position o).line = p.line ∧
      ((LineMap.ofText source).position o).column = p.column := by
  obtain ⟨q, hq, hline, hcolumn⟩ := h
  have hplace : (LineMap.ofText source).position q.offset = q := hq
  refine ⟨q.offset, ?_, ?_, ?_⟩
  · rw [← String.length_toList]
    exact hq.offset_le
  · rw [hplace, hline]
  · rw [hplace, hcolumn]

/-- What is reported of sound findings is reported at a place that is shown in the text. -/
theorem Findings.Sound.exists_shown {text : List Char} {f : Findings} (hf : f.Sound text) {name : String}
    {e : Edition} {d : Diagnostic} (hd : d ∈ (f.sink name e).reported) :
    ∃ p : Position, p.Shown text ∧ d.line = p.line ∧ d.column = p.column := by
  rcases Sink.mem_reports.mp hd with hd | ⟨_, q, hq, rfl⟩
  · rcases Sink.mem_reports.mp hd with hd | ⟨_, q, hq, rfl⟩
    · exact nomatch hd
    · obtain ⟨r, hr, hreport⟩ := Remark.mem_reports.mp (List.mem_of_find?_eq_some hq)
      refine ⟨q.position, ?_, rfl, rfl⟩
      rw [Remark.position_report hreport]
      exact (hf.remarks r hr).place.shown
  · obtain ⟨w, hw, rfl⟩ := List.mem_map.mp (List.mem_of_find?_eq_some hq)
    exact ⟨w.position, hf.warnings w hw, rfl, rfl⟩

/-- **Every place that a parse gives is one of its source**: each node of the tree with the comments
attached to it, each comment that is listed, and each diagnostic, those about documentation included. -/
theorem inSource_parse (name source : String) (o : Options) :
    (∀ root ∈ (parse name source o).root, ∀ n ∈ root.preorder,
      n.span.InSource source ∧ (∀ c ∈ n.leading, c.span.InSource source) ∧
        ∀ c ∈ n.trailing, c.span.InSource source) ∧
    (∀ c ∈ (parse name source o).comments, c.span.InSource source) ∧
    ∀ d ∈ (parse name source o).sink.reported, ∃ i ≤ source.length,
      ((LineMap.ofText source).position i).line = d.line ∧
        ((LineMap.ofText source).position i).column = d.column := by
  obtain ⟨f, hf, hparse⟩ := exists_sound_findings name source o
  rw [hparse]
  refine ⟨fun root hroot n hn => ?_, fun c hc => ?_, fun d hd => ?_⟩
  · have hstands : n.Stands source.toList := (hf.inText_root hroot).located n hn
    exact ⟨hstands.span.inSource, fun c hc => (hstands.leading c hc).inSource,
      fun c hc => (hstands.trailing c hc).inSource⟩
  · unfold Findings.result at hc
    dsimp only at hc
    split at hc
    · exact (hf.comments c hc).span.inSource
    · cases hc
  · obtain ⟨p, hp, hline, hcolumn⟩ := hf.exists_shown hd
    rw [hline, hcolumn]
    exact hp.exists_offset

end EcmaScript
