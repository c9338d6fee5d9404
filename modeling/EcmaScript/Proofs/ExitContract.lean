import EcmaScript.Proofs.Script.Findings

/-!
# When a parse gives a tree

A parse gives no tree in two cases only: a failure stopped the reading, or an error was reported and the
options say to stop at errors. The contract is that both are the second one. What could break it is the
sink, which compares texts and places but not severities: a failure whose key had been seen as a warning
would end the reading and never be reported. No warning has the text of a failure
(`Remark.severity_of_grammar`), so whatever was first at that place with that text is an error
(`Sink.Unmasked.error_of_failure`).
-/

namespace EcmaScript

namespace Findings

/-- A failure that stopped the reading was reported. -/
theorem exists_error_of_root {f : Findings} {o : Options} (hf : f.Lawful o) (hr : f.root = none)
    (name : String) (e : Edition) : ∃ d ∈ (f.sink name e).reported, d.isError = true := by
  obtain ⟨_, position, p, hp, hm⟩ := hf hr
  obtain ⟨d, hd, he⟩ := (Sink.Unmasked.ofName name).error_of_failure e hp hm
  exact ⟨d, Sink.mem_reports_of_mem hd, he⟩

end Findings

/-- **The exit contract.** There is a tree if the parse goes on behind errors, and otherwise exactly if
no error was reported. -/
theorem isSome_root_parse (name source : String) (o : Options) :
    (parse name source o).root.isSome = true ↔
      o.keepGoing = true ∨ ∀ d ∈ (parse name source o).sink.reported, d.isError = false := by
  obtain ⟨f, hf, hparse⟩ := exists_findings name source o
  have h : parse name source o = f.result name o := hparse o.edition
  have hcount : 0 < (f.sink name o.edition).errorCount ↔
      ∃ d ∈ (f.sink name o.edition).reported, d.isError = true := by
    rw [(f.counted_sink name o.edition).errorCount_pos_iff, Array.any_eq_true']
  rw [h]
  show (if !o.keepGoing && 0 < (f.sink name o.edition).errorCount then none else f.root).isSome =
    true ↔ _ ∨ ∀ d ∈ (f.sink name o.edition).reported, _
  cases hk : o.keepGoing with
  | true =>
      have hr : f.root ≠ none := fun hn => Bool.false_ne_true ((hf hn).1.symm.trans hk)
      simpa [Option.isSome_iff_ne_none] using hr
  | false =>
      by_cases he : ∃ d ∈ (f.sink name o.edition).reported, d.isError = true
      · have hpos := hcount.mpr he
        obtain ⟨d, hd, hde⟩ := he
        simp only [Bool.not_false, hpos, decide_true, Bool.and_self, if_true, Option.isSome_none,
          Bool.false_eq_true, false_or, false_iff]
        intro hall
        exact Bool.false_ne_true ((hall d hd).symm.trans hde)
      · have hr : f.root ≠ none := fun hn => he (Findings.exists_error_of_root hf hn name o.edition)
        have hzero := mt hcount.mp he
        simp only [hzero, decide_false, Bool.and_false, Bool.false_eq_true, if_false, false_or,
          Option.isSome_iff_ne_none, ne_eq, hr, not_false_iff, true_iff]
        intro d hd
        exact Bool.eq_false_iff.mpr fun hde => he ⟨d, hd, hde⟩

end EcmaScript
