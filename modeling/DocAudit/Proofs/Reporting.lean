import DocAudit.Proofs.Walk
/-!
# Findings and tree tell the same

* **`findings_tell_tree`**: the reported findings are those of the tree, either all of them or the
  missing ones, and the verdict of the tree can be read off them.
-/

namespace DocAudit

theorem Finding.isMissing_iff (f : Finding) : f.isMissing = true ↔ f.summary = none :=
  Option.isNone_iff_eq_none

namespace AuditOptions

variable (o : AuditOptions) (fs : List Finding)

theorem isMissing_and_reports (f : Finding) : (f.isMissing && o.reports f) = f.isMissing := by
  unfold reports
  cases f.isMissing <;> cases o.onlyMissing <;> rfl

theorem any_isMissing_filter_reports :
    (fs.filter o.reports).any Finding.isMissing = fs.any Finding.isMissing := by
  rw [List.any_filter]
  congr 1
  funext f
  rw [Bool.and_comm, isMissing_and_reports]

theorem countP_isMissing_filter_reports :
    (fs.filter o.reports).countP Finding.isMissing = fs.countP Finding.isMissing := by
  rw [List.countP_filter]
  congr 1
  funext f
  exact o.isMissing_and_reports f

end AuditOptions

theorem Auditor.tree_onlyMissing (a : Auditor) (s : Surface) (onlyMissing : Bool) :
    tree { a with options.onlyMissing := onlyMissing } s = a.tree s := rfl

/-- **The findings tell what the tree tells.** The tree is the same whether or not only missing
summaries are reported. The findings are the nodes of the tree in order, each with its kind, the
name rebuilt from the names in the tree and the text of its summary, or those of them without text.
The tree has errors if and only if a finding without text was reported, and no more errors than
such findings were reported. -/
theorem findings_tell_tree (a : Auditor) (s : Surface) :
    (∀ onlyMissing : Bool,
      (Auditor.check { a with options.onlyMissing := onlyMissing } s).result =
        (a.check s).result) ∧
    (a.check s).findings =
      (if a.options.onlyMissing then (a.check s).result.findings.filter (·.summary.isNone)
        else (a.check s).result.findings) ∧
    ((a.check s).result.hasErrors = true ↔ ∃ f ∈ (a.check s).findings, f.summary = none) ∧
    (a.check s).result.errors ≤ (a.check s).findings.countP (·.summary.isNone) := by
  refine ⟨fun onlyMissing => ?_, ?_, ?_, ?_⟩
  · rw [Auditor.result_check, Auditor.result_check, Auditor.tree_onlyMissing]
  · rw [Auditor.findings_check, AuditOptions.filter_reports]
    rfl
  · simp only [← Finding.isMissing_iff]
    rw [← List.any_eq_true, Auditor.findings_check, AuditOptions.any_isMissing_filter_reports,
      Auditor.result_check, Coverage.hasErrors_aggregate, Coverage.findings_aggregate]
  · show _ ≤ (a.check s).findings.countP (·.isMissing)
    rw [Auditor.findings_check, AuditOptions.countP_isMissing_filter_reports,
      Auditor.result_check, Coverage.findings_aggregate]
    exact Coverage.errors_aggregate_le _

end DocAudit
