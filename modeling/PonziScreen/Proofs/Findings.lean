import PonziScreen.Rules

/-!
# What findings are about

Each rule has its category. Findings on shared variables and those on structures have the same one,
but only the former come with evidence.
-/

namespace PonziScreen.Rules

theorem category_transferFindings {facts : Facts} {f : Finding} (h : f ∈ transferFindings facts) :
    f.category = .valueTransfer := by
  unfold transferFindings at h
  split at h
  · rw [List.mem_singleton.1 h]
  · obtain ⟨s, -, rfl⟩ := List.mem_map.1 h
    rfl

theorem category_ledgerFindings {c : Contract} {facts : Facts} {f : Finding}
    (h : f ∈ ledgerFindings c facts) : f.category = .sharedLedger ∧ f.evidence.isSome := by
  obtain ⟨entry, -, hentry⟩ := List.mem_filterMap.1 h
  unfold ledgerFinding? at hentry
  dsimp only at hentry
  split at hentry
  · simp at hentry
  · cases hentry
    exact ⟨rfl, rfl⟩

theorem category_cycleFindings {facts : Facts} {f : Finding} (h : f ∈ cycleFindings facts) :
    f.category = .callStructure := by
  obtain ⟨component, -, hcomponent⟩ := List.mem_filterMap.1 h
  unfold cycleFinding? at hcomponent
  dsimp only at hcomponent
  split at hcomponent
  · cases hcomponent
    rfl
  · simp at hcomponent

theorem category_structureFindings {facts : Facts} {f : Finding}
    (h : f ∈ structureFindings facts) : f.category = .sharedLedger ∧ f.evidence = none := by
  obtain ⟨s, -, rfl⟩ := List.mem_map.1 h
  exact ⟨rfl, rfl⟩

/-- The findings about transfers of value are those on functions that move native currency. -/
theorem filter_valueTransfer (t : Target) :
    ((analyze t).findings.filter fun f => f.category = .valueTransfer)
      = transferFindings t.facts := by
  have htransfer : (transferFindings t.facts).filter (fun f => f.category = .valueTransfer)
      = transferFindings t.facts :=
    List.filter_eq_self.2 fun f hf => by simp [category_transferFindings hf]
  have hledger : (ledgerFindings t.contract t.facts).filter
      (fun f => f.category = .valueTransfer) = [] :=
    List.filter_eq_nil_iff.2 fun f hf => by simp [(category_ledgerFindings hf).1]
  have hcycle : (cycleFindings t.facts).filter (fun f => f.category = .valueTransfer) = [] :=
    List.filter_eq_nil_iff.2 fun f hf => by simp [category_cycleFindings hf]
  have hstructure : (structureFindings t.facts).filter
      (fun f => f.category = .valueTransfer) = [] :=
    List.filter_eq_nil_iff.2 fun f hf => by simp [(category_structureFindings hf).1]
  unfold analyze findings
  rw [List.filter_append, List.filter_append, List.filter_append, htransfer, hledger, hcycle,
    hstructure, List.append_nil, List.append_nil, List.append_nil]

/-- The findings about the structure of calls are those on call cycles. -/
theorem filter_callStructure (t : Target) :
    ((analyze t).findings.filter fun f => f.category = .callStructure)
      = cycleFindings t.facts := by
  have htransfer : (transferFindings t.facts).filter (fun f => f.category = .callStructure) = [] :=
    List.filter_eq_nil_iff.2 fun f hf => by simp [category_transferFindings hf]
  have hledger : (ledgerFindings t.contract t.facts).filter
      (fun f => f.category = .callStructure) = [] :=
    List.filter_eq_nil_iff.2 fun f hf => by simp [(category_ledgerFindings hf).1]
  have hcycle : (cycleFindings t.facts).filter (fun f => f.category = .callStructure)
      = cycleFindings t.facts :=
    List.filter_eq_self.2 fun f hf => by simp [category_cycleFindings hf]
  have hstructure : (structureFindings t.facts).filter
      (fun f => f.category = .callStructure) = [] :=
    List.filter_eq_nil_iff.2 fun f hf => by simp [(category_structureFindings hf).1]
  unfold analyze findings
  rw [List.filter_append, List.filter_append, List.filter_append, htransfer, hledger, hcycle,
    hstructure, List.nil_append, List.nil_append, List.append_nil]

/-- The findings about shared state that show evidence are those on shared variables. -/
theorem filter_sharedLedger (t : Target) :
    ((analyze t).findings.filter fun f =>
        decide (f.category = .sharedLedger) && f.evidence.isSome)
      = ledgerFindings t.contract t.facts := by
  have htransfer : (transferFindings t.facts).filter
      (fun f => decide (f.category = .sharedLedger) && f.evidence.isSome) = [] :=
    List.filter_eq_nil_iff.2 fun f hf => by simp [category_transferFindings hf]
  have hledger : (ledgerFindings t.contract t.facts).filter
      (fun f => decide (f.category = .sharedLedger) && f.evidence.isSome)
      = ledgerFindings t.contract t.facts :=
    List.filter_eq_self.2 fun f hf => by simp [category_ledgerFindings hf]
  have hcycle : (cycleFindings t.facts).filter
      (fun f => decide (f.category = .sharedLedger) && f.evidence.isSome) = [] :=
    List.filter_eq_nil_iff.2 fun f hf => by simp [category_cycleFindings hf]
  have hstructure : (structureFindings t.facts).filter
      (fun f => decide (f.category = .sharedLedger) && f.evidence.isSome) = [] :=
    List.filter_eq_nil_iff.2 fun f hf => by simp [category_structureFindings hf]
  unfold analyze findings
  rw [List.filter_append, List.filter_append, List.filter_append, htransfer, hledger, hcycle,
    hstructure, List.nil_append, List.append_nil, List.append_nil]

end PonziScreen.Rules
