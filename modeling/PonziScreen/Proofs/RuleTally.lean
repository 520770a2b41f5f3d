import Mathlib.Algebra.BigOperators.Group.Finset.Basic
import PonziScreen.Proofs.CycleRule
import PonziScreen.Proofs.LedgerRule

/-!
# What the rules count

How serious a finding is and what it is about depends on very little of a contract: on which
functions move native currency, which variables are shared, which classes of the call graph hold a
payout on a cycle, and how many structures keep records of investors. `Rules.kinds_findings` puts
the findings together from these, and `Rules.toNat_riskScore` the risk score.

Functions may share a number here. A function then pays if any function of its number does.
-/

namespace PonziScreen

/-- How serious a finding is, and what it is about. -/
def Finding.kind (f : Finding) : Severity × Category := (f.severity, f.category)

/-- The kinds of some findings, in no order. -/
def Finding.kinds (found : List Finding) : Multiset (Severity × Category) := found.map Finding.kind

theorem Finding.kinds_append (found found' : List Finding) :
    kinds (found ++ found') = kinds found + kinds found' := by
  rw [kinds, List.map_append, ← Multiset.coe_add]
  rfl

/-! ## What the contract says -/

namespace Contract

/-- A function reads a variable, counts as one that moves native currency, and does not only set the
contract up. -/
def Pays (c : Contract) (v : String) (f : Function) : Prop :=
  f.isConstructorLike = false ∧ c.Transfers f.id ∧ ∃ s ∈ f.statements, v ∈ s.reads

instance (c : Contract) (v : String) : DecidablePred (c.Pays v) := fun f =>
  inferInstanceAs (Decidable (f.isConstructorLike = false ∧ c.Transfers f.id ∧
    ∃ s ∈ f.statements, v ∈ s.reads))

/-- The numbers of the functions that move native currency. -/
def senders (c : Contract) : Finset FunctionId :=
  ((c.functions.filter fun d => d.Transfers).map Function.id).toFinset

theorem mem_senders {c : Contract} {f : FunctionId} : f ∈ c.senders ↔ c.Transfers f := by
  rw [senders, List.mem_toFinset, List.mem_map]
  simp only [List.mem_filter, decide_eq_true_eq, Transfers]
  constructor
  · rintro ⟨d, ⟨hd, ht⟩, hid⟩
    exact ⟨d, hd, hid, ht⟩
  · rintro ⟨d, hd, hid, ht⟩
    exact ⟨d, ⟨hd, ht⟩, hid⟩

/-- The variables that functions with currency to move write, and paying functions read. -/
def sharedVariables (c : Contract) : Finset String :=
  (c.functions.flatMap Function.writes).toFinset.filter fun v =>
    (∃ f ∈ c.functions, f.IsWriter v) ∧ ∃ f ∈ c.functions, c.Pays v f

theorem mem_sharedVariables {c : Contract} {v : String} :
    v ∈ c.sharedVariables ↔
      (∃ f ∈ c.functions, f.IsWriter v) ∧ ∃ f ∈ c.functions, c.Pays v f := by
  rw [sharedVariables, Finset.mem_filter, List.mem_toFinset, List.mem_flatMap]
  refine and_iff_right_of_imp ?_
  rintro ⟨⟨f, hf, -, -, hwrites⟩, -⟩
  exact ⟨f, hf, Function.mem_writes.2 hwrites⟩

/-- The number of classes of the call graph that hold a cycle and a function that moves native
currency. -/
def payoutCycles (c : Contract) : Nat := (Rules.findingClasses (Facts.ofContract c)).length

/-- The number of structures that keep records of investors. -/
def investorRecords (c : Contract) : Nat :=
  (Facts.structureTable c).values.countP Rules.isInvestorRecord

end Contract

namespace Rules

variable {c : Contract}

/-! ## One rule at a time -/

theorem senders_eq (c : Contract) :
    (Facts.ofContract c).sends.keys.toFinset = c.senders := by
  ext f
  rw [List.mem_toFinset, ← Table.contains_iff, Contract.mem_senders,
    ← decide_eq_true_iff (p := c.Transfers f), ← Facts.isSender_eq]
  rfl

/-- What the findings on transfers are, if some functions move native currency and if none does. -/
def transferKinds (senders : Nat) : Multiset (Severity × Category) :=
  if senders = 0 then {(.info, .valueTransfer)}
  else Multiset.replicate senders (.low, .valueTransfer)

theorem kinds_transferFindings (c : Contract) :
    Finding.kinds (transferFindings (Facts.ofContract c)) = transferKinds c.senders.card := by
  have hcard : c.senders.card = (Facts.ofContract c).sends.entries.length := by
    have hnodup : (Facts.ofContract c).sends.keys.Nodup := (Facts.ofContract c).sends.nodup
    rw [← senders_eq, List.toFinset_card_of_nodup hnodup]
    exact List.length_map _
  unfold Finding.kinds transferFindings transferKinds
  rw [hcard]
  cases hentries : (Facts.ofContract c).sends.entries with
  | nil => rfl
  | cons e rest =>
    have hlength : ((Facts.ofContract c).sends.values.mergeSort
        fun a b => decide (a.id.value ≤ b.id.value)).length = (e :: rest).length := by
      rw [List.length_mergeSort, Table.values, hentries, List.length_map]
    have hkinds : ∀ sorted : List SendFunction, (sorted.map sendFinding).map Finding.kind
        = List.replicate sorted.length (Severity.low, Category.valueTransfer) := by
      intro sorted
      rw [List.map_map, ← List.map_const']
      rfl
    rw [List.isEmpty_cons, if_neg Bool.false_ne_true, hkinds, hlength, if_neg (by simp)]
    rfl

/-- What the finding on a shared variable is. -/
def ledgerKind (c : Contract) (v : String) : Severity × Category :=
  (if c.HoldsRecords v then .critical else .high, .sharedLedger)

theorem payers_ne_nil {v : String} :
    payers (Facts.ofContract c) v ≠ [] ↔ ∃ f ∈ c.functions, c.Pays v f := by
  have hreaders : ((Facts.ofContract c).reads.find? v).getD []
      = ((c.functions.filter fun f => !f.isConstructorLike).filter fun f => v ∈ f.reads).map
          Function.ref :=
    Facts.find?_usageTable (fun f _ => f.nodup_reads) v
  unfold payers
  rw [hreaders, ne_eq, List.map_eq_nil_iff, List.filter_eq_nil_iff]
  constructor
  · intro h
    by_contra hnone
    refine h fun r hr hsends => hnone ?_
    obtain ⟨f, hf, rfl⟩ := List.mem_map.1 hr
    obtain ⟨hf, hreads⟩ := List.mem_filter.1 hf
    obtain ⟨hf, hplain⟩ := List.mem_filter.1 hf
    rw [Facts.isSender_eq, decide_eq_true_eq] at hsends
    exact ⟨f, hf, by simpa using hplain, hsends, Function.mem_reads.1 (of_decide_eq_true hreads)⟩
  · rintro ⟨f, hf, hplain, hsends, hreads⟩ h
    have hreader : f.ref ∈ ((c.functions.filter fun f => !f.isConstructorLike).filter
        fun f => v ∈ f.reads).map Function.ref :=
      List.mem_map_of_mem (List.mem_filter.2
        ⟨List.mem_filter.2 ⟨hf, by simpa using hplain⟩,
          decide_eq_true (Function.mem_reads.2 hreads)⟩)
    refine h f.ref hreader ?_
    rw [Facts.isSender_eq, decide_eq_true_eq]
    exact hsends

theorem kind_ledgerFinding? (entry : String × List FunctionRef) :
    (ledgerFinding? c (Facts.ofContract c) entry).map Finding.kind
      = if ∃ f ∈ c.functions, c.Pays entry.1 f then some (ledgerKind c entry.1) else none := by
  unfold ledgerFinding?
  dsimp only
  by_cases h : ∃ f ∈ c.functions, c.Pays entry.1 f
  · rw [if_pos h, if_neg (by simpa using payers_ne_nil.2 h), isLedger_eq]
    simp [Finding.kind, ledgerKind]
  · rw [if_neg h, if_pos (by simpa using mt payers_ne_nil.1 h)]
    rfl

theorem kinds_ledgerFindings (c : Contract) :
    Finding.kinds (ledgerFindings c (Facts.ofContract c))
      = c.sharedVariables.val.map (ledgerKind c) := by
  let writes := (Facts.ofContract c).writes
  let paid := fun v => decide (∃ f ∈ c.functions, c.Pays v f)
  have hkinds : (ledgerFindings c (Facts.ofContract c)).map Finding.kind
      = (((Facts.sortedEntries writes).map Prod.fst).filter paid).map (ledgerKind c) := by
    unfold ledgerFindings
    rw [List.map_filterMap, List.filter_map, List.map_map, ← List.filterMap_eq_map,
      List.filterMap_filter]
    refine List.filterMap_congr fun entry _ => ?_
    rw [kind_ledgerFinding?]
    simp [paid]
  have hnodup : (((Facts.sortedEntries writes).map Prod.fst).filter paid).Nodup :=
    ((((List.mergeSort_perm writes.entries _).map Prod.fst).nodup_iff).2 writes.nodup).filter _
  have hnames : (((Facts.sortedEntries writes).map Prod.fst).filter paid : Multiset String)
      = c.sharedVariables.val := by
    refine (Multiset.Nodup.ext (Multiset.coe_nodup.2 hnodup) c.sharedVariables.nodup).2
      fun v => ?_
    rw [Multiset.mem_coe, Finset.mem_val, Contract.mem_sharedVariables, ← mem_keys_writes,
      List.mem_filter, decide_eq_true_eq]
    exact and_congr_left' (((List.mergeSort_perm writes.entries _).map Prod.fst).mem_iff)
  rw [Finding.kinds, hkinds, ← hnames]
  rfl

theorem kinds_cycleFindings (c : Contract) :
    Finding.kinds (cycleFindings (Facts.ofContract c))
      = Multiset.replicate c.payoutCycles (.medium, .callStructure) := by
  have hclosed : (Facts.ofContract c).calls.Closed := (CallGraph.tidy_ofContract c).closed
  have hclasses := forall₂_cycleFindings hclosed
  refine congrArg Multiset.ofList (List.eq_replicate_iff.2 ⟨?_, fun k hk => ?_⟩)
  · rw [List.length_map, Contract.payoutCycles, hclasses.length_eq]
  · obtain ⟨f, hf, rfl⟩ := List.mem_map.1 hk
    obtain ⟨i, hi, rfl⟩ := List.mem_iff_getElem.1 hf
    have hfinding := hclasses.get (hclasses.length_eq.symm ▸ hi) hi
    exact Prod.ext hfinding.severity hfinding.category

theorem kinds_structureFindings (c : Contract) :
    Finding.kinds (structureFindings (Facts.ofContract c))
      = Multiset.replicate c.investorRecords (.low, .sharedLedger) := by
  have hlength : (((Facts.sortedEntries (Facts.structureTable c)).map Prod.snd).filter
      isInvestorRecord).length = c.investorRecords := by
    rw [← List.countP_eq_length_filter]
    exact ((List.mergeSort_perm _ _).map Prod.snd).countP_eq _
  rw [← hlength, ← Multiset.coe_replicate, ← List.map_const', Finding.kinds, structureFindings,
    List.map_map]
  rfl

/-! ## All rules -/

/-- How serious the findings are and what they are about follows from the functions that move native
currency, the shared variables, the cycles with payouts and the records of investors. -/
theorem kinds_findings (c : Contract) :
    Finding.kinds (analyze (Target.ofContract c)).findings
      = transferKinds c.senders.card + c.sharedVariables.val.map (ledgerKind c)
        + Multiset.replicate c.payoutCycles (.medium, .callStructure)
        + Multiset.replicate c.investorRecords (.low, .sharedLedger) := by
  rw [← kinds_transferFindings, ← kinds_ledgerFindings, ← kinds_cycleFindings,
    ← kinds_structureFindings, ← Finding.kinds_append, ← Finding.kinds_append,
    ← Finding.kinds_append]
  rfl

/-- The points of all findings. -/
def totalPoints (c : Contract) : Nat :=
  5 * c.senders.card + ∑ v ∈ c.sharedVariables, (if c.HoldsRecords v then 50 else 30)
    + 15 * c.payoutCycles + 5 * c.investorRecords

theorem toNat_riskScore_eq (found : List Finding) :
    (riskScore found).toNat
      = min ((Finding.kinds found).map fun k => points k.1).sum 100 := by
  unfold riskScore Finding.kinds
  rw [← List.sum_eq_foldl, UInt8.toNat_ofNat', Nat.mod_eq_of_lt (by omega)]
  simp [Finding.kind, Function.comp_def]

/-- The risk score is the number of points, at most 100. -/
theorem toNat_riskScore (c : Contract) :
    (analyze (Target.ofContract c)).riskScore.toNat = min (totalPoints c) 100 := by
  have htransfers : ∀ n, ((transferKinds n).map fun k => points k.1).sum = 5 * n := by
    intro n
    unfold transferKinds
    split
    · rename_i h
      simp [h, points]
    · simp [points, Nat.mul_comm]
  have hledgers : ((c.sharedVariables.val.map (ledgerKind c)).map fun k => points k.1).sum
      = ∑ v ∈ c.sharedVariables, (if c.HoldsRecords v then 50 else 30) := by
    rw [Multiset.map_map]
    refine Finset.sum_congr rfl fun v _ => ?_
    by_cases h : c.HoldsRecords v <;> simp [ledgerKind, h, points]
  show (riskScore (analyze (Target.ofContract c)).findings).toNat = _
  rw [toNat_riskScore_eq, kinds_findings]
  simp only [Multiset.map_add, Multiset.sum_add, htransfers, hledgers]
  simp [points, totalPoints, Nat.mul_comm]

end Rules

end PonziScreen
