import PonziScreen.Proofs.ByteOrder
import PonziScreen.Proofs.Findings
import PonziScreen.Proofs.Tables

/-!
# The rule on shared variables

A variable is shared if a function that can move native currency writes it and a function that does
move native currency reads it. `Rules.ledger_findings` says that the rule reports exactly the shared
variables, in the order of their bytes, and what it reports of each, in terms of the text of the
contract alone.

The rule joins three tables: who writes, who reads, and who moves native currency. The last one is
by number, so numbers have to tell functions apart.
-/

namespace PonziScreen

/-! ## What the contract says -/

/-- A function writes a variable, can move native currency, and does not only set the contract
up. -/
def Function.IsWriter (v : String) (f : Function) : Prop :=
  f.isConstructorLike = false ∧ f.canSendEth = true ∧ ∃ s ∈ f.statements, v ∈ s.writes

/-- A function reads a variable and moves native currency, perhaps in another statement, and does
not only set the contract up. -/
def Function.IsPayer (v : String) (f : Function) : Prop :=
  f.isConstructorLike = false ∧
    (∃ s ∈ f.statements, Contains s.text ".transfer(" ∨ Contains s.text ".send(") ∧
    ∃ s ∈ f.statements, v ∈ s.reads

/-- The first declared variable of a name is a list or a mapping. -/
def Contract.HoldsRecords (c : Contract) (v : String) : Prop :=
  ∃ d ∈ c.stateVariables.find? fun d => d.name = v, Contains d.type "[]" ∨ Contains d.type "mapping"

instance (v : String) : DecidablePred (Function.IsWriter v) := fun f =>
  inferInstanceAs (Decidable (f.isConstructorLike = false ∧ f.canSendEth = true ∧
    ∃ s ∈ f.statements, v ∈ s.writes))

instance (v : String) : DecidablePred (Function.IsPayer v) := fun f =>
  inferInstanceAs (Decidable (f.isConstructorLike = false ∧
    (∃ s ∈ f.statements, Contains s.text ".transfer(" ∨ Contains s.text ".send(") ∧
    ∃ s ∈ f.statements, v ∈ s.reads))

instance (c : Contract) (v : String) : Decidable (c.HoldsRecords v) :=
  inferInstanceAs (Decidable (∃ d ∈ c.stateVariables.find? fun d => d.name = v,
    Contains d.type "[]" ∨ Contains d.type "mapping"))

namespace Rules

/-- The names of the functions of a contract that have a property, in the order of their
declarations. -/
def namesOf (c : Contract) (p : Function → Prop) [DecidablePred p] : List String :=
  (c.functions.filter fun f => p f).map Function.name

/-- The finding on a shared variable. -/
def sharedFinding (c : Contract) (v : String) : Finding where
  severity := if c.HoldsRecords v then .critical else .high
  category := .sharedLedger
  message := s!"Payouts read `{v}`, which value-moving functions write"
  evidence := some (.record [("variable", .text v),
    ("writers", .list ((namesOf c (Function.IsWriter v)).map .text)),
    ("payers", .list ((namesOf c (Function.IsPayer v)).map .text)),
    ("collection", .bool (decide (c.HoldsRecords v)))])

/-! ## What the tables say -/

section Tables

variable {c : Contract}

theorem writers_eq (v : String) :
    (((Facts.ofContract c).writes.find? v).getD []).map FunctionRef.name
      = namesOf c (Function.IsWriter v) := by
  show (((Facts.usageTable Function.writes _).find? v).getD []).map _ = _
  rw [Facts.find?_usageTable fun f _ => f.nodup_writes, List.filter_filter, List.map_map]
  refine congrArg (List.map _) (List.filter_congr fun f _ => ?_)
  rw [Bool.eq_iff_iff]
  refine Iff.trans ?_ decide_eq_true_iff.symm
  simp only [Bool.and_eq_true, Bool.not_eq_true', decide_eq_true_eq, Function.mem_writes]
  exact ⟨fun h => ⟨h.2.1, h.2.2, h.1⟩, fun h => ⟨h.2.2, h.1, h.2.1⟩⟩

/-- A function counts as a sender if it transfers value itself, since no other function has its
number. -/
theorem isSender_iff (hids : (c.functions.map Function.id).Nodup) {f : Function}
    (hf : f ∈ c.functions) : (Facts.ofContract c).isSender f.id = true ↔
      ∃ s ∈ f.statements, Contains s.text ".transfer(" ∨ Contains s.text ".send(" := by
  rw [Facts.isSender_eq, decide_eq_true_eq]
  exact Contract.transfers_iff hids hf

theorem payers_eq (hids : (c.functions.map Function.id).Nodup) (v : String) :
    payers (Facts.ofContract c) v = namesOf c (Function.IsPayer v) := by
  unfold payers
  show ((((Facts.usageTable Function.reads _).find? v).getD []).filter _).map _ = _
  rw [Facts.find?_usageTable fun f _ => f.nodup_reads, List.filter_map, List.filter_filter,
    List.filter_filter, List.map_map]
  refine congrArg (List.map _) (List.filter_congr fun f hf => ?_)
  have hsender := isSender_iff hids hf
  rw [Bool.eq_iff_iff]
  refine Iff.trans ?_ decide_eq_true_iff.symm
  show ((((Facts.ofContract c).isSender f.id) && decide (v ∈ f.reads)) &&
    !f.isConstructorLike) = true ↔ _
  simp only [Bool.and_eq_true, Bool.not_eq_true', decide_eq_true_eq, hsender, Function.mem_reads]
  exact ⟨fun h => ⟨h.2, h.1.1, h.1.2⟩, fun h => ⟨⟨h.2.1, h.2.2⟩, h.1⟩⟩

theorem isLedger_eq (v : String) : isLedger c v = decide (c.HoldsRecords v) := by
  rw [Bool.eq_iff_iff, decide_eq_true_eq]
  unfold isLedger Contract.variableNamed? Contract.HoldsRecords
  cases c.stateVariables.find? fun d => d.name = v with
  | none => simp
  | some d => simp [isCollection, includes_iff]

theorem mem_keys_writes {v : String} :
    v ∈ (Facts.ofContract c).writes.keys ↔ ∃ f ∈ c.functions, f.IsWriter v := by
  show v ∈ (Facts.usageTable Function.writes _).keys ↔ _
  rw [Facts.mem_keys_usageTable]
  simp [Function.IsWriter, Function.mem_writes, and_assoc]

theorem namesOf_ne_nil {p : Function → Prop} [DecidablePred p] :
    namesOf c p ≠ [] ↔ ∃ f ∈ c.functions, p f := by
  simp [namesOf]

end Tables

/-! ## What the rule reports -/

/-- The keys of a table in order are strictly ascending by their bytes. -/
theorem pairwise_sortedEntries {ν : Type} (t : Table String ν) :
    ((Facts.sortedEntries t).map Prod.fst).Pairwise fun a b => textBytes a < textBytes b := by
  have hsorted : ((Facts.sortedEntries t).map Prod.fst).Pairwise
      fun a b => textBytes a ≤ textBytes b :=
    List.pairwise_map.2 (pairwise_sort_textBytes Prod.fst t.entries)
  have hnodup : ((Facts.sortedEntries t).map Prod.fst).Nodup :=
    (((List.mergeSort_perm t.entries _).map Prod.fst).nodup_iff).2 t.nodup
  refine (hsorted.and hnodup).imp fun h => ?_
  rcases List.le_iff_lt_or_eq.1 h.1 with hlt | heq
  · exact hlt
  · exact absurd (textBytes_injective heq) h.2

theorem ledgerFinding?_eq {c : Contract} (hids : (c.functions.map Function.id).Nodup)
    {entry : String × List FunctionRef} (h : entry ∈ (Facts.ofContract c).writes.entries) :
    ledgerFinding? c (Facts.ofContract c) entry
      = if namesOf c (Function.IsPayer entry.1) = [] then none
        else some (sharedFinding c entry.1) := by
  have hwriters : entry.2.map FunctionRef.name = namesOf c (Function.IsWriter entry.1) := by
    rw [← writers_eq, Table.mem_entries_iff.1 h]
    rfl
  have htexts : (entry.2.map fun f => Value.text f.name)
      = (namesOf c (Function.IsWriter entry.1)).map Value.text := by
    rw [← hwriters, List.map_map]
    rfl
  unfold ledgerFinding? sharedFinding
  simp only [payers_eq hids, isLedger_eq, List.isEmpty_iff, htexts, decide_eq_true_eq]

/-- The rule on shared variables is sound and complete: it reports every variable that has a writer
and a payer, each once, in the order of the bytes of their names. -/
theorem ledger_findings (c : Contract) (hids : (c.functions.map Function.id).Nodup) :
    ∃ names : List String, names.Pairwise (fun a b => textBytes a < textBytes b) ∧
      (∀ v, v ∈ names ↔ (∃ f ∈ c.functions, f.IsWriter v) ∧ ∃ f ∈ c.functions, f.IsPayer v) ∧
      ((analyze (Target.ofContract c)).findings.filter fun f =>
          decide (f.category = .sharedLedger) && f.evidence.isSome)
        = names.map (sharedFinding c) := by
  let writes := (Facts.ofContract c).writes
  let paid := fun entry : String × List FunctionRef =>
    decide (namesOf c (Function.IsPayer entry.1) ≠ [])
  have hentry : ∀ {entry}, entry ∈ Facts.sortedEntries writes ↔ entry ∈ writes.entries :=
    List.mem_mergeSort
  -- a name without a writer is not in the table of writes, one without a payer is skipped
  refine ⟨((Facts.sortedEntries writes).filter paid).map Prod.fst, ?_, ?_, ?_⟩
  · exact (pairwise_sortedEntries writes).sublist (List.filter_sublist.map _)
  · intro v
    rw [← mem_keys_writes, ← namesOf_ne_nil]
    constructor
    · intro hv
      obtain ⟨entry, he, rfl⟩ := List.mem_map.1 hv
      obtain ⟨hmem, hpaid⟩ := List.mem_filter.1 he
      exact ⟨List.mem_map_of_mem (hentry.1 hmem), of_decide_eq_true hpaid⟩
    · rintro ⟨hkey, hpaid⟩
      obtain ⟨entry, he, rfl⟩ := List.mem_map.1 hkey
      exact List.mem_map_of_mem (List.mem_filter.2 ⟨hentry.2 he, decide_eq_true hpaid⟩)
  · rw [filter_sharedLedger, List.map_map, ← List.filterMap_eq_map, List.filterMap_filter]
    refine List.filterMap_congr fun entry he => ?_
    refine (ledgerFinding?_eq hids (hentry.1 he)).trans ?_
    by_cases h : namesOf c (Function.IsPayer entry.1) = []
    · simp [paid, h]
    · simp [paid, h]

/-- Deposits write the balances that payouts read. -/
theorem ledger_findings_balances :
    ∃ (c : Contract) (names : List String), c.functions.length = 2 ∧
      (c.functions.map Function.id).Nodup ∧ "balances" ∈ names ∧
      names.Pairwise (fun a b => textBytes a < textBytes b) ∧
      ((analyze (Target.ofContract c)).findings.filter fun f =>
          decide (f.category = .sharedLedger) && f.evidence.isSome)
        = names.map (sharedFinding c) := by
  let deposit : Function := ⟨⟨1⟩, "deposit", false, false, true,
    [⟨some "balances[msg.sender] += msg.value", [], ["balances"]⟩], []⟩
  let payout : Function := ⟨⟨2⟩, "payout", false, false, true,
    [⟨some "amount = balances[to]", ["balances"], []⟩, ⟨some "to.transfer(amount)", [], []⟩], []⟩
  let c : Contract := ⟨"Bank", [], [⟨"balances", "mapping(address => uint)", none⟩],
    [deposit, payout]⟩
  have hids : (c.functions.map Function.id).Nodup := by decide
  obtain ⟨names, hsorted, hmem, hfindings⟩ := ledger_findings c hids
  exact ⟨c, names, rfl, hids, (hmem "balances").2 (by decide), hsorted, hfindings⟩

end Rules

end PonziScreen
