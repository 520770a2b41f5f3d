import PonziScreen.Proofs.DeclarationOrder
import PonziScreen.Proofs.RuleTally

/-!
# The score and the order of declarations

What the rules find does not depend on the order in which the functions of a contract are declared
(`Rules.analyze_withFunctions`): the score stays the same, and so do the findings as far as their
severities and categories go. Only names and positions in their texts may differ.

Most of what the rules count is said of the functions of a contract as a set. The classes of the
call graph are sets of nodes, which have other numbers in the other order. `CallGraph.Renumbers`
says that one call graph has the nodes of another one under new numbers; then its classes are those
of the other one under new numbers (`CallGraph.Renumbers.isClass`).
-/

namespace PonziScreen

variable {c : Contract} {declared : List Function}

/-! ## Call graphs with other numbers -/

namespace CallGraph

/-- The nodes of the second graph are those of the first one under the numbers that `σ` gives. -/
structure Renumbers (σ : Equiv.Perm Nat) (g g' : CallGraph) : Prop where
  functions : ∀ v, g'.functions[σ v]? = g.functions[v]?
  calls : ∀ v w, g'.Calls (σ v) (σ w) ↔ g.Calls v w

namespace Renumbers

variable {σ : Equiv.Perm Nat} {g g' : CallGraph}

theorem symm (h : Renumbers σ g g') : Renumbers σ.symm g' g where
  functions v := by rw [← h.functions, σ.apply_symm_apply]
  calls v w := by rw [← h.calls, σ.apply_symm_apply, σ.apply_symm_apply]

theorem lt_nodeCount (h : Renumbers σ g g') {v : Nat} : σ v < g'.nodeCount ↔ v < g.nodeCount := by
  rw [← length_functions, ← length_functions, ← not_iff_not, not_lt, not_lt,
    ← List.getElem?_eq_none_iff, ← List.getElem?_eq_none_iff, h.functions]

theorem reaches (h : Renumbers σ g g') {v w : Nat} (hvw : g.Reaches v w) :
    g'.Reaches (σ v) (σ w) :=
  Relation.ReflTransGen.lift σ (fun a b hab => (h.calls a b).2 hab) _ _ hvw

theorem together (h : Renumbers σ g g') {v w : Nat} :
    g'.Together (σ v) (σ w) ↔ g.Together v w := by
  constructor
  · rintro ⟨hvw, hwv⟩
    have hvw := h.symm.reaches hvw
    have hwv := h.symm.reaches hwv
    rw [σ.symm_apply_apply, σ.symm_apply_apply] at hvw hwv
    exact ⟨hvw, hwv⟩
  · rintro ⟨hvw, hwv⟩
    exact ⟨h.reaches hvw, h.reaches hwv⟩

/-- A class is a class under the new numbers. -/
theorem isClass (h : Renumbers σ g g') {s : Finset Nat} (hs : g.IsClass s) :
    g'.IsClass (s.map σ.toEmbedding) := by
  obtain ⟨v, hv, hmem⟩ := hs
  refine ⟨σ v, h.lt_nodeCount.2 hv, fun w => ?_⟩
  rw [Finset.mem_map_equiv, hmem, ← h.together, σ.apply_symm_apply]

theorem holdsCycle (h : Renumbers σ g g') {s : Finset Nat} (hs : g.HoldsCycle s) :
    g'.HoldsCycle (s.map σ.toEmbedding) := by
  rcases hs with hcard | ⟨v, hv, hcall⟩
  · exact Or.inl (by rwa [Finset.card_map])
  · exact Or.inr ⟨σ v, Finset.mem_map_of_mem _ hv, (h.calls v v).2 hcall⟩

end Renumbers

/-- With its functions in another order, the call graph of a contract has the same nodes under new
numbers. -/
theorem exists_renumbers (h : declared.Perm c.functions) :
    ∃ σ, Renumbers σ (ofContract c) (ofContract (c.withFunctions declared)) := by
  obtain ⟨p, q, hfunctions, -, hedges⟩ := exists_reorder h rfl rfl
  refine ⟨⟨renumber p, renumber p.symm, renumber_symm p, fun v => renumber_symm p.symm v⟩, ?_, ?_⟩
  · intro v
    show (ofContract (c.withFunctions declared)).functions[renumber p v]? = _
    by_cases hv : v < (ofContract c).nodeCount
    · rw [hfunctions, getElem?_reorder p (length_functions _) hv]
    · have hlength : (ofContract (c.withFunctions declared)).functions.length
          = (ofContract c).nodeCount := by
        rw [hfunctions, length_reorder, length_functions]
      rw [renumber, dif_neg hv, List.getElem?_eq_none (by omega),
        List.getElem?_eq_none (by rw [length_functions]; omega)]
  · intro v w
    have hinjective : Function.Injective (renumberEdge p) := fun e e' he =>
      Prod.ext (renumber_injective p (congrArg Prod.fst he))
        (renumber_injective p (congrArg Prod.snd he))
    show renumberEdge p (v, w) ∈ (ofContract (c.withFunctions declared)).edges ↔ _
    rw [hedges, List.mem_map_of_injective hinjective, (reorder_perm q _).mem_iff]
    rfl

end CallGraph

/-! ## What the rules count -/

namespace Contract

theorem pays_withFunctions (h : declared.Perm c.functions) (v : String) (f : Function) :
    (c.withFunctions declared).Pays v f ↔ c.Pays v f := by
  unfold Pays
  rw [transfers_withFunctions h]

theorem senders_withFunctions (h : declared.Perm c.functions) :
    (c.withFunctions declared).senders = c.senders := by
  ext f
  rw [mem_senders, mem_senders, transfers_withFunctions h]

theorem sharedVariables_withFunctions (h : declared.Perm c.functions) :
    (c.withFunctions declared).sharedVariables = c.sharedVariables := by
  ext v
  rw [mem_sharedVariables, mem_sharedVariables]
  simp only [pays_withFunctions h]
  show (∃ f ∈ declared, _) ∧ (∃ f ∈ declared, _) ↔ _
  simp only [h.mem_iff]

theorem sendsAt_of_renumbers {σ : Equiv.Perm Nat} {c c' : Contract}
    (hσ : CallGraph.Renumbers σ (CallGraph.ofContract c) (CallGraph.ofContract c'))
    (hsends : ∀ f, c.Transfers f → c'.Transfers f) {v : Nat}
    (hv : (Facts.ofContract c).SendsAt v) : (Facts.ofContract c').SendsAt (σ v) := by
  obtain ⟨n, hn, hsender⟩ := hv
  have hfunction : (CallGraph.ofContract c').nodes[σ v]?.map CallNode.function
      = some n.function := by
    rw [← List.getElem?_map, ← CallGraph.functions, hσ.functions, CallGraph.functions,
      List.getElem?_map, show (CallGraph.ofContract c).nodes[v]? = some n from hn, Option.map_some]
  obtain ⟨n', hn', heq⟩ := Option.map_eq_some_iff.1 hfunction
  refine ⟨n', hn', ?_⟩
  rw [Facts.isSender_eq, decide_eq_true_eq] at hsender ⊢
  exact heq ▸ hsends _ hsender

/-- A class with a payout on a cycle is one under the new numbers. -/
theorem findingClasses_of_renumbers {σ : Equiv.Perm Nat} {c c' : Contract}
    (hσ : CallGraph.Renumbers σ (CallGraph.ofContract c) (CallGraph.ofContract c'))
    (hsends : ∀ f, c.Transfers f → c'.Transfers f) {s : Finset Nat}
    (hs : s ∈ Rules.findingClasses (Facts.ofContract c)) :
    s.map σ.toEmbedding ∈ Rules.findingClasses (Facts.ofContract c') := by
  obtain ⟨hclass, hcycle, v, hv, hsender⟩ :=
    (Rules.mem_findingClasses (CallGraph.tidy_ofContract c).closed).1 hs
  exact (Rules.mem_findingClasses (CallGraph.tidy_ofContract c').closed).2
    ⟨hσ.isClass hclass, hσ.holdsCycle hcycle, σ v, Finset.mem_map_of_mem _ hv,
      sendsAt_of_renumbers hσ hsends hsender⟩

theorem payoutCycles_withFunctions (h : declared.Perm c.functions) :
    (c.withFunctions declared).payoutCycles = c.payoutCycles := by
  obtain ⟨σ, hσ⟩ := CallGraph.exists_renumbers h
  let classes := Rules.findingClasses (Facts.ofContract c)
  let classes' := Rules.findingClasses (Facts.ofContract (c.withFunctions declared))
  have hperm : classes'.Perm (classes.map fun s => s.map σ.toEmbedding) := by
    refine (List.perm_ext_iff_of_nodup
      (Rules.nodup_findingClasses (CallGraph.tidy_ofContract _).closed)
      ((Rules.nodup_findingClasses (CallGraph.tidy_ofContract c).closed).map
        (Finset.map_injective _))).2 fun s => ?_
    constructor
    · intro hs
      have hback := findingClasses_of_renumbers hσ.symm
        (fun f => (transfers_withFunctions h f).1) hs
      refine List.mem_map.2 ⟨_, hback, ?_⟩
      rw [Finset.map_map]
      simp
    · intro hs
      obtain ⟨t, ht, rfl⟩ := List.mem_map.1 hs
      exact findingClasses_of_renumbers hσ (fun f => (transfers_withFunctions h f).2) ht
  exact hperm.length_eq.trans (List.length_map _)

end Contract

namespace Rules

/-- The rules give the same score, and findings of the same severities and categories, in whatever
order the functions of a contract are declared. Functions may share a number. -/
theorem analyze_withFunctions (h : declared.Perm c.functions) :
    let result := analyze (Target.ofContract c)
    let result' := analyze (Target.ofContract (c.withFunctions declared))
    result'.riskScore = result.riskScore ∧
      (result'.findings.map fun f => (f.severity, f.category)).Perm
        (result.findings.map fun f => (f.severity, f.category)) := by
  intro result result'
  have hkinds : Finding.kinds result'.findings = Finding.kinds result.findings := by
    rw [kinds_findings, kinds_findings, Contract.senders_withFunctions h,
      Contract.sharedVariables_withFunctions h, Contract.payoutCycles_withFunctions h]
    rfl
  refine ⟨UInt8.toNat_inj.1 ?_, Multiset.coe_eq_coe.1 hkinds⟩
  show (riskScore result'.findings).toNat = (riskScore result.findings).toNat
  rw [toNat_riskScore_eq, toNat_riskScore_eq, hkinds]

/-- Two functions call each other and one of them pays out. In the other order of declarations the
one that calls comes up first, and the call graph has other numbers. -/
theorem analyze_withFunctions_payout :
    ∃ (c : Contract) (declared : List Function), declared.Perm c.functions ∧
      (CallGraph.ofContract c).functions = [⟨1⟩, ⟨2⟩] ∧
      (CallGraph.ofContract (c.withFunctions declared)).functions = [⟨2⟩, ⟨1⟩] ∧
      let result := analyze (Target.ofContract c)
      let result' := analyze (Target.ofContract (c.withFunctions declared))
      result'.riskScore = result.riskScore ∧
        (result'.findings.map fun f => (f.severity, f.category)).Perm
          (result.findings.map fun f => (f.severity, f.category)) := by
  let join : Function := ⟨⟨1⟩, "join", false, false, true,
    [⟨some "paid[msg.sender] = 0", [], ["paid"]⟩], [.function ⟨2⟩ "payout"]⟩
  let payout : Function := ⟨⟨2⟩, "payout", false, false, true,
    [⟨some "to.send(paid[to])", ["paid"], []⟩], [.function ⟨1⟩ "join"]⟩
  let c : Contract := ⟨"Pool", [], [⟨"paid", "mapping(address => uint)", none⟩], [join, payout]⟩
  have h : [payout, join].Perm c.functions := List.Perm.swap _ _ _
  exact ⟨c, [payout, join], h, by decide, by decide, analyze_withFunctions h⟩

end Rules

end PonziScreen
