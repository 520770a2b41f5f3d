import Mathlib.Algebra.Order.BigOperators.Group.Finset
import PonziScreen.Proofs.ScoreOrder

/-!
# Padding a contract

Nobody lowers the score of a contract by adding to what its functions do (`Rules.riskScore_padded`).
Padding inserts a statement, makes a statement read or write more variables, or lets a function move
native currency.

A padded function does all that it did before (`Function.Padded.isPartOf`), so everything that the
rules count is still there. What a rule does not find any more never counts: only the remark that
nothing is transferred goes away, and it is worth no points.
-/

namespace PonziScreen

/-! ## Padding -/

/-- A change of a function that adds to what it does. Its calls and what makes it a constructor stay
as they are. -/
inductive Function.Padded : Function → Function → Prop
  /-- A statement is put somewhere into the body. -/
  | insert (f : Function) (before after : List Statement) (s : Statement) :
    Padded { f with statements := before ++ after } { f with statements := before ++ s :: after }
  /-- A statement reads or writes more variables. -/
  | use (f : Function) (before after : List Statement) (s : Statement) (reads writes : List String)
    (hreads : s.reads ⊆ reads) (hwrites : s.writes ⊆ writes) :
    Padded { f with statements := before ++ s :: after }
      { f with statements := before ++ { s with reads, writes } :: after }
  /-- The function can move native currency. -/
  | enable (f : Function) : Padded f { f with canSendEth := true }

/-- A contract in which one function is padded. -/
inductive Contract.Padded : Contract → Contract → Prop
  | function (c : Contract) (before after : List Function) {f f' : Function} (h : f.Padded f') :
    Padded (c.withFunctions (before ++ f :: after)) (c.withFunctions (before ++ f' :: after))

/-! ## Doing no less -/

/-- Another function does all that a function does, and calls the same functions. -/
structure Function.IsPartOf (f f' : Function) : Prop where
  id : f'.id = f.id
  name : f'.name = f.name
  calls : f'.calls = f.calls
  isConstructorLike : f'.isConstructorLike = f.isConstructorLike
  canSendEth : f.canSendEth = true → f'.canSendEth = true
  statements : ∀ s ∈ f.statements, ∃ s' ∈ f'.statements,
    s'.expression = s.expression ∧ s.reads ⊆ s'.reads ∧ s.writes ⊆ s'.writes

namespace Function

variable {f f' : Function}

theorem IsPartOf.refl (f : Function) : f.IsPartOf f :=
  ⟨rfl, rfl, rfl, rfl, fun h => h, fun s hs =>
    ⟨s, hs, rfl, List.Subset.refl _, List.Subset.refl _⟩⟩

/-- Padding takes nothing away. -/
theorem Padded.isPartOf (h : f.Padded f') : f.IsPartOf f' := by
  cases h with
  | insert f before after s =>
    refine ⟨rfl, rfl, rfl, rfl, fun h => h, fun t ht => ?_⟩
    refine ⟨t, ?_, rfl, List.Subset.refl _, List.Subset.refl _⟩
    rcases List.mem_append.1 ht with ht | ht
    · exact List.mem_append_left _ ht
    · exact List.mem_append_right _ (List.mem_cons_of_mem _ ht)
  | use f before after s reads writes hreads hwrites =>
    refine ⟨rfl, rfl, rfl, rfl, fun h => h, fun t ht => ?_⟩
    rcases List.mem_append.1 ht with ht | ht
    · exact ⟨t, List.mem_append_left _ ht, rfl, List.Subset.refl _, List.Subset.refl _⟩
    · rcases List.mem_cons.1 ht with rfl | ht
      · exact ⟨{ t with reads, writes }, List.mem_append_right _ List.mem_cons_self, rfl, hreads,
          hwrites⟩
      · exact ⟨t, List.mem_append_right _ (List.mem_cons_of_mem _ ht), rfl, List.Subset.refl _,
          List.Subset.refl _⟩
  | enable =>
    exact ⟨rfl, rfl, rfl, rfl, fun _ => rfl, (IsPartOf.refl f).statements⟩

theorem IsPartOf.transfers (h : f.IsPartOf f') (ht : f.Transfers) : f'.Transfers := by
  obtain ⟨s, hs, htext⟩ := ht
  obtain ⟨s', hs', hexpression, -, -⟩ := h.statements s hs
  refine ⟨s', hs', ?_⟩
  rwa [Statement.text, hexpression]

theorem IsPartOf.isWriter (h : f.IsPartOf f') {v : String} (hv : f.IsWriter v) : f'.IsWriter v := by
  obtain ⟨hplain, hsend, s, hs, hwrites⟩ := hv
  obtain ⟨s', hs', -, -, hsub⟩ := h.statements s hs
  exact ⟨h.isConstructorLike.trans hplain, h.canSendEth hsend, s', hs', hsub hwrites⟩

end Function

namespace Contract

/-- Another contract has the same declarations, and its functions do no less. -/
structure IsPartOf (c c' : Contract) : Prop where
  functions : List.Forall₂ Function.IsPartOf c.functions c'.functions
  structures : c'.structures = c.structures
  stateVariables : c'.stateVariables = c.stateVariables

theorem Padded.isPartOf {c c' : Contract} (h : c.Padded c') : c.IsPartOf c' := by
  cases h with
  | function c before after h =>
    refine ⟨?_, rfl, rfl⟩
    have hrefl : ∀ fs : List Function, List.Forall₂ Function.IsPartOf fs fs :=
      fun fs => List.forall₂_same.2 fun f _ => Function.IsPartOf.refl f
    exact List.rel_append (hrefl before) (List.Forall₂.cons h.isPartOf (hrefl after))

variable {c c' : Contract}

theorem IsPartOf.exists_function (h : c.IsPartOf c') {f : Function} (hf : f ∈ c.functions) :
    ∃ f' ∈ c'.functions, f.IsPartOf f' := by
  obtain ⟨i, hi, rfl⟩ := List.mem_iff_getElem.1 hf
  have hi' : i < c'.functions.length := h.functions.length_eq ▸ hi
  exact ⟨c'.functions[i], List.getElem_mem hi', h.functions.get hi hi'⟩

theorem IsPartOf.transfers (h : c.IsPartOf c') {f : FunctionId} (hf : c.Transfers f) :
    c'.Transfers f := by
  obtain ⟨d, hd, rfl, ht⟩ := hf
  obtain ⟨d', hd', hpart⟩ := h.exists_function hd
  exact ⟨d', hd', hpart.id, hpart.transfers ht⟩

theorem IsPartOf.pays (h : c.IsPartOf c') {v : String} {f f' : Function} (hpart : f.IsPartOf f')
    (hf : c.Pays v f) : c'.Pays v f' := by
  obtain ⟨hplain, ht, s, hs, hreads⟩ := hf
  obtain ⟨s', hs', -, hsub, -⟩ := hpart.statements s hs
  exact ⟨hpart.isConstructorLike.trans hplain, hpart.id ▸ h.transfers ht, s', hs', hsub hreads⟩

theorem IsPartOf.senders (h : c.IsPartOf c') : c.senders ⊆ c'.senders :=
  fun _ hf => mem_senders.2 (h.transfers (mem_senders.1 hf))

theorem IsPartOf.sharedVariables (h : c.IsPartOf c') : c.sharedVariables ⊆ c'.sharedVariables := by
  intro v hv
  obtain ⟨⟨f, hf, hwriter⟩, k, hk, hpays⟩ := mem_sharedVariables.1 hv
  obtain ⟨f', hf', hpart⟩ := h.exists_function hf
  obtain ⟨k', hk', hpart'⟩ := h.exists_function hk
  exact mem_sharedVariables.2 ⟨⟨f', hf', hpart.isWriter hwriter⟩, k', hk', h.pays hpart' hpays⟩

/-- The call graph only knows functions by number and name, and their calls. -/
theorem IsPartOf.calls (h : c.IsPartOf c') :
    CallGraph.ofContract c' = CallGraph.ofContract c := by
  have hfold : ∀ {fs fs' : List Function}, List.Forall₂ Function.IsPartOf fs fs' →
      ∀ g, fs'.foldl CallGraph.addFunction g = fs.foldl CallGraph.addFunction g := by
    intro fs fs' hparts
    induction hparts with
    | nil => exact fun g => rfl
    | @cons f f' fs fs' hpart _ ih =>
      intro g
      have hstep : g.addFunction f' = g.addFunction f := by
        unfold CallGraph.addFunction
        rw [hpart.id, hpart.name, hpart.calls]
      rw [List.foldl_cons, List.foldl_cons, hstep, ih]
  exact hfold h.functions _

/-- A class with a payout on a cycle remains one. -/
theorem IsPartOf.payoutCycles (h : c.IsPartOf c') : c.payoutCycles ≤ c'.payoutCycles := by
  have hsame : CallGraph.Renumbers (Equiv.refl Nat) (CallGraph.ofContract c)
      (CallGraph.ofContract c') := by
    rw [h.calls]
    exact ⟨fun _ => rfl, fun _ _ => Iff.rfl⟩
  have hsub : Rules.findingClasses (Facts.ofContract c)
      ⊆ Rules.findingClasses (Facts.ofContract c') := by
    intro s hs
    have hmem := findingClasses_of_renumbers hsame (fun f => h.transfers) hs
    rwa [Equiv.refl_toEmbedding, Finset.map_refl] at hmem
  have hclosed : (Facts.ofContract c).calls.Closed := (CallGraph.tidy_ofContract c).closed
  exact ((Rules.nodup_findingClasses hclosed).subperm hsub).length_le

theorem IsPartOf.investorRecords (h : c.IsPartOf c') : c'.investorRecords = c.investorRecords := by
  unfold Contract.investorRecords Facts.structureTable
  rw [h.structures]

theorem IsPartOf.holdsRecords (h : c.IsPartOf c') (v : String) :
    c'.HoldsRecords v ↔ c.HoldsRecords v := by
  unfold HoldsRecords
  rw [h.stateVariables]

end Contract

/-! ## Points -/

namespace Rules

variable {c c' : Contract}

/-- Doing more is worth no fewer points. -/
theorem totalPoints_mono (h : c.IsPartOf c') : totalPoints c ≤ totalPoints c' := by
  have hsenders : c.senders.card ≤ c'.senders.card := Finset.card_le_card h.senders
  have hledgers : ∑ v ∈ c.sharedVariables, (if c.HoldsRecords v then 50 else 30)
      ≤ ∑ v ∈ c'.sharedVariables, (if c'.HoldsRecords v then 50 else 30) := by
    simp only [h.holdsRecords]
    exact Finset.sum_le_sum_of_subset h.sharedVariables
  have hcycles := h.payoutCycles
  have hrecords := h.investorRecords
  unfold totalPoints
  omega

theorem riskScore_mono (h : c.IsPartOf c') :
    (analyze (Target.ofContract c)).riskScore ≤ (analyze (Target.ofContract c')).riskScore := by
  rw [UInt8.le_iff_toNat_le, toNat_riskScore, toNat_riskScore]
  exact min_le_min_right 100 (totalPoints_mono h)

/-- However often a contract is padded, its score does not fall. -/
theorem riskScore_padded (h : Relation.ReflTransGen Contract.Padded c c') :
    (analyze (Target.ofContract c)).riskScore ≤ (analyze (Target.ofContract c')).riskScore := by
  induction h with
  | refl => exact UInt8.le_refl _
  | tail _ hpadded ih => exact UInt8.le_trans ih (riskScore_mono hpadded.isPartOf)

/-- Deposits come to be able to move currency, payouts come to transfer it and to read one more
variable. After that the two share the balances. -/
theorem riskScore_padded_balances :
    ∃ c c' : Contract, Relation.ReflTransGen Contract.Padded c c' ∧
      c.senders = ∅ ∧ "balances" ∉ c.sharedVariables ∧
      c'.senders = {⟨2⟩} ∧ "balances" ∈ c'.sharedVariables ∧
      (analyze (Target.ofContract c)).riskScore ≤ (analyze (Target.ofContract c')).riskScore := by
  let write : Statement := ⟨some "balances[msg.sender] += msg.value", [], ["balances"]⟩
  let read : Statement := ⟨some "amount = balances[to]", ["balances"], []⟩
  let transfer : Statement := ⟨some "to.transfer(amount)", [], []⟩
  let deposit : Function := ⟨⟨1⟩, "deposit", false, false, false, [write], []⟩
  let payout : Function := ⟨⟨2⟩, "payout", false, false, true, [read], []⟩
  let c : Contract := ⟨"Bank", [], [⟨"balances", "mapping(address => uint)", none⟩],
    [deposit, payout]⟩
  let c₁ := c.withFunctions [{ deposit with canSendEth := true }, payout]
  let c₂ := c₁.withFunctions [{ deposit with canSendEth := true },
    { payout with statements := [read, transfer] }]
  let c₃ := c₂.withFunctions [{ deposit with canSendEth := true },
    { payout with statements := [{ read with reads := ["owner", "balances"] }, transfer] }]
  have h₁ : c.Padded c₁ := .function c [] [payout] (.enable deposit)
  have h₂ : c₁.Padded c₂ :=
    .function c₁ [{ deposit with canSendEth := true }] [] (.insert payout [read] [] transfer)
  have h₃ : c₂.Padded c₃ :=
    .function c₂ [{ deposit with canSendEth := true }] []
      (.use payout [] [transfer] read ["owner", "balances"] [] (by decide) (by decide))
  have h : Relation.ReflTransGen Contract.Padded c c₃ :=
    ((Relation.ReflTransGen.single h₁).tail h₂).tail h₃
  refine ⟨c, c₃, h, by decide, ?_, by decide, ?_, riskScore_padded h⟩
  · rw [Contract.mem_sharedVariables]
    decide
  · rw [Contract.mem_sharedVariables]
    decide

end Rules

end PonziScreen
