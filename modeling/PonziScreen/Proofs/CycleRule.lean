import PonziScreen.Proofs.ByteOrder
import PonziScreen.Proofs.CallGraph
import PonziScreen.Proofs.Components
import PonziScreen.Proofs.Findings
import PonziScreen.Proofs.Tables

/-!
# The rule on call cycles

The findings on the structure of calls are those on the classes of mutually reachable nodes that
hold a cycle and a function that moves native currency, one finding for each such class
(`Rules.cycle_findings`).
-/

namespace PonziScreen

open CallGraph

/-- The function of a node moves native currency. -/
def Facts.SendsAt (facts : Facts) (v : Nat) : Prop :=
  ∃ n, facts.calls.nodes[v]? = some n ∧ facts.isSender n.function = true

namespace Rules

/-- The labels of the nodes of a set whose functions move native currency, in the order of the
nodes. -/
def senderLabels (facts : Facts) (s : Finset Nat) : List String :=
  let nodes := ((List.range facts.calls.nodeCount).filter fun v => v ∈ s).filterMap
    fun v => facts.calls.nodes[v]?
  (nodes.filter fun n => facts.isSender n.function).map CallNode.label

/-- What a finding on a class of nodes says: the labels of the senders, sorted by their bytes, and
the number of nodes. -/
structure CycleFinding (facts : Facts) (s : Finset Nat) (f : Finding) : Prop where
  severity : f.severity = .medium
  category : f.category = .callStructure
  message : ∃ names : List String, names.Perm (senderLabels facts s) ∧
    names.Pairwise (fun a b => textBytes a ≤ textBytes b) ∧
    f.message = "Transfer inside a call cycle (" ++ ", ".intercalate names ++ ")"
  evidence : f.evidence = some (.record [("cycle_size", .int s.card)])

/-! ## One class -/

theorem mem_sendersIn_ne_nil {facts : Facts} {component : List Nat} :
    sendersIn facts component ≠ [] ↔ ∃ v ∈ component, facts.SendsAt v := by
  unfold sendersIn
  dsimp only
  rw [ne_eq, ← List.length_eq_zero_iff, List.length_mergeSort, List.length_map,
    List.length_eq_zero_iff, List.filter_eq_nil_iff]
  constructor
  · intro h
    by_contra hnone
    refine h fun n hn hs => hnone ?_
    obtain ⟨v, hv, hget⟩ := List.mem_filterMap.1 hn
    exact ⟨v, hv, n, hget, hs⟩
  · rintro ⟨v, hv, n, hget, hs⟩ h
    exact h n (List.mem_filterMap.2 ⟨v, hv, hget⟩) hs

theorem sendersIn_perm {facts : Facts} {component : List Nat} (hnodup : component.Nodup)
    (hlt : ∀ v ∈ component, v < facts.calls.nodeCount) :
    (sendersIn facts component).Perm (senderLabels facts component.toFinset) := by
  -- sorting forgets the order in which the component lists its nodes
  have hnodes : component.Perm
      ((List.range facts.calls.nodeCount).filter fun v => v ∈ component.toFinset) := by
    refine (List.perm_ext_iff_of_nodup hnodup (List.nodup_range.filter _)).2 fun v => ?_
    simp only [List.mem_filter, List.mem_range, List.mem_toFinset, decide_eq_true_eq]
    exact ⟨fun hv => ⟨hlt v hv, hv⟩, fun hv => hv.2⟩
  unfold sendersIn senderLabels
  exact (List.mergeSort_perm _ _).trans (((hnodes.filterMap _).filter _).map _)

theorem isCyclic_iff {g : CallGraph} {component : List Nat} (hnodup : component.Nodup) :
    g.isCyclic component = true ↔ g.HoldsCycle component.toFinset := by
  unfold isCyclic HoldsCycle Calls
  rw [List.toFinset_card_of_nodup hnodup]
  simp

/-- A component has a finding if it holds a cycle and a sender. -/
theorem cycleFinding?_component {facts : Facts} (hg : facts.calls.Closed) {component : List Nat}
    (hc : component ∈ facts.calls.components) :
    match cycleFinding? facts component with
    | some f => (facts.calls.HoldsCycle component.toFinset ∧ ∃ v ∈ component, facts.SendsAt v) ∧
        CycleFinding facts component.toFinset f
    | none => ¬ (facts.calls.HoldsCycle component.toFinset ∧ ∃ v ∈ component, facts.SendsAt v) := by
  obtain ⟨hnodup, hclass⟩ := mem_components hg hc
  have hlt : ∀ v ∈ component, v < facts.calls.nodeCount :=
    fun v hv => hclass.lt hg (List.mem_toFinset.2 hv)
  have hholds : (facts.calls.isCyclic component && !(sendersIn facts component).isEmpty) = true ↔
      facts.calls.HoldsCycle component.toFinset ∧ ∃ v ∈ component, facts.SendsAt v := by
    rw [Bool.and_eq_true, isCyclic_iff hnodup, Bool.not_eq_true', ← mem_sendersIn_ne_nil,
      List.isEmpty_eq_false_iff]
  unfold cycleFinding?
  dsimp only
  by_cases h : (facts.calls.isCyclic component && !(sendersIn facts component).isEmpty) = true
  · rw [if_pos h]
    have hsenders := sendersIn_perm hnodup hlt
    refine ⟨hholds.1 h, rfl, rfl, ⟨sendersIn facts component, hsenders, ?_, ?_⟩, ?_⟩
    · exact pairwise_sort_textBytes (fun s => s) _
    · rfl
    · rw [List.toFinset_card_of_nodup hnodup]
  · rw [if_neg h]
    exact fun hboth => h (hholds.2 hboth)

/-! ## All classes -/

theorem forall₂_filterMap {β γ δ : Type} {f : β → Option γ} {g : β → δ} {keep : β → Bool}
    {r : δ → γ → Prop} {items : List β} (h : ∀ b ∈ items, match f b with
      | some c => keep b = true ∧ r (g b) c
      | none => keep b = false) :
    List.Forall₂ r ((items.filter keep).map g) (items.filterMap f) := by
  induction items with
  | nil => exact List.Forall₂.nil
  | cons b rest ih =>
    have hb := h b List.mem_cons_self
    have hrest := ih fun c hc => h c (List.mem_cons_of_mem _ hc)
    cases hf : f b with
    | none =>
      rw [hf] at hb
      rw [List.filterMap_cons_none hf, List.filter_cons_of_neg (by simp [hb])]
      exact hrest
    | some c =>
      rw [hf] at hb
      rw [List.filterMap_cons_some hf, List.filter_cons_of_pos hb.1, List.map_cons]
      exact List.Forall₂.cons hb.2 hrest

/-- The classes that have a finding. -/
def findingClasses (facts : Facts) : List (Finset Nat) :=
  (facts.calls.components.filter fun component =>
    (cycleFinding? facts component).isSome).map List.toFinset

variable {facts : Facts}

theorem nodup_findingClasses (hg : facts.calls.Closed) : (findingClasses facts).Nodup :=
  (components_classes hg).1.sublist (List.filter_sublist.map _)

theorem mem_findingClasses (hg : facts.calls.Closed) {s : Finset Nat} :
    s ∈ findingClasses facts ↔
      facts.calls.IsClass s ∧ facts.calls.HoldsCycle s ∧ ∃ v ∈ s, facts.SendsAt v := by
  have hkeep : ∀ component ∈ facts.calls.components,
      (cycleFinding? facts component).isSome = true ↔
        facts.calls.HoldsCycle component.toFinset ∧ ∃ v ∈ component, facts.SendsAt v := by
    intro component hc
    have hfinding := cycleFinding?_component hg hc
    cases hf : cycleFinding? facts component with
    | none =>
      rw [hf] at hfinding
      simpa using hfinding
    | some f =>
      rw [hf] at hfinding
      simpa using hfinding.1
  constructor
  · intro hs
    obtain ⟨component, hmem, rfl⟩ := List.mem_map.1 hs
    obtain ⟨hc, hk⟩ := List.mem_filter.1 hmem
    obtain ⟨hcycle, v, hv, hsends⟩ := (hkeep component hc).1 hk
    exact ⟨(mem_components hg hc).2, hcycle, v, List.mem_toFinset.2 hv, hsends⟩
  · rintro ⟨hs, hcycle, v, hv, hsends⟩
    obtain ⟨component, hc, rfl⟩ := List.mem_map.1 (((components_classes hg).2 s).2 hs)
    refine List.mem_map.2 ⟨component, List.mem_filter.2 ⟨hc, ?_⟩, rfl⟩
    exact (hkeep component hc).2 ⟨hcycle, v, List.mem_toFinset.1 hv, hsends⟩

theorem forall₂_cycleFindings (hg : facts.calls.Closed) :
    List.Forall₂ (CycleFinding facts) (findingClasses facts) (cycleFindings facts) := by
  refine forall₂_filterMap fun component hc => ?_
  have hfinding := cycleFinding?_component hg hc
  cases hf : cycleFinding? facts component with
  | none => rfl
  | some f =>
    rw [hf] at hfinding
    exact ⟨rfl, hfinding.2⟩

/-- The class of a sender has a finding if it holds a cycle. -/
theorem exists_class_of_sends (hg : facts.calls.Closed) {v : Nat} (hv : facts.SendsAt v) :
    ∃ s, facts.calls.IsClass s ∧ v ∈ s ∧
      (s ∈ findingClasses facts ↔ facts.calls.HoldsCycle s) := by
  obtain ⟨n, hn, -⟩ := id hv
  have hlt : v < facts.calls.nodeCount := (List.getElem?_eq_some_iff.1 hn).1
  have hclass := isClass_component hg hlt
  have hmem : v ∈ (component facts.calls.reachTable v).toFinset :=
    List.mem_toFinset.2 ((mem_component hg hlt).2 (Together.refl _ v))
  refine ⟨_, hclass, hmem, ?_⟩
  rw [mem_findingClasses hg]
  exact ⟨fun h => h.2.1, fun h => ⟨hclass, h, v, hmem, hv⟩⟩

/-- Two senders, or a sender twice, are in a class with a finding if they come to each other. -/
theorem exists_findingClass_iff (hg : facts.calls.Closed) {v w : Nat} (hv : facts.SendsAt v) :
    (∃ s ∈ findingClasses facts, v ∈ s ∧ w ∈ s) ↔
      facts.calls.ReachesByCalls v w ∧ facts.calls.ReachesByCalls w v := by
  constructor
  · rintro ⟨s, hs, hvs, hws⟩
    obtain ⟨hclass, hcycle, -⟩ := (mem_findingClasses hg).1 hs
    exact (hclass.mem_cycle_iff hvs).1 ⟨hws, hcycle⟩
  · intro h
    obtain ⟨s, hclass, hvs, hlisted⟩ := exists_class_of_sends hg hv
    obtain ⟨hws, hcycle⟩ := (hclass.mem_cycle_iff hvs).2 h
    exact ⟨s, hlisted.2 hcycle, hvs, hws⟩

/-- The rule on call cycles is sound and complete. Its findings belong one to one to the classes of
mutually reachable nodes that hold a cycle and a sender. A sender that comes back to itself is in
one such class, any other sender is in none, and two senders share one if each comes to the
other. -/
theorem cycle_findings (c : Contract) :
    let facts := Facts.ofContract c
    let g := facts.calls
    ∃ classes : List (Finset Nat), classes.Nodup ∧
      (∀ s, s ∈ classes ↔ g.IsClass s ∧ g.HoldsCycle s ∧ ∃ v ∈ s, facts.SendsAt v) ∧
      List.Forall₂ (CycleFinding facts) classes
        ((analyze (Target.ofContract c)).findings.filter fun f => f.category = .callStructure) ∧
      (∀ f, facts.isSender f = true →
        (∀ v, g.nodes[v]?.map CallNode.function = some f ↔ v = g.position f) ∧
        (g.ReachesByCalls (g.position f) (g.position f) → ∃! s, s ∈ classes ∧ g.position f ∈ s) ∧
        (¬ g.ReachesByCalls (g.position f) (g.position f) → ∀ s ∈ classes, g.position f ∉ s)) ∧
      ∀ f f', facts.isSender f = true → facts.isSender f' = true →
        ((∃ s ∈ classes, g.position f ∈ s ∧ g.position f' ∈ s) ↔
          g.ReachesByCalls (g.position f) (g.position f') ∧
            g.ReachesByCalls (g.position f') (g.position f)) := by
  intro facts g
  have htidy : g.Tidy := tidy_ofContract c
  have hg := htidy.closed
  -- a sender is declared, so it has a node, and only one
  have hnode : ∀ f, facts.isSender f = true →
      ∀ v, g.nodes[v]?.map CallNode.function = some f ↔ v = g.position f := by
    intro f hf v
    obtain ⟨d, hd, rfl, -⟩ := Facts.isSender_ofContract.1 hf
    rw [← htidy.functions_eq_iff (mem_functions_ofContract hd), functions, List.getElem?_map]
  have hsends : ∀ f, facts.isSender f = true → facts.SendsAt (g.position f) := by
    intro f hf
    obtain ⟨n, hn, rfl⟩ := Option.map_eq_some_iff.1 ((hnode f hf _).2 rfl)
    exact ⟨n, hn, hf⟩
  refine ⟨findingClasses facts, nodup_findingClasses hg, fun s => mem_findingClasses hg, ?_, ?_, ?_⟩
  · rw [filter_callStructure]
    exact forall₂_cycleFindings hg
  · intro f hf
    have hiff := exists_findingClass_iff hg (w := g.position f) (hsends f hf)
    refine ⟨hnode f hf, ?_, ?_⟩
    · intro h
      obtain ⟨s, hs, hmem, -⟩ := hiff.2 ⟨h, h⟩
      refine ⟨s, ⟨hs, hmem⟩, ?_⟩
      rintro t ⟨ht, htmem⟩
      exact ((mem_findingClasses hg).1 ht).1.eq_of_mem ((mem_findingClasses hg).1 hs).1 htmem hmem
    · intro h s hs hmem
      exact h (hiff.1 ⟨s, hs, hmem, hmem⟩).1
  · intro f f' hf _
    exact exists_findingClass_iff hg (hsends f hf)

end Rules

end PonziScreen
