import Mathlib.Data.Finset.Card
import Mathlib.Data.List.Pairwise
import PonziScreen.Proofs.DepthFirst

/-!
# Classes of mutual reachability

Two nodes belong together when each reaches the other. `IsClass` names the sets of nodes that belong
together, and `components_classes` says that `CallGraph.components` lists every one of them once,
each of its nodes once.

A class holds a cycle if it has two nodes or a node that calls itself, and this is so exactly if its
nodes reach themselves over one or more calls (`IsClass.mem_cycle_iff`).
-/

namespace PonziScreen.CallGraph

variable {g : CallGraph}

/-! ## Classes -/

/-- Each of two nodes reaches the other. -/
def Together (g : CallGraph) (v w : Nat) : Prop := g.Reaches v w ∧ g.Reaches w v

/-- All nodes that belong together with some node. -/
def IsClass (g : CallGraph) (s : Finset Nat) : Prop :=
  ∃ v < g.nodeCount, ∀ w, w ∈ s ↔ g.Together v w

/-- A class of two or more nodes, or with a node that calls itself. -/
def HoldsCycle (g : CallGraph) (s : Finset Nat) : Prop := 1 < s.card ∨ ∃ v ∈ s, g.Calls v v

/-- A node reaches another one over one or more calls. -/
def ReachesByCalls (g : CallGraph) : Nat → Nat → Prop := Relation.TransGen g.Calls

theorem Together.refl (g : CallGraph) (v : Nat) : g.Together v v :=
  ⟨Relation.ReflTransGen.refl, Relation.ReflTransGen.refl⟩

theorem Together.symm {v w : Nat} (h : g.Together v w) : g.Together w v := ⟨h.2, h.1⟩

theorem Together.trans {u v w : Nat} (h : g.Together u v) (h' : g.Together v w) : g.Together u w :=
  ⟨h.1.trans h'.1, h'.2.trans h.2⟩

theorem IsClass.mem_iff {s : Finset Nat} (hs : g.IsClass s) {v w : Nat} (hv : v ∈ s) :
    w ∈ s ↔ g.Together v w := by
  obtain ⟨u, -, hu⟩ := hs
  have huv := (hu v).1 hv
  rw [hu w]
  exact ⟨fun h => huv.symm.trans h, fun h => huv.trans h⟩

theorem IsClass.lt {s : Finset Nat} (hs : g.IsClass s) (hg : g.Closed) {v : Nat} (hv : v ∈ s) :
    v < g.nodeCount := by
  obtain ⟨u, hlt, hu⟩ := hs
  exact hg.lt_of_reaches hlt ((hu v).1 hv).1

/-- Classes that share a node are the same. -/
theorem IsClass.eq_of_mem {s t : Finset Nat} (hs : g.IsClass s) (ht : g.IsClass t) {v : Nat}
    (hvs : v ∈ s) (hvt : v ∈ t) : s = t := by
  ext w
  rw [hs.mem_iff hvs, ht.mem_iff hvt]

theorem reachesByCalls_of_ne {v w : Nat} (h : g.Reaches v w) (hne : v ≠ w) :
    g.ReachesByCalls v w :=
  (Relation.reflTransGen_iff_eq_or_transGen.1 h).resolve_left fun heq => hne heq.symm

/-- Two nodes, or the same node twice, reach each other over one or more calls exactly if they are
in one class that holds a cycle. -/
theorem IsClass.mem_cycle_iff {s : Finset Nat} (hs : g.IsClass s) {v w : Nat} (hv : v ∈ s) :
    w ∈ s ∧ g.HoldsCycle s ↔ g.ReachesByCalls v w ∧ g.ReachesByCalls w v := by
  constructor
  · rintro ⟨hw, hcycle⟩
    have hvw := (hs.mem_iff hv).1 hw
    -- some node of the class comes back to itself, and all others come by it
    have hself : g.ReachesByCalls v v := by
      rcases hcycle with hcard | ⟨u, hu, hcall⟩
      · obtain ⟨u, hu, hne⟩ := Finset.exists_mem_ne hcard v
        have hvu := (hs.mem_iff hv).1 hu
        exact (reachesByCalls_of_ne hvu.1 hne.symm).trans_left hvu.2
      · have hvu := (hs.mem_iff hv).1 hu
        exact (Relation.TransGen.tail' hvu.1 hcall).trans_left hvu.2
    exact ⟨hself.trans_left hvw.1, Relation.TransGen.trans_right hvw.2 hself⟩
  · rintro ⟨hvw, hwv⟩
    have hw : w ∈ s := (hs.mem_iff hv).2 ⟨hvw.to_reflTransGen, hwv.to_reflTransGen⟩
    refine ⟨hw, ?_⟩
    obtain ⟨u, hcall, hrest⟩ := Relation.TransGen.head'_iff.1 (hvw.trans hwv)
    by_cases heq : u = v
    · exact Or.inr ⟨v, hv, heq ▸ hcall⟩
    · have hu : u ∈ s := (hs.mem_iff hv).2 ⟨Relation.ReflTransGen.single hcall, hrest⟩
      exact Or.inl (Finset.one_lt_card.2 ⟨u, hu, v, hv, heq⟩)

/-! ## Components -/

theorem getD_reachTable {v : Nat} (hv : v < g.nodeCount) :
    g.reachTable.getD v [] = g.reached v := by
  simp [reachTable, hv]

theorem mem_component (hg : g.Closed) {v w : Nat} (hv : v < g.nodeCount) :
    w ∈ component g.reachTable v ↔ g.Together v w := by
  unfold component
  rw [getD_reachTable hv, List.mem_filter, mem_reached hg hv, decide_eq_true_eq]
  constructor
  · rintro ⟨hvw, hwv⟩
    rw [getD_reachTable (hg.lt_of_reaches hv hvw), mem_reached hg (hg.lt_of_reaches hv hvw)] at hwv
    exact ⟨hvw, hwv⟩
  · rintro ⟨hvw, hwv⟩
    refine ⟨hvw, ?_⟩
    rw [getD_reachTable (hg.lt_of_reaches hv hvw), mem_reached hg (hg.lt_of_reaches hv hvw)]
    exact hwv

theorem nodup_component (hg : g.Closed) {v : Nat} (hv : v < g.nodeCount) :
    (component g.reachTable v).Nodup := by
  unfold component
  rw [getD_reachTable hv]
  exact (nodup_reached hg v).filter _

theorem isClass_component (hg : g.Closed) {v : Nat} (hv : v < g.nodeCount) :
    g.IsClass (component g.reachTable v).toFinset :=
  ⟨v, hv, fun w => by rw [List.mem_toFinset, mem_component hg hv]⟩

/-- Each component listed is the component of a node of the list. -/
theorem mem_lastComponents {table : List (List Nat)} {nodes : List Nat} {s : List Nat}
    (h : s ∈ lastComponents table nodes) : ∃ v ∈ nodes, s = component table v := by
  induction nodes with
  | nil => simp [lastComponents] at h
  | cons v rest ih =>
    unfold lastComponents at h
    dsimp only at h
    split at h
    · obtain ⟨u, hu, rfl⟩ := ih h
      exact ⟨u, List.mem_cons_of_mem _ hu, rfl⟩
    · rcases List.mem_cons.1 h with rfl | h
      · exact ⟨v, List.mem_cons_self, rfl⟩
      · obtain ⟨u, hu, rfl⟩ := ih h
        exact ⟨u, List.mem_cons_of_mem _ hu, rfl⟩

/-- Each node of the list is in a component listed. -/
theorem exists_mem_lastComponents (hg : g.Closed) {nodes : List Nat}
    (hn : ∀ v ∈ nodes, v < g.nodeCount) {v : Nat} (hv : v ∈ nodes) :
    ∃ s ∈ lastComponents g.reachTable nodes, v ∈ s := by
  induction nodes generalizing v with
  | nil => simp at hv
  | cons u rest ih =>
    have hrest : ∀ w ∈ rest, w < g.nodeCount := fun w hw => hn w (List.mem_cons_of_mem _ hw)
    have hu : u < g.nodeCount := hn u List.mem_cons_self
    unfold lastComponents
    dsimp only
    split
    · rename_i hlater
      rcases List.mem_cons.1 hv with rfl | hv
      · -- the component comes with a later node
        obtain ⟨w, hw, hmem⟩ := List.any_eq_true.1 hlater
        have hvw := (mem_component hg hu).1 (of_decide_eq_true hmem)
        obtain ⟨s, hs, hws⟩ := ih hrest hw
        obtain ⟨x, hx, rfl⟩ := mem_lastComponents hs
        have hxw := (mem_component hg (hrest x hx)).1 hws
        exact ⟨_, hs, (mem_component hg (hrest x hx)).2 (hxw.trans hvw.symm)⟩
      · exact ih hrest hv
    · rcases List.mem_cons.1 hv with rfl | hv
      · exact ⟨_, List.mem_cons_self, (mem_component hg hu).2 (Together.refl g v)⟩
      · obtain ⟨s, hs, hvs⟩ := ih hrest hv
        exact ⟨s, List.mem_cons_of_mem _ hs, hvs⟩

/-- No two components listed share a node. -/
theorem pairwise_lastComponents (hg : g.Closed) {nodes : List Nat}
    (hn : ∀ v ∈ nodes, v < g.nodeCount) :
    (lastComponents g.reachTable nodes).Pairwise List.Disjoint := by
  induction nodes with
  | nil => exact List.Pairwise.nil
  | cons u rest ih =>
    have hrest : ∀ w ∈ rest, w < g.nodeCount := fun w hw => hn w (List.mem_cons_of_mem _ hw)
    have hu : u < g.nodeCount := hn u List.mem_cons_self
    unfold lastComponents
    dsimp only
    split
    · exact ih hrest
    · rename_i hlater
      refine List.pairwise_cons.2 ⟨?_, ih hrest⟩
      intro s hs w hwu hws
      obtain ⟨x, hx, rfl⟩ := mem_lastComponents hs
      have huw := (mem_component hg hu).1 hwu
      have hxw := (mem_component hg (hrest x hx)).1 hws
      refine hlater (List.any_eq_true.2 ⟨x, hx, decide_eq_true ?_⟩)
      exact (mem_component hg hu).2 (huw.trans hxw.symm)

/-! ## The list of components -/

theorem mem_leaveOrder (hg : g.Closed) {v : Nat} : v ∈ g.leaveOrder ↔ v < g.nodeCount := by
  rw [(leaveOrder_perm hg).mem_iff, List.mem_range]

/-- Every component is the list of a class, with each node once. -/
theorem mem_components (hg : g.Closed) {s : List Nat} (hs : s ∈ g.components) :
    s.Nodup ∧ g.IsClass s.toFinset := by
  obtain ⟨v, hv, rfl⟩ := mem_lastComponents hs
  have hlt := (mem_leaveOrder hg).1 hv
  exact ⟨nodup_component hg hlt, isClass_component hg hlt⟩

/-- Every class is listed once. -/
theorem components_classes (hg : g.Closed) :
    (g.components.map List.toFinset).Nodup ∧
      ∀ s, s ∈ g.components.map List.toFinset ↔ g.IsClass s := by
  have hlt : ∀ v ∈ g.leaveOrder, v < g.nodeCount := fun v hv => (mem_leaveOrder hg).1 hv
  refine ⟨?_, fun s => ⟨?_, ?_⟩⟩
  · rw [List.Nodup, List.pairwise_map]
    refine (pairwise_lastComponents hg hlt).imp_of_mem ?_
    intro s t hs _ hdisjoint heq
    obtain ⟨v, hv, rfl⟩ := mem_lastComponents hs
    have hmem : v ∈ component g.reachTable v :=
      (mem_component hg (hlt v hv)).2 (Together.refl g v)
    exact hdisjoint hmem (List.mem_toFinset.1 (heq ▸ List.mem_toFinset.2 hmem))
  · intro hs
    obtain ⟨l, hl, rfl⟩ := List.mem_map.1 hs
    exact (mem_components hg hl).2
  · intro hs
    obtain ⟨v, hv, hmem⟩ := id hs
    have hvs : v ∈ s := (hmem v).2 (Together.refl g v)
    -- the node of which it is the class has been left, so its component is listed
    obtain ⟨l, hl, hvl⟩ := exists_mem_lastComponents hg hlt ((mem_leaveOrder hg).2 hv)
    refine List.mem_map.2 ⟨l, hl, ?_⟩
    exact (mem_components hg hl).2.eq_of_mem hs (List.mem_toFinset.2 hvl) hvs

end PonziScreen.CallGraph
