import Mathlib.Data.List.Induction
import PonziScreen.Proofs.BatchIndependence

/-!
# Reading graphs back from a batch

Putting graphs together loses nothing but the number of edges of each graph. `Batch.graphAt` takes a
graph out again: its nodes are those that the index gives to it, and its edges stand after those of
the graphs before it, with the number of nodes of these graphs added to both ends.

* `Batch.ends_of_mem_mergedEdges` — no edge of a batch leaves its graph
* `Batch.graphAt_eq` — what is taken out is what was put in
* `Batch.collate_readBack` — the shape of a batch, and its graphs read back from it
-/

namespace PonziScreen

variable {α β : Type}

/-! ## Portions of a list -/

/-- The items of the portion at position `i`, if a list is made of portions of the given sizes. -/
def portion (sizes : List Nat) (items : List β) (i : Nat) : List β :=
  (items.drop (sizes.take i).sum).take (sizes.getD i 0)

theorem mem_of_mem_portion {sizes : List Nat} {items : List β} {i : Nat} {b : β}
    (h : b ∈ portion sizes items i) : b ∈ items :=
  List.mem_of_mem_drop (List.mem_of_mem_take h)

theorem portion_block {sizes sizes' : List Nat} {size : Nat} {x y z : List β}
    (hx : x.length = sizes.sum) (hy : y.length = size) :
    portion (sizes ++ size :: sizes') (x ++ y ++ z) sizes.length = y := by
  have hsize : (sizes ++ size :: sizes').getD sizes.length 0 = y.length := by
    simp [hy]
  rw [portion, hsize, List.take_left, ← hx, List.append_assoc, List.drop_left, List.take_left]

/-- Graphs with the same parts are the same. -/
theorem Graph.eq_of_parts {g k : Graph α} (hfeatures : g.features = k.features)
    (hedges : g.edges = k.edges) (hedgeFeatures : g.edgeFeatures = k.edgeFeatures)
    (hlabel : g.label = k.label) : g = k := by
  cases g
  cases k
  simp only [Graph.mk.injEq]
  exact ⟨hfeatures, hedges, hedgeFeatures, hlabel⟩

namespace Batch

/-! ## Taking a graph out -/

/-- The rows of a portion of a matrix. -/
def rowPortion (sizes : List Nat) (m : Matrix α) (i : Nat) : Matrix α where
  width := m.width
  rows := portion sizes m.rows i
  uniform := fun r hr => m.uniform r (mem_of_mem_portion hr)

/-- The number of nodes that belong to graphs before the one at position `i`. -/
def nodesBefore (b : Batch α) (i : Nat) : Nat := b.graphOf.countP fun j => j < i

/-- The graph at position `i`, read back from a batch of graphs with given numbers of edges. -/
def graphAt (b : Batch α) (edgeCounts : List Nat) (i : Nat) : Graph α where
  features := {
    width := b.features.width
    rows := segment b.graphOf b.features.rows i
    uniform := fun r hr => b.features.uniform r (mem_of_mem_segment hr) }
  edges := (portion edgeCounts b.edges i).map fun e =>
    (e.1 - b.nodesBefore i, e.2 - b.nodesBefore i)
  edgeFeatures := b.edgeFeatures.map fun m => rowPortion edgeCounts m i
  label := b.labels.bind fun l => l.rows[i]?

/-! ## The index -/

theorem pairwise_mergedIndex (start : Nat) (graphs : List (Graph α)) :
    (mergedIndex start graphs).Pairwise (· ≤ ·) := by
  induction graphs generalizing start with
  | nil => exact List.Pairwise.nil
  | cons g rest ih =>
    refine List.pairwise_append.2
      ⟨List.pairwise_replicate.2 (.inr (Nat.le_refl _)), ih (start + 1), ?_⟩
    intro i hi j hj
    have := List.eq_of_mem_replicate hi
    have := mem_mergedIndex hj
    omega

section Block

variable {before after : List (Graph α)} {g : Graph α} {b : Batch α}

theorem mergedIndex_block (before after : List (Graph α)) (g : Graph α) :
    mergedIndex 0 (before ++ g :: after)
      = mergedIndex 0 before ++ (List.replicate g.nodeCount before.length
        ++ mergedIndex (before.length + 1) after) := by
  rw [mergedIndex_append, mergedIndex, Nat.zero_add]

theorem count_mergedIndex_block (before after : List (Graph α)) (g : Graph α) :
    (mergedIndex 0 (before ++ g :: after)).count before.length = g.nodeCount := by
  have hbefore : before.length ∉ mergedIndex 0 before := fun h => by
    have := mem_mergedIndex h
    omega
  have hafter : before.length ∉ mergedIndex (before.length + 1) after := fun h => by
    have := mem_mergedIndex h
    omega
  rw [mergedIndex_block, List.count_append, List.count_append, List.count_replicate_self,
    List.count_eq_zero_of_not_mem hbefore, List.count_eq_zero_of_not_mem hafter]
  omega

theorem countP_mergedIndex_block (before after : List (Graph α)) (g : Graph α) :
    (mergedIndex 0 (before ++ g :: after)).countP (fun j => j < before.length)
      = totalNodes before := by
  have hbefore : ∀ j ∈ mergedIndex 0 before, decide (j < before.length) = true := fun j hj => by
    have := mem_mergedIndex hj
    exact decide_eq_true (by omega)
  have hafter : ∀ j ∈ List.replicate g.nodeCount before.length
      ++ mergedIndex (before.length + 1) after, ¬ decide (j < before.length) = true := by
    intro j hj
    rw [decide_eq_true_eq]
    rcases List.mem_append.1 hj with hj | hj
    · rw [List.eq_of_mem_replicate hj]
      omega
    · have := mem_mergedIndex hj
      omega
  rw [mergedIndex_block, List.countP_append, List.countP_eq_length.2 hbefore,
    List.countP_eq_zero.2 hafter, length_mergedIndex, Nat.add_zero]

theorem getElem?_mergedIndex_block {j : Nat} (hj : j < g.nodeCount) :
    (mergedIndex 0 (before ++ g :: after))[j + totalNodes before]? = some before.length := by
  have hlength := length_mergedIndex 0 before
  rw [mergedIndex_block, List.getElem?_append_right (by omega), hlength, Nat.add_sub_cancel,
    List.getElem?_append_left (by rw [List.length_replicate]; exact hj),
    List.getElem?_replicate, if_pos hj]

/-! ## The edges -/

theorem mergedEdges_block (before after : List (Graph α)) (g : Graph α) :
    mergedEdges 0 (before ++ g :: after)
      = mergedEdges 0 before
        ++ g.edges.map (fun e => (e.1 + totalNodes before, e.2 + totalNodes before))
        ++ mergedEdges (totalNodes before + g.nodeCount) after := by
  rw [mergedEdges_append, mergedEdges, Nat.zero_add, List.append_assoc]

/-- Every edge of a batch comes from one of its graphs. -/
theorem exists_block_of_mem_mergedEdges {graphs : List (Graph α)} {e : Nat × Nat}
    (h : e ∈ mergedEdges 0 graphs) :
    ∃ before g after d, graphs = before ++ g :: after ∧ d ∈ g.edges ∧
      e = (d.1 + totalNodes before, d.2 + totalNodes before) := by
  induction graphs using List.reverseRecOn with
  | nil => simp [mergedEdges] at h
  | append_singleton front g ih =>
    rw [mergedEdges_block] at h
    rcases List.mem_append.1 h with h | h
    · rcases List.mem_append.1 h with h | h
      · obtain ⟨before, k, after, d, rfl, hd, rfl⟩ := ih h
        exact ⟨before, k, after ++ [g], d, by simp, hd, rfl⟩
      · obtain ⟨d, hd, rfl⟩ := List.mem_map.1 h
        exact ⟨front, g, [], d, rfl, hd, rfl⟩
    · simp [mergedEdges] at h

/-- Both ends of an edge are nodes of its graph. -/
theorem ends_of_mem_mergedEdges {graphs : List (Graph α)} (hvalid : ∀ g ∈ graphs, g.fault? = none)
    {e : Nat × Nat} (h : e ∈ mergedEdges 0 graphs) :
    ∃ i, (mergedIndex 0 graphs)[e.1]? = some i ∧ (mergedIndex 0 graphs)[e.2]? = some i := by
  obtain ⟨before, g, after, d, rfl, hd, rfl⟩ := exists_block_of_mem_mergedEdges h
  have hends := (Graph.fault?_eq_none.1 (hvalid g (by simp))).1 d hd
  exact ⟨before.length, getElem?_mergedIndex_block hends.1, getElem?_mergedIndex_block hends.2⟩

/-! ## The graph of a block -/

theorem portion_edges (hb : Joins (before ++ g :: after) b) :
    portion ((before ++ g :: after).map Graph.edgeCount) b.edges before.length
      = g.edges.map fun e => (e.1 + totalNodes before, e.2 + totalNodes before) := by
  have hlength : (before.map Graph.edgeCount).length = before.length := List.length_map _
  rw [hb.edges, mergedEdges_block, List.map_append, List.map_cons, ← hlength]
  exact portion_block (length_mergedEdges 0 before) (List.length_map _)

theorem edgeFeatures_block (hb : Joins (before ++ g :: after) b) :
    b.edgeFeatures.map (fun m =>
        rowPortion ((before ++ g :: after).map Graph.edgeCount) m before.length)
      = g.edgeFeatures := by
  have hwidth := hb.edgeWidth g (by simp)
  cases he : b.edgeFeatures with
  | none =>
    rw [he, Option.map_none, Option.map_eq_none_iff] at hwidth
    rw [hwidth, Option.map_none]
  | some m =>
    rw [he, Option.map_some, Option.map_eq_some_iff] at hwidth
    obtain ⟨k, hk, hkm⟩ := hwidth
    have hsome : b.edgeFeatures.isSome := by rw [he]; rfl
    have hrows : g.edgeRows = k.rows := by
      rw [Graph.edgeRows, hk]
      rfl
    have hbefore : (before.flatMap Graph.edgeRows).length = (before.map Graph.edgeCount).sum :=
      (length_flatMap_edgeRows hb hsome before (fun _ h => List.mem_append_left _ h) 0).trans
        (length_mergedEdges 0 before)
    rw [hk, Option.map_some]
    refine congrArg some (Matrix.eq_of_rows hkm.symm ?_)
    show portion _ m.rows before.length = k.rows
    have hlength : (before.map Graph.edgeCount).length = before.length := List.length_map _
    rw [hb.edgeRows m he, List.flatMap_append, List.flatMap_cons, ← List.append_assoc, ← hrows,
      List.map_append, List.map_cons, ← hlength]
    exact portion_block hbefore (length_edgeRows hb hsome (by simp))

end Block

/-! ## Labels -/

variable [Scalar α]

/-- Either all graphs of a batch have labels or none has. -/
theorem labels_graphAt {graphs : List (Graph α)} {b : Batch α} (h : collate graphs = .ok b)
    {i : Nat} {g : Graph α} (hg : graphs[i]? = some g) :
    b.labels.isSome = g.label.isSome ∧ (b.labels.bind fun l => l.rows[i]?) = g.label := by
  cases graphs with
  | nil => simp at hg
  | cons first rest =>
    obtain ⟨hmisfit, -, -, hlabels, -⟩ := collate_parts h
    have hsame : ∀ k ∈ first :: rest, k.label.isSome = first.label.isSome :=
      fun k hk => (firstMisfit?_eq_none hmisfit k hk).2.2.2
    have hmem := List.mem_of_getElem? hg
    cases hfirst : first.label with
    | none =>
      rw [hfirst] at hlabels
      have hnone : g.label = none := by simpa [hfirst] using hsame g hmem
      rw [hlabels, hnone]
      exact ⟨rfl, rfl⟩
    | some y =>
      have hlabelled : ∀ k ∈ first :: rest, k.label.isSome := fun k hk => by
        rw [hsame k hk, hfirst]
        rfl
      obtain ⟨labels, hb, hrows, -⟩ := labels_of_collate (List.cons_ne_nil _ _) h hlabelled
      obtain ⟨l, hl⟩ := Option.isSome_iff_exists.1 (hlabelled g hmem)
      rw [hb, Option.bind_some, hrows, List.getElem?_map, hg, Option.map_some, Graph.labelRow, hl]
      exact ⟨rfl, rfl⟩

/-! ## All graphs -/

/-- What is taken out of a batch is what was put in. -/
theorem graphAt_eq {graphs : List (Graph α)} {b : Batch α} (h : collate graphs = .ok b) {i : Nat}
    {g : Graph α} (hg : graphs[i]? = some g) :
    b.graphAt (graphs.map Graph.edgeCount) i = g := by
  have hne : graphs ≠ [] := by
    rintro rfl
    simp at hg
  have hb := collate_joins hne h
  have hlabel := (labels_graphAt h hg).2
  obtain ⟨hsplit, hi⟩ := eq_append_of_getElem? hg
  generalize graphs.take i = before at hsplit hi
  generalize graphs.drop (i + 1) = after at hsplit
  subst hsplit hi
  refine Graph.eq_of_parts ?_ ?_ (edgeFeatures_block hb) hlabel
  · refine Matrix.eq_of_rows (hb.width g (by simp)).symm ?_
    show segment b.graphOf b.features.rows before.length = g.features.rows
    rw [hb.graphOf, hb.rows, List.flatMap_append, List.flatMap_cons, ← List.append_assoc]
    exact segment_block (length_flatMap_rows before) rfl
  · show (portion _ b.edges before.length).map _ = g.edges
    rw [portion_edges hb, nodesBefore, hb.graphOf, countP_mergedIndex_block, List.map_map]
    simp [Function.comp_def]

/-- Graphs with given numbers of edges are known by their batch. -/
theorem collate_injective {graphs others : List (Graph α)} {b : Batch α}
    (h : collate graphs = .ok b) (h' : collate others = .ok b)
    (hcounts : others.map Graph.edgeCount = graphs.map Graph.edgeCount) : others = graphs := by
  have hlength : others.length = graphs.length := by
    simpa using congrArg List.length hcounts
  refine List.ext_getElem hlength fun i hi hi' => ?_
  rw [← graphAt_eq h (List.getElem?_eq_getElem hi'), ← hcounts,
    graphAt_eq h' (List.getElem?_eq_getElem hi)]

/-- Putting graphs together loses nothing. The index of the nodes is in order and gives each graph
as many nodes as it has; no edge leaves its graph; and each graph can be read back. The edges of a
graph stand after those of the graphs before it, moved by the number of earlier nodes. So graphs
with given numbers of edges are known by their batch. -/
theorem collate_readBack {graphs : List (Graph α)} {b : Batch α} (hne : graphs ≠ [])
    (h : collate graphs = .ok b) :
    b.graphCount = graphs.length ∧ b.graphOf.Pairwise (· ≤ ·) ∧
    (∀ e ∈ b.edges, ∃ i, b.graphOf[e.1]? = some i ∧ b.graphOf[e.2]? = some i) ∧
    (∀ i g, graphs[i]? = some g → b.graphOf.count i = g.nodeCount ∧
      b.nodesBefore i = totalNodes (graphs.take i) ∧
      portion (graphs.map Graph.edgeCount) b.edges i
        = g.edges.map (fun e => (e.1 + b.nodesBefore i, e.2 + b.nodesBefore i)) ∧
      b.edgeFeatures.isSome = g.edgeFeatures.isSome ∧ b.labels.isSome = g.label.isSome ∧
      b.graphAt (graphs.map Graph.edgeCount) i = g) ∧
    ∀ others, others.map Graph.edgeCount = graphs.map Graph.edgeCount →
      collate others = .ok b → others = graphs := by
  have hb := collate_joins hne h
  refine ⟨hb.graphCount, ?_, ?_, ?_, fun others hcounts h' => collate_injective h h' hcounts⟩
  · rw [hb.graphOf]
    exact pairwise_mergedIndex 0 graphs
  · intro e he
    rw [hb.edges] at he
    rw [hb.graphOf]
    exact ends_of_mem_mergedEdges hb.valid he
  · intro i g hg
    have hedgeWidth := congrArg Option.isSome (hb.edgeWidth g (List.mem_of_getElem? hg))
    rw [Option.isSome_map, Option.isSome_map] at hedgeWidth
    have hgraph := graphAt_eq h hg
    have hlabel := (labels_graphAt h hg).1
    obtain ⟨hsplit, hi⟩ := eq_append_of_getElem? hg
    generalize graphs.take i = before at hsplit hi ⊢
    generalize graphs.drop (i + 1) = after at hsplit
    subst hsplit hi
    have hnodes : b.nodesBefore before.length = totalNodes before := by
      rw [nodesBefore, hb.graphOf, countP_mergedIndex_block]
    refine ⟨?_, hnodes, ?_, hedgeWidth.symm, hlabel, hgraph⟩
    · rw [hb.graphOf, count_mergedIndex_block]
    · rw [hnodes, portion_edges hb]

/-- A labelled graph whose features are all zero. -/
def blank (nodes : Nat) (edges : List (Nat × Nat)) (isPonzi : Bool) : Graph Float32 :=
  Graph.withLabel isPonzi ⟨Matrix.zeros nodes 1, edges, some (Matrix.zeros edges.length 2), none⟩

/-- Three graphs: one with an edge, one without nodes, and one with a node that calls itself. -/
theorem collate_readBack_three :
    ∃ (graphs : List (Graph Float32)) (b : Batch Float32),
      graphs = [blank 2 [(0, 1)] true, blank 0 [] false, blank 1 [(0, 0)] true] ∧
      collate graphs = .ok b ∧ b.graphOf = [0, 0, 2] ∧ b.edges = [(0, 1), (2, 2)] ∧
      b.graphCount = graphs.length ∧
      (∀ i g, graphs[i]? = some g → b.graphAt [1, 0, 1] i = g) ∧
      ∀ others, others.map Graph.edgeCount = [1, 0, 1] → collate others = .ok b →
        others = graphs := by
  have hb : collate [blank 2 [(0, 1)] true, blank 0 [] false, blank 1 [(0, 0)] true] = .ok _ := rfl
  obtain ⟨hcount, -, -, hgraphs, hothers⟩ := collate_readBack (List.cons_ne_nil _ _) hb
  exact ⟨_, _, rfl, hb, rfl, rfl, hcount, fun i g hg => (hgraphs i g hg).2.2.2.2.2, hothers⟩

end Batch

end PonziScreen
