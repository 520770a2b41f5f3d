import Mathlib.Logic.Relation
import PonziScreen.Proofs.Acceptance
import PonziScreen.Proofs.Locality
import PonziScreen.Proofs.RealScalar

/-!
# What the scores of a graph depend on

Nothing keeps an edge of a batch from leading from one graph into another. In evaluation mode the
scores of a graph then depend on other graphs as well, but only on nodes upstream of it: those from
which some node of the graph can be reached along edges. `Classifier.forward_row_of_agreesUpstream`
says that whatever the other nodes hold makes no difference.

The nodes upstream of a graph are closed under predecessors (`Batch.Upstream.of_edge`), so what
arrives at one of them comes from others of them, however many layers there are and however often
each of them sends (`corresponds_of_closed`). The nodes of the graph itself, which are the ones that
are pooled, are among them (`Batch.upstream_of_graphOf`).
-/

namespace PonziScreen

open PonziScreen.Matrix

variable {α β : Type}

/-! ## Nodes upstream of a graph -/

namespace Batch

variable {b b' : Batch α} {g : Nat}

/-- Some node of a graph can be reached from a node, along zero or more edges. -/
def Upstream (b : Batch α) (g v : Nat) : Prop :=
  ∃ u, b.graphOf[u]? = some g ∧ Relation.ReflTransGen (fun s t => (s, t) ∈ b.edges) v u

theorem upstream_of_graphOf {v : Nat} (h : b.graphOf[v]? = some g) : b.Upstream g v :=
  ⟨v, h, .refl⟩

/-- Where an edge leads upstream of a graph, it comes from upstream of it. -/
theorem Upstream.of_edge {e : Nat × Nat} (he : e ∈ b.edges) (h : b.Upstream g e.2) :
    b.Upstream g e.1 := by
  obtain ⟨u, hu, hpath⟩ := h
  exact ⟨u, hu, .head he hpath⟩

/-- Two batches consist of the same graphs with the same edges, and have the same features at all
nodes upstream of one of the graphs. -/
structure AgreesUpstream (b b' : Batch α) (g : Nat) : Prop where
  graphCount : b'.graphCount = b.graphCount
  graphOf : b'.graphOf = b.graphOf
  edges : b'.edges = b.edges
  edgeFeatures : b'.edgeFeatures = b.edgeFeatures
  features : ∀ v, b.Upstream g v → b'.features.row v = b.features.row v

end Batch

/-! ## Layers and pooling -/

/-- What arrives at a node of a set that is closed under predecessors is a matter of the features in
this set alone. -/
theorem corresponds_of_closed {links : List (Link α)} {within : Nat → Prop}
    (h : ∀ k ∈ links, within k.target → within k.source) :
    Corresponds Eq (fun t t' => t = t' ∧ within t) links links := by
  rintro row row' hrow t _ ⟨rfl, ht⟩
  refine List.map_congr_left fun k hk => ?_
  obtain ⟨hmem, htarget⟩ := List.mem_filter.1 hk
  have hsource : within k.source := h k hmem (of_decide_eq_true htarget ▸ ht)
  rw [hrow _ _ ⟨rfl, hsource⟩]

/-- A group is made of the items at the positions of its members. -/
theorem segment_congr {index : List Nat} {n g : Nat} {f f' : Nat → β}
    (h : ∀ v, index[v]? = some g → f v = f' v) :
    segment index ((List.range n).map f) g = segment index ((List.range n).map f') g := by
  have hzip : ∀ f : Nat → β, segment index ((List.range n).map f) g
      = ((index.zip (List.range n)).filter fun p => p.1 = g).map fun p => f p.2 := by
    intro f
    rw [segment, List.zip_map_right, List.filter_map, List.map_map]
    rfl
  rw [hzip, hzip]
  refine List.map_congr_left fun p hp => h p.2 ?_
  obtain ⟨hmem, hgroup⟩ := List.mem_filter.1 hp
  obtain ⟨v, hv, rfl⟩ := List.mem_iff_getElem.1 hmem
  rw [List.length_zip, Nat.lt_min] at hv
  simp only [List.getElem_zip, List.getElem_range, decide_eq_true_eq] at hgroup ⊢
  rw [List.getElem?_eq_getElem hv.1, hgroup]

/-! ## Scores -/

namespace Classifier

variable [Scalar α] {m : Classifier α} {b b' : Batch α} {g : Nat}

theorem links_eq_of_agreesUpstream (h : b.AgreesUpstream b' g) : m.links b' = m.links b := by
  simp only [links, edgeRow, h.edges, h.edgeFeatures]

/-- Nodes upstream of a graph have the same features after the layers. -/
theorem stackRow_of_agreesUpstream (h : b.AgreesUpstream b' g) {v : Nat} (hv : b.Upstream g v) :
    Layer.stackRow (m.links b') m.layers b'.features.row v
      = Layer.stackRow (m.links b) m.layers b.features.row v := by
  have hclosed : ∀ k ∈ m.links b, b.Upstream g k.target → b.Upstream g k.source := by
    intro k hk htarget
    have hedge : k.edge ∈ b.edges := m.map_edge_links b ▸ List.mem_map_of_mem hk
    exact htarget.of_edge (e := k.edge) hedge
  rw [links_eq_of_agreesUpstream h]
  refine Layer.stackRow_congr (fun l _ => l.tolerates_eq) (corresponds_of_closed hclosed) ?_
    v v ⟨rfl, hv⟩
  rintro t _ ⟨rfl, ht⟩
  exact h.features t ht

/-- The scores of a graph are a matter of the nodes upstream of it. -/
theorem scoreRow_of_agreesUpstream (h : b.AgreesUpstream b' g)
    (hheight : b'.features.height = b.features.height) : m.scoreRow b' g = m.scoreRow b g := by
  unfold scoreRow
  rw [hheight, h.graphOf, segment_congr fun v hv =>
    stackRow_of_agreesUpstream (m := m) h (Batch.upstream_of_graphOf hv)]

/-- Two batches of the same graphs with the same edges give a graph the same scores in evaluation
mode if they agree on the features of all nodes from which the graph can be reached. -/
theorem forward_row_of_agreesUpstream (hm : m.Shaped) (he : m.training = false)
    (h : b.AgreesUpstream b' g) {y y' : Matrix α} (hy : (m.forward b).1 = .ok y)
    (hy' : (m.forward b').1 = .ok y') :
    y.height = b.graphCount ∧ y'.height = b.graphCount ∧ y'.row g = y.row g := by
  have hrows := rows_of_forward_eval hm he hy
  have hrows' := rows_of_forward_eval hm he hy'
  rw [h.graphCount] at hrows'
  refine ⟨?_, ?_, ?_⟩
  · rw [height_of_rows_eq hrows, List.length_range]
  · rw [height_of_rows_eq hrows', List.length_range]
  · by_cases hg : g < b.graphCount
    · have hcount : b.graphCount ≠ 0 := Nat.ne_zero_of_lt hg
      -- there is an entry of the index for each node, so the nodes are as many
      have hlength := (reads_of_forward hm hcount hy).graphOf_length
      have hlength' := (reads_of_forward hm (h.graphCount ▸ hcount) hy').graphOf_length
      rw [row_of_rows_eq hrows hg, row_of_rows_eq hrows' hg]
      exact scoreRow_of_agreesUpstream h (by rw [← hlength, ← hlength', h.graphOf])
    · simp [row, hrows, hrows', hg]

/-- A new classifier and two graphs, with an edge from the second into the first and one that stays
within the second. The last node is not upstream of the first graph, whose scores stay when the
features of that node change. -/
theorem forward_row_of_agreesUpstream_crossEdge :
    ∃ (m : Classifier ℝ) (b b' : Batch ℝ) (y y' : Matrix ℝ),
      m.config = Config.initial ∧ m.Shaped ∧ m.training = false ∧
      b.edges = [(1, 0), (1, 2)] ∧ b.graphOf = [0, 1, 1] ∧ b.Upstream 0 1 ∧
      b'.features.row 2 ≠ b.features.row 2 ∧ b.AgreesUpstream b' 0 ∧
      (m.forward b).1 = .ok y ∧ (m.forward b').1 = .ok y' ∧ y'.row 0 = y.row 0 := by
  obtain ⟨built, hbuilt⟩ := exists_build 0 Config.fault?_initial_real
  obtain ⟨hshaped, hconfig⟩ := build_shaped hbuilt
  let m : Classifier ℝ := built.eval
  have hm : m.Shaped := eval_shaped hshaped
  have hmconfig : m.config = Config.initial := hconfig
  let zeros : List ℝ := List.replicate FeatureGraph.nodeWidth 0
  let ones : List ℝ := List.replicate FeatureGraph.nodeWidth 1
  let batch := fun last : List ℝ => fun (hlast : last.length = FeatureGraph.nodeWidth) =>
    (⟨⟨FeatureGraph.nodeWidth, [zeros, zeros, last], by simp [zeros, hlast]⟩,
      [(1, 0), (1, 2)], none, [0, 1, 1], none, 2⟩ : Batch ℝ)
  let b := batch zeros List.length_replicate
  let b' := batch ones List.length_replicate
  have hreads : ∀ last hlast, m.Reads (batch last hlast) := by
    intro last hlast
    have hnone : ¬ 0 < m.config.edgeDim := by
      rw [hmconfig]
      decide
    refine ⟨divergence?_eq hm, ?_, rfl, ?_, fun hd => absurd hd hnone, fun _ => ?_,
      fun _ _ hd => absurd hd hnone⟩
    · rw [hmconfig]
      rfl
    · show ∀ g ∈ [0, 1, 1], g < 2
      decide
    · show ∀ e ∈ [(1, 0), (1, 2)], e.1 < 3 ∧ e.2 < 3
      decide
  have hcount : 2 ≠ 0 := by decide
  obtain ⟨-, y, hy, -⟩ := forward_eval_yields hm rfl (hreads zeros List.length_replicate) hcount
  obtain ⟨-, y', hy', -⟩ := forward_eval_yields hm rfl (hreads ones List.length_replicate) hcount
  have hupstream : b.Upstream 0 1 := ⟨0, rfl, .single (by decide)⟩
  -- no edge leaves the last node, and it is not of the first graph itself
  have hlast : ¬ b.Upstream 0 2 := by
    rintro ⟨u, hu, hpath⟩
    rcases hpath.cases_head with rfl | ⟨t, ht, -⟩
    · exact absurd hu (by decide)
    · simp [b, batch] at ht
  have hagrees : b.AgreesUpstream b' 0 := by
    refine ⟨rfl, rfl, rfl, rfl, fun v hv => ?_⟩
    match v with
    | 0 | 1 => rfl
    | 2 => exact absurd hv hlast
    | _ + 3 => rfl
  have hchanged : b'.features.row 2 ≠ b.features.row 2 := by
    show ones ≠ zeros
    simp [ones, zeros, FeatureGraph.nodeWidth, List.replicate]
  exact ⟨m, b, b', y, y', hmconfig, hm, rfl, rfl, rfl, hupstream, hchanged, hagrees, hy, hy',
    (forward_row_of_agreesUpstream hm rfl hagrees hy hy').2.2⟩

end Classifier

end PonziScreen
