import PonziScreen.Proofs.Collate
import PonziScreen.Proofs.Locality

/-!
# Batches of independent graphs

In evaluation mode the graphs of a batch do not influence each other: a batch has scores exactly if
each of its graphs has scores when it is taken alone, and then each graph has the same scores in the
batch as alone.

The nodes of a graph stand in a block of the batch, and so do its edges, with all node numbers moved
by the same offset. What arrives at a node of the block is what arrives at the node of the graph
(`corresponds_block`), so the features after the layers are the same, and the pooled rows of the
block are those of the graph (`segment_block`).
-/

namespace PonziScreen

open PonziScreen.Matrix

variable {α β : Type}

/-! ## Blocks of lists -/

theorem eq_append_of_getElem? {items : List β} {i : Nat} {x : β} (h : items[i]? = some x) :
    items = items.take i ++ x :: items.drop (i + 1) ∧ (items.take i).length = i := by
  obtain ⟨hi, hget⟩ := List.getElem?_eq_some_iff.1 h
  refine ⟨?_, ?_⟩
  · rw [← hget, List.getElem_cons_drop, List.take_append_drop]
  · rw [List.length_take]
    omega

theorem getD_block {before block after : List β} {i : Nat} (h : i < block.length) (d : β) :
    (before ++ block ++ after).getD (i + before.length) d = block.getD i d := by
  rw [List.append_assoc, List.getD_append_right _ _ _ _ (Nat.le_add_left ..), Nat.add_sub_cancel,
    List.getD_append _ _ _ _ h]

theorem segment_append {index index' : List Nat} {items items' : List β} {g : Nat}
    (h : index.length = items.length) :
    segment (index ++ index') (items ++ items') g
      = segment index items g ++ segment index' items' g := by
  unfold segment
  rw [List.zip_append h, List.filter_append, List.map_append]

theorem segment_eq_nil {index : List Nat} {items : List β} {g : Nat} (h : ∀ i ∈ index, i ≠ g) :
    segment index items g = [] := by
  unfold segment
  rw [List.map_eq_nil_iff, List.filter_eq_nil_iff]
  intro p hp
  simpa using h p.1 (List.of_mem_zip hp).1

theorem segment_replicate {items : List β} {g : Nat} :
    segment (List.replicate items.length g) items g = items := by
  unfold segment
  induction items with
  | nil => rfl
  | cons x rest ih => simpa [List.replicate_succ] using ih

/-- The items of a graph are those of its block. -/
theorem segment_block {before after : List (Graph α)} {g : Graph α} {x y z : List β}
    (hx : x.length = Batch.totalNodes before) (hy : y.length = g.nodeCount) :
    segment (Batch.mergedIndex 0 (before ++ g :: after)) (x ++ y ++ z) before.length = y := by
  have hbefore : segment (Batch.mergedIndex 0 before) x before.length = [] :=
    segment_eq_nil fun i hi => by
      have := Batch.mem_mergedIndex hi
      omega
  have hafter : segment (Batch.mergedIndex (0 + before.length + 1) after) z before.length = [] :=
    segment_eq_nil fun i hi => by
      have := Batch.mem_mergedIndex hi
      omega
  rw [Batch.mergedIndex_append, Batch.mergedIndex, List.append_assoc,
    segment_append ((Batch.length_mergedIndex ..).trans hx.symm), hbefore,
    segment_append (by rw [List.length_replicate, hy]), hafter, ← hy, Nat.zero_add,
    segment_replicate, List.nil_append, List.append_nil]

/-! ## Blocks of links -/

/-- A link whose nodes are moved by an offset. -/
def Link.shift (offset : Nat) (k : Link α) : Link α :=
  ⟨k.source + offset, k.target + offset, k.features⟩

/-- What arrives at a node of a block comes over the links of the block. -/
theorem arrivals_block {before links after : List (Link α)} {n offset : Nat}
    (hbefore : ∀ k ∈ before, k.target < offset) (hk : ∀ k ∈ links, k.Within n)
    (hafter : ∀ k ∈ after, offset + n ≤ k.target) {row row' : Nat → List α}
    (hrow : ∀ i < n, row (i + offset) = row' i) {t : Nat} (ht : t < n) :
    arrivals row (before ++ links.map (Link.shift offset) ++ after) (t + offset)
      = arrivals row' links t := by
  have hleft : before.filter (fun k => k.target = t + offset) = [] :=
    List.filter_eq_nil_iff.2 fun k hmem => by
      have := hbefore k hmem
      simp only [decide_eq_true_eq]
      omega
  have hright : after.filter (fun k => k.target = t + offset) = [] :=
    List.filter_eq_nil_iff.2 fun k hmem => by
      have := hafter k hmem
      simp only [decide_eq_true_eq]
      omega
  have hmiddle : (links.map (Link.shift offset)).filter (fun k => k.target = t + offset)
      = (links.filter fun k => k.target = t).map (Link.shift offset) := by
    rw [List.filter_map]
    refine congrArg _ (List.filter_congr fun k _ => ?_)
    simp [Link.shift]
  unfold arrivals
  rw [List.filter_append, List.filter_append, hleft, hright, hmiddle, List.nil_append,
    List.append_nil, List.map_map]
  apply List.map_congr_left
  intro k hmem
  have hsource : row (k.source + offset) = row' k.source :=
    hrow _ (hk k (List.mem_of_mem_filter hmem)).1
  simp [Link.shift, hsource]

/-- The nodes of a block correspond to those of its graph. -/
theorem corresponds_block {before links after : List (Link α)} {n offset : Nat}
    (hbefore : ∀ k ∈ before, k.target < offset) (hk : ∀ k ∈ links, k.Within n)
    (hafter : ∀ k ∈ after, offset + n ≤ k.target) :
    Corresponds Eq (fun t t' => t' < n ∧ t = t' + offset)
      (before ++ links.map (Link.shift offset) ++ after) links := by
  rintro row row' hrow t t' ⟨ht, rfl⟩
  exact arrivals_block hbefore hk hafter (fun i hi => hrow _ _ ⟨hi, rfl⟩) ht

namespace Batch

/-! ## The block of a graph -/

section Block

variable {before after : List (Graph α)} {g : Graph α} {b s : Batch α}

theorem length_edgeRows {graphs : List (Graph α)} {b : Batch α} (hb : Joins graphs b)
    (h : b.edgeFeatures.isSome) {g : Graph α} (hg : g ∈ graphs) :
    g.edgeRows.length = g.edgeCount := by
  have hsome : g.edgeFeatures.isSome := by
    have hw := congrArg Option.isSome (hb.edgeWidth g hg)
    rw [Option.isSome_map, Option.isSome_map] at hw
    rw [hw, h]
  obtain ⟨e, he⟩ := Option.isSome_iff_exists.1 hsome
  rw [Graph.edgeRows, he]
  exact (Graph.fault?_eq_none.1 (hb.valid g hg)).2 e he

/-- Some graphs of a batch have as many rows of edge features as edges. -/
theorem length_flatMap_edgeRows {graphs : List (Graph α)} {b : Batch α} (hb : Joins graphs b)
    (h : b.edgeFeatures.isSome) (part : List (Graph α)) (hpart : ∀ g ∈ part, g ∈ graphs)
    (offset : Nat) : (part.flatMap Graph.edgeRows).length = (mergedEdges offset part).length := by
  rw [List.length_flatMap, length_mergedEdges]
  exact congrArg _ (List.map_congr_left fun g hg => length_edgeRows hb h (hpart g hg))

/-- The features of a node of a graph. -/
theorem row_block (hb : Joins (before ++ g :: after) b) (hs : Joins [g] s) {i : Nat}
    (hi : i < g.nodeCount) : b.features.row (i + totalNodes before) = s.features.row i := by
  have hrows : b.features.rows = (before.flatMap fun g => g.features.rows) ++ g.features.rows
      ++ after.flatMap fun g => g.features.rows := by
    rw [hb.rows]
    simp
  have hsrows : s.features.rows = g.features.rows := by
    rw [hs.rows]
    simp
  rw [row, row, hrows, hsrows, ← length_flatMap_rows before]
  exact getD_block hi []

variable [Scalar α]

/-- The features of an edge of a graph as the layers of a classifier see them. -/
theorem edgeRow_block (m : Classifier α) (hb : Joins (before ++ g :: after) b) (hs : Joins [g] s)
    {i : Nat} (hi : i < g.edgeCount) :
    m.edgeRow b (i + (mergedEdges 0 before).length) = m.edgeRow s i := by
  have hwidth : b.edgeFeatures.map Matrix.width = s.edgeFeatures.map Matrix.width :=
    (hb.edgeWidth g (by simp)).symm.trans (hs.edgeWidth g List.mem_cons_self)
  unfold Classifier.edgeRow
  cases m.edgeEncoder with
  | none => rfl
  | some encoder =>
    cases he : b.edgeFeatures with
    | none =>
      cases he' : s.edgeFeatures with
      | none => rfl
      | some e' => simp [he, he'] at hwidth
    | some e =>
      cases he' : s.edgeFeatures with
      | none => simp [he, he'] at hwidth
      | some e' =>
        have hsome : b.edgeFeatures.isSome := by rw [he]; rfl
        have hlength : g.edgeRows.length = g.edgeCount := length_edgeRows hb hsome (by simp)
        have hrows : e.rows = before.flatMap Graph.edgeRows ++ g.edgeRows
            ++ after.flatMap Graph.edgeRows := by
          rw [hb.edgeRows e he]
          simp
        have hsrows : e'.rows = g.edgeRows := by
          rw [hs.edgeRows e' he']
          simp
        -- the rows before the graph are as many as the edges before it
        have hoffset := length_flatMap_edgeRows hb hsome before
          (fun k hk => List.mem_append_left _ hk) 0
        show encoder.row (e.row _) = encoder.row (e'.row i)
        rw [row, row, hrows, hsrows, ← hoffset, getD_block (hlength.symm ▸ hi)]

/-- The links of a graph stand in a block of the links of its batch. -/
theorem links_block (m : Classifier α) (hb : Joins (before ++ g :: after) b) (hs : Joins [g] s) :
    ∃ left right : List (Link α),
      m.links b = left ++ (m.links s).map (Link.shift (totalNodes before)) ++ right ∧
      (∀ k ∈ left, k.target < totalNodes before) ∧
      ∀ k ∈ right, totalNodes before + g.nodeCount ≤ k.target := by
  -- the edges of the graphs before it, its own, and those of the graphs after it
  let link := fun (i : Nat) (e : Nat × Nat) => (⟨e.1, e.2, m.edgeRow b i⟩ : Link α)
  have hedges : b.edges = mergedEdges 0 before ++ (g.edges.map
        (fun e => (e.1 + totalNodes before, e.2 + totalNodes before))
      ++ mergedEdges (totalNodes before + g.nodeCount) after) := by
    rw [hb.edges, mergedEdges_append, mergedEdges, Nat.zero_add]
  have hsedges : s.edges = g.edges := by
    rw [hs.edges]
    simp [mergedEdges]
  have hmiddle : (g.edges.map fun e => (e.1 + totalNodes before, e.2 + totalNodes before)).mapIdx
        (fun i => link (i + (mergedEdges 0 before).length))
      = (m.links s).map (Link.shift (totalNodes before)) := by
    rw [Classifier.links, hsedges]
    apply List.ext_getElem
    · simp
    · intro i h₁ h₂
      have hi : i < g.edges.length := by simpa using h₁
      simp [link, Link.shift, edgeRow_block m hb hs hi]
  refine ⟨(mergedEdges 0 before).mapIdx link,
    (mergedEdges (totalNodes before + g.nodeCount) after).mapIdx fun i => link (i +
      (g.edges.map fun e => (e.1 + totalNodes before, e.2 + totalNodes before)).length
        + (mergedEdges 0 before).length), ?_, ?_, ?_⟩
  · rw [List.append_assoc, ← hmiddle, ← List.mapIdx_append, ← List.mapIdx_append, ← hedges]
    rfl
  · intro k hk
    obtain ⟨i, hi, rfl⟩ := List.mem_mapIdx.1 hk
    have hvalid : ∀ g ∈ before, g.fault? = none := fun g hg =>
      hb.valid g (List.mem_append_left _ hg)
    have := (mem_mergedEdges hvalid (List.getElem_mem hi)).2.2
    rw [Nat.zero_add] at this
    exact this
  · intro k hk
    obtain ⟨i, hi, rfl⟩ := List.mem_mapIdx.1 hk
    have hvalid : ∀ g ∈ after, g.fault? = none := fun k hk =>
      hb.valid k (List.mem_append_right _ (List.mem_cons_of_mem _ hk))
    exact (mem_mergedEdges hvalid (List.getElem_mem hi)).2.1

end Block

end Batch

namespace Classifier

variable [Scalar α]

/-! ## Which batches are read -/

/-- The width of nodes and edges that a classifier wants. -/
def Fits (m : Classifier α) (g : Graph α) : Prop :=
  g.features.width = m.config.featureSize ∧
    (0 < m.config.edgeDim → g.edgeFeatures.map Matrix.width = some m.config.edgeDim)

/-- A classifier reads a batch if it could read each of its graphs. -/
theorem reads_iff_of_joins {m : Classifier α} {graphs : List (Graph α)} {b : Batch α}
    (hb : Batch.Joins graphs b) (hne : graphs ≠ []) :
    m.Reads b ↔ m.divergence? = none ∧ ∀ g ∈ graphs, m.Fits g := by
  constructor
  · intro h
    refine ⟨h.finite, fun g hg => ⟨(hb.width g hg).trans h.width, fun hd => ?_⟩⟩
    obtain ⟨e, he, hw⟩ := h.edgeFeatures hd
    rw [hb.edgeWidth g hg, he, Option.map_some, hw]
  · rintro ⟨hfinite, hfits⟩
    obtain ⟨g, hg⟩ := List.exists_mem_of_ne_nil graphs hne
    have hheight : b.features.height = Batch.totalNodes graphs := by
      rw [Matrix.height, hb.rows, Batch.length_flatMap_rows]
    refine ⟨hfinite, (hb.width g hg).symm.trans (hfits g hg).1, ?_, ?_, ?_, ?_, ?_⟩
    · rw [hb.graphOf, Batch.length_mergedIndex, hheight]
    · intro i hi
      rw [hb.graphOf] at hi
      have := Batch.mem_mergedIndex hi
      rw [hb.graphCount]
      omega
    · intro hd
      have hw := (hb.edgeWidth g hg).symm.trans ((hfits g hg).2 hd)
      exact Option.map_eq_some_iff.1 hw
    · intro _ e he
      rw [hb.edges] at he
      have := Batch.mem_mergedEdges hb.valid he
      omega
    · intro _ _ _ e he
      have hsome : b.edgeFeatures.isSome := by rw [he]; rfl
      rw [Matrix.height, hb.edgeRows e he, hb.edges]
      exact Batch.length_flatMap_edgeRows hb hsome graphs (fun _ hg => hg) 0

/-- A classifier in evaluation mode gives scores for a batch exactly if it reads it. -/
theorem exists_forward_iff {m : Classifier α} (hm : m.Shaped) (he : m.training = false)
    {graphs : List (Graph α)} {b : Batch α} (hb : Batch.Joins graphs b) (hne : graphs ≠ []) :
    (∃ y, (m.forward b).1 = .ok y) ↔ m.divergence? = none ∧ ∀ g ∈ graphs, m.Fits g := by
  have hcount := hb.graphCount_ne_zero hne
  rw [← reads_iff_of_joins hb hne]
  constructor
  · rintro ⟨y, hy⟩
    exact reads_of_forward hm hcount hy
  · intro h
    obtain ⟨y, hy, -⟩ := (forward_eval_yields hm he h hcount).2
    exact ⟨y, hy⟩

/-! ## The scores of a graph -/

section Scores

variable (m : Classifier α) {before after : List (Graph α)} {g : Graph α} {b s : Batch α}

theorem links_within (hs : Batch.Joins [g] s) : ∀ k ∈ m.links s, k.Within g.nodeCount := by
  intro k hk
  have hedge : k.edge ∈ s.edges := m.map_edge_links s ▸ List.mem_map_of_mem hk
  rw [hs.edges] at hedge
  have hends := Batch.mem_mergedEdges hs.valid hedge
  simp only [Batch.totalNodes, List.map_cons, List.map_nil, List.sum_cons, List.sum_nil,
    Nat.zero_add, Nat.add_zero] at hends
  exact ⟨hends.1.2, hends.2.2⟩

/-- The features of a node after the layers are the same in a batch and alone. -/
theorem stackRow_block (hb : Batch.Joins (before ++ g :: after) b) (hs : Batch.Joins [g] s)
    {i : Nat} (hi : i < g.nodeCount) :
    Layer.stackRow (m.links b) m.layers b.features.row (i + Batch.totalNodes before)
      = Layer.stackRow (m.links s) m.layers s.features.row i := by
  obtain ⟨left, right, hlinks, hleft, hright⟩ := Batch.links_block m hb hs
  have hcorresponds := corresponds_block hleft (links_within m hs) hright
  rw [← hlinks] at hcorresponds
  refine Layer.stackRow_congr (fun l _ => l.tolerates_eq) hcorresponds ?_ _ _ ⟨hi, rfl⟩
  rintro t t' ⟨ht, rfl⟩
  exact Batch.row_block hb hs ht

omit [Scalar α] in
/-- The nodes of a graph are found by its number. -/
theorem segment_nodes_block (hb : Batch.Joins (before ++ g :: after) b) (f : Nat → List α) :
    segment b.graphOf ((List.range b.features.height).map f) before.length
      = (List.range g.nodeCount).map fun i => f (i + Batch.totalNodes before) := by
  let offset := Batch.totalNodes before
  let n := g.nodeCount
  have hheight : b.features.height = offset + n + Batch.totalNodes after := by
    rw [Matrix.height, hb.rows, Batch.length_flatMap_rows, Batch.totalNodes_append]
    exact (Nat.add_assoc ..).symm
  have hblock : (List.range n).map (fun i => f (i + offset))
      = ((List.range n).map (offset + ·)).map f := by
    rw [List.map_map]
    exact List.map_congr_left fun i _ => congrArg f (Nat.add_comm i offset)
  -- the nodes before the graph, those of the graph and those after it
  rw [hb.graphOf, hheight, List.range_add, List.range_add, List.map_append, List.map_append,
    hblock]
  exact segment_block (by simp [offset]) (by simp [n])

/-- The scores of a graph are the same in a batch and alone. -/
theorem scoreRow_block (hb : Batch.Joins (before ++ g :: after) b) (hs : Batch.Joins [g] s) :
    m.scoreRow b before.length = m.scoreRow s 0 := by
  have hbatch := segment_nodes_block hb (Layer.stackRow (m.links b) m.layers b.features.row)
  -- alone, the graph has no others before it and none after it
  have hone : Batch.Joins ([] ++ g :: []) s := hs
  have halone := segment_nodes_block hone (Layer.stackRow (m.links s) m.layers s.features.row)
  have hsame : (List.range g.nodeCount).map (fun i =>
        Layer.stackRow (m.links b) m.layers b.features.row (i + Batch.totalNodes before))
      = (List.range g.nodeCount).map (Layer.stackRow (m.links s) m.layers s.features.row) :=
    List.map_congr_left fun i hi => stackRow_block m hb hs (List.mem_range.1 hi)
  unfold scoreRow
  rw [hbatch, hsame]
  exact congrArg (fun rows => m.headRow (maxRow m.config.featureSize rows)) halone.symm

end Scores

/-- The scores of a batch are those of its graphs, each taken alone. -/
theorem forward_row {m : Classifier α} (hm : m.Shaped) (he : m.training = false)
    {graphs : List (Graph α)} {b : Batch α} (hb : Batch.Joins graphs b) {y : Matrix α}
    (hy : (m.forward b).1 = .ok y) {i : Nat} {g : Graph α} (hg : graphs[i]? = some g)
    {s : Batch α} (hs : Batch.Joins [g] s) :
    ∃ z, (m.forward s).1 = .ok z ∧ z.rows = [y.row i] := by
  obtain ⟨hi, hget⟩ := List.getElem?_eq_some_iff.1 hg
  have hmem : g ∈ graphs := hget ▸ List.getElem_mem hi
  have hne : graphs ≠ [] := List.ne_nil_of_mem hmem
  have hcount := hb.graphCount_ne_zero hne
  have hreads := reads_of_forward hm hcount hy
  have hrows := rows_of_forward_eval hm he hy
  rw [hb.graphCount] at hrows
  obtain ⟨hfinite, hfits⟩ := (reads_iff_of_joins hb hne).1 hreads
  have hread : m.Reads s := (reads_iff_of_joins hs (List.cons_ne_nil g [])).2
    ⟨hfinite, fun k hk => List.mem_singleton.1 hk ▸ hfits g hmem⟩
  obtain ⟨z, hz, -, hzr⟩ :=
    (forward_eval_yields hm he hread (hs.graphCount_ne_zero (List.cons_ne_nil g []))).2
  refine ⟨z, hz, ?_⟩
  obtain ⟨hsplit, hlength⟩ := eq_append_of_getElem? hg
  have hblock := scoreRow_block m (hsplit ▸ hb) hs
  rw [hlength] at hblock
  rw [hzr, hs.graphCount, row_of_rows_eq hrows hi, hblock]
  rfl

/-- Batch independence: in evaluation mode a batch of graphs has scores exactly if each graph has
scores when taken alone, and then each graph has the same scores in the batch as alone. -/
theorem forward_collate {m : Classifier α} (hm : m.Shaped) (he : m.training = false)
    {graphs : List (Graph α)} (hne : graphs ≠ []) {b : Batch α}
    (hb : Batch.collate graphs = .ok b) :
    ((∃ y, (m.forward b).1 = .ok y) ↔
      ∀ g ∈ graphs, ∃ s y, Batch.ofGraph g = .ok s ∧ (m.forward s).1 = .ok y) ∧
    ∀ y, (m.forward b).1 = .ok y → y.height = graphs.length ∧
      ∀ i g, graphs[i]? = some g →
        ∃ s z, Batch.ofGraph g = .ok s ∧ (m.forward s).1 = .ok z ∧ z.rows = [y.row i] := by
  have hjoins := Batch.collate_joins hne hb
  have hcount := hjoins.graphCount_ne_zero hne
  have hsingle : ∀ g ∈ graphs, ∃ s, Batch.ofGraph g = .ok s ∧ Batch.Joins [g] s := by
    intro g hg
    obtain ⟨s, hs⟩ := Batch.ofGraph_eq_ok (hjoins.valid g hg)
    exact ⟨s, hs, Batch.collate_joins (List.cons_ne_nil g []) hs⟩
  refine ⟨⟨?_, ?_⟩, ?_⟩
  · rintro ⟨y, hy⟩ g hg
    obtain ⟨i, hi, hget⟩ := List.mem_iff_getElem.1 hg
    obtain ⟨s, hs, hone⟩ := hsingle g hg
    obtain ⟨z, hz, -⟩ := forward_row hm he hjoins hy
      (List.getElem?_eq_some_iff.2 ⟨hi, hget⟩) hone
    exact ⟨s, z, hs, hz⟩
  · intro h
    have hfits : ∀ g ∈ graphs, m.divergence? = none ∧ m.Fits g := by
      intro g hg
      obtain ⟨s, y, hs, hy⟩ := h g hg
      have hone := Batch.collate_joins (List.cons_ne_nil g []) hs
      obtain ⟨hfinite, hfits⟩ := (exists_forward_iff hm he hone (List.cons_ne_nil g [])).1 ⟨y, hy⟩
      exact ⟨hfinite, hfits g List.mem_cons_self⟩
    obtain ⟨g, hg⟩ := List.exists_mem_of_ne_nil graphs hne
    exact (exists_forward_iff hm he hjoins hne).2 ⟨(hfits g hg).1, fun g hg => (hfits g hg).2⟩
  · intro y hy
    obtain ⟨y', hy', -, hrows⟩ :=
      (forward_eval_yields hm he (reads_of_forward hm hcount hy) hcount).2
    obtain rfl : y' = y := Except.ok.inj (hy'.symm.trans hy)
    refine ⟨by rw [height_of_rows_eq hrows, List.length_range, hjoins.graphCount], ?_⟩
    intro i g hg
    obtain ⟨s, hs, hone⟩ := hsingle g (List.mem_of_getElem? hg)
    obtain ⟨z, hz, hzr⟩ := forward_row hm he hjoins hy hg hone
    exact ⟨s, z, hs, hz, hzr⟩

/-- A new classifier with the initial settings, and a graph without nodes in the batch. -/
theorem forward_collate_initial :
    ∃ (m : Classifier Float32) (graphs : List (Graph Float32)) (b : Batch Float32),
      m.config = Config.initial ∧ m.Shaped ∧ m.training = false ∧
      graphs = [⟨Matrix.zeros 2 FeatureGraph.nodeWidth, [(0, 1)], none, none⟩,
        ⟨Matrix.zeros 0 FeatureGraph.nodeWidth, [], none, none⟩] ∧
      Batch.collate graphs = .ok b ∧
      ((∃ y, (m.forward b).1 = .ok y) ↔
        ∀ g ∈ graphs, ∃ s y, Batch.ofGraph g = .ok s ∧ (m.forward s).1 = .ok y) ∧
      ∀ y, (m.forward b).1 = .ok y → y.height = graphs.length ∧
        ∀ i g, graphs[i]? = some g →
          ∃ s z, Batch.ofGraph g = .ok s ∧ (m.forward s).1 = .ok z ∧ z.rows = [y.row i] := by
  obtain ⟨m, hm⟩ := exists_build 0 (c := (Config.initial : Config Float32)) (by decide)
  obtain ⟨hshaped, hconfig⟩ := build_shaped hm
  have hb : Batch.collate [⟨Matrix.zeros 2 FeatureGraph.nodeWidth, [(0, 1)], none, none⟩,
      (⟨Matrix.zeros 0 FeatureGraph.nodeWidth, [], none, none⟩ : Graph Float32)] = .ok _ := rfl
  exact ⟨m.eval, _, _, hconfig, eval_shaped hshaped, rfl, rfl, hb,
    forward_collate (eval_shaped hshaped) rfl (List.cons_ne_nil _ _) hb⟩

end Classifier

end PonziScreen
