import Mathlib.Data.List.Nodup
import PonziScreen.Proofs.Matrix
import PonziScreen.Proofs.Shape

/-!
# Layers node by node

A layer computes with matrices that have a row per edge and then sums these rows at the nodes where
the edges end. Here each kind of layer gets its equation for a single node: the new features of the
node as a function of its own features and of what arrives at it over its incoming edges.

* `EdgeGated.residualRow`, `GraphConv.nodeRow`, `Attention.nodeRow`, `GatedGraph.stepRow` — the
  equations
* `EdgeGated.residual_yields`, `GraphConv.forward_yields`, `Attention.forward_yields`,
  `GatedGraph.forward_yields` — the layers compute them

In the second group the shapes fit, so these theorems also say that a layer does not fail.
-/

namespace PonziScreen

open PonziScreen.Matrix

variable {α ι : Type}

/-! ## What arrives at a node -/

/-- An edge with its features; they are empty where edges have none. -/
structure Link (α : Type) where
  source : Nat
  target : Nat
  features : List α

namespace Link

/-- The edge of a link. -/
def edge (k : Link α) : Nat × Nat := (k.source, k.target)

/-- Both ends of a link are among the first `n` nodes. -/
def Within (n : Nat) (k : Link α) : Prop := k.source < n ∧ k.target < n

end Link

/-- What a node gets to know of one incoming edge. -/
structure Arrival (α : Type) where
  /-- Whether the edge starts at the node itself. -/
  fromSelf : Bool
  /-- The features of the node at which the edge starts. -/
  source : List α
  /-- The features of the edge. -/
  edge : List α

/-- What arrives at a node, in the order of the edges. -/
def arrivals (row : Nat → List α) (links : List (Link α)) (t : Nat) : List (Arrival α) :=
  (links.filter fun k => k.target = t).map fun k =>
    ⟨decide (k.source = t), row k.source, k.features⟩

/-- Nothing arrives at a node at which no link ends. -/
theorem arrivals_eq_nil {row : Nat → List α} {links : List (Link α)} {t : Nat}
    (h : ∀ k ∈ links, k.target ≠ t) : arrivals row links t = [] := by
  rw [arrivals, List.filter_eq_nil_iff.2 (by simpa using h), List.map_nil]

/-- What one more link adds to what arrives at a node. -/
theorem arrivals_insert (row : Nat → List α) (before after : List (Link α))
    (added : Link α) (t : Nat) :
    arrivals row (before ++ added :: after) t
      = arrivals row before t ++ arrivals row [added] t ++ arrivals row after t := by
  simp only [arrivals, ← List.map_append, ← List.filter_append, List.append_assoc,
    List.singleton_append]

/-- The links of some edges carry the rows of a matrix of edge features, or nothing where edges have
no features. -/
def Carries (links : List (Link α)) (edgeDim : Nat) : Option (Matrix α) → Prop
  | none => edgeDim = 0 ∧ ∀ k ∈ links, k.features = []
  | some e => 0 < edgeDim ∧ e.width = edgeDim ∧ e.rows = links.map Link.features

/-- Edges with the rows of a matrix as their features, as long as there are rows. -/
def Link.join (edges : List (Nat × Nat)) : Option (Matrix α) → List (Link α)
  | none => edges.map fun e => ⟨e.1, e.2, []⟩
  | some m => (edges.zip m.rows).map fun k => ⟨k.1.1, k.1.2, k.2⟩

section Join

variable {edges : List (Nat × Nat)} {edgeFeatures : Option (Matrix α)} {edgeDim : Nat}

theorem Link.map_edge_join (h : ∀ m ∈ edgeFeatures, m.height = edges.length) :
    (Link.join edges edgeFeatures).map Link.edge = edges := by
  cases edgeFeatures with
  | none =>
    rw [join, List.map_map]
    exact List.map_id edges
  | some m =>
    rw [join, List.map_map]
    exact List.map_fst_zip (Nat.le_of_eq (h m rfl).symm)

/-- The links that join edges to features lie where the edges do. -/
theorem Link.join_within (hheight : ∀ m ∈ edgeFeatures, m.height = edges.length) {n : Nat}
    (hedges : ∀ e ∈ edges, e.1 < n ∧ e.2 < n) :
    ∀ k ∈ Link.join edges edgeFeatures, k.Within n := by
  intro k hk
  exact hedges k.edge (Link.map_edge_join hheight ▸ List.mem_map_of_mem hk)

theorem Link.carries_join (h : ∀ m ∈ edgeFeatures, m.height = edges.length)
    (hnone : edgeFeatures = none → edgeDim = 0)
    (hsome : ∀ m ∈ edgeFeatures, 0 < edgeDim ∧ m.width = edgeDim) :
    Carries (Link.join edges edgeFeatures) edgeDim edgeFeatures := by
  cases edgeFeatures with
  | none =>
    refine ⟨hnone rfl, ?_⟩
    intro k hk
    obtain ⟨e, -, rfl⟩ := List.mem_map.1 hk
    rfl
  | some m =>
    refine ⟨(hsome m rfl).1, (hsome m rfl).2, ?_⟩
    rw [join, List.map_map]
    exact (List.map_snd_zip (Nat.le_of_eq (h m rfl))).symm

/-- Edge features as an edge-gated layer takes them: none if it has no columns for them, and
otherwise a row of as many columns for each edge. -/
def FitsEdges (edges : List (Nat × Nat)) (edgeDim : Nat) : Option (Matrix α) → Prop
  | none => edgeDim = 0
  | some e => 0 < edgeDim ∧ e.width = edgeDim ∧ e.height = edges.length

theorem FitsEdges.height_eq (h : FitsEdges edges edgeDim edgeFeatures) :
    ∀ m ∈ edgeFeatures, m.height = edges.length := by
  rintro m rfl
  exact h.2.2

/-- Edge features that fit are carried by the links that join them to the edges. -/
theorem FitsEdges.carries_join (h : FitsEdges edges edgeDim edgeFeatures) :
    Carries (Link.join edges edgeFeatures) edgeDim edgeFeatures := by
  refine Link.carries_join h.height_eq ?_ ?_
  · rintro rfl
    exact h
  · rintro m rfl
    exact ⟨h.1, h.2.1⟩

theorem EdgeGated.edgeFeatureFault?_eq_none_iff {layer : EdgeGated α} :
    layer.edgeFeatureFault? edges edgeFeatures = none
      ↔ FitsEdges edges layer.edgeDim edgeFeatures := by
  cases edgeFeatures <;> simp [EdgeGated.edgeFeatureFault?, FitsEdges]

end Join

theorem edgeFault?_eq_none {n : Nat} {edges : List (Nat × Nat)} :
    edgeFault? n edges = none ↔ ∀ e ∈ edges, e.1 < n ∧ e.2 < n := by
  simp [edgeFault?, List.find?_eq_none]

/-- Nothing is wrong with nodes of the right width and links between them. -/
theorem nodeFault?_eq_none {x : Matrix α} {channels n : Nat} {links : List (Link α)}
    (hx : x.width = channels) (hn : x.height = n) (hk : ∀ k ∈ links, k.Within n) :
    nodeFault? x channels (links.map Link.edge) = none := by
  rw [nodeFault?, if_neg (by simp [hx]), hn, edgeFault?_eq_none]
  intro e he
  obtain ⟨k, hmem, rfl⟩ := List.mem_map.1 he
  exact hk k hmem

/-- Nothing is wrong with edge features that the links carry. -/
theorem EdgeGated.edgeFeatureFault?_eq_none {layer : EdgeGated α} {links : List (Link α)}
    {edgeFeatures : Option (Matrix α)} (h : Carries links layer.edgeDim edgeFeatures) :
    layer.edgeFeatureFault? (links.map Link.edge) edgeFeatures = none := by
  cases edgeFeatures with
  | none => simp [EdgeGated.edgeFeatureFault?, h.1]
  | some e =>
    obtain ⟨hpos, hwidth, hrows⟩ := h
    simp [EdgeGated.edgeFeatureFault?, hpos, hwidth, height_of_rows_eq hrows]

variable [Scalar α]

/-! ## Linear maps and cells -/

/-- What a linear map makes of a single row. -/
def Linear.row (l : Linear α) (r : List α) : List α :=
  let y := l.weight.rows.map (dot r)
  match l.bias with
  | some b => List.zipWith (· + ·) y b
  | none => y

/-- A linear map gives rows of its number of outputs, whatever it is applied to. -/
theorem Linear.length_row {l : Linear α} {inputs outputs : Nat} {bias : Bool}
    (h : l.Shaped inputs outputs bias) (r : List α) : (l.row r).length = outputs := by
  have hproduct : (l.weight.rows.map (dot r)).length = outputs := by
    rw [List.length_map]
    exact h.outputs_eq
  unfold row
  cases hbias : l.bias with
  | none => exact hproduct
  | some b => exact List.length_zipWith.trans (by rw [hproduct, h.length_bias hbias, Nat.min_self])

/-- A linear map is applied row by row. -/
theorem Linear.apply_yields {l : Linear α} {inputs outputs : Nat} {bias : Bool}
    (h : l.Shaped inputs outputs bias) {x : Matrix α} (hx : x.width = inputs) {items : List ι}
    {f : ι → List α} (hr : x.rows = items.map f) :
    Yields (l.apply x) outputs (items.map fun i => l.row (f i)) := by
  have hwidth : ¬ x.width ≠ l.inputs := by rw [hx, h.inputs_eq]; simp
  have hproduct : (x.mulTransposed l.weight).rows
      = items.map fun i => l.weight.rows.map (dot (f i)) := by
    show x.rows.map _ = _
    rw [hr, List.map_map]
    rfl
  have hproductWidth : (x.mulTransposed l.weight).width = outputs := h.outputs_eq
  unfold apply
  rw [if_neg hwidth]
  unfold row
  cases hbias : l.bias with
  | none => exact yields_ok hproductWidth hproduct
  | some b =>
    have hadd := addRow_yields ((h.length_bias hbias).trans hproductWidth.symm) hproduct
    rw [hproductWidth] at hadd
    exact hadd

namespace GruCell

/-- The columns of a row from one position up to but not including another. -/
def part (start stop : Nat) (r : List α) : List α := (r.take stop).drop start

/-- What a cell makes of a single row of input and a single row of state. -/
def row (cell : GruCell α) (x h : List α) : List α :=
  let c := cell.size
  let gi := cell.input.row x
  let gh := cell.hidden.row h
  let r := (List.zipWith (· + ·) (part 0 c gi) (part 0 c gh)).map sigmoid
  let z := (List.zipWith (· + ·) (part c (2 * c) gi) (part c (2 * c) gh)).map sigmoid
  let reset := List.zipWith (· * ·) r (part (2 * c) (3 * c) gh)
  let n := (List.zipWith (· + ·) (part (2 * c) (3 * c) gi) reset).map Scalar.tanh
  List.zipWith (· + ·) n (List.zipWith (· * ·) z (List.zipWith (· - ·) h n))

/-- A cell works row by row. -/
theorem step_yields {cell : GruCell α} {inputs size : Nat} (hc : cell.Shaped inputs size)
    {x h : Matrix α} {items : List ι} {f g : ι → List α} (hxw : x.width = inputs)
    (hhw : h.width = size) (hx : x.rows = items.map f) (hh : h.rows = items.map g) :
    Yields (cell.step x h) size (items.map fun i => cell.row (f i) (g i)) := by
  have hs := hc.size_eq
  unfold step
  refine (Linear.apply_yields hc.input hxw hx).bind fun gi hgiw hgi => ?_
  refine (Linear.apply_yields hc.hidden hhw hh).bind fun gh hghw hgh => ?_
  -- the reset gate
  refine (slice_yields 0 cell.size (by omega) hgi).bind fun a haw ha => ?_
  refine (slice_yields 0 cell.size (by omega) hgh).bind fun b hbw hb => ?_
  refine ((combine_yields size (by omega) (by omega) ha hb).map sigmoid).bind fun r hrw hr => ?_
  rw [List.map_map] at hr
  -- the update gate
  refine (slice_yields cell.size (2 * cell.size) (by omega) hgi).bind fun a haw ha => ?_
  refine (slice_yields cell.size (2 * cell.size) (by omega) hgh).bind fun b hbw hb => ?_
  refine ((combine_yields size (by omega) (by omega) ha hb).map sigmoid).bind fun z hzw hz => ?_
  rw [List.map_map] at hz
  -- the candidate
  rw [hghw, hgiw]
  refine (slice_yields (2 * cell.size) (3 * size) (by omega) hgh).bind fun a haw ha => ?_
  refine (combine_yields size hrw (by omega) hr ha).bind fun reset hresetw hreset => ?_
  refine (slice_yields (2 * cell.size) (3 * size) (by omega) hgi).bind fun a haw ha => ?_
  refine (combine_yields size (by omega) hresetw ha hreset).bind fun n hnw hn => ?_
  have hnr : (n.map Scalar.tanh).rows = _ := congrArg (List.map (List.map Scalar.tanh)) hn
  rw [List.map_map] at hnr
  -- the blend
  refine (combine_yields size (b := n.map Scalar.tanh) hhw hnw hh hnr).bind fun d hdw hd => ?_
  refine (combine_yields size hzw hdw hz hd).bind fun change hchangew hchange => ?_
  subst hs
  exact combine_yields cell.size (a := n.map Scalar.tanh) hnw hchangew hnr hchange

end GruCell

/-! ## Summing what arrives -/

/-- The sums, at each node, of the rows of a matrix at the sources of the links into it. -/
theorem sumAtTargets_yields {values : Matrix α} {row : Nat → List α} {links : List (Link α)}
    {n : Nat} (hv : values.rows = (List.range n).map row) (hk : ∀ k ∈ links, k.Within n) :
    Yields (sumAtTargets values (links.map Link.edge) n) values.width
      ((List.range n).map fun t =>
        sumRows values.width ((arrivals row links t).map Arrival.source)) := by
  have hsource : (links.map Link.edge).map Prod.fst = links.map Link.source := by
    rw [List.map_map]
    rfl
  have htarget : (links.map Link.edge).map Prod.snd = links.map Link.target := by
    rw [List.map_map]
    rfl
  have hheight : values.height = n := by rw [height_of_rows_eq hv, List.length_range]
  unfold sumAtTargets
  rw [hsource, htarget]
  refine Yields.bind (gather_yields ?_) fun m hw hr => ?_
  · intro i hi
    obtain ⟨k, hmem, rfl⟩ := List.mem_map.1 hi
    rw [hheight]
    exact (hk k hmem).1
  · have hrows : m.rows = links.map fun k => row k.source := by
      rw [hr, List.map_map]
      exact List.map_congr_left fun k hmem => row_of_rows_eq hv (hk k hmem).1
    have hsum := scatterAdd_yields hrows fun k hmem => (hk k hmem).2
    rw [hw] at hsum
    simp only [arrivals, List.map_map]
    exact hsum

/-! ## Edge-gated layers -/

namespace EdgeGated

/-- The message over an edge with given features, into a node with given features. -/
def message (layer : EdgeGated α) (own edge : List α) : List α :=
  List.zipWith (· * ·) ((layer.lineAttention.row (own ++ edge)).map sigmoid)
    ((layer.lineNode.row (own ++ edge)).map softplus)

/-- The features of a node with the sum of its messages added. -/
def residualRow (layer : EdgeGated α) (own : List α) (received : List (Arrival α)) : List α :=
  List.zipWith (· + ·)
    (sumRows layer.channels (received.map fun a => layer.message own a.edge)) own

theorem messages_yields {layer : EdgeGated α} {channels edgeDim : Nat} {norm : Bool}
    (hl : layer.Shaped channels edgeDim norm) {x : Matrix α} {n : Nat} {row : Nat → List α}
    {links : List (Link α)} {edgeFeatures : Option (Matrix α)} (hx : x.width = channels)
    (hr : x.rows = (List.range n).map row) (hk : ∀ k ∈ links, k.Within n)
    (hc : Carries links edgeDim edgeFeatures) :
    Yields (layer.messages x (links.map Link.target) edgeFeatures) channels
      (links.map fun k => layer.message (row k.target) k.features) := by
  -- with or without edge features, the maps read the row of the target and then that of the edge
  have hmaps : ∀ z : Matrix α, z.width = channels + edgeDim →
      z.rows = (links.map fun k => row k.target ++ k.features) →
      Yields (do
        let gate ← layer.lineAttention.apply z
        let candidate ← layer.lineNode.apply z
        Matrix.combine (· * ·) (gate.map sigmoid) (candidate.map softplus)) channels
        (links.map fun k => layer.message (row k.target) k.features) := by
    intro z hzw hzr
    refine (Linear.apply_yields hl.lineAttention hzw hzr).bind fun gate hgw hg => ?_
    refine (Linear.apply_yields hl.lineNode hzw hzr).bind fun candidate hcw hcr => ?_
    have hgate : (gate.map sigmoid).rows = _ := congrArg (List.map (List.map sigmoid)) hg
    have hcandidate : (candidate.map softplus).rows = _ :=
      congrArg (List.map (List.map softplus)) hcr
    rw [List.map_map] at hgate hcandidate
    exact combine_yields channels (a := gate.map sigmoid) (b := candidate.map softplus) hgw hcw
      hgate hcandidate
  have hheight : x.height = n := by rw [height_of_rows_eq hr, List.length_range]
  unfold messages
  refine Yields.bind (gather_yields ?_) fun xt hxtw hxt => ?_
  · intro i hi
    obtain ⟨k, hmem, rfl⟩ := List.mem_map.1 hi
    rw [hheight]
    exact (hk k hmem).2
  have hxr : xt.rows = links.map fun k => row k.target := by
    rw [hxt, List.map_map]
    exact List.map_congr_left fun k hmem => row_of_rows_eq hr (hk k hmem).2
  cases edgeFeatures with
  | none =>
    obtain ⟨hzero, hempty⟩ := hc
    refine hmaps xt (by rw [hxtw, hx, hzero]; rfl) (hxr.trans (List.map_congr_left ?_))
    intro k hmem
    simp [hempty k hmem]
  | some e =>
    obtain ⟨-, hwidth, hrows⟩ := hc
    refine (beside_yields hxr hrows).bind fun z hzw hzr => hmaps z ?_ hzr
    rw [hzw, hxtw, hx, hwidth]

/-- The residual of an edge-gated layer, node by node. -/
theorem residual_yields {layer : EdgeGated α} {channels edgeDim : Nat} {norm : Bool}
    (hl : layer.Shaped channels edgeDim norm) {x : Matrix α} {n : Nat} {row : Nat → List α}
    {links : List (Link α)} {edgeFeatures : Option (Matrix α)} (hx : x.width = channels)
    (hr : x.rows = (List.range n).map row) (hk : ∀ k ∈ links, k.Within n)
    (hc : Carries links edgeDim edgeFeatures) :
    Yields (layer.residual x (links.map Link.edge) edgeFeatures) channels
      ((List.range n).map fun t => layer.residualRow (row t) (arrivals row links t)) := by
  have hheight : x.height = n := by rw [height_of_rows_eq hr, List.length_range]
  have hadd : ∀ sums : Matrix α, sums.width = channels →
      (sums.rows = (List.range n).map fun t => sumRows channels
        ((arrivals row links t).map fun a => layer.message (row t) a.edge)) →
      Yields (Matrix.combine (· + ·) sums x) channels
        ((List.range n).map fun t => layer.residualRow (row t) (arrivals row links t)) := by
    intro sums hw hs
    unfold residualRow
    rw [hl.channels_eq]
    exact combine_yields channels hw hx hs hr
  have htarget : (links.map Link.edge).map Prod.snd = links.map Link.target := by
    rw [List.map_map]
    rfl
  unfold residual
  split
  · -- without edges nothing arrives anywhere, and the sums are zeros
    rename_i hempty
    have hnil : links = [] := by simpa using hempty
    subst hnil
    refine hadd (Matrix.zeros x.height x.width) hx ?_
    rw [← hx, ← hheight]
    simp [Matrix.zeros, fill, arrivals, sumRows, List.map_const']
  · rw [htarget, hheight]
    refine (messages_yields hl hx hr hk hc).bind fun m hw hm => ?_
    have hsum := scatterAdd_yields hm fun k hmem => (hk k hmem).2
    rw [hw] at hsum
    refine hsum.bind fun sums hsw hs => hadd sums hsw (hs.trans ?_)
    refine List.map_congr_left fun t _ => congrArg (sumRows channels) ?_
    rw [arrivals, List.map_map]
    apply List.map_congr_left
    intro k hmem
    have ht : k.target = t := by simpa using (List.mem_filter.1 hmem).2
    rw [ht]
    rfl

end EdgeGated

/-! ## Graph convolutions -/

namespace GraphConv

/-- The new features of a node. -/
def nodeRow (layer : GraphConv α) (own : List α) (received : List (Arrival α)) : List α :=
  List.zipWith (· + ·) (layer.related.row (sumRows layer.channels (received.map Arrival.source)))
    (layer.root.row own)

/-- A graph convolution, node by node. -/
theorem forward_yields {layer : GraphConv α} {channels : Nat} (hl : layer.Shaped channels)
    {x : Matrix α} {n : Nat} {row : Nat → List α} {links : List (Link α)} (hx : x.width = channels)
    (hr : x.rows = (List.range n).map row) (hk : ∀ k ∈ links, k.Within n) :
    Yields (layer.forward x (links.map Link.edge)) channels
      ((List.range n).map fun t => layer.nodeRow (row t) (arrivals row links t)) := by
  have hheight : x.height = n := by rw [height_of_rows_eq hr, List.length_range]
  unfold forward
  rw [nodeFault?_eq_none (hx.trans hl.channels_eq.symm) hheight hk, hheight]
  refine (sumAtTargets_yields hr hk).bind fun sums hsw hs => ?_
  rw [hx] at hs
  refine (Linear.apply_yields hl.related (hsw.trans hx) hs).bind fun a haw ha => ?_
  refine (Linear.apply_yields hl.root hx hr).bind fun b hbw hb => ?_
  unfold nodeRow
  rw [hl.channels_eq]
  exact combine_yields channels haw hbw ha hb

end GraphConv

/-! ## Gated graph layers -/

namespace GatedGraph

/-- The features of a node after one step. -/
def stepRow (cell : GruCell α) (weight : Linear α) (own : List α) (received : List (Arrival α)) :
    List α :=
  cell.row (sumRows cell.size (received.map fun a => weight.row a.source)) own

/-- The features of all nodes after some steps. -/
def stepsRow (cell : GruCell α) (links : List (Link α)) :
    List (Linear α) → (Nat → List α) → Nat → List α
  | [], row => row
  | weight :: rest, row =>
    stepsRow cell links rest fun t => stepRow cell weight (row t) (arrivals row links t)

/-- One step of a gated graph layer, node by node. -/
theorem propagate_yields {cell : GruCell α} {channels : Nat} (hc : cell.Shaped channels channels)
    {weight : Linear α} (hw : weight.Shaped channels channels false) {h : Matrix α} {n : Nat}
    {row : Nat → List α} {links : List (Link α)} (hh : h.width = channels)
    (hr : h.rows = (List.range n).map row) (hk : ∀ k ∈ links, k.Within n) :
    Yields (propagate cell (links.map Link.edge) h weight) channels
      ((List.range n).map fun t => stepRow cell weight (row t) (arrivals row links t)) := by
  have hheight : h.height = n := by rw [height_of_rows_eq hr, List.length_range]
  unfold propagate
  rw [hheight]
  refine (Linear.apply_yields hw hh hr).bind fun m hmw hm => ?_
  refine (sumAtTargets_yields hm hk).bind fun sums hsw hs => ?_
  have hstep := GruCell.step_yields hc (hsw.trans hmw) hh hs hr
  rw [hmw] at hstep
  unfold stepRow
  rw [hc.size_eq]
  simp only [arrivals, List.map_map] at hstep ⊢
  exact hstep

/-- Any number of steps, node by node. -/
theorem foldlM_propagate_yields {cell : GruCell α} {channels : Nat}
    (hc : cell.Shaped channels channels) {n : Nat} {links : List (Link α)}
    (hk : ∀ k ∈ links, k.Within n) (weights : List (Linear α))
    (hw : ∀ w ∈ weights, w.Shaped channels channels false) {h : Matrix α} {row : Nat → List α}
    (hh : h.width = channels) (hr : h.rows = (List.range n).map row) :
    Yields (weights.foldlM (propagate cell (links.map Link.edge)) h) channels
      ((List.range n).map (stepsRow cell links weights row)) := by
  induction weights generalizing h row with
  | nil => exact yields_ok hh hr
  | cons w rest ih =>
    rw [List.foldlM_cons]
    refine (propagate_yields hc (hw w List.mem_cons_self) hh hr hk).bind fun y hyw hy => ?_
    exact ih (fun v hv => hw v (List.mem_cons_of_mem _ hv)) hyw hy

/-- A gated graph layer, node by node. -/
theorem forward_yields {layer : GatedGraph α} {channels steps : Nat}
    (hl : layer.Shaped channels steps) {x : Matrix α} {n : Nat} {row : Nat → List α}
    {links : List (Link α)} (hx : x.width = channels) (hr : x.rows = (List.range n).map row)
    (hk : ∀ k ∈ links, k.Within n) :
    Yields (layer.forward x (links.map Link.edge)) channels
      ((List.range n).map (stepsRow layer.cell links layer.steps row)) := by
  have hheight : x.height = n := by rw [height_of_rows_eq hr, List.length_range]
  unfold forward
  rw [nodeFault?_eq_none (hx.trans hl.channels_eq.symm) hheight hk]
  exact foldlM_propagate_yields hl.cell hk layer.steps hl.steps_shaped hx hr

end GatedGraph

/-! ## Attention layers -/

/-- A list of computations that all succeed. -/
theorem mapM_eq_ok {β γ : Type} {f : β → Except Failure γ} {g : β → γ} {items : List β}
    (h : ∀ b ∈ items, f b = .ok (g b)) : items.mapM f = .ok (items.map g) := by
  induction items with
  | nil => rfl
  | cons b rest ih =>
    rw [List.mapM_cons, h b List.mem_cons_self, ih fun c hc => h c (List.mem_cons_of_mem _ hc)]
    rfl

theorem pick_map_range {β : Type} {f : Nat → β} {n i : Nat} (h : i < n) :
    pick ((List.range n).map f) i = .ok (f i) := by
  simp [pick, h]

namespace Attention

/-- The features that a node attends to: those of the other nodes from which edges lead to it, and
its own. -/
def attended (own : List α) (received : List (Arrival α)) : List (List α) :=
  (received.filter fun a => !a.fromSelf).map Arrival.source ++ [own]

/-- The score of one mapped node for another. -/
def scoreOf (layer : Attention α) (source target : List α) : α :=
  leakyRelu slope (Scalar.sum (List.zipWith (· * ·) source layer.sourceScore)
    + Scalar.sum (List.zipWith (· * ·) target layer.targetScore))

/-- The mean of some mapped nodes, weighted by the softmax of their scores for `target`. -/
def mix (layer : Attention α) (target : List α) (sources : List (List α)) : List α :=
  let top := Scalar.maximum (sources.map fun s => layer.scoreOf s target)
  let share := fun s => Scalar.exp (layer.scoreOf s target - top)
  let total := Scalar.sum (sources.map share)
  sumRows layer.channels (sources.map fun s => s.map (· * (share s / total)))

/-- The new features of a node. -/
def nodeRow (layer : Attention α) (own : List α) (received : List (Arrival α)) : List α :=
  List.zipWith (· + ·)
    (layer.mix (layer.map.row own) ((attended own received).map layer.map.row)) layer.bias

omit [Scalar α] in
/-- Self loops are left out of the edges and put in again, once for each node. -/
theorem withSelfLoops_within {n : Nat} {links : List (Link α)} (hk : ∀ k ∈ links, k.Within n) :
    ∀ e ∈ withSelfLoops n (links.map Link.edge), e.1 < n ∧ e.2 < n := by
  intro e he
  rcases List.mem_append.1 he with he | he
  · obtain ⟨k, hmem, rfl⟩ := List.mem_map.1 (List.mem_filter.1 he).1
    exact hk k hmem
  · obtain ⟨i, hi, rfl⟩ := List.mem_map.1 he
    exact ⟨List.mem_range.1 hi, List.mem_range.1 hi⟩

omit [Scalar α] in
/-- What the edges into a node bring, with self loops in their place. -/
theorem map_withSelfLoops {β : Type} {n t : Nat} (ht : t < n) (row : Nat → List α)
    (links : List (Link α)) (f : List α → β) :
    ((withSelfLoops n (links.map Link.edge)).filter fun e => e.2 = t).map (fun e => f (row e.1))
      = (attended (row t) (arrivals row links t)).map f := by
  have hself : (((List.range n).map fun i => (i, i)).filter fun e => decide (e.2 = t))
      = [(t, t)] := by
    have hone : (List.range n).count t = 1 :=
      List.count_eq_one_of_mem List.nodup_range (List.mem_range.2 ht)
    rw [List.filter_map]
    show ((List.range n).filter fun i => decide (i = t)).map _ = _
    rw [List.filter_eq, hone]
    rfl
  have hother : (((links.map Link.edge).filter fun e => decide (e.1 ≠ e.2)).filter
        fun e => decide (e.2 = t)).map (fun e => f (row e.1))
      = (((arrivals row links t).filter fun a => !a.fromSelf).map Arrival.source).map f := by
    rw [arrivals, List.filter_filter, List.filter_map, List.filter_map, List.filter_filter,
      List.map_map, List.map_map, List.map_map]
    refine congrArg (List.map _) (List.filter_congr fun k _ => ?_)
    by_cases h : k.target = t
    · simp [Link.edge, h]
    · simp [Link.edge, h]
  rw [withSelfLoops, List.filter_append, List.map_append, hself, hother, attended, List.map_append]
  rfl

/-- The weight of an edge: its share of the exponentials of the scores of the edges that end where
it does. The greatest of these scores is subtracted first. -/
def edgeWeight (edges : List (Nat × Nat)) (score : Nat × Nat → α) (e : Nat × Nat) : α :=
  let into := fun t => edges.filter fun e => e.2 = t
  let share := fun e : Nat × Nat =>
    Scalar.exp (score e - Scalar.maximum ((into e.2).map score))
  share e / Scalar.sum ((into e.2).map share)

omit [Scalar α] in
/-- The value of each edge is combined with that of the node where the edge ends. -/
theorem mapM_pick {n : Nat} {edges : List (Nat × Nat)} (h : ∀ e ∈ edges, e.2 < n)
    (op : α → α → α) (value : Nat × Nat → α) (f : Nat → α) :
    ((edges.map Prod.snd).zip (edges.map value)).mapM (fun p => do
        return op p.2 (← pick ((List.range n).map f) p.1))
      = .ok (edges.map fun e => op (value e) (f e.2)) := by
  rw [List.zip_map', mapM_eq_ok (g := fun p => op p.2 (f p.1)), List.map_map]
  · rfl
  · intro p hp
    obtain ⟨e, he, rfl⟩ := List.mem_map.1 hp
    rw [pick_map_range (h e he)]
    rfl

/-- The softmax of the scores of edges, for each node over the edges into it. -/
theorem softmaxAt_eq_ok {n : Nat} {edges : List (Nat × Nat)} (h : ∀ e ∈ edges, e.2 < n)
    (score : Nat × Nat → α) :
    softmaxAt n (edges.map Prod.snd) (edges.map score)
      = .ok (edges.map (edgeWeight edges score)) := by
  let into := fun t => edges.filter fun e => e.2 = t
  let top := fun t => Scalar.maximum ((into t).map score)
  let share := fun e : Nat × Nat => Scalar.exp (score e - top e.2)
  have hshares := mapM_pick h (fun a b => Scalar.exp (a - b)) score top
  have hweights := mapM_pick h (· / ·) share fun t => Scalar.sum ((into t).map share)
  unfold softmaxAt
  simp only [segment_map]
  rw [hshares]
  simp only [bind, Except.bind, segment_map]
  exact hweights

/-- The scores of edges between nodes that exist. -/
theorem scores_eq_ok {n : Nat} {edges : List (Nat × Nat)} (h : ∀ e ∈ edges, e.1 < n ∧ e.2 < n)
    (f g : Nat → α) :
    scores ((List.range n).map f) ((List.range n).map g) edges
      = .ok (edges.map fun e => leakyRelu slope (f e.1 + g e.2)) := by
  unfold scores
  refine mapM_eq_ok fun e he => ?_
  rw [pick_map_range (h e he).1, pick_map_range (h e he).2]
  rfl

/-- The weighted sum at a node, over the edges into it, is the mean over what it attends to. -/
theorem sumRows_edgeWeight (layer : Attention α) {n t : Nat} (ht : t < n) (row : Nat → List α)
    (links : List (Link α)) :
    let mapped := fun i => layer.map.row (row i)
    let edges := withSelfLoops n (links.map Link.edge)
    let score := fun e : Nat × Nat => layer.scoreOf (mapped e.1) (mapped e.2)
    sumRows layer.channels ((edges.filter fun e => e.2 = t).map fun e =>
        (mapped e.1).map (· * edgeWeight edges score e))
      = layer.mix (mapped t)
          ((attended (row t) (arrivals row links t)).map layer.map.row) := by
  intro mapped edges score
  have hbring : ∀ {β : Type} (f : List α → β),
      (edges.filter fun e => e.2 = t).map (fun e => f (mapped e.1))
        = ((attended (row t) (arrivals row links t)).map layer.map.row).map f := by
    intro β f
    rw [List.map_map]
    exact map_withSelfLoops ht row links (f ∘ layer.map.row)
  have hscore : (edges.filter fun e => e.2 = t).map score
      = (edges.filter fun e => e.2 = t).map fun e => layer.scoreOf (mapped e.1) (mapped t) :=
    List.map_congr_left fun e he => by
      have het : e.2 = t := by simpa using (List.mem_filter.1 he).2
      simp only [score, het]
  have hshare : (edges.filter fun e => e.2 = t).map (fun e => Scalar.exp (score e -
        Scalar.maximum ((edges.filter fun d => d.2 = e.2).map score)))
      = (edges.filter fun e => e.2 = t).map fun e =>
        Scalar.exp (layer.scoreOf (mapped e.1) (mapped t) - Scalar.maximum
          ((edges.filter fun d => d.2 = t).map
            fun d => layer.scoreOf (mapped d.1) (mapped t))) :=
    List.map_congr_left fun e he => by
      have het : e.2 = t := by simpa using (List.mem_filter.1 he).2
      simp only [het, hscore]
      simp only [score, het]
  unfold mix
  simp only [← hbring]
  refine congrArg (sumRows layer.channels) (List.map_congr_left fun e he => ?_)
  have het : e.2 = t := by simpa using (List.mem_filter.1 he).2
  simp only [edgeWeight, het, hshare, hscore]
  simp only [score, het]

/-- An attention layer, node by node. -/
theorem forward_yields {layer : Attention α} {channels : Nat} (hl : layer.Shaped channels)
    {x : Matrix α} {n : Nat} {row : Nat → List α} {links : List (Link α)} (hx : x.width = channels)
    (hr : x.rows = (List.range n).map row) (hk : ∀ k ∈ links, k.Within n) :
    Yields (layer.forward x (links.map Link.edge)) channels
      ((List.range n).map fun t => layer.nodeRow (row t) (arrivals row links t)) := by
  have hheight : x.height = n := by rw [height_of_rows_eq hr, List.length_range]
  have hwithin := withSelfLoops_within hk
  unfold forward
  rw [nodeFault?_eq_none (hx.trans hl.channels_eq.symm) hheight hk, hheight]
  refine (Linear.apply_yields hl.map hx hr).bind fun h hhw hh => ?_
  -- the scores of the edges, and their softmax
  rw [mulVec_of_length (hl.sourceScore_length.trans hhw.symm),
    mulVec_of_length (hl.targetScore_length.trans hhw.symm), hh, List.map_map, List.map_map]
  simp only [ok_bind]
  rw [scores_eq_ok hwithin, ok_bind, softmaxAt_eq_ok fun e he => (hwithin e he).2, ok_bind]
  refine Yields.bind (gather_yields ?_) fun m hmw hm => ?_
  · intro i hi
    obtain ⟨e, he, rfl⟩ := List.mem_map.1 hi
    rw [height_of_rows_eq hh, List.length_range]
    exact (hwithin e he).1
  have hmr : m.rows = (withSelfLoops n (links.map Link.edge)).map
      fun e => layer.map.row (row e.1) := by
    rw [hm, List.map_map]
    exact List.map_congr_left fun e he => row_of_rows_eq hh (hwithin e he).1
  -- the rows of the sources with these weights, summed at the targets
  have hweighed : ∀ w : Nat × Nat → α,
      (weighRows m ((withSelfLoops n (links.map Link.edge)).map w)).rows
        = (withSelfLoops n (links.map Link.edge)).map
          fun e => (layer.map.row (row e.1)).map (· * w e) := by
    intro w
    show List.zipWith _ m.rows _ = _
    rw [hmr, List.zipWith_map, List.zipWith_self]
  refine (scatterAdd_yields (hweighed _) fun e he => (hwithin e he).2).bind fun sums hsw hs => ?_
  have hwidth : sums.width = channels := hsw.trans (hmw.trans hhw)
  have hall := addRow_yields (hl.bias_length.trans hwidth.symm) hs
  rw [hwidth] at hall
  obtain ⟨y, hy, hyw, hyr⟩ := hall
  refine ⟨y, hy, hyw, hyr.trans (List.map_congr_left fun t ht => ?_)⟩
  -- at each node this is the mean over what the node attends to
  have hchannels : m.width = layer.channels := (hmw.trans hhw).trans hl.channels_eq.symm
  rw [nodeRow, ← sumRows_edgeWeight layer (List.mem_range.1 ht) row links, ← hchannels]
  rfl

end Attention

end PonziScreen
