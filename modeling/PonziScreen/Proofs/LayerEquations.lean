import Mathlib.Analysis.SpecialFunctions.Sigmoid
import PonziScreen.Proofs.RealRows

/-!
# Layer equations in exact arithmetic

The equations that define the four kinds of layers, written with sums over edges and over columns,
and the proof that the layers compute them.

Features are functions here: `x t j` is feature `j` of node `t`, and `e k j` is feature `j` of the
edge at position `k`. An edge that is listed twice counts twice, since sums run over the positions
of edges.

* `EdgeGated.equation`, `GraphConv.equation`, `Attention.equation`, `GatedGraph.equation` — the
  equations, and `Layer.equation` for a layer of any kind
* `Layer.nodeRow_rowOf` — a node equation on lists is one of these, entry by entry
* `Layer.forward_equation` — what a layer in evaluation mode gives
-/

namespace PonziScreen

open PonziScreen.Matrix

/-! ## Equations -/

/-- The positions of the edges that end at a node. -/
def edgesInto (edges : List (Nat × Nat)) (t : Nat) : Finset (Fin edges.length) :=
  {k | edges[k].2 = t}

/-- An entry of the weights times a vector. -/
def Linear.product (l : Linear ℝ) (v : Nat → ℝ) (j : Nat) : ℝ :=
  ∑ i ∈ Finset.range l.inputs, l.weight.entry j i * v i

/-- An entry of the bias; zero if there is none. -/
def Linear.offset (l : Linear ℝ) (j : Nat) : ℝ := (l.bias.getD []).getD j 0

/-- An entry of the state of a cell after one step. The rows of both maps are those of the reset
gate, then those of the update gate, then those of the candidate. -/
noncomputable def GruCell.equation (cell : GruCell ℝ) (x h : Nat → ℝ) (j : Nat) : ℝ :=
  let input := fun i => cell.input.product x i + cell.input.offset i
  let hidden := fun i => cell.hidden.product h i + cell.hidden.offset i
  let r := Real.sigmoid (input j + hidden j)
  let z := Real.sigmoid (input (cell.size + j) + hidden (cell.size + j))
  let n := Real.tanh (input (2 * cell.size + j) + r * hidden (2 * cell.size + j))
  (1 - z) * n + z * h j

/-- What a normalisation makes of an entry of a column, with its running estimates. -/
noncomputable def BatchNorm.equation (b : BatchNorm ℝ) (v : Nat → ℝ) (j : Nat) : ℝ :=
  match b.channels[j]? with
  | none => v j
  | some c => (v j - c.runningMean) * (c.weight / √(c.runningVar + 1 / 100000)) + c.bias

section Equations

variable (x : Nat → Nat → ℝ) (edges : List (Nat × Nat)) (e : Nat → Nat → ℝ)

/-- A number made positive by `ln (1 + exp v)`; above 20 the number itself. -/
noncomputable def EdgeGated.soften (v : ℝ) : ℝ := if 20 < v then v else Real.log (1 + Real.exp v)

/-- A node adds up the messages over its incoming edges and its own features. -/
noncomputable def EdgeGated.residualEquation (l : EdgeGated ℝ) (t j : Nat) : ℝ :=
  let z := fun k : Nat => followedBy l.channels (x t) (e k)
  x t j + ∑ k ∈ edgesInto edges t,
    Real.sigmoid (l.lineAttention.product (z k) j + l.lineAttention.offset j)
      * soften (l.lineNode.product (z k) j + l.lineNode.offset j)

/-- The sum is normalised if the layer has a normalisation. -/
noncomputable def EdgeGated.equation (l : EdgeGated ℝ) (t : Nat) : Nat → ℝ :=
  match l.norm with
  | none => l.residualEquation x edges e t
  | some b => b.equation (l.residualEquation x edges e t)

/-- A map of the node's own features, a map of the sum over its neighbours, and a bias. -/
def GraphConv.equation (l : GraphConv ℝ) (t j : Nat) : ℝ :=
  l.root.product (x t) j
    + l.related.product (fun i => ∑ k ∈ edgesInto edges t, x edges[k].1 i) j + l.related.offset j

/-- A score weakened to a fifth if it is negative. -/
noncomputable def Attention.weaken (v : ℝ) : ℝ := if v < 0 then v / 5 else v

/-- A mean of mapped features over a loop at the node and its incoming edges from other nodes, with
the softmax of their scores as weights. -/
noncomputable def Attention.equation (l : Attention ℝ) (t j : Nat) : ℝ :=
  let h := fun i => l.map.product (x i)
  let score := fun s => weaken
    (∑ i ∈ Finset.range l.channels, l.sourceScore.getD i 0 * h s i
      + ∑ i ∈ Finset.range l.channels, l.targetScore.getD i 0 * h t i)
  let total := Real.exp (score t)
    + ∑ k ∈ edgesInto edges t with edges[k].1 ≠ t, Real.exp (score edges[k].1)
  l.bias.getD j 0 + (Real.exp (score t) / total * h t j
    + ∑ k ∈ edgesInto edges t with edges[k].1 ≠ t,
        Real.exp (score edges[k].1) / total * h edges[k].1 j)

/-- In a step the cell of a node gets the sum of the mapped features over the incoming edges. -/
noncomputable def GatedGraph.stepEquation (cell : GruCell ℝ) (h : Nat → Nat → ℝ) (w : Linear ℝ)
    (t : Nat) : Nat → ℝ :=
  cell.equation (fun i => ∑ k ∈ edgesInto edges t, w.product (h edges[k].1) i) (h t)

/-- One step for each map, from the features of the nodes. -/
noncomputable def GatedGraph.equation (l : GatedGraph ℝ) : Nat → Nat → ℝ :=
  l.steps.foldl (stepEquation edges l.cell) x

/-- The equation of a layer of any kind. -/
noncomputable def Layer.equation : Layer ℝ → Nat → Nat → ℝ
  | edgeGated l => l.equation x edges e
  | graphConv l => l.equation x edges
  | attention l => l.equation x edges
  | gatedGraph l => l.equation x edges

end Equations

/-! ## Activations -/

theorem sigmoid_real (v : ℝ) : sigmoid v = Real.sigmoid v := by
  rw [sigmoid, Scalar.one_real, Real.sigmoid_def, one_div]
  rfl

theorem softplus_real (v : ℝ) : softplus v = EdgeGated.soften v := by
  have htwenty : (Scalar.ofNat 20 : ℝ) = 20 := Nat.cast_ofNat
  rw [softplus, EdgeGated.soften, htwenty]
  exact if_congr decide_eq_true_iff rfl rfl

theorem EdgeGated.soften_nonneg (v : ℝ) : 0 ≤ EdgeGated.soften v := by
  unfold EdgeGated.soften
  split
  · linarith
  · exact Real.log_nonneg (by linarith [Real.exp_pos v])

theorem leakyRelu_slope (v : ℝ) : leakyRelu Attention.slope v = Attention.weaken v := by
  have hslope : (Attention.slope : ℝ) = 1 / 5 := by
    rw [Attention.slope, Scalar.ratio_real, Nat.cast_one, Nat.cast_ofNat]
  rw [leakyRelu, Attention.weaken, hslope, Scalar.zero_real, mul_one_div]
  exact if_congr decide_eq_true_iff rfl rfl

/-! ## Maps, cells and normalisations -/

theorem Linear.row_rowOf {l : Linear ℝ} {inputs outputs : Nat} {bias : Bool}
    (h : l.Shaped inputs outputs bias) (v : Nat → ℝ) :
    l.row (rowOf inputs v) = rowOf outputs fun j => l.product v j + l.offset j := by
  have hproduct : l.weight.rows.map (dot (rowOf inputs v)) = rowOf outputs (l.product v) := by
    rw [l.weight.rows_eq_map_rowOf, List.map_map, show l.weight.height = outputs from h.outputs_eq]
    refine List.map_congr_left fun j _ => ?_
    rw [Function.comp_apply, show l.weight.width = inputs from h.inputs_eq, dot_rowOf, product,
      h.inputs_eq]
  unfold row
  rw [hproduct]
  cases hbias : l.bias with
  | none =>
    refine rowOf_congr fun j _ => ?_
    rw [offset, hbias, Option.getD_none, List.getD_nil, add_zero]
  | some b =>
    show List.zipWith (· + ·) _ b = _
    rw [eq_rowOf (h.length_bias hbias), zipWith_rowOf]
    refine rowOf_congr fun j _ => ?_
    rw [offset, hbias, Option.getD_some]

/-- A map without a bias is only the product. -/
theorem Linear.row_rowOf_false {l : Linear ℝ} {inputs outputs : Nat}
    (h : l.Shaped inputs outputs false) (v : Nat → ℝ) :
    l.row (rowOf inputs v) = rowOf outputs (l.product v) := by
  have hb := h.bias_length
  rw [row_rowOf h]
  refine rowOf_congr fun j _ => ?_
  cases hbias : l.bias with
  | none => rw [offset, hbias, Option.getD_none, List.getD_nil, add_zero]
  | some b => simp [hbias] at hb

theorem GruCell.row_rowOf {cell : GruCell ℝ} {inputs size : Nat} (h : cell.Shaped inputs size)
    (x s : Nat → ℝ) :
    cell.row (rowOf inputs x) (rowOf size s) = rowOf size (cell.equation x s) := by
  have hsize := h.size_eq
  have hpart : ∀ (k : Nat) (v : Nat → ℝ), k + 1 ≤ 3 →
      part (k * size) ((k + 1) * size) (rowOf (3 * size) v)
        = rowOf size fun j => v (k * size + j) := by
    intro k v hk
    rw [part_rowOf (Nat.mul_le_mul_right size hk), Nat.succ_mul, Nat.add_sub_cancel_left]
  have hreset := fun v => hpart 0 v (by omega)
  have hupdate := fun v => hpart 1 v (by omega)
  have hcandidate := fun v => hpart 2 v (by omega)
  simp only [Nat.zero_mul, Nat.zero_add, Nat.one_mul] at hreset hupdate hcandidate
  unfold row
  simp only [hsize, Linear.row_rowOf h.input, Linear.row_rowOf h.hidden, hreset, hupdate,
    hcandidate, zipWith_rowOf, map_rowOf, sigmoid_real]
  refine rowOf_congr fun j _ => ?_
  unfold equation
  simp only [hsize]
  have hblend : ∀ n z h : ℝ, n + z * (h - n) = (1 - z) * n + z * h := fun n z h => by ring
  exact hblend _ _ _

theorem BatchNorm.evalRow_rowOf (b : BatchNorm ℝ) (v : Nat → ℝ) :
    b.evalRow (rowOf b.width v) = rowOf b.width (b.equation v) := by
  apply List.ext_getElem
  · rw [length_rowOf]
    exact length_normaliseRow (List.length_map _) (length_rowOf ..)
  · intro j h₁ h₂
    have hj : j < b.channels.length := by
      rw [length_rowOf] at h₂
      exact h₂
    have hepsilon : (NormChannel.epsilon : ℝ) = 1 / 100000 := by
      rw [NormChannel.epsilon, Scalar.ratio_real, Nat.cast_one, Nat.cast_ofNat]
    simp only [evalRow, normaliseRow, runningStatistics, rowOf, equation, List.getElem_zipWith,
      List.getElem_zip, List.getElem_map, List.getElem_range, List.getElem?_eq_getElem hj,
      NormChannel.normalise, hepsilon]
    rfl

/-! ## Edges -/

/-- The edges of a list as links that carry functions as features. -/
noncomputable def linksOf (edges : List (Nat × Nat)) (d : Nat) (e : Nat → Nat → ℝ) :
    List (Link ℝ) :=
  (List.finRange edges.length).map fun k : Fin edges.length =>
    ⟨edges[k].1, edges[k].2, rowOf d (e k)⟩

section Edges

variable {edges : List (Nat × Nat)} {c d : Nat} {x e : Nat → Nat → ℝ} {t : Nat}

theorem map_edge_linksOf : (linksOf edges d e).map Link.edge = edges := by
  rw [linksOf, List.map_map]
  exact List.map_getElem_finRange edges

theorem linksOf_within {n : Nat} (h : ∀ e ∈ edges, e.1 < n ∧ e.2 < n) :
    ∀ k ∈ linksOf edges d e, k.Within n := by
  intro k hk
  obtain ⟨i, -, rfl⟩ := List.mem_map.1 hk
  exact h _ (List.getElem_mem i.2)

/-- What arrives at a node, by the positions of the edges. -/
theorem arrivals_linksOf (row : Nat → List ℝ) :
    arrivals row (linksOf edges d e) t
      = ((List.finRange edges.length).filter fun k => edges[k].2 = t).map fun k =>
        ⟨decide (edges[k].1 = t), row edges[k].1, rowOf d (e k)⟩ := by
  rw [arrivals, linksOf, List.filter_map, List.map_map]
  rfl

/-- A sum over a list of positions is one over a set of positions. -/
theorem sum_filter_finRange {n : Nat} (p : Fin n → Bool) (f : Fin n → ℝ) :
    (((List.finRange n).filter p).map f).sum = ∑ k with p k, f k := by
  rw [← List.sum_toFinset f ((List.nodup_finRange n).filter p), List.toFinset_filter,
    List.toFinset_finRange]

/-- The sum of what arrives, if it comes in rows of one length. -/
theorem sumRows_arrivals {row : Nat → List ℝ} {f : Arrival ℝ → List ℝ}
    {g : Fin edges.length → Nat → ℝ}
    (h : ∀ k : Fin edges.length,
      f ⟨decide (edges[k].1 = t), row edges[k].1, rowOf d (e k)⟩ = rowOf c (g k)) :
    sumRows c ((arrivals row (linksOf edges d e) t).map f)
      = rowOf c fun j => ∑ k ∈ edgesInto edges t, g k j := by
  have hrows : (arrivals row (linksOf edges d e) t).map f
      = ((List.finRange edges.length).filter fun k => edges[k].2 = t).map
        fun k => rowOf c (g k) := by
    rw [arrivals_linksOf, List.map_map]
    exact List.map_congr_left fun k _ => h k
  rw [hrows, sumRows_rowOf]
  refine rowOf_congr fun j _ => ?_
  rw [sum_filter_finRange, edgesInto]
  simp only [decide_eq_true_eq]

/-! ## Layers -/

theorem EdgeGated.message_rowOf {l : EdgeGated ℝ} {norm : Bool} (hl : l.Shaped c d norm)
    (v w : Nat → ℝ) :
    l.message (rowOf c v) (rowOf d w) = rowOf c fun j =>
      Real.sigmoid (l.lineAttention.product (followedBy c v w) j + l.lineAttention.offset j)
        * soften (l.lineNode.product (followedBy c v w) j + l.lineNode.offset j) := by
  rw [message, append_rowOf, Linear.row_rowOf hl.lineAttention, Linear.row_rowOf hl.lineNode,
    map_rowOf, map_rowOf, zipWith_rowOf]
  simp only [sigmoid_real, softplus_real]

theorem EdgeGated.residualRow_rowOf {l : EdgeGated ℝ} {norm : Bool} (hl : l.Shaped c d norm)
    (x : Nat → Nat → ℝ) (edges : List (Nat × Nat)) (e : Nat → Nat → ℝ) (t : Nat) :
    l.residualRow (rowOf c (x t)) (arrivals (fun s => rowOf c (x s)) (linksOf edges d e) t)
      = rowOf c (l.residualEquation x edges e t) := by
  rw [residualRow, hl.channels_eq, sumRows_arrivals fun k => message_rowOf hl (x t) (e k),
    zipWith_rowOf]
  refine rowOf_congr fun j _ => ?_
  rw [residualEquation, hl.channels_eq, add_comm]

theorem GraphConv.nodeRow_rowOf {l : GraphConv ℝ} (hl : l.Shaped c) :
    l.nodeRow (rowOf c (x t)) (arrivals (fun s => rowOf c (x s)) (linksOf edges d e) t)
      = rowOf c (l.equation x edges t) := by
  rw [nodeRow, hl.channels_eq, sumRows_arrivals fun k => rfl, Linear.row_rowOf hl.related,
    Linear.row_rowOf_false hl.root, zipWith_rowOf]
  refine rowOf_congr fun j _ => ?_
  rw [equation]
  ring

/-! ### Gated graph layers -/

theorem GatedGraph.stepRow_rowOf {cell : GruCell ℝ} (hc : cell.Shaped c c) {w : Linear ℝ}
    (hw : w.Shaped c c false) (h : Nat → Nat → ℝ) :
    stepRow cell w (rowOf c (h t)) (arrivals (fun s => rowOf c (h s)) (linksOf edges d e) t)
      = rowOf c (stepEquation edges cell h w t) := by
  rw [stepRow, hc.size_eq, sumRows_arrivals fun k => Linear.row_rowOf_false hw _,
    GruCell.row_rowOf hc]
  rfl

theorem GatedGraph.stepsRow_rowOf {cell : GruCell ℝ} (hc : cell.Shaped c c)
    {steps : List (Linear ℝ)} (hw : ∀ w ∈ steps, w.Shaped c c false) (h : Nat → Nat → ℝ) :
    stepsRow cell (linksOf edges d e) steps (fun s => rowOf c (h s)) t
      = rowOf c (steps.foldl (stepEquation edges cell) h t) := by
  induction steps generalizing h with
  | nil => rfl
  | cons w rest ih =>
    rw [stepsRow, List.foldl_cons, ← ih fun v hv => hw v (List.mem_cons_of_mem _ hv)]
    congr 1
    funext s
    exact stepRow_rowOf hc (hw w List.mem_cons_self) h

/-! ### Attention layers -/

namespace Attention

variable {l : Attention ℝ}

theorem scoreOf_rowOf (hl : l.Shaped c) (v w : Nat → ℝ) :
    l.scoreOf (rowOf c v) (rowOf c w)
      = weaken (∑ i ∈ Finset.range l.channels, l.sourceScore.getD i 0 * v i
        + ∑ i ∈ Finset.range l.channels, l.targetScore.getD i 0 * w i) := by
  have hproduct : ∀ (a : List ℝ) (u : Nat → ℝ), a.length = c →
      Scalar.sum (List.zipWith (· * ·) (rowOf c u) a)
        = ∑ i ∈ Finset.range c, a.getD i 0 * u i := by
    intro a u ha
    rw [eq_rowOf ha, zipWith_rowOf, Scalar.sum_real, sum_rowOf, ← eq_rowOf ha]
    exact Finset.sum_congr rfl fun i _ => mul_comm ..
  rw [scoreOf, leakyRelu_slope, hproduct _ v hl.sourceScore_length,
    hproduct _ w hl.targetScore_length, hl.channels_eq]

/-- The greatest score may be left in: it cancels out of the softmax. -/
theorem softmax_shift (scores : List ℝ) (top score : ℝ) :
    Real.exp (score - top) / (scores.map fun s => Real.exp (s - top)).sum
      = Real.exp score / (scores.map Real.exp).sum := by
  have hexp : ∀ s, Real.exp (s - top) = Real.exp s * (Real.exp top)⁻¹ := fun s => by
    rw [Real.exp_sub, div_eq_mul_inv]
  have hsum : (scores.map fun s => Real.exp (s - top)).sum
      = (scores.map Real.exp).sum * (Real.exp top)⁻¹ := by
    simp only [hexp]
    exact List.sum_map_mul_right ..
  rw [hexp, hsum, mul_div_mul_right _ _ (inv_ne_zero (Real.exp_ne_zero top))]

/-- The mean over some nodes, entry by entry. -/
theorem mix_rowOf (hl : l.Shaped c) (w : Nat → ℝ) (nodes : List Nat) (h : Nat → Nat → ℝ) :
    let weight := fun s => Real.exp (l.scoreOf (rowOf c (h s)) (rowOf c w))
    l.mix (rowOf c w) (nodes.map fun s => rowOf c (h s))
      = rowOf c fun j => (nodes.map fun s => weight s / (nodes.map weight).sum * h s j).sum := by
  intro weight
  let score := fun s => l.scoreOf (rowOf c (h s)) (rowOf c w)
  let top := Scalar.maximum (nodes.map score)
  have hshare : ∀ s, Real.exp (score s - top) / (nodes.map fun s => Real.exp (score s - top)).sum
      = weight s / (nodes.map weight).sum := by
    intro s
    have hshift := softmax_shift (nodes.map score) top (score s)
    rw [List.map_map, List.map_map] at hshift
    exact hshift
  have hrows : nodes.map (fun s => (rowOf c (h s)).map
        (· * (Real.exp (score s - top) / (nodes.map fun s => Real.exp (score s - top)).sum)))
      = nodes.map fun s => rowOf c fun j => weight s / (nodes.map weight).sum * h s j := by
    refine List.map_congr_left fun s _ => ?_
    rw [map_rowOf, hshare]
    exact rowOf_congr fun j _ => mul_comm ..
  rw [← sumRows_rowOf, ← hrows, mix, hl.channels_eq]
  simp only [List.map_map, Scalar.sum_real]
  rfl

/-- The nodes that a node attends to. -/
def attendedNodes (edges : List (Nat × Nat)) (t : Nat) : List Nat :=
  ((List.finRange edges.length).filter fun k => edges[k].2 = t ∧ edges[k].1 ≠ t).map
    (fun k => edges[k].1) ++ [t]

theorem attended_linksOf (row : Nat → List ℝ) :
    attended (row t) (arrivals row (linksOf edges d e) t) = (attendedNodes edges t).map row := by
  rw [attended, arrivals_linksOf, attendedNodes, List.map_append, List.filter_map,
    List.filter_filter, List.map_map, List.map_map]
  congr 2
  refine List.filter_congr fun k _ => ?_
  simp [Bool.and_comm]

theorem sum_attendedNodes (f : Nat → ℝ) :
    ((attendedNodes edges t).map f).sum
      = f t + ∑ k ∈ edgesInto edges t with edges[k].1 ≠ t, f edges[k].1 := by
  rw [attendedNodes, List.map_append, List.sum_append, List.map_map, sum_filter_finRange,
    edgesInto, Finset.filter_filter, add_comm]
  simp only [decide_eq_true_eq, List.map_cons, List.map_nil, List.sum_singleton]
  rfl

theorem nodeRow_rowOf (hl : l.Shaped c) :
    l.nodeRow (rowOf c (x t)) (arrivals (fun s => rowOf c (x s)) (linksOf edges d e) t)
      = rowOf c (l.equation x edges t) := by
  have hmap : ∀ i, l.map.row (rowOf c (x i)) = rowOf c (l.map.product (x i)) := fun i =>
    Linear.row_rowOf_false hl.map (x i)
  have hattended : (attended (rowOf c (x t))
        (arrivals (fun s => rowOf c (x s)) (linksOf edges d e) t)).map l.map.row
      = (attendedNodes edges t).map fun i => rowOf c (l.map.product (x i)) := by
    rw [attended_linksOf fun s => rowOf c (x s), List.map_map]
    exact List.map_congr_left fun i _ => hmap i
  rw [nodeRow, hattended, hmap, mix_rowOf hl, eq_rowOf hl.bias_length, zipWith_rowOf]
  refine rowOf_congr fun j _ => ?_
  rw [equation, add_comm]
  simp only [sum_attendedNodes, scoreOf_rowOf hl]

end Attention

/-- The node equation of a layer and its normalisation, entry by entry. -/
theorem Layer.nodeRow_rowOf {config : Config ℝ} {l : Layer ℝ} (hl : l.Shaped config) :
    l.finishRow (nodeRow (linksOf edges config.layerEdgeDim e) l
        (fun s => rowOf config.featureSize (x s)) t)
      = rowOf config.featureSize (l.equation x edges e t) := by
  cases l with
  | edgeGated l =>
    have hresidual := EdgeGated.residualRow_rowOf hl.2 x edges e t
    cases hb : l.norm with
    | none => simp only [finishRow, nodeRow, equation, EdgeGated.equation, hb, hresidual]
    | some b =>
      have heval := b.evalRow_rowOf (l.residualEquation x edges e t)
      rw [norm_width hl hb] at heval
      simp only [finishRow, nodeRow, equation, EdgeGated.equation, hb, hresidual, heval]
  | graphConv l => exact GraphConv.nodeRow_rowOf hl.2
  | attention l => exact Attention.nodeRow_rowOf hl.2
  | gatedGraph l => exact GatedGraph.stepsRow_rowOf hl.2.cell hl.2.steps_shaped x

end Edges

/-! ## Layers as they run -/

/-- The features of edges as a function; zero where there are none. -/
def edgeEntry (edgeFeatures : Option (Matrix ℝ)) (k j : Nat) : ℝ :=
  match edgeFeatures with
  | none => 0
  | some m => m.entry k j

/-- Links carry the entries of the edge features that fit them. -/
theorem carries_linksOf {edges : List (Nat × Nat)} {d : Nat} {edgeFeatures : Option (Matrix ℝ)}
    (h : FitsEdges edges d edgeFeatures) :
    Carries (linksOf edges d (edgeEntry edgeFeatures)) d edgeFeatures := by
  cases edgeFeatures with
  | none =>
    refine ⟨h, ?_⟩
    intro k hk
    obtain ⟨i, -, rfl⟩ := List.mem_map.1 hk
    show rowOf d _ = []
    rw [show d = 0 from h]
    rfl
  | some m =>
    obtain ⟨hpos, hwidth, hheight⟩ := h
    refine ⟨hpos, hwidth, ?_⟩
    rw [m.rows_eq_map_rowOf, linksOf, List.map_map, hheight, hwidth,
      ← List.map_coe_finRange_eq_range, List.map_map]
    rfl

/-- A layer of any kind, in evaluation mode and in exact arithmetic, gives each node the features of
its equation, and stays as it is. Edges may be listed repeatedly and may be loops. Edge-gated layers
with columns for edge features need a row of that many features for each edge; those without such
columns are given no edge features. -/
theorem Layer.forward_equation {c : Config ℝ} {l : Layer ℝ} (hl : l.Shaped c) {x : Matrix ℝ}
    (hx : x.width = c.featureSize) {edges : List (Nat × Nat)}
    (hedges : ∀ e ∈ edges, e.1 < x.height ∧ e.2 < x.height) {edgeFeatures : Option (Matrix ℝ)}
    (hfits : c.layerKind = .edgeGated → FitsEdges edges c.layerEdgeDim edgeFeatures) :
    ∃ y, l.forward x edges edgeFeatures false = (.ok y, l) ∧
      y.height = x.height ∧ y.width = c.featureSize ∧
      ∀ t < x.height, ∀ j < c.featureSize,
        y.entry t j = l.equation x.entry edges (edgeEntry edgeFeatures) t j := by
  have hrows : x.rows = (List.range x.height).map fun t => rowOf c.featureSize (x.entry t) := by
    rw [← hx]
    exact x.rows_eq_map_rowOf
  obtain ⟨z, hzw, hzr, hforward⟩ := forward_eq_finish hl hx hrows (linksOf_within hedges)
    fun hkind => carries_linksOf (hfits hkind)
  obtain ⟨hsame, y, hy, hyw, hyr⟩ := finish_eval_yields hl hzw hzr
  simp only [nodeRow_rowOf hl] at hyr
  rw [map_edge_linksOf] at hforward
  refine ⟨y, ?_, ?_, hyw, ?_⟩
  · rw [hforward]
    exact Prod.ext hy hsame
  · rw [height_of_rows_eq hyr, List.length_range]
  · intro t ht j hj
    rw [entry, row_of_rows_eq hyr ht, getD_rowOf hj]

/-- New layers of all kinds, in a graph with a loop and an edge that is listed twice. -/
theorem Layer.forward_equation_draw :
    ∃ (c : LayerKind → Config ℝ) (l : LayerKind → Layer ℝ) (x e : Matrix ℝ), ∀ kind,
      (c kind).layerKind = kind ∧ (c kind).layerEdgeDim = 8 ∧ (l kind).Shaped (c kind) ∧
      ∃ y, (l kind).forward x [(0, 1), (1, 1), (0, 1)] (some e) false = (.ok y, l kind) ∧
        y.height = 2 ∧ y.width = FeatureGraph.nodeWidth ∧
        ∀ t < 2, ∀ j < FeatureGraph.nodeWidth,
          y.entry t j
            = (l kind).equation x.entry [(0, 1), (1, 1), (0, 1)] (edgeEntry (some e)) t j := by
  let c : LayerKind → Config ℝ := fun kind =>
    { Config.initial with edgeDim := 2, layerKind := kind }
  let x : Matrix ℝ := Matrix.fill 2 FeatureGraph.nodeWidth 1
  let e : Matrix ℝ := Matrix.fill 3 8 1
  have hheight : x.height = 2 := List.length_replicate
  have hedges : ∀ e ∈ [(0, 1), (1, 1), (0, 1)], e.1 < x.height ∧ e.2 < x.height := by
    rw [hheight]
    decide
  refine ⟨c, fun kind => (Layer.draw (c kind) (.ofSeed 0)).1, x, e, fun kind => ?_⟩
  have hl := Layer.draw_shaped (c kind) (.ofSeed 0)
  have hfits : FitsEdges [(0, 1), (1, 1), (0, 1)] (c kind).layerEdgeDim (some e) :=
    ⟨Nat.zero_lt_succ 7, rfl, List.length_replicate⟩
  have hequation := forward_equation hl (x := x) rfl hedges fun _ => hfits
  rw [hheight] at hequation
  exact ⟨rfl, rfl, hl, hequation⟩

end PonziScreen
