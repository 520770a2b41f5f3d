import PonziScreen.Proofs.LayerEquations
import PonziScreen.Proofs.Scores

/-!
# Bounds on features

How far layers can move the features of nodes, whatever their weights are.

A gated graph layer blends what a node holds with a candidate, and the hyperbolic tangent keeps the
candidate between -1 and 1. A blend lies between its two parts. So an entry stays within one, or
within what it was, however much arrives at the node and however often.

An edge-gated layer without normalisation adds messages, and each message is a product of two
numbers that are not negative. So no entry falls, a node at which no edge ends keeps its row, and
one more edge makes a difference at its target alone.

Both bounds lie between the input and the output of a layer, so they pass through stacks
(`Layer.forwardStack_keeps`). They take exact arithmetic and the ranges of the activations, and
nothing else.

* `GatedGraph.forward_bounded` — gated graph layers
* `EdgeGated.forward_raises` — edge-gated layers
-/

namespace PonziScreen

open PonziScreen.Matrix

/-! ## Stacks -/

/-- What each layer keeps true of the features, a stack of layers keeps true. -/
theorem Layer.forwardStack_keeps {α : Type} [Scalar α] {edges : List (Nat × Nat)}
    {edgeFeatures : Option (Matrix α)} {training : Bool} {layers : List (Layer α)}
    {Holds : Matrix α → Prop}
    (hstep : ∀ l ∈ layers, ∀ y, Holds y →
      ∃ z, l.forward y edges edgeFeatures training = (.ok z, l) ∧ Holds z)
    {x : Matrix α} (hx : Holds x) :
    ∃ y, forwardStack edges edgeFeatures training layers x = (.ok y, layers) ∧ Holds y := by
  induction layers generalizing x with
  | nil => exact ⟨x, rfl, hx⟩
  | cons l rest ih =>
    obtain ⟨y, hforward, hy⟩ := hstep l List.mem_cons_self x hx
    obtain ⟨z, hrest, hz⟩ := ih (fun k hk => hstep k (List.mem_cons_of_mem _ hk)) hy
    refine ⟨z, ?_, hz⟩
    rw [forwardStack, hforward]
    simp only [hrest]

variable {K : Type} [ExactScalar K] [LinearOrder K]

/-! ## Gated graph layers -/

/-- A matrix has the shape of another, and no entry of it is farther from zero than one unless the
entry of the other is at least as far. -/
structure Matrix.BoundedBy (y x : Matrix K) : Prop where
  height_eq : y.height = x.height
  width_eq : y.width = x.width
  abs_le : ∀ i < x.height, ∀ j < x.width, |y.cell i j| ≤ max 1 |x.cell i j|

theorem Matrix.BoundedBy.refl (x : Matrix K) : x.BoundedBy x :=
  ⟨rfl, rfl, fun _ _ _ _ => le_max_right ..⟩

theorem Matrix.BoundedBy.trans {x y z : Matrix K} (hz : z.BoundedBy y) (hy : y.BoundedBy x) :
    z.BoundedBy x := by
  refine ⟨hz.height_eq.trans hy.height_eq, hz.width_eq.trans hy.width_eq, fun i hi j hj => ?_⟩
  calc |z.cell i j| ≤ max 1 |y.cell i j| :=
        hz.abs_le i (hy.height_eq ▸ hi) j (hy.width_eq ▸ hj)
    _ ≤ max 1 (max 1 |x.cell i j|) := max_le_max_left 1 (hy.abs_le i hi j hj)
    _ = max 1 |x.cell i j| := max_eq_right (le_max_left ..)

section Gated

variable [IsStrictOrderedRing K]

/-- A blend of a number within one and another number is within one or within the other number. -/
theorem abs_blend_le {n z h : K} (hn : |n| ≤ 1) (hz : 0 ≤ z) (hz' : z ≤ 1) :
    |n + z * (h - n)| ≤ max 1 |h| := by
  have hrest : 0 ≤ 1 - z := sub_nonneg.2 hz'
  calc |n + z * (h - n)| = |(1 - z) * n + z * h| := by ring_nf
    _ ≤ |(1 - z) * n| + |z * h| := abs_add_le ..
    _ = (1 - z) * |n| + z * |h| := by
        rw [abs_mul, abs_mul, abs_of_nonneg hrest, abs_of_nonneg hz]
    _ ≤ (1 - z) * max 1 |h| + z * max 1 |h| :=
        add_le_add (mul_le_mul_of_nonneg_left (hn.trans (le_max_left ..)) hrest)
          (mul_le_mul_of_nonneg_left (le_max_right ..) hz)
    _ = max 1 |h| := by ring

variable (hsigmoid : ∀ v : K, 0 ≤ sigmoid v ∧ sigmoid v ≤ 1)
  (htanh : ∀ v : K, |Scalar.tanh v| ≤ 1)

include hsigmoid htanh

/-- The input of a cell does not matter for how large its state can get. -/
theorem GruCell.abs_getD_row_le (cell : GruCell K) (x h : List K) (j : Nat) :
    |(cell.row x h).getD j 0| ≤ max 1 |h.getD j 0| := by
  by_cases hj : j < (cell.row x h).length
  · rw [List.getD_eq_getElem _ _ hj]
    unfold row at hj ⊢
    simp only [List.length_zipWith, List.length_map, lt_min_iff] at hj
    rw [List.getD_eq_getElem _ _ hj.2.2.1]
    simp only [List.getElem_zipWith, List.getElem_map]
    exact abs_blend_le (htanh _) (hsigmoid _).1 (hsigmoid _).2
  · rw [List.getD_eq_default _ _ (not_lt.1 hj), abs_zero]
    exact zero_le_one.trans (le_max_left ..)

namespace GatedGraph

/-- Any number of steps, from what one step does. -/
theorem abs_getD_stepsRow_le (cell : GruCell K) (links : List (Link K)) (steps : List (Linear K))
    (row : Nat → List K) (t j : Nat) :
    |(stepsRow cell links steps row t).getD j 0| ≤ max 1 |(row t).getD j 0| := by
  induction steps generalizing row with
  | nil => exact le_max_right ..
  | cons w rest ih =>
    let next := fun s => stepRow cell w (row s) (arrivals row links s)
    have hstep : |(next t).getD j 0| ≤ max 1 |(row t).getD j 0| :=
      GruCell.abs_getD_row_le hsigmoid htanh cell _ (row t) j
    calc |(stepsRow cell links rest next t).getD j 0| ≤ max 1 |(next t).getD j 0| := ih next
      _ ≤ max 1 (max 1 |(row t).getD j 0|) := max_le_max_left 1 hstep
      _ = max 1 |(row t).getD j 0| := max_eq_right (le_max_left ..)

theorem boundedBy_of_forward {layer : GatedGraph K} {channels steps : Nat}
    (hl : layer.Shaped channels steps) {x : Matrix K} (hx : x.width = channels)
    {edges : List (Nat × Nat)} (hedges : ∀ e ∈ edges, e.1 < x.height ∧ e.2 < x.height) :
    ∃ y, layer.forward x edges = .ok y ∧ y.BoundedBy x := by
  have hheight : ∀ m ∈ (none : Option (Matrix K)), m.height = edges.length := by simp
  obtain ⟨y, hy, hyw, hyr⟩ := forward_yields hl hx x.rows_eq_map_row
    (Link.join_within hheight hedges)
  rw [Link.map_edge_join hheight] at hy
  refine ⟨y, hy, ?_, hyw.trans hx.symm, fun i hi j _ => ?_⟩
  · rw [height_of_rows_eq hyr, List.length_range]
  · rw [Matrix.cell, row_of_rows_eq hyr hi]
    exact abs_getD_stepsRow_le hsigmoid htanh ..

/-- With a sigmoid between 0 and 1 and a hyperbolic tangent between -1 and 1, an entry of the output
of a gated graph layer is within one or within the entry of the input, for any number of steps, any
weights and any edges. The same holds of a stack of such layers. -/
theorem forward_bounded {channels : Nat} {x : Matrix K} (hx : x.width = channels)
    {edges : List (Nat × Nat)} (hedges : ∀ e ∈ edges, e.1 < x.height ∧ e.2 < x.height) :
    (∀ (layer : GatedGraph K) (steps : Nat), layer.Shaped channels steps →
      ∃ y, layer.forward x edges = .ok y ∧ y.BoundedBy x) ∧
    ∀ layers : List (GatedGraph K), (∀ l ∈ layers, ∃ steps, l.Shaped channels steps) →
      ∀ (edgeFeatures : Option (Matrix K)) (training : Bool), ∃ y,
        Layer.forwardStack edges edgeFeatures training (layers.map .gatedGraph) x
          = (.ok y, layers.map .gatedGraph) ∧ y.BoundedBy x := by
  refine ⟨fun layer steps hl => boundedBy_of_forward hsigmoid htanh hl hx hedges,
    fun layers hlayers edgeFeatures training =>
      Layer.forwardStack_keeps (fun l hl y hy => ?_) (BoundedBy.refl x)⟩
  obtain ⟨layer, hmem, rfl⟩ := List.mem_map.1 hl
  obtain ⟨steps, hshaped⟩ := hlayers layer hmem
  obtain ⟨z, hz, hbound⟩ := boundedBy_of_forward hsigmoid htanh hshaped (hy.width_eq.trans hx)
    (hy.height_eq ▸ hedges)
  exact ⟨z, by rw [Layer.forward, hz], hbound.trans hy⟩

end GatedGraph

end Gated

/-- Two new layers of two and of three steps, in a graph with a loop and an edge that is listed
twice. The entry above one may fall, but not grow, and the entries within one stay there. -/
theorem GatedGraph.forward_bounded_draw :
    ∃ (layers : List (GatedGraph ℝ)) (x y : Matrix ℝ), layers.map (·.steps.length) = [2, 3] ∧
      x.rows = [[5, 0], [-1, 1]] ∧
      Layer.forwardStack [(0, 1), (1, 1), (0, 1)] none true (layers.map .gatedGraph) x
        = (.ok y, layers.map .gatedGraph) ∧
      |y.cell 0 0| ≤ 5 ∧ |y.cell 0 1| ≤ 1 ∧ |y.cell 1 0| ≤ 1 ∧ |y.cell 1 1| ≤ 1 := by
  let _ : ExactScalar ℝ := exactReal
  let x : Matrix ℝ := ⟨2, [[5, 0], [-1, 1]], by simp⟩
  let layers : List (GatedGraph ℝ) :=
    [(draw 2 2 (.ofSeed 0)).1, (draw 2 3 (.ofSeed 1)).1]
  have hshaped : ∀ l ∈ layers, ∃ steps, l.Shaped 2 steps := by
    intro l hl
    obtain rfl | rfl : l = (draw 2 2 (.ofSeed 0)).1 ∨ l = (draw 2 3 (.ofSeed 1)).1 := by
      simpa [layers] using hl
    · exact ⟨2, draw_shaped 2 2 _⟩
    · exact ⟨3, draw_shaped 2 3 _⟩
  have hedges : ∀ e ∈ [(0, 1), (1, 1), (0, 1)], e.1 < x.height ∧ e.2 < x.height := by decide
  obtain ⟨-, hstack⟩ := forward_bounded (K := ℝ)
    (fun v => sigmoid_real v ▸ ⟨Real.sigmoid_nonneg v, Real.sigmoid_le_one v⟩)
    (fun v => (Real.abs_tanh_lt_one v).le) (x := x) rfl hedges
  obtain ⟨y, hy, hbound⟩ := hstack layers hshaped none true
  have hentry : ∀ i < 2, ∀ j < 2, |y.cell i j| ≤ max 1 |x.cell i j| := hbound.abs_le
  refine ⟨layers, x, y, ?_, rfl, hy, ?_, ?_, ?_, ?_⟩
  · simp [layers, (draw_shaped 2 2 (.ofSeed 0)).steps_length,
      (draw_shaped 2 3 (.ofSeed 1)).steps_length]
  · simpa [Matrix.cell, row, x] using hentry 0 (by decide) 0 (by decide)
  · simpa [Matrix.cell, row, x] using hentry 0 (by decide) 1 (by decide)
  · simpa [Matrix.cell, row, x] using hentry 1 (by decide) 0 (by decide)
  · simpa [Matrix.cell, row, x] using hentry 1 (by decide) 1 (by decide)

/-! ## Edge-gated layers -/

/-- A matrix has the shape of another, no entry of it is lower, and the rows of nodes at which no
edge ends are the same. -/
structure Matrix.RaisedAlong (y x : Matrix K) (edges : List (Nat × Nat)) : Prop where
  height_eq : y.height = x.height
  width_eq : y.width = x.width
  le : ∀ i < x.height, ∀ j < x.width, x.cell i j ≤ y.cell i j
  row_eq : ∀ i < x.height, (∀ e ∈ edges, e.2 ≠ i) → y.row i = x.row i

theorem Matrix.RaisedAlong.refl (x : Matrix K) (edges : List (Nat × Nat)) :
    x.RaisedAlong x edges :=
  ⟨rfl, rfl, fun _ _ _ _ => le_rfl, fun _ _ _ => rfl⟩

theorem Matrix.RaisedAlong.trans {x y z : Matrix K} {edges : List (Nat × Nat)}
    (hz : z.RaisedAlong y edges) (hy : y.RaisedAlong x edges) : z.RaisedAlong x edges where
  height_eq := hz.height_eq.trans hy.height_eq
  width_eq := hz.width_eq.trans hy.width_eq
  le i hi j hj := (hy.le i hi j hj).trans
    (hz.le i (hy.height_eq ▸ hi) j (hy.width_eq ▸ hj))
  row_eq i hi hnone := (hz.row_eq i (hy.height_eq ▸ hi) hnone).trans (hy.row_eq i hi hnone)

namespace EdgeGated

/-- A layer without normalisation gives the sums at the nodes, in training as well. -/
theorem forward_plain_yields {α : Type} [Scalar α] {layer : EdgeGated α} {channels edgeDim : Nat}
    (hl : layer.Shaped channels edgeDim false) {x : Matrix α} (hx : x.width = channels)
    {links : List (Link α)} (hk : ∀ k ∈ links, k.Within x.height)
    {edgeFeatures : Option (Matrix α)} (hc : Carries links edgeDim edgeFeatures)
    (training : Bool) :
    ∃ y, layer.forward x (links.map Link.edge) edgeFeatures training = (.ok y, layer) ∧
      y.width = channels ∧
      y.rows = (List.range x.height).map fun t =>
        layer.residualRow (x.row t) (arrivals x.row links t) := by
  have hnorm : layer.norm = none := by simpa using hl.norm_width
  have hcarries : Carries links layer.edgeDim edgeFeatures := hl.edgeDim_eq ▸ hc
  obtain ⟨y, hy, hyw, hyr⟩ := residual_yields hl hx x.rows_eq_map_row hk hc
  refine ⟨y, ?_, hyw, hyr⟩
  simp only [forward, nodeFault?_eq_none (hx.trans hl.channels_eq.symm) rfl hk,
    edgeFeatureFault?_eq_none hcarries, hy, hnorm]

section Sums

variable {layer : EdgeGated K} {channels edgeDim : Nat}

omit [LinearOrder K] in
theorem length_message (hl : layer.Shaped channels edgeDim false) (own edge : List K) :
    (layer.message own edge).length = channels := by
  rw [message, List.length_zipWith, List.length_map, List.length_map,
    Linear.length_row hl.lineAttention, Linear.length_row hl.lineNode, Nat.min_self]

omit [LinearOrder K] in
/-- An entry of the new features is the old entry and the sum of the messages. -/
theorem getD_residualRow (hl : layer.Shaped channels edgeDim false) {own : List K}
    (hown : own.length = channels) (received : List (Arrival K)) {j : Nat} (hj : j < channels) :
    (layer.residualRow own received).getD j 0
      = (received.map fun a => (layer.message own a.edge).getD j 0).sum + own.getD j 0 := by
  have hrows : ∀ r ∈ received.map (fun a => layer.message own a.edge), r.length = channels := by
    intro r hr
    obtain ⟨a, -, rfl⟩ := List.mem_map.1 hr
    exact length_message hl own a.edge
  rw [residualRow, hl.channels_eq, getD_zipWith_add (hj.trans_eq (length_sumRows hrows).symm)
    (hj.trans_eq hown.symm), getD_sumRows hj hrows, List.map_map]
  rfl

omit [LinearOrder K] in
/-- Without messages a node keeps its row. -/
theorem residualRow_nil (hl : layer.Shaped channels edgeDim false) {own : List K}
    (hown : own.length = channels) : layer.residualRow own [] = own := by
  have hzeros : layer.residualRow own []
      = List.zipWith (· + ·) (List.replicate own.length (0 : K)) own := by
    rw [residualRow, hl.channels_eq, ← hown, ← Scalar.zero_exact]
    rfl
  rw [hzeros]
  apply List.ext_getElem
  · simp
  · intro i h₁ h₂
    simp

end Sums

section Ordered

variable [IsStrictOrderedRing K] (hsigmoid : ∀ v : K, 0 ≤ sigmoid v)
  (hsoftplus : ∀ v : K, 0 ≤ softplus v)

include hsigmoid hsoftplus

theorem getD_message_nonneg (layer : EdgeGated K) (own edge : List K) (j : Nat) :
    0 ≤ (layer.message own edge).getD j 0 := by
  by_cases hj : j < (layer.message own edge).length
  · rw [List.getD_eq_getElem _ _ hj]
    simp only [message, List.getElem_zipWith, List.getElem_map]
    exact mul_nonneg (hsigmoid _) (hsoftplus _)
  · rw [List.getD_eq_default _ _ (not_lt.1 hj)]

variable {layer : EdgeGated K} {channels edgeDim : Nat}

/-- What arrives in addition raises an entry. -/
theorem getD_residualRow_le (hl : layer.Shaped channels edgeDim false) {own : List K}
    (hown : own.length = channels) (before added after : List (Arrival K)) {j : Nat}
    (hj : j < channels) :
    (layer.residualRow own (before ++ after)).getD j 0
      ≤ (layer.residualRow own (before ++ added ++ after)).getD j 0 := by
  have hadded : 0 ≤ (added.map fun a => (layer.message own a.edge).getD j 0).sum := by
    refine List.sum_nonneg fun v hv => ?_
    obtain ⟨a, -, rfl⟩ := List.mem_map.1 hv
    exact getD_message_nonneg hsigmoid hsoftplus layer own a.edge j
  simp only [getD_residualRow hl hown _ hj, List.map_append, List.sum_append]
  linarith

/-- A layer raises features along its edges. -/
theorem raisedAlong_of_forward (hl : layer.Shaped channels edgeDim false) {x : Matrix K}
    (hx : x.width = channels) {edges : List (Nat × Nat)}
    (hedges : ∀ e ∈ edges, e.1 < x.height ∧ e.2 < x.height) {edgeFeatures : Option (Matrix K)}
    (hfits : FitsEdges edges edgeDim edgeFeatures) (training : Bool) :
    ∃ y, layer.forward x edges edgeFeatures training = (.ok y, layer) ∧ y.RaisedAlong x edges := by
  obtain ⟨y, hy, hyw, hyr⟩ := forward_plain_yields hl hx
    (Link.join_within hfits.height_eq hedges) hfits.carries_join training
  rw [Link.map_edge_join hfits.height_eq] at hy
  have hrow : ∀ i < x.height, (x.row i).length = channels := fun i hi => (length_row hi).trans hx
  refine ⟨y, hy, ?_, hyw.trans hx.symm, fun i hi j hj => ?_, fun i hi hnone => ?_⟩
  · rw [height_of_rows_eq hyr, List.length_range]
  · have hle := getD_residualRow_le hsigmoid hsoftplus hl (hrow i hi) []
      (arrivals x.row (Link.join edges edgeFeatures) i) [] (hj.trans_eq hx)
    rw [List.append_nil, List.append_nil, List.nil_append, residualRow_nil hl (hrow i hi)] at hle
    rw [Matrix.cell, Matrix.cell, row_of_rows_eq hyr hi]
    exact hle
  · have hquiet : arrivals x.row (Link.join edges edgeFeatures) i = [] := by
      refine arrivals_eq_nil fun k hk => hnone k.edge ?_
      exact Link.map_edge_join hfits.height_eq ▸ List.mem_map_of_mem hk
    rw [row_of_rows_eq hyr hi, hquiet, residualRow_nil hl (hrow i hi)]

/-- With a sigmoid and a softplus that are not negative, a stack of edge-gated layers without
normalisation lowers no entry and leaves the rows of nodes at which no edge ends as they are. One
more edge, with its features, at any place among the edges of a layer, changes no row but that of
its target, and lowers no entry there. -/
theorem forward_raises {channels edgeDim : Nat} {x : Matrix K} (hx : x.width = channels)
    (training : Bool) :
    (∀ layers : List (EdgeGated K), (∀ l ∈ layers, l.Shaped channels edgeDim false) →
      ∀ edges : List (Nat × Nat), (∀ e ∈ edges, e.1 < x.height ∧ e.2 < x.height) →
      ∀ edgeFeatures : Option (Matrix K), FitsEdges edges edgeDim edgeFeatures → ∃ y,
        Layer.forwardStack edges edgeFeatures training (layers.map .edgeGated) x
          = (.ok y, layers.map .edgeGated) ∧ y.RaisedAlong x edges) ∧
    ∀ layer : EdgeGated K, layer.Shaped channels edgeDim false →
      ∀ (before after : List (Link K)) (added : Link K) (fewer more : Option (Matrix K)),
      (∀ k ∈ before ++ added :: after, k.Within x.height) →
      Carries (before ++ after) edgeDim fewer → Carries (before ++ added :: after) edgeDim more →
      ∃ y z, layer.forward x ((before ++ after).map Link.edge) fewer training = (.ok y, layer) ∧
        layer.forward x ((before ++ added :: after).map Link.edge) more training
          = (.ok z, layer) ∧
        y.height = x.height ∧ z.height = x.height ∧ y.width = channels ∧ z.width = channels ∧
        (∀ i < x.height, i ≠ added.target → z.row i = y.row i) ∧
        ∀ j < channels, y.cell added.target j ≤ z.cell added.target j := by
  refine ⟨fun layers hlayers edges hedges edgeFeatures hfits =>
    Layer.forwardStack_keeps (fun l hl y hy => ?_) (RaisedAlong.refl x edges),
    fun layer hl before after added fewer more hwithin hfewer hmore => ?_⟩
  · obtain ⟨layer, hmem, rfl⟩ := List.mem_map.1 hl
    obtain ⟨z, hz, hraised⟩ := raisedAlong_of_forward hsigmoid hsoftplus (hlayers layer hmem)
      (hy.width_eq.trans hx) (hy.height_eq ▸ hedges) hfits training
    exact ⟨z, by rw [Layer.forward, hz], hraised.trans hy⟩
  have hkept : ∀ k ∈ before ++ after, k.Within x.height := by
    intro k hk
    refine hwithin k ?_
    simp only [List.mem_append, List.mem_cons] at hk ⊢
    exact hk.imp_right .inr
  obtain ⟨y, hy, hyw, hyr⟩ := forward_plain_yields hl hx hkept hfewer training
  obtain ⟨z, hz, hzw, hzr⟩ := forward_plain_yields hl hx hwithin hmore training
  refine ⟨y, z, hy, hz, ?_, ?_, hyw, hzw, fun i hi hother => ?_, fun j hj => ?_⟩
  · rw [height_of_rows_eq hyr, List.length_range]
  · rw [height_of_rows_eq hzr, List.length_range]
  · have hquiet : arrivals x.row [added] i = [] := arrivals_eq_nil (by simpa using hother.symm)
    rw [row_of_rows_eq hyr hi, row_of_rows_eq hzr hi, arrivals_insert, hquiet, List.append_nil]
    simp only [arrivals, List.filter_append, List.map_append]
  · have ht : added.target < x.height := (hwithin added (by simp)).2
    have hown : (x.row added.target).length = channels := (length_row ht).trans hx
    have hle := getD_residualRow_le hsigmoid hsoftplus hl hown
      (arrivals x.row before added.target) (arrivals x.row [added] added.target)
      (arrivals x.row after added.target) hj
    rw [← arrivals_insert] at hle
    rw [Matrix.cell, Matrix.cell, row_of_rows_eq hyr ht, row_of_rows_eq hzr ht]
    simpa only [arrivals, List.filter_append, List.map_append] using hle

end Ordered

/-- Two new layers on three nodes, where a loop and an edge that is listed twice end at the middle
one: the other two keep their rows. One more edge from the last node to the first raises the first
one and leaves the others alone. -/
theorem forward_raises_draw :
    ∃ (layers : List (EdgeGated ℝ)) (layer : EdgeGated ℝ) (x y z z' e e' : Matrix ℝ),
      layers.length = 2 ∧ x.rows = [[2, 0], [-1, 1], [3, -3]] ∧
      e.rows = [[1], [0], [-1]] ∧ e'.rows = [[1], [4], [0], [-1]] ∧
      Layer.forwardStack [(0, 1), (1, 1), (0, 1)] (some e) true (layers.map .edgeGated) x
        = (.ok y, layers.map .edgeGated) ∧
      y.row 0 = [2, 0] ∧ y.row 2 = [3, -3] ∧ -1 ≤ y.cell 1 0 ∧ 1 ≤ y.cell 1 1 ∧
      layer.forward x [(0, 1), (1, 1), (0, 1)] (some e) false = (.ok z, layer) ∧
      layer.forward x [(0, 1), (2, 0), (1, 1), (0, 1)] (some e') false = (.ok z', layer) ∧
      z'.row 1 = z.row 1 ∧ z'.row 2 = z.row 2 ∧ z.cell 0 0 ≤ z'.cell 0 0 := by
  let _ : ExactScalar ℝ := exactReal
  let x : Matrix ℝ := ⟨2, [[2, 0], [-1, 1], [3, -3]], by simp⟩
  let e : Matrix ℝ := ⟨1, [[1], [0], [-1]], by simp⟩
  let e' : Matrix ℝ := ⟨1, [[1], [4], [0], [-1]], by simp⟩
  let layer : EdgeGated ℝ := (draw 2 1 false (.ofSeed 0)).1
  let layers : List (EdgeGated ℝ) := [layer, (draw 2 1 false (.ofSeed 1)).1]
  have hshaped : ∀ l ∈ layers, l.Shaped 2 1 false := by
    intro l hl
    obtain rfl | rfl : l = layer ∨ l = (draw 2 1 false (.ofSeed 1)).1 := by
      simpa [layers] using hl
    · exact draw_shaped 2 1 false _
    · exact draw_shaped 2 1 false _
  have hedges : ∀ e ∈ [(0, 1), (1, 1), (0, 1)], e.1 < x.height ∧ e.2 < x.height := by decide
  have hsigmoid : ∀ v : ℝ, 0 ≤ sigmoid v := fun v => sigmoid_real v ▸ Real.sigmoid_nonneg v
  have hsoftplus : ∀ v : ℝ, 0 ≤ softplus v := fun v => softplus_real v ▸ soften_nonneg v
  obtain ⟨hstack, -⟩ := @forward_raises ℝ _ _ _ hsigmoid hsoftplus 2 1 x rfl true
  obtain ⟨-, hadd⟩ := @forward_raises ℝ _ _ _ hsigmoid hsoftplus 2 1 x rfl false
  obtain ⟨y, hy, hraised⟩ := hstack layers hshaped _ hedges (some e) ⟨Nat.one_pos, rfl, rfl⟩
  have hwithin : ∀ k ∈ [⟨0, 1, [1]⟩] ++ (⟨2, 0, [4]⟩ : Link ℝ) :: [⟨1, 1, [0]⟩, ⟨0, 1, [-1]⟩],
      k.Within x.height := by
    simp [Link.Within, height, x]
  obtain ⟨z, z', hz, hz', -, -, -, -, hsame, hle⟩ := hadd layer (draw_shaped 2 1 false _)
    [⟨0, 1, [1]⟩] [⟨1, 1, [0]⟩, ⟨0, 1, [-1]⟩] ⟨2, 0, [4]⟩ (some e) (some e') hwithin
    ⟨Nat.one_pos, rfl, rfl⟩ ⟨Nat.one_pos, rfl, rfl⟩
  refine ⟨layers, layer, x, y, z, z', e, e', rfl, rfl, rfl, rfl, hy, ?_, ?_, ?_, ?_, hz, hz',
    ?_, ?_, hle 0 (by decide)⟩
  · exact hraised.row_eq 0 (by decide) (by decide)
  · exact hraised.row_eq 2 (by decide) (by decide)
  · simpa [Matrix.cell, row, x] using hraised.le 1 (by decide) 0 (by decide)
  · simpa [Matrix.cell, row, x] using hraised.le 1 (by decide) 1 (by decide)
  · exact hsame 1 (by decide) (by decide)
  · exact hsame 2 (by decide) (by decide)

end EdgeGated

end PonziScreen
