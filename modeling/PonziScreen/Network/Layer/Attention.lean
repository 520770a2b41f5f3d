import PonziScreen.Network.Layer.EdgeGated

/-!
# Attention layers

All features go through one linear map. A node then takes the mean of the mapped features over the
sources of the edges that end at it and over itself, with weights that are a softmax of attention
scores. Edges from a node to itself are left out first, so each node counts itself exactly once.
-/

namespace PonziScreen

variable {α : Type}

/-- An attention layer. -/
structure Attention (α : Type) where
  channels : Nat
  map : Linear α
  /-- The weights of a source in a score. -/
  sourceScore : List α
  /-- The weights of a target in a score. -/
  targetScore : List α
  bias : List α

namespace Attention

/-- The edges between different nodes, and one from each node to itself. -/
def withSelfLoops (nodes : Nat) (edges : List (Nat × Nat)) : List (Nat × Nat) :=
  (edges.filter fun e => e.1 ≠ e.2) ++ (List.range nodes).map fun i => (i, i)

/-- Each row of a matrix times a weight of its own. -/
def weighRows [Mul α] (m : Matrix α) (weights : List α) : Matrix α where
  width := m.width
  rows := List.zipWith (fun r w => r.map (· * w)) m.rows weights
  uniform := by
    intro r hr
    rw [List.mem_iff_getElem] at hr
    obtain ⟨i, hi, rfl⟩ := hr
    rw [List.getElem_zipWith, List.length_map]
    exact m.uniform _ (List.getElem_mem _)

variable [Scalar α]

/-- A layer with drawn weights. -/
def draw (channels : Nat) (g : Generator) : Attention α × Generator :=
  let bound : α := Scalar.sqrt (Scalar.ofNat 6 / (Scalar.one + Scalar.ofNat channels))
  let (map, g) := Linear.draw channels channels false g
  let (sourceScore, g) := g.symmetricList bound channels
  let (targetScore, g) := g.symmetricList bound channels
  (⟨channels, map, sourceScore, targetScore, List.replicate channels Scalar.zero⟩, g)

/-- How a negative score is weakened. -/
def slope : α := Scalar.ratio 1 5

/-- The score of each edge. -/
def scores (source target : List α) (edges : List (Nat × Nat)) : Except Failure (List α) :=
  edges.mapM fun e => do
    return leakyRelu slope ((← pick source e.1) + (← pick target e.2))

/-- The weights of edges: for each node, the softmax of the scores of the edges that end there. The
greatest score of a node is subtracted first, so that no exponential is too large. -/
def softmaxAt (nodes : Nat) (targets : List Nat) (scores : List α) : Except Failure (List α) := do
  let tops := (List.range nodes).map fun t => Scalar.maximum (segment targets scores t)
  let shares ← (targets.zip scores).mapM fun p => do
    return Scalar.exp (p.2 - (← pick tops p.1))
  let totals := (List.range nodes).map fun t => Scalar.sum (segment targets shares t)
  (targets.zip shares).mapM fun p => do return p.2 / (← pick totals p.1)

/-- Applies the layer. -/
def forward (layer : Attention α) (x : Matrix α) (edges : List (Nat × Nat)) :
    Except Failure (Matrix α) :=
  match nodeFault? x layer.channels edges with
  | some fault => .error (.shapeMismatch fault)
  | none => do
    let h ← layer.map.apply x
    let source ← h.mulVec layer.sourceScore
    let target ← h.mulVec layer.targetScore
    let edges := withSelfLoops x.height edges
    let targets := edges.map Prod.snd
    let weights ← softmaxAt x.height targets (← scores source target edges)
    let messages ← h.gather (edges.map Prod.fst)
    (← (weighRows messages weights).scatterAdd targets x.height).addRow layer.bias

omit [Scalar α] in
/-- The parameters under a path. -/
def parameters (layer : Attention α) (path : String) : List (Parameter α) :=
  layer.map.parameters s!"{path}.lin" ++
    [.ofList s!"{path}.att_src" layer.sourceScore, .ofList s!"{path}.att_dst" layer.targetScore,
      .ofList s!"{path}.bias" layer.bias]

omit [Scalar α] in
/-- Changes the entries of the parameters under a path. -/
def mapParameters (layer : Attention α) (path : String) (f : String → Nat → α → α) : Attention α :=
  { layer with
    map := layer.map.mapParameters s!"{path}.lin" f
    sourceScore := layer.sourceScore.mapIdx (f s!"{path}.att_src")
    targetScore := layer.targetScore.mapIdx (f s!"{path}.att_dst")
    bias := layer.bias.mapIdx (f s!"{path}.bias") }

end Attention

end PonziScreen
