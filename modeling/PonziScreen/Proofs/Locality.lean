import PonziScreen.Proofs.Scores

/-!
# What a node depends on

The new features of a node are a function of its own features and of what arrives at it. If the
nodes of two graphs correspond to each other in such a way that the same arrives at corresponding
nodes, then corresponding nodes have the same features after every layer.

`Corresponds` says this of what arrives, up to a relation `alike`: for graphs with the same edges in
the same order it is equality, and where the order of edges may differ it is permutation. A layer
has to tolerate the relation (`Layer.Tolerates`).
-/

namespace PonziScreen

variable {α : Type}

/-- Over `links'`, nodes get to know what the nodes that `related` relates to them get to know over
`links`. -/
def Corresponds (alike : List (Arrival α) → List (Arrival α) → Prop) (related : Nat → Nat → Prop)
    (links links' : List (Link α)) : Prop :=
  ∀ row row' : Nat → List α, (∀ t t', related t t' → row t = row' t') →
    ∀ t t', related t t' → alike (arrivals row links t) (arrivals row' links' t')

variable [Scalar α] {alike : List (Arrival α) → List (Arrival α) → Prop}
  {related : Nat → Nat → Prop} {links links' : List (Link α)}

namespace Layer

/-- A layer makes the same of what is alike. -/
def Tolerates (alike : List (Arrival α) → List (Arrival α) → Prop) : Layer α → Prop
  | edgeGated l => ∀ own a a', alike a a' → l.residualRow own a = l.residualRow own a'
  | graphConv l => ∀ own a a', alike a a' → l.nodeRow own a = l.nodeRow own a'
  | attention l => ∀ own a a', alike a a' → l.nodeRow own a = l.nodeRow own a'
  | gatedGraph l => ∀ weight own a a', alike a a' →
      GatedGraph.stepRow l.cell weight own a = GatedGraph.stepRow l.cell weight own a'

theorem tolerates_eq (l : Layer α) : l.Tolerates Eq := by
  cases l with
  | edgeGated l => exact fun own a a' h => congrArg (l.residualRow own) h
  | graphConv l => exact fun own a a' h => congrArg (l.nodeRow own) h
  | attention l => exact fun own a a' h => congrArg (l.nodeRow own) h
  | gatedGraph l => exact fun weight own a a' h => congrArg (GatedGraph.stepRow l.cell weight own) h

theorem stepsRow_congr {cell : GruCell α} (hcell : ∀ weight own a a', alike a a' →
      GatedGraph.stepRow cell weight own a = GatedGraph.stepRow cell weight own a')
    (hlinks : Corresponds alike related links links') (weights : List (Linear α))
    {row row' : Nat → List α} (hrow : ∀ t t', related t t' → row t = row' t') :
    ∀ t t', related t t' →
      GatedGraph.stepsRow cell links weights row t
        = GatedGraph.stepsRow cell links' weights row' t' := by
  induction weights generalizing row row' with
  | nil => exact hrow
  | cons w rest ih =>
    refine ih fun t t' ht => ?_
    rw [hrow t t' ht]
    exact hcell w _ _ _ (hlinks row row' hrow t t' ht)

/-- A layer gives related nodes the same features. -/
theorem nodeRow_congr {l : Layer α} (hl : l.Tolerates alike)
    (hlinks : Corresponds alike related links links') {row row' : Nat → List α}
    (hrow : ∀ t t', related t t' → row t = row' t') :
    ∀ t t', related t t' → nodeRow links l row t = nodeRow links' l row' t' := by
  cases l with
  | edgeGated l =>
    intro t t' ht
    show l.residualRow (row t) _ = l.residualRow (row' t') _
    rw [hrow t t' ht]
    exact hl _ _ _ (hlinks row row' hrow t t' ht)
  | graphConv l =>
    intro t t' ht
    show l.nodeRow (row t) _ = l.nodeRow (row' t') _
    rw [hrow t t' ht]
    exact hl _ _ _ (hlinks row row' hrow t t' ht)
  | attention l =>
    intro t t' ht
    show l.nodeRow (row t) _ = l.nodeRow (row' t') _
    rw [hrow t t' ht]
    exact hl _ _ _ (hlinks row row' hrow t t' ht)
  | gatedGraph l => exact stepsRow_congr hl hlinks l.steps hrow

/-- A stack of layers in evaluation mode gives related nodes the same features. -/
theorem stackRow_congr {layers : List (Layer α)} (hl : ∀ l ∈ layers, l.Tolerates alike)
    (hlinks : Corresponds alike related links links') {row row' : Nat → List α}
    (hrow : ∀ t t', related t t' → row t = row' t') :
    ∀ t t', related t t' → stackRow links layers row t = stackRow links' layers row' t' := by
  induction layers generalizing row row' with
  | nil => exact hrow
  | cons l rest ih =>
    refine ih (fun k hk => hl k (List.mem_cons_of_mem _ hk)) fun t t' ht => ?_
    rw [nodeRow_congr (hl l List.mem_cons_self) hlinks hrow t t' ht]

end Layer

end PonziScreen
