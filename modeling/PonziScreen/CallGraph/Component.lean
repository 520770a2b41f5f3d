import PonziScreen.CallGraph.Basic

/-!
# Strongly connected components

Two nodes belong to one component when each reaches the other. `components` lists every component
once, in the order in which a depth-first search leaves them: a search that starts from the nodes in
the order of their positions and goes on to the callee whose call was added last.

## How it works

The search leaves the nodes of a component one by one, and the component itself when it leaves the
last of them. So the order of the components is the order of their last nodes in the order in which
the search leaves nodes (`leaveOrder`), and what belongs to a component is settled by reachability
alone.

## Termination

* `walk` — either a node is seen for the first time, or the list of things to do gets shorter.
-/

namespace PonziScreen.CallGraph

/-! ## Depth-first search -/

/-- A step of a search that is still to be done. -/
inductive Visit where
  /-- Go to a node, unless it has been seen. -/
  | enter (v : Nat)
  /-- Leave a node whose callees have all been dealt with. -/
  | leave (v : Nat)
deriving Repr, DecidableEq

/-- The nodes of `0 … n - 1` that a search has not seen. -/
def unseen (n : Nat) (seen : List Nat) : List Nat :=
  (List.range n).filter fun v => v ∉ seen

/-- Seeing a node for the first time leaves fewer nodes to see. -/
theorem unseen_cons_length_lt {n v : Nat} {seen : List Nat} (hv : v < n) (hs : v ∉ seen) :
    (unseen n (v :: seen)).length < (unseen n seen).length := by
  have hsub : (unseen n (v :: seen)) = (unseen n seen).filter fun w => w ≠ v := by
    simp only [unseen, List.filter_filter]
    apply List.filter_congr
    intro w _
    simp
  rw [hsub]
  refine Nat.lt_of_le_of_ne (List.length_filter_le _ _) fun h => ?_
  rw [List.length_filter_eq_length_iff] at h
  have hmem : v ∈ unseen n seen := by simp [unseen, hv, hs]
  simpa using h v hmem

/-- Does a list of steps and adds the nodes, in the order in which they are left, to those left
before. -/
def walk (g : CallGraph) (todo : List Visit) (seen left : List Nat) : List Nat :=
  match todo with
  | [] => left
  | .leave v :: todo => walk g todo seen (left ++ [v])
  | .enter v :: todo =>
    if _h : v < g.nodeCount ∧ v ∉ seen then
      walk g ((g.successors v).map .enter ++ .leave v :: todo) (v :: seen) left
    else walk g todo seen left
termination_by ((unseen g.nodeCount seen).length, todo.length)
decreasing_by
  · exact Prod.Lex.right _ (by simp)
  · exact Prod.Lex.left _ _ (unseen_cons_length_lt _h.1 _h.2)
  · exact Prod.Lex.right _ (by simp)

/-- The nodes in the order in which a depth-first search leaves them. -/
def leaveOrder (g : CallGraph) : List Nat :=
  g.walk ((List.range g.nodeCount).map .enter) [] []

/-- The nodes that a node reaches over zero or more edges: those that a search from it leaves. -/
def reached (g : CallGraph) (v : Nat) : List Nat := g.walk [.enter v] [] []

/-! ## Components -/

/-- For each node, in the order of positions, the nodes that it reaches. -/
def reachTable (g : CallGraph) : List (List Nat) := (List.range g.nodeCount).map g.reached

/-- The component of a node: the nodes that it reaches and that reach it. -/
def component (table : List (List Nat)) (v : Nat) : List Nat :=
  (table.getD v []).filter fun w => decide (v ∈ table.getD w [])

/-- The components of the nodes of a list, each at the last of its nodes. -/
def lastComponents (table : List (List Nat)) : List Nat → List (List Nat)
  | [] => []
  | v :: rest =>
    let c := component table v
    if rest.any fun w => decide (w ∈ c) then lastComponents table rest
    else c :: lastComponents table rest

/-- Every component once, in the order in which a depth-first search leaves them. -/
def components (g : CallGraph) : List (List Nat) := lastComponents g.reachTable g.leaveOrder

/-- Whether a component holds a way from a node back to itself. -/
def isCyclic (g : CallGraph) (component : List Nat) : Bool :=
  1 < component.length || component.any fun v => g.edges.contains (v, v)

end PonziScreen.CallGraph
