import PonziScreen.Contract.Basic

/-!
# Call graphs

The functions of a contract and who calls whom. Nodes are numbered in the order in which functions
come up when the contract is walked: each declared function, then the functions that it calls. An
edge stands once for each pair, in the order in which it comes up first.
-/

namespace PonziScreen

/-- A function in a call graph, with the name under which it came up first. -/
structure CallNode where
  label : String
  function : FunctionId
deriving Repr, DecidableEq

/-- A call graph. A node is named by its position; an edge is a pair of caller and callee. -/
structure CallGraph where
  nodes : List CallNode
  edges : List (Nat × Nat)
deriving Repr, DecidableEq

namespace CallGraph

/-- The graph of nothing. -/
def empty : CallGraph := ⟨[], []⟩

/-- The number of nodes. -/
def nodeCount (g : CallGraph) : Nat := g.nodes.length

/-- The number of edges. -/
def edgeCount (g : CallGraph) : Nat := g.edges.length

/-- The position of a function. -/
def position? (g : CallGraph) (f : FunctionId) : Option Nat :=
  g.nodes.findIdx? fun n => n.function = f

/-- The functions that have a node, with their positions. -/
def positions (g : CallGraph) : List (FunctionId × Nat) :=
  g.nodes.zipIdx.map fun n => (n.1.function, n.2)

/-! ## Building -/

/-- Gives a function a node unless it has one. -/
def enter (g : CallGraph) (f : FunctionId) (label : String) : CallGraph :=
  match g.position? f with
  | some _ => g
  | none => { g with nodes := g.nodes ++ [⟨label, f⟩] }

/-- The position of a function that has been entered. -/
def position (g : CallGraph) (f : FunctionId) : Nat := (g.position? f).getD g.nodeCount

/-- Adds an edge unless it is there. -/
def connect (g : CallGraph) (caller callee : Nat) : CallGraph :=
  if (caller, callee) ∈ g.edges then g else { g with edges := g.edges ++ [(caller, callee)] }

/-- Adds a call of `caller`. Builtins and unresolved targets have no node. -/
def addCall (caller : FunctionId) (g : CallGraph) : Call → CallGraph
  | .function id name =>
    let g := g.enter id name
    g.connect (g.position caller) (g.position id)
  | .builtin _ => g
  | .unresolved _ => g

/-- Adds a declared function and its calls. -/
def addFunction (g : CallGraph) (f : Function) : CallGraph :=
  f.calls.foldl (addCall f.id) (g.enter f.id f.name)

/-- The call graph of a contract. -/
def ofContract (c : Contract) : CallGraph := c.functions.foldl addFunction empty

/-! ## Neighbours -/

/-- The callees of a node, the one whose edge was added last first. -/
def successors (g : CallGraph) (v : Nat) : List Nat :=
  ((g.edges.filter fun e => e.1 = v).map Prod.snd).reverse

/-- The number of edges into a node. -/
def inDegree (g : CallGraph) (v : Nat) : Nat := g.edges.countP fun e => e.2 = v

/-- The number of edges out of a node. -/
def outDegree (g : CallGraph) (v : Nat) : Nat := g.edges.countP fun e => e.1 = v

end CallGraph

end PonziScreen
