import Mathlib.Data.List.Nodup
import PonziScreen.Proofs.DepthFirst

/-!
# The call graph of a contract

Building a call graph gives each function one node and keeps all edges between nodes
(`CallGraph.Tidy`). Nodes are only added, so a function that has a node keeps it.

* `tidy_ofContract` — the call graph of a contract is tidy
* `mem_functions_ofContract` — every declared function has a node
-/

namespace PonziScreen.CallGraph

/-- The functions that have a node, in the order of their nodes. -/
def functions (g : CallGraph) : List FunctionId := g.nodes.map CallNode.function

/-- Each function has at most one node, and calls are between nodes. -/
structure Tidy (g : CallGraph) : Prop where
  nodup : g.functions.Nodup
  closed : g.Closed

variable {g : CallGraph}

theorem length_functions (g : CallGraph) : g.functions.length = g.nodeCount :=
  List.length_map CallNode.function

/-! ## Positions -/

theorem position?_eq_none {f : FunctionId} : g.position? f = none ↔ f ∉ g.functions := by
  unfold position? functions
  rw [List.findIdx?_eq_none_iff, List.mem_map]
  constructor
  · rintro h ⟨n, hn, rfl⟩
    simpa using h n hn
  · intro h n hn
    simpa using fun hf => h ⟨n, hn, hf⟩

theorem position_lt {f : FunctionId} (h : f ∈ g.functions) : g.position f < g.nodeCount := by
  unfold position
  cases hp : g.position? f with
  | none => exact absurd h (position?_eq_none.1 hp)
  | some v => exact (List.findIdx?_eq_some_iff_findIdx_eq.1 hp).1

theorem functions_position {f : FunctionId} (h : f ∈ g.functions) :
    g.functions[g.position f]? = some f := by
  unfold position
  cases hp : g.position? f with
  | none => exact absurd h (position?_eq_none.1 hp)
  | some v =>
    obtain ⟨hlt, hv, -⟩ := List.findIdx?_eq_some_iff_getElem.1 hp
    simp only [functions, Option.getD_some, List.getElem?_map, List.getElem?_eq_getElem hlt,
      Option.map_some]
    rw [of_decide_eq_true hv]

/-- The position of a function is its only one. -/
theorem Tidy.functions_eq_iff (hg : g.Tidy) {f : FunctionId} (h : f ∈ g.functions) {v : Nat} :
    g.functions[v]? = some f ↔ v = g.position f := by
  constructor
  · intro hv
    have hlt : v < g.functions.length := (List.getElem?_eq_some_iff.1 hv).1
    exact (List.getElem?_inj hlt hg.nodup).1 (hv.trans (functions_position h).symm)
  · rintro rfl
    exact functions_position h

/-! ## Steps -/

/-- Entering a function adds a node for it at most. -/
theorem nodes_enter (g : CallGraph) (f : FunctionId) (label : String) :
    (g.enter f label).nodes = if f ∈ g.functions then g.nodes else g.nodes ++ [⟨label, f⟩] := by
  unfold enter
  by_cases hf : f ∈ g.functions
  · cases hp : g.position? f with
    | none => exact absurd hf (position?_eq_none.1 hp)
    | some v => exact (if_pos hf).symm
  · rw [position?_eq_none.2 hf, if_neg hf]

theorem functions_enter (g : CallGraph) (f : FunctionId) (label : String) :
    (g.enter f label).functions = if f ∈ g.functions then g.functions else g.functions ++ [f] := by
  rw [functions, nodes_enter]
  split
  · rfl
  · exact List.map_append

theorem mem_functions_enter {f k : FunctionId} {label : String} :
    k ∈ (g.enter f label).functions ↔ k = f ∨ k ∈ g.functions := by
  rw [functions_enter]
  split
  · rename_i hf
    exact ⟨Or.inr, fun h => h.elim (fun heq => heq ▸ hf) id⟩
  · rw [List.mem_append, List.mem_singleton]
    exact or_comm

theorem nodeCount_le_enter (g : CallGraph) (f : FunctionId) (label : String) :
    g.nodeCount ≤ (g.enter f label).nodeCount := by
  rw [← length_functions, ← length_functions, functions_enter]
  split
  · exact Nat.le_refl _
  · rw [List.length_append]
    exact Nat.le_add_right _ _

theorem edges_enter (g : CallGraph) (f : FunctionId) (label : String) :
    (g.enter f label).edges = g.edges := by
  unfold enter
  cases g.position? f <;> rfl

theorem Tidy.enter (h : g.Tidy) (f : FunctionId) (label : String) : (g.enter f label).Tidy := by
  refine ⟨?_, ?_⟩
  · rw [functions_enter]
    split
    · exact h.nodup
    · rename_i hf
      rw [List.nodup_append_comm]
      exact List.nodup_cons.2 ⟨hf, h.nodup⟩
  · intro e he
    rw [edges_enter] at he
    have := h.closed e he
    have := nodeCount_le_enter g f label
    omega

theorem nodes_connect (g : CallGraph) (caller callee : Nat) :
    (g.connect caller callee).nodes = g.nodes := by
  unfold connect
  split <;> rfl

theorem Tidy.connect (h : g.Tidy) {caller callee : Nat} (hcaller : caller < g.nodeCount)
    (hcallee : callee < g.nodeCount) : (g.connect caller callee).Tidy := by
  refine ⟨?_, ?_⟩
  · rw [functions, nodes_connect]
    exact h.nodup
  · unfold Closed nodeCount
    rw [nodes_connect]
    intro e he
    unfold CallGraph.connect at he
    split at he
    · exact h.closed e he
    · rcases List.mem_append.1 he with he | he
      · exact h.closed e he
      · rw [List.mem_singleton.1 he]
        exact ⟨hcaller, hcallee⟩

/-- A call of a function that has a node adds at most a node and an edge. -/
theorem Tidy.addCall (h : g.Tidy) {caller : FunctionId} (hcaller : caller ∈ g.functions)
    (call : Call) :
    (g.addCall caller call).Tidy ∧ ∀ f ∈ g.functions, f ∈ (g.addCall caller call).functions := by
  cases call with
  | function id name =>
    -- the caller keeps its node when the callee gets one
    have hkept : ∀ f ∈ g.functions, f ∈ (g.enter id name).functions :=
      fun f hf => mem_functions_enter.2 (Or.inr hf)
    have hlast : id ∈ (g.enter id name).functions := mem_functions_enter.2 (Or.inl rfl)
    refine ⟨(h.enter id name).connect (position_lt (hkept caller hcaller)) (position_lt hlast), ?_⟩
    intro f hf
    show f ∈ ((g.enter id name).connect _ _).nodes.map CallNode.function
    rw [nodes_connect]
    exact hkept f hf
  | builtin name => exact ⟨h, fun f hf => hf⟩
  | unresolved target => exact ⟨h, fun f hf => hf⟩

theorem Tidy.addCalls (h : g.Tidy) {caller : FunctionId} (hcaller : caller ∈ g.functions)
    (calls : List Call) :
    (calls.foldl (CallGraph.addCall caller) g).Tidy ∧
      ∀ f ∈ g.functions, f ∈ (calls.foldl (CallGraph.addCall caller) g).functions := by
  induction calls generalizing g with
  | nil => exact ⟨h, fun f hf => hf⟩
  | cons call rest ih =>
    obtain ⟨htidy, hkept⟩ := h.addCall hcaller call
    obtain ⟨hrest, hall⟩ := ih htidy (hkept caller hcaller)
    exact ⟨hrest, fun f hf => hall f (hkept f hf)⟩

theorem Tidy.addFunction (h : g.Tidy) (f : Function) :
    (g.addFunction f).Tidy ∧ f.id ∈ (g.addFunction f).functions ∧
      ∀ k ∈ g.functions, k ∈ (g.addFunction f).functions := by
  have hself : f.id ∈ (g.enter f.id f.name).functions := mem_functions_enter.2 (Or.inl rfl)
  obtain ⟨htidy, hkept⟩ := (h.enter f.id f.name).addCalls hself f.calls
  exact ⟨htidy, hkept _ hself, fun k hk => hkept k (mem_functions_enter.2 (Or.inr hk))⟩

/-! ## Contracts -/

theorem Tidy.addFunctions (h : g.Tidy) (declared : List Function) :
    (declared.foldl CallGraph.addFunction g).Tidy ∧
      (∀ f ∈ declared, f.id ∈ (declared.foldl CallGraph.addFunction g).functions) ∧
      ∀ k ∈ g.functions, k ∈ (declared.foldl CallGraph.addFunction g).functions := by
  induction declared generalizing g with
  | nil => exact ⟨h, by simp, fun k hk => hk⟩
  | cons f rest ih =>
    obtain ⟨htidy, hself, hkept⟩ := h.addFunction f
    obtain ⟨hrest, hdeclared, hall⟩ := ih htidy
    refine ⟨hrest, ?_, fun k hk => hall k (hkept k hk)⟩
    intro d hd
    rcases List.mem_cons.1 hd with rfl | hd
    · exact hall _ hself
    · exact hdeclared d hd

theorem tidy_empty : empty.Tidy := ⟨List.nodup_nil, fun e he => by simp [empty] at he⟩

/-- The call graph of a contract has one node for each function, and calls between nodes. -/
theorem tidy_ofContract (c : Contract) : (ofContract c).Tidy :=
  (tidy_empty.addFunctions c.functions).1

/-- Every declared function has a node. -/
theorem mem_functions_ofContract {c : Contract} {f : Function} (h : f ∈ c.functions) :
    f.id ∈ (ofContract c).functions :=
  (tidy_empty.addFunctions c.functions).2.1 f h

end PonziScreen.CallGraph
