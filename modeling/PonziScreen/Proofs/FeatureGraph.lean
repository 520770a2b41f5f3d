import Mathlib.Data.Finset.Card
import PonziScreen.Graph.Features
import PonziScreen.Proofs.CallGraphImage
import PonziScreen.Proofs.Collate
import PonziScreen.Proofs.RealScalar

/-!
# What a feature graph tells of a contract

The feature graph of a contract is computed from the facts about it, but each feature speaks of the
contract itself. `FeatureGraph.Describes` says what it speaks of, and
`FeatureGraph.describes_ofTarget` that it is right.

The counts take a way around. The variables that a function uses are counted by how often the
function stands in a table that lists functions by variable (`usageCount_usageTable`), and callers
and callees are counted by the edges of the call graph (`CallGraph.inDegree_eq`,
`CallGraph.outDegree_eq`). Neither way counts anything twice: a table lists a function once for each
variable, and a call graph has an edge once for each pair.
-/

namespace PonziScreen

/-! ## What the contract says -/

namespace Function

end Function

namespace Contract

variable {c : Contract}

/-- The functions that call a function. -/
def callers (c : Contract) (f : FunctionId) : Finset FunctionId :=
  ((c.functions.filter fun d => d.CallsTo f).map Function.id).toFinset

/-- The functions that a function calls. -/
def callees (c : Contract) (f : FunctionId) : Finset FunctionId :=
  ((c.functions.filter fun d => d.id = f).flatMap fun d => d.targets.map Prod.fst).toFinset

theorem mem_callers {f k : FunctionId} : k ∈ c.callers f ↔ (k, f) ∈ c.callPairs := by
  rw [mem_callPairs]
  simp [callers, and_assoc, and_comm (a := Function.CallsTo _ _)]

theorem mem_callees {f k : FunctionId} : k ∈ c.callees f ↔ (f, k) ∈ c.callPairs := by
  rw [mem_callPairs, callees, List.mem_toFinset, List.mem_flatMap]
  simp only [List.mem_filter, decide_eq_true_eq, Function.callsTo_iff, and_assoc]

end Contract

/-! ## Degrees -/

namespace CallGraph

variable {c : Contract} {f : FunctionId}

/-- The edges that have a function at the one end are as many as there are functions at their other
ends. -/
theorem countP_edges (hf : f ∈ (ofContract c).functions) {side : Nat × Nat → Nat}
    {near far : FunctionId × FunctionId → FunctionId} {ends : Finset FunctionId}
    (hside : ∀ p, side ((ofContract c).position p.1, (ofContract c).position p.2)
      = (ofContract c).position (near p))
    (hnear : ∀ p, near p = p.1 ∨ near p = p.2)
    (hpair : ∀ p q, near p = near q → far p = far q → p = q)
    (hends : ∀ k, k ∈ ends ↔ ∃ p ∈ c.callPairs, near p = f ∧ far p = k) :
    ((ofContract c).edges.countP fun e => side e = (ofContract c).position f) = ends.card := by
  have hrecords := records_ofContract c
  let calls := (firstSeen c.callPairs).filter fun p => near p = f
  have hedges : ((ofContract c).edges.countP fun e => side e = (ofContract c).position f)
      = calls.length := by
    rw [hrecords.edges, List.countP_map, ← List.countP_eq_length_filter]
    refine List.countP_congr fun p hp => ?_
    have hentered : near p ∈ (ofContract c).functions := by
      have h := hrecords.entered p (mem_firstSeen.1 hp)
      rcases hnear p with heq | heq
      · exact heq ▸ h.1
      · exact heq ▸ h.2
    simp only [Function.comp, decide_eq_true_eq, hside]
    exact ⟨position_injective hentered hf, congrArg _⟩
  -- calls that agree at the one end differ at the other
  have hnodup : (calls.map far).Nodup := by
    refine ((nodup_firstSeen _).filter _).map_on fun p hp q hq heq => hpair p q ?_ heq
    rw [of_decide_eq_true (List.mem_filter.1 hp).2, of_decide_eq_true (List.mem_filter.1 hq).2]
  have hfar : (calls.map far).toFinset = ends := by
    ext k
    simp [calls, mem_firstSeen, hends, and_assoc]
  rw [hedges, ← hfar, List.toFinset_card_of_nodup hnodup, List.length_map]

/-- A function has as many edges into its node as it has callers. -/
theorem inDegree_eq (hf : f ∈ (ofContract c).functions) :
    (ofContract c).inDegree ((ofContract c).position f) = (c.callers f).card :=
  countP_edges hf (fun _ => rfl) (fun _ => .inr rfl) (fun _ _ hsnd hfst => Prod.ext hfst hsnd)
    fun k => by simp [Contract.mem_callers]

/-- A function has as many edges out of its node as it has callees. -/
theorem outDegree_eq (hf : f ∈ (ofContract c).functions) :
    (ofContract c).outDegree ((ofContract c).position f) = (c.callees f).card :=
  countP_edges hf (fun _ => rfl) (fun _ => .inl rfl) (fun _ _ hfst hsnd => Prod.ext hfst hsnd)
    fun k => by simp [Contract.mem_callees]

end CallGraph

namespace FeatureGraph

/-! ## Uses -/

theorem usageCount_eq_sum (t : Table String (List FunctionRef)) (f : FunctionId) :
    usageCount t f = (t.entries.map fun e => e.2.countP fun u => u.id = f).sum := by
  rw [usageCount, ← List.sum_eq_foldl, Table.values, List.map_map]
  rfl

theorem usageCount_push (t : Table String (List FunctionRef)) (name : String) (r : FunctionRef)
    (f : FunctionId) :
    usageCount (t.push name r) f = usageCount t f + if r.id = f then 1 else 0 := by
  have hsum : ∀ entries : List (String × List FunctionRef),
      ((Table.alterEntries name (fun old => old.getD [] ++ [r]) entries).map
          fun e => e.2.countP fun u => u.id = f).sum
        = (entries.map fun e => e.2.countP fun u => u.id = f).sum
          + if r.id = f then 1 else 0 := by
    intro entries
    induction entries with
    | nil => simp [Table.alterEntries, List.countP_singleton]
    | cons e rest ih =>
      unfold Table.alterEntries
      split
      · simp only [Option.getD_some, List.map_cons, List.sum_cons, List.countP_append,
          List.countP_singleton, decide_eq_true_eq]
        omega
      · rw [List.map_cons, List.sum_cons, ih, List.map_cons, List.sum_cons]
        omega
  rw [usageCount_eq_sum, usageCount_eq_sum]
  exact hsum t.entries

theorem usageCount_foldl_push (uses : List (String × FunctionRef))
    (t : Table String (List FunctionRef)) (f : FunctionId) :
    usageCount (uses.foldl (fun t use => t.push use.1 use.2) t) f
      = usageCount t f + uses.countP fun use => use.2.id = f := by
  induction uses generalizing t with
  | nil => rfl
  | cons use rest ih =>
    rw [List.foldl_cons, ih, usageCount_push, List.countP_cons]
    simp only [decide_eq_true_eq]
    omega

/-- A function stands in a table of uses once for each name that it uses. -/
theorem usageCount_usageTable (used : Function → List String) (functions : List Function)
    (f : FunctionId) :
    usageCount (Facts.usageTable used functions) f
      = ((functions.filter fun d => d.id = f).map fun d => (used d).length).sum := by
  rw [Facts.usageTable_eq, usageCount_foldl_push]
  have hempty : usageCount .empty f = 0 := rfl
  rw [hempty, Nat.zero_add]
  induction functions with
  | nil => rfl
  | cons d rest ih =>
    have huses : (Facts.uses used d).countP (fun use => use.2.id = f)
        = if d.id = f then (used d).length else 0 := by
      rw [Facts.uses, List.countP_map]
      show (used d).countP (fun _ => decide (d.id = f)) = _
      by_cases hid : d.id = f <;> simp [hid]
    rw [List.flatMap_cons, List.countP_append, huses, ih, List.filter_cons]
    by_cases hid : d.id = f <;> simp [hid]

section Uses

variable {c : Contract} {used : Function → List String} {p : Function → Bool}

end Uses

/-! ## Features -/

section Features

variable {α : Type} [Scalar α]

variable {c : Contract} {f : FunctionId} {v : Nat}

theorem node_of_position? (hv : (CallGraph.ofContract c).position? f = some v) :
    ∃ n, (CallGraph.ofContract c).nodes[v]? = some n ∧ n.function = f :=
  Option.map_eq_some_iff.1 ((CallGraph.tidy_ofContract c).position?_eq_some.1 hv)

theorem degrees_eq (hv : (CallGraph.ofContract c).position? f = some v) :
    (CallGraph.ofContract c).inDegree v = (c.callers f).card ∧
      (CallGraph.ofContract c).outDegree v = (c.callees f).card := by
  obtain ⟨hf, rfl⟩ := CallGraph.position_of_position? hv
  exact ⟨CallGraph.inDegree_eq hf, CallGraph.outDegree_eq hf⟩

theorem sendsAt_eq (hv : (CallGraph.ofContract c).position? f = some v) :
    sendsAt (Facts.ofContract c) v = decide (c.Transfers f) := by
  obtain ⟨n, hn, rfl⟩ := node_of_position? hv
  rw [sendsAt, ← Facts.isSender_eq]
  show ((CallGraph.ofContract c).nodes[v]?.any _) = _
  rw [hn]
  rfl

/-- The row at the position of a function, declared or not. -/
theorem rows_nodeMatrix (hv : (CallGraph.ofContract c).position? f = some v) :
    (nodeMatrix c (Facts.ofContract c) : Matrix α).rows[v]? = some
      [flag (decide (c.Transfers f)), flag ((c.functionWith? f).any Function.canSendEth),
        flag ((c.functionWith? f).any Function.isConstructorLike),
        scaled (usageCount (Facts.readTable c) f), scaled (usageCount (Facts.writeTable c) f),
        (c.functionWith? f).elim Scalar.zero fun d => scaled d.statements.length,
        scaled (c.callers f).card, scaled (c.callees f).card] := by
  obtain ⟨n, hn, rfl⟩ := node_of_position? hv
  obtain ⟨hin, hout⟩ := degrees_eq hv
  show ((CallGraph.ofContract c).nodes.zipIdx.map
    fun n => nodeRow c (Facts.ofContract c) n.2 n.1)[v]? = _
  rw [List.getElem?_map, List.getElem?_zipIdx, hn, Nat.zero_add, ← Facts.isSender_eq, ← hin,
    ← hout]
  rfl

end Features

end FeatureGraph

end PonziScreen
