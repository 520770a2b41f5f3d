import PonziScreen.Proofs.CallGraph
import PonziScreen.Proofs.Contract

/-!
# Walking over a contract

A walk over a contract comes by its functions in the order of their declarations, and with each of
them by the functions that it calls. `Contract.mentions` lists what it comes by, and
`Contract.callPairs` lists the calls. `CallGraph.Records` says that a call graph is a record of such
lists: a node for each function mentioned, in the order in which they come up first and with the
name under which they do, and an edge for each call, in the same order.

Each step of building a call graph adds to the record what the walk comes by in that step, so the
call graph of a contract is a record of the whole walk (`CallGraph.records_ofContract`).
-/

namespace PonziScreen

/-! ## What a walk comes by -/

/-- The function that a call goes to. Builtins and unresolved targets are none. -/
def Call.target? : Call → Option (FunctionId × String)
  | .function id name => some (id, name)
  | .builtin _ => none
  | .unresolved _ => none

namespace Function

/-- The functions that a function calls, with the names under which it does. -/
def targets (f : Function) : List (FunctionId × String) := f.calls.filterMap Call.target?

/-- A function calls another one. -/
def CallsTo (f : Function) (k : FunctionId) : Prop := ∃ name, .function k name ∈ f.calls

theorem callsTo_iff {f : Function} {k : FunctionId} :
    f.CallsTo k ↔ k ∈ f.targets.map Prod.fst := by
  simp only [CallsTo, targets, List.mem_map, List.mem_filterMap]
  constructor
  · rintro ⟨name, h⟩
    exact ⟨(k, name), ⟨_, h, rfl⟩, rfl⟩
  · rintro ⟨⟨_, name⟩, ⟨call, h, ht⟩, rfl⟩
    cases call with
    | function id label =>
      cases ht
      exact ⟨_, h⟩
    | builtin label => cases ht
    | unresolved target => cases ht

instance (f : Function) (k : FunctionId) : Decidable (f.CallsTo k) :=
  decidable_of_iff' _ callsTo_iff

end Function

namespace Contract

/-- The functions that a walk comes by, with their names there. -/
def mentions (c : Contract) : List (FunctionId × String) :=
  c.functions.flatMap fun f => (f.id, f.name) :: f.targets

/-- The calls that a walk comes by: who calls whom. -/
def callPairs (c : Contract) : List (FunctionId × FunctionId) :=
  c.functions.flatMap fun f => f.targets.map fun k => (f.id, k.1)

theorem mem_callPairs {c : Contract} {f k : FunctionId} :
    (f, k) ∈ c.callPairs ↔ ∃ d ∈ c.functions, d.id = f ∧ d.CallsTo k := by
  rw [callPairs, List.mem_flatMap]
  simp only [Function.callsTo_iff, List.mem_map, Prod.mk.injEq]
  constructor
  · rintro ⟨d, hd, t, ht, hf, hk⟩
    exact ⟨d, hd, hf, t, ht, hk⟩
  · rintro ⟨d, hd, hf, t, ht, hk⟩
    exact ⟨d, hd, t, ht, hf, hk⟩

end Contract

namespace CallGraph

variable {g : CallGraph}

/-! ## Positions while a graph grows -/

/-- A function keeps its position when another one is entered. -/
theorem position_enter {f : FunctionId} (h : f ∈ g.functions) (k : FunctionId) (label : String) :
    (g.enter k label).position f = g.position f := by
  unfold position position?
  rw [nodes_enter]
  split
  · rename_i hk
    rw [nodeCount, nodeCount, nodes_enter, if_pos hk]
  · have hsome : (g.nodes.findIdx? fun n => n.function = f) ≠ none :=
      fun hnone => position?_eq_none.1 hnone h
    obtain ⟨v, hv⟩ := Option.ne_none_iff_exists'.1 hsome
    rw [List.findIdx?_append, hv, Option.some_or, Option.getD_some, Option.getD_some]

theorem functions_connect (g : CallGraph) (caller callee : Nat) :
    (g.connect caller callee).functions = g.functions := by
  rw [functions, functions, nodes_connect]

theorem position_connect (g : CallGraph) (caller callee : Nat) (f : FunctionId) :
    (g.connect caller callee).position f = g.position f := by
  unfold position position? nodeCount
  rw [nodes_connect]

theorem position_injective {f k : FunctionId} (hf : f ∈ g.functions) (hk : k ∈ g.functions)
    (h : g.position f = g.position k) : f = k := by
  have hsome := (functions_position hf).symm.trans (h ▸ functions_position hk)
  exact Option.some.inj hsome

/-! ## Records -/

/-- A call graph is a record of the functions and the calls that a walk has come by. -/
structure Records (g : CallGraph) (mentions : List (FunctionId × String))
    (calls : List (FunctionId × FunctionId)) : Prop where
  functions : g.functions = firstSeen (mentions.map Prod.fst)
  labels : ∀ n ∈ g.nodes, mentions.find? (fun m => m.1 = n.function) = some (n.function, n.label)
  entered : ∀ p ∈ calls, p.1 ∈ g.functions ∧ p.2 ∈ g.functions
  edges : g.edges = (firstSeen calls).map fun p => (g.position p.1, g.position p.2)

variable {mentions : List (FunctionId × String)} {calls : List (FunctionId × FunctionId)}

theorem Records.mem_functions (h : g.Records mentions calls) {f : FunctionId} :
    f ∈ g.functions ↔ f ∈ mentions.map Prod.fst := by
  rw [h.functions, mem_firstSeen]

theorem records_empty : empty.Records [] [] :=
  ⟨rfl, fun n hn => by simp [empty] at hn, fun p hp => by simp at hp, rfl⟩

/-- Entering a function records that the walk comes by it. -/
theorem Records.enter (h : g.Records mentions calls) (f : FunctionId) (label : String) :
    (g.enter f label).Records (mentions ++ [(f, label)]) calls := by
  have hkept : ∀ k ∈ g.functions, k ∈ (g.enter f label).functions :=
    fun k hk => mem_functions_enter.2 (Or.inr hk)
  refine ⟨?_, ?_, fun p hp => ⟨hkept _ (h.entered p hp).1, hkept _ (h.entered p hp).2⟩, ?_⟩
  · rw [functions_enter, List.map_append, List.map_singleton, firstSeen_concat, ← h.functions]
    simp only [h.mem_functions]
  · intro n hn
    rw [List.find?_append]
    rw [nodes_enter] at hn
    split at hn
    · rw [h.labels n hn, Option.some_or]
    · rename_i hnew
      rcases List.mem_append.1 hn with hn | hn
      · rw [h.labels n hn, Option.some_or]
      · -- the function comes up here for the first time
        obtain rfl := List.mem_singleton.1 hn
        have hfirst : mentions.find? (fun m => m.1 = f) = none := by
          rw [List.find?_eq_none]
          intro m hm
          simpa using fun heq : m.1 = f =>
            hnew (h.mem_functions.2 (heq ▸ List.mem_map_of_mem hm))
        simp [hfirst]
  · rw [edges_enter, h.edges]
    refine List.map_congr_left fun p hp => ?_
    have hentered := h.entered p (mem_firstSeen.1 hp)
    rw [position_enter hentered.1, position_enter hentered.2]

/-- There is an edge between two functions if one calls the other somewhere. -/
theorem Records.mem_edges (h : g.Records mentions calls) {f k : FunctionId}
    (hf : f ∈ g.functions) (hk : k ∈ g.functions) :
    (g.position f, g.position k) ∈ g.edges ↔ (f, k) ∈ calls := by
  rw [h.edges, List.mem_map]
  constructor
  · rintro ⟨p, hp, heq⟩
    have hp := mem_firstSeen.1 hp
    rw [Prod.mk.injEq] at heq
    have hfst := position_injective (h.entered p hp).1 hf heq.1
    have hsnd := position_injective (h.entered p hp).2 hk heq.2
    rwa [← hfst, ← hsnd]
  · exact fun hcall => ⟨(f, k), mem_firstSeen.2 hcall, rfl⟩

/-- Connecting two functions records that one calls the other. -/
theorem Records.connect (h : g.Records mentions calls) {f k : FunctionId} (hf : f ∈ g.functions)
    (hk : k ∈ g.functions) :
    (g.connect (g.position f) (g.position k)).Records mentions (calls ++ [(f, k)]) := by
  refine ⟨?_, ?_, ?_, ?_⟩
  · rw [functions_connect, h.functions]
  · rw [nodes_connect]
    exact h.labels
  · intro p hp
    rw [functions_connect]
    rcases List.mem_append.1 hp with hp | hp
    · exact h.entered p hp
    · rw [List.mem_singleton.1 hp]
      exact ⟨hf, hk⟩
  · have hmem := h.mem_edges hf hk
    simp only [position_connect]
    unfold CallGraph.connect
    by_cases hcall : (f, k) ∈ calls
    · rw [if_pos (hmem.2 hcall), firstSeen_concat, if_pos hcall, h.edges]
    · rw [if_neg (mt hmem.1 hcall), firstSeen_concat, if_neg hcall, List.map_append, ← h.edges]
      rfl

/-- Adding calls of a function records them and the functions that they go to. -/
theorem Records.addCalls (h : g.Records mentions calls) {f : FunctionId} (hf : f ∈ g.functions)
    (added : List Call) :
    (added.foldl (CallGraph.addCall f) g).Records (mentions ++ added.filterMap Call.target?)
      (calls ++ (added.filterMap Call.target?).map fun k => (f, k.1)) := by
  induction added generalizing g mentions calls with
  | nil => simpa using h
  | cons call rest ih =>
    cases call with
    | function id name =>
      have hkept : f ∈ (g.enter id name).functions := mem_functions_enter.2 (Or.inr hf)
      have hlast : id ∈ (g.enter id name).functions := mem_functions_enter.2 (Or.inl rfl)
      have hrest := ih ((h.enter id name).connect hkept hlast)
        (by rw [functions_connect]; exact hkept)
      rw [List.append_assoc, List.append_assoc] at hrest
      exact hrest
    | builtin name => exact ih h hf
    | unresolved target => exact ih h hf

theorem Records.addFunction (h : g.Records mentions calls) (f : Function) :
    (g.addFunction f).Records (mentions ++ (f.id, f.name) :: f.targets)
      (calls ++ f.targets.map fun k => (f.id, k.1)) := by
  have hself : f.id ∈ (g.enter f.id f.name).functions := mem_functions_enter.2 (Or.inl rfl)
  have hcalls := (h.enter f.id f.name).addCalls hself f.calls
  rw [List.append_assoc] at hcalls
  exact hcalls

theorem Records.addFunctions (h : g.Records mentions calls) (declared : List Function) :
    (declared.foldl CallGraph.addFunction g).Records
      (mentions ++ declared.flatMap fun f => (f.id, f.name) :: f.targets)
      (calls ++ declared.flatMap fun f => f.targets.map fun k => (f.id, k.1)) := by
  induction declared generalizing g mentions calls with
  | nil => simpa using h
  | cons f rest ih =>
    have hrest := ih (h.addFunction f)
    rw [List.append_assoc, List.append_assoc] at hrest
    exact hrest

/-- The call graph of a contract is a record of the walk over it. -/
theorem records_ofContract (c : Contract) : (ofContract c).Records c.mentions c.callPairs :=
  records_empty.addFunctions c.functions

end CallGraph

end PonziScreen
