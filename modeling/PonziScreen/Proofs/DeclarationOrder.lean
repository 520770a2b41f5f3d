import Mathlib.Data.List.NodupEquivFin
import PonziScreen.Proofs.FeatureGraph
import PonziScreen.Proofs.Isomorphism

/-!
# The order of declarations

If the functions of a contract are declared in another order, a walk over the contract comes by the
same functions and by the same calls, only in another order. The call graph numbers its nodes and
lists its edges accordingly (`CallGraph.exists_reorder`), and nothing that a feature tells of a
function depends on its number in the call graph. So the feature graph is the same graph with its
nodes renumbered and its edges rearranged (`FeatureGraph.ofTarget_withFunctions`).
-/

namespace PonziScreen

open PonziScreen.Matrix

/-! ## Lists in another order -/

section Reorder

variable {β : Type} {n : Nat}

/-- A list without repetitions is brought into any other order by a permutation of its positions. -/
theorem exists_reorder {items items' : List β} (hnodup : items.Nodup) (h : items'.Perm items)
    (hn : items.length = n) : ∃ p : Equiv.Perm (Fin n), items' = reorder p items := by
  classical
  obtain rfl := hn
  have hnodup' : items'.Nodup := h.nodup_iff.2 hnodup
  have hlength : items'.length = items.length := h.length_eq
  -- a position goes to where its item stands in the other list
  let p : Equiv.Perm (Fin items.length) :=
    ((hnodup.getEquiv items).trans (Equiv.subtypeEquivRight fun _ => h.mem_iff.symm)).trans
      ((hnodup'.getEquiv items').symm.trans (finCongr hlength))
  refine ⟨p, List.ext_getElem ((length_reorder p items).trans hlength.symm).symm ?_⟩
  intro i hi hi'
  have hitem : items[p.symm ⟨i, hlength ▸ hi⟩] = items'[i] := by simp [p]
  simpa [reorder] using hitem.symm

/-- The item at a position is found at the new number of the position. -/
theorem getElem?_reorder (p : Equiv.Perm (Fin n)) {items : List β} (hn : items.length = n) {v : Nat}
    (hv : v < n) : (reorder p items)[renumber p v]? = items[v]? := by
  subst hn
  rw [renumber_of_lt p hv]
  simp [reorder]

end Reorder

/-! ## Contracts -/

namespace Contract

variable {c : Contract} {declared : List Function}

/-- A contract with other functions. -/
def withFunctions (c : Contract) (declared : List Function) : Contract :=
  { c with functions := declared }

theorem callPairs_withFunctions (h : declared.Perm c.functions) :
    (c.withFunctions declared).callPairs.Perm c.callPairs :=
  h.flatMap_right _

theorem mentions_withFunctions (h : declared.Perm c.functions) :
    (c.withFunctions declared).mentions.Perm c.mentions :=
  h.flatMap_right _

theorem transfers_withFunctions (h : declared.Perm c.functions) (f : FunctionId) :
    (c.withFunctions declared).Transfers f ↔ c.Transfers f := by
  unfold Transfers withFunctions
  simp only [h.mem_iff]

theorem callers_withFunctions (h : declared.Perm c.functions) (f : FunctionId) :
    (c.withFunctions declared).callers f = c.callers f := by
  ext k
  rw [mem_callers, mem_callers, (callPairs_withFunctions h).mem_iff]

theorem callees_withFunctions (h : declared.Perm c.functions) (f : FunctionId) :
    (c.withFunctions declared).callees f = c.callees f := by
  ext k
  rw [mem_callees, mem_callees, (callPairs_withFunctions h).mem_iff]

/-- Where numbers tell functions apart, the function of a number is found in any order. -/
theorem functionWith?_withFunctions (h : declared.Perm c.functions)
    (hids : (c.functions.map Function.id).Nodup) (f : FunctionId) :
    (c.withFunctions declared).functionWith? f = c.functionWith? f := by
  have hperm : (declared.filter fun k => k.id = f).Perm (c.functions.filter fun k => k.id = f) :=
    h.filter _
  rw [functionWith?_eq_head?, functionWith?_eq_head?]
  by_cases hf : ∃ d ∈ c.functions, d.id = f
  · obtain ⟨d, hd, rfl⟩ := hf
    rw [filter_id hids hd] at hperm ⊢
    exact congrArg List.head? (List.perm_singleton.1 hperm)
  · have hnil := filter_id_eq_nil (c := c) (f := f) fun d hd hid => hf ⟨d, hd, hid⟩
    rw [hnil] at hperm ⊢
    exact congrArg List.head? (List.perm_nil.1 hperm)

end Contract

/-! ## Call graphs -/

/-- Items that are met in another order are first seen in another order. -/
theorem firstSeen_perm {β : Type} [DecidableEq β] {items items' : List β}
    (h : items'.Perm items) : (firstSeen items').Perm (firstSeen items) :=
  (List.perm_ext_iff_of_nodup (nodup_firstSeen _) (nodup_firstSeen _)).2 fun b => by
    rw [mem_firstSeen, mem_firstSeen, h.mem_iff]

namespace CallGraph

variable {c : Contract} {declared : List Function} {n : Nat}

theorem functions_withFunctions (h : declared.Perm c.functions) :
    (ofContract (c.withFunctions declared)).functions.Perm (ofContract c).functions := by
  rw [(records_ofContract _).functions, (records_ofContract _).functions]
  exact firstSeen_perm ((Contract.mentions_withFunctions h).map Prod.fst)

/-- With functions in another order, a function has the new number of its position as its
position. -/
theorem position_of_reorder {g g' : CallGraph} (hg' : g'.Tidy) {p : Equiv.Perm (Fin n)}
    (hn : g.nodeCount = n) (hp : g'.functions = reorder p g.functions) {f : FunctionId}
    (hf : f ∈ g.functions) : g'.position f = renumber p (g.position f) := by
  have hf' : f ∈ g'.functions := by
    rw [hp]
    exact (reorder_perm p _).mem_iff.2 hf
  refine ((hg'.functions_eq_iff hf').1 ?_).symm
  rw [hp, getElem?_reorder p ((length_functions g).trans hn) (hn ▸ position_lt hf)]
  exact functions_position hf

theorem position?_of_reorder {g g' : CallGraph} (hg' : g'.Tidy) {p : Equiv.Perm (Fin n)}
    (hn : g.nodeCount = n) (hp : g'.functions = reorder p g.functions) (f : FunctionId) :
    g'.position? f = (g.position? f).map (renumber p) := by
  by_cases hf : f ∈ g.functions
  · have hf' : f ∈ g'.functions := by
      rw [hp]
      exact (reorder_perm p _).mem_iff.2 hf
    have hposition := position_of_reorder hg' hn hp hf
    obtain ⟨v, hv⟩ := Option.isSome_iff_exists.1 (isSome_position?.2 hf)
    obtain ⟨v', hv'⟩ := Option.isSome_iff_exists.1 (isSome_position?.2 hf')
    rw [(position_of_position? hv).2, (position_of_position? hv').2] at hposition
    rw [hv, hv', hposition, Option.map_some]
  · have hf' : f ∉ g'.functions := by
      rw [hp, (reorder_perm p _).mem_iff]
      exact hf
    rw [position?_eq_none.2 hf, position?_eq_none.2 hf', Option.map_none]

theorem edges_eq_map_position (c : Contract) :
    (ofContract c).edges
      = (firstSeen c.callPairs).map
          fun k => ((ofContract c).position k.1, (ofContract c).position k.2) :=
  (records_ofContract c).edges

/-- With functions in another order, the call graph has the same nodes and the same edges in another
order: `p` gives the nodes their new numbers, and `q` the calls their new places. -/
theorem exists_reorder (h : declared.Perm c.functions) (hn : (ofContract c).nodeCount = n)
    {m : Nat} (hm : (ofContract c).edgeCount = m) :
    ∃ (p : Equiv.Perm (Fin n)) (q : Equiv.Perm (Fin m)),
      (ofContract (c.withFunctions declared)).functions = reorder p (ofContract c).functions ∧
      firstSeen (c.withFunctions declared).callPairs = reorder q (firstSeen c.callPairs) ∧
      (ofContract (c.withFunctions declared)).edges
        = (reorder q (ofContract c).edges).map (renumberEdge p) := by
  have hcalls : (firstSeen c.callPairs).length = m := by
    rw [← hm, edgeCount, edges_eq_map_position, List.length_map]
  obtain ⟨p, hp⟩ := PonziScreen.exists_reorder (tidy_ofContract c).nodup
    (functions_withFunctions h) ((length_functions _).trans hn)
  obtain ⟨q, hq⟩ := PonziScreen.exists_reorder (nodup_firstSeen c.callPairs)
    (firstSeen_perm (Contract.callPairs_withFunctions h)) hcalls
  refine ⟨p, q, hp, hq, ?_⟩
  rw [edges_eq_map_position, edges_eq_map_position, hq, reorder_map, List.map_map]
  refine List.map_congr_left fun k hk => ?_
  have hentered := (records_ofContract c).entered k
    (mem_firstSeen.1 ((reorder_perm q _).mem_iff.1 hk))
  have htidy := tidy_ofContract (c.withFunctions declared)
  rw [position_of_reorder htidy hn hp hentered.1, position_of_reorder htidy hn hp hentered.2]
  rfl

end CallGraph

/-! ## Feature graphs -/

/-- A graph with its nodes numbered anew by `p`, and with its edges and the rows of their features
listed in the order that `q` gives. -/
def Graph.rearrange {α : Type} (g : Graph α) (p : Equiv.Perm (Fin g.nodeCount))
    (q : Equiv.Perm (Fin g.edgeCount)) : Graph α :=
  { g with
    features := g.features.reorderRows p
    edges := (reorder q g.edges).map (renumberEdge p)
    edgeFeatures := g.edgeFeatures.map (reorderRows q) }

namespace FeatureGraph

variable {α : Type} [Scalar α] {c : Contract} {declared : List Function}

/-- The features of a function. -/
def functionRow (c : Contract) (f : FunctionId) : List α :=
  [flag (decide (c.Transfers f)), flag ((c.functionWith? f).any Function.canSendEth),
    flag ((c.functionWith? f).any Function.isConstructorLike),
    scaled (usageCount (Facts.readTable c) f), scaled (usageCount (Facts.writeTable c) f),
    (c.functionWith? f).elim Scalar.zero fun d => scaled d.statements.length,
    scaled (c.callers f).card, scaled (c.callees f).card]

/-- The features of a call. -/
def callRow (c : Contract) (k : FunctionId × FunctionId) : List α :=
  [flag (decide (c.Transfers k.1)), flag (decide (c.Transfers k.2))]

/-- The rows of the feature graph are those of the functions in the call graph. -/
theorem rows_eq_map_functionRow (c : Contract) :
    (nodeMatrix c (Facts.ofContract c) : Matrix α).rows
      = (CallGraph.ofContract c).functions.map (functionRow c) := by
  have hlength : (nodeMatrix c (Facts.ofContract c) : Matrix α).rows.length
      = ((CallGraph.ofContract c).functions.map (functionRow (α := α) c)).length := by
    simp [nodeMatrix, CallGraph.functions, Facts.ofContract]
  refine List.ext_getElem hlength fun v hv hv' => ?_
  rw [List.length_map] at hv'
  have hposition : (CallGraph.ofContract c).position? (CallGraph.ofContract c).functions[v]
      = some v := by
    rw [(CallGraph.tidy_ofContract c).position?_eq_some, ← List.getElem?_map]
    exact List.getElem?_eq_getElem hv'
  have hrow := rows_nodeMatrix (α := α) hposition
  rw [List.getElem?_eq_getElem hv, Option.some.injEq] at hrow
  rw [hrow, List.getElem_map]
  rfl

/-- The rows of edge features are those of the calls. -/
theorem rows_eq_map_callRow (c : Contract) :
    (edgeMatrix (Facts.ofContract c) : Matrix α).rows
      = (firstSeen c.callPairs).map (callRow c) := by
  show (CallGraph.ofContract c).edges.map (edgeRow (Facts.ofContract c)) = _
  rw [CallGraph.edges_eq_map_position, List.map_map]
  refine List.map_congr_left fun k hk => ?_
  have hentered := (CallGraph.records_ofContract c).entered k (mem_firstSeen.1 hk)
  have hsends : ∀ f ∈ (CallGraph.ofContract c).functions,
      sendsAt (Facts.ofContract c) ((CallGraph.ofContract c).position f)
        = decide (c.Transfers f) := by
    intro f hf
    refine sendsAt_eq ?_
    rw [(CallGraph.tidy_ofContract c).position?_eq_some, ← List.getElem?_map]
    exact CallGraph.functions_position hf
  show [flag _, flag _] = _
  rw [hsends k.1 hentered.1, hsends k.2 hentered.2]
  rfl

theorem usageCount_withFunctions (h : declared.Perm c.functions) (used : Function → List String)
    (p : Function → Bool) (f : FunctionId) :
    usageCount (Facts.usageTable used (declared.filter p)) f
      = usageCount (Facts.usageTable used (c.functions.filter p)) f := by
  rw [usageCount_usageTable, usageCount_usageTable]
  exact (((h.filter _).filter _).map _).sum_eq

/-- The features of a function do not depend on where functions are declared. -/
theorem functionRow_withFunctions (h : declared.Perm c.functions)
    (hids : (c.functions.map Function.id).Nodup) (f : FunctionId) :
    (functionRow (c.withFunctions declared) f : List α) = functionRow c f := by
  have hreads : usageCount (Facts.readTable (c.withFunctions declared)) f
      = usageCount (Facts.readTable c) f := usageCount_withFunctions h _ _ f
  have hwrites : usageCount (Facts.writeTable (c.withFunctions declared)) f
      = usageCount (Facts.writeTable c) f := usageCount_withFunctions h _ _ f
  unfold functionRow
  simp only [Contract.transfers_withFunctions h, Contract.functionWith?_withFunctions h hids,
    hreads, hwrites, Contract.callers_withFunctions h, Contract.callees_withFunctions h]

theorem callRow_withFunctions (h : declared.Perm c.functions) (k : FunctionId × FunctionId) :
    (callRow (c.withFunctions declared) k : List α) = callRow c k := by
  unfold callRow
  simp only [Contract.transfers_withFunctions h]

/-- The feature graph does not depend on the order in which the functions of a contract are
declared, but for the numbers of its nodes, which go with the functions, and for the order of its
edges. -/
theorem ofTarget_withFunctions (hids : (c.functions.map Function.id).Nodup)
    (h : declared.Perm c.functions) :
    let g : Graph α := ofTarget (Target.ofContract c)
    let g' : Graph α := ofTarget (Target.ofContract (c.withFunctions declared))
    ∃ (p : Equiv.Perm (Fin g.nodeCount)) (q : Equiv.Perm (Fin g.edgeCount)),
      (∀ f, (Facts.ofContract (c.withFunctions declared)).calls.position? f
        = ((Facts.ofContract c).calls.position? f).map (renumber p)) ∧
      g' = g.rearrange p q := by
  intro g g'
  have hn : (CallGraph.ofContract c).nodeCount = g.nodeCount := by
    show _ = (nodeMatrix c (Facts.ofContract c) : Matrix α).rows.length
    rw [rows_eq_map_functionRow, List.length_map, CallGraph.length_functions]
  obtain ⟨p, q, hp, hq, hedges⟩ := CallGraph.exists_reorder h hn rfl
  have hfeatures : g'.features = g.features.reorderRows p := by
    refine eq_of_rows rfl ?_
    calc (nodeMatrix (c.withFunctions declared) (Facts.ofContract _)).rows
        = (reorder p (CallGraph.ofContract c).functions).map
            (functionRow (c.withFunctions declared)) := by
          rw [rows_eq_map_functionRow, hp]
      _ = (reorder p (CallGraph.ofContract c).functions).map (functionRow c) :=
          List.map_congr_left fun f _ => functionRow_withFunctions h hids f
      _ = reorder p (nodeMatrix c (Facts.ofContract c)).rows := by
          rw [rows_eq_map_functionRow, reorder_map]
  have hcalls : (edgeMatrix (Facts.ofContract (c.withFunctions declared)) : Matrix α)
      = (edgeMatrix (Facts.ofContract c)).reorderRows q := by
    refine eq_of_rows rfl ?_
    calc (edgeMatrix (Facts.ofContract (c.withFunctions declared))).rows
        = (reorder q (firstSeen c.callPairs)).map (callRow (c.withFunctions declared)) := by
          rw [rows_eq_map_callRow, hq]
      _ = (reorder q (firstSeen c.callPairs)).map (callRow c) :=
          List.map_congr_left fun k _ => callRow_withFunctions h k
      _ = reorder q (edgeMatrix (Facts.ofContract c)).rows := by
          rw [rows_eq_map_callRow, reorder_map]
  have hedgeFeatures : g'.edgeFeatures = g.edgeFeatures.map (reorderRows q) := congrArg some hcalls
  refine ⟨p, q, CallGraph.position?_of_reorder (CallGraph.tidy_ofContract _) hn hp, ?_⟩
  show Graph.mk g'.features g'.edges g'.edgeFeatures none = g.rearrange p q
  rw [hfeatures, hedgeFeatures, show g'.edges = _ from hedges]
  rfl

/-- Two functions change places. The one that is now declared first comes up first, and so does its
call of a function that is not declared. -/
theorem ofTarget_withFunctions_payout :
    ∃ (c : Contract) (declared : List Function), (c.functions.map Function.id).Nodup ∧
      declared.Perm c.functions ∧
      (CallGraph.ofContract c).functions = [⟨1⟩, ⟨2⟩, ⟨3⟩] ∧
      (CallGraph.ofContract (c.withFunctions declared)).functions = [⟨2⟩, ⟨3⟩, ⟨1⟩] ∧
      let g : Graph ℝ := ofTarget (Target.ofContract c)
      let g' : Graph ℝ := ofTarget (Target.ofContract (c.withFunctions declared))
      ∃ (p : Equiv.Perm (Fin g.nodeCount)) (q : Equiv.Perm (Fin g.edgeCount)),
        (∀ f, (Facts.ofContract (c.withFunctions declared)).calls.position? f
          = ((Facts.ofContract c).calls.position? f).map (renumber p)) ∧
        g' = g.rearrange p q := by
  let invest : Function := ⟨⟨1⟩, "invest", false, false, true,
    [⟨some "investors.push(msg.sender)", [], ["investors"]⟩],
    [.function ⟨2⟩ "payout", .function ⟨1⟩ "invest"]⟩
  let payout : Function := ⟨⟨2⟩, "payout", false, false, true,
    [⟨some "to.transfer(share)", ["investors"], ["paid"]⟩], [.function ⟨3⟩ "log"]⟩
  let c : Contract := ⟨"Chain", [], [], [invest, payout]⟩
  have hids : (c.functions.map Function.id).Nodup := by decide
  have h : [payout, invest].Perm c.functions := List.Perm.swap _ _ _
  exact ⟨c, [payout, invest], hids, h, by decide, by decide, ofTarget_withFunctions hids h⟩

end FeatureGraph

end PonziScreen
