import Mathlib.Data.List.Nodup
import Mathlib.Logic.Relation
import PonziScreen.CallGraph.Component

/-!
# Depth-first search

What `CallGraph.walk` leaves. The search keeps a list of steps still to be done, the nodes that it
has seen and those that it has left. `Searching` is the invariant: seen are exactly the nodes that
have been left or still have to be, each of them once, and a callee of a seen node has been seen or
will be entered.

When nothing is left to be done, the seen nodes are the left ones, and they are closed under calls.
Together with the fact that the search only goes where calls lead, this gives

* `mem_reached` — a search from a node leaves exactly the nodes that it reaches
* `leaveOrder_perm` — a search from all nodes leaves every node once
-/

namespace PonziScreen.CallGraph

/-! ## Calls -/

/-- A node calls another one. -/
def Calls (g : CallGraph) (v w : Nat) : Prop := (v, w) ∈ g.edges

/-- A node reaches another one over zero or more calls. -/
def Reaches (g : CallGraph) : Nat → Nat → Prop := Relation.ReflTransGen g.Calls

/-- All calls are between nodes. -/
def Closed (g : CallGraph) : Prop := ∀ e ∈ g.edges, e.1 < g.nodeCount ∧ e.2 < g.nodeCount

variable {g : CallGraph}

theorem mem_successors {v w : Nat} : w ∈ g.successors v ↔ g.Calls v w := by
  unfold successors Calls
  rw [List.mem_reverse, List.mem_map]
  constructor
  · rintro ⟨⟨a, b⟩, he, rfl⟩
    have ha : a = v := by simpa using (List.mem_filter.1 he).2
    exact ha ▸ (List.mem_filter.1 he).1
  · intro h
    exact ⟨(v, w), List.mem_filter.2 ⟨h, by simp⟩, rfl⟩

/-- From a node only nodes are reached. -/
theorem Closed.lt_of_reaches (hg : g.Closed) {v w : Nat} (hv : v < g.nodeCount)
    (h : g.Reaches v w) : w < g.nodeCount := by
  induction h with
  | refl => exact hv
  | tail _ hcall _ => exact (hg _ hcall).2

/-! ## The invariant -/

/-- The node that a step leaves, if it leaves one. -/
def Visit.left? : Visit → Option Nat
  | .enter _ => none
  | .leave v => some v

/-- The nodes that are still to be left. -/
def pending (todo : List Visit) : List Nat := todo.filterMap Visit.left?

theorem pending_map_enter (nodes : List Nat) (todo : List Visit) :
    pending (nodes.map .enter ++ todo) = pending todo := by
  induction nodes with
  | nil => rfl
  | cons v rest ih => exact ih

/-- The state of a search. -/
structure Searching (g : CallGraph) (todo : List Visit) (seen left : List Nat) : Prop where
  nodup : (left ++ pending todo).Nodup
  mem_seen : ∀ v, v ∈ seen ↔ v ∈ left ++ pending todo
  lt : ∀ v ∈ seen, v < g.nodeCount
  closed : ∀ v ∈ seen, ∀ w, g.Calls v w → w ∈ seen ∨ .enter w ∈ todo

/-- A search that starts has seen nothing. -/
theorem searching_start (g : CallGraph) (nodes : List Nat) :
    Searching g (nodes.map .enter) [] [] := by
  have hpending : pending (nodes.map .enter) = [] := by
    simpa [pending] using pending_map_enter nodes []
  refine ⟨?_, ?_, ?_, ?_⟩
  · simp [hpending]
  · simp [hpending]
  · simp
  · simp

theorem Searching.leave {v : Nat} {todo : List Visit} {seen left : List Nat}
    (h : Searching g (.leave v :: todo) seen left) : Searching g todo seen (left ++ [v]) := by
  have hsplit : left ++ pending (.leave v :: todo) = left ++ [v] ++ pending todo := by
    simp [pending, Visit.left?]
  refine ⟨hsplit ▸ h.nodup, fun u => hsplit ▸ h.mem_seen u, h.lt, ?_⟩
  intro u hu w hw
  rcases h.closed u hu w hw with hs | ht
  · exact Or.inl hs
  · exact Or.inr (by simpa using ht)

/-- A node that has been seen, or that is no node, is not entered. -/
theorem Searching.skip (hg : g.Closed) {v : Nat} {todo : List Visit} {seen left : List Nat}
    (h : Searching g (.enter v :: todo) seen left) (hv : ¬ (v < g.nodeCount ∧ v ∉ seen)) :
    Searching g todo seen left := by
  refine ⟨h.nodup, h.mem_seen, h.lt, ?_⟩
  intro u hu w hw
  rcases h.closed u hu w hw with hs | ht
  · exact Or.inl hs
  · rcases List.mem_cons.1 ht with heq | ht
    · obtain rfl : w = v := by simpa using heq
      exact Or.inl (not_not.1 fun hs => hv ⟨(hg _ hw).2, hs⟩)
    · exact Or.inr ht

theorem Searching.enter {v : Nat} {todo : List Visit} {seen left : List Nat}
    (h : Searching g (.enter v :: todo) seen left) (hv : v < g.nodeCount) (hs : v ∉ seen) :
    Searching g ((g.successors v).map .enter ++ .leave v :: todo) (v :: seen) left := by
  have hpending :
      pending ((g.successors v).map .enter ++ .leave v :: todo) = v :: pending todo := by
    rw [pending_map_enter]
    rfl
  have hold : ∀ u, u ∈ seen ↔ u ∈ left ++ pending todo := h.mem_seen
  refine ⟨?_, ?_, ?_, ?_⟩
  · rw [hpending, List.nodup_middle, List.nodup_cons]
    exact ⟨fun hmem => hs ((hold v).2 hmem), h.nodup⟩
  · intro u
    rw [hpending, List.mem_cons, hold]
    simp only [List.mem_append, List.mem_cons]
    exact or_left_comm
  · intro u hu
    rcases List.mem_cons.1 hu with rfl | hu
    · exact hv
    · exact h.lt u hu
  · intro u hu w hw
    rcases List.mem_cons.1 hu with rfl | hu
    · exact Or.inr (List.mem_append_left _ (List.mem_map_of_mem (mem_successors.2 hw)))
    · rcases h.closed u hu w hw with hold | ht
      · exact Or.inl (List.mem_cons_of_mem _ hold)
      · rcases List.mem_cons.1 ht with heq | ht
        · obtain rfl : w = v := by simpa using heq
          exact Or.inl List.mem_cons_self
        · exact Or.inr (List.mem_append_right _ (List.mem_cons_of_mem _ ht))

/-! ## A whole search -/

/-- What a search leaves: each node once, all that it has seen or still has to enter, and with each
node all that the node calls. -/
structure Searched (g : CallGraph) (todo : List Visit) (seen result : List Nat) : Prop where
  nodup : result.Nodup
  lt : ∀ v ∈ result, v < g.nodeCount
  seen : ∀ v ∈ seen, v ∈ result
  entered : ∀ v, .enter v ∈ todo → v < g.nodeCount → v ∈ result
  closed : ∀ v ∈ result, ∀ w, g.Calls v w → w ∈ result

theorem Searching.walk (hg : g.Closed) {todo : List Visit} {seen left : List Nat}
    (h : Searching g todo seen left) : Searched g todo seen (g.walk todo seen left) := by
  fun_induction g.walk todo seen left with
  | case1 seen left =>
    -- nothing is left to be done
    have hsame : ∀ v, v ∈ seen ↔ v ∈ left := by simpa [pending] using h.mem_seen
    refine ⟨by simpa [pending] using h.nodup, fun v hv => h.lt v ((hsame v).2 hv),
      fun v hv => (hsame v).1 hv, by simp, ?_⟩
    intro v hv w hw
    rcases h.closed v ((hsame v).2 hv) w hw with hs | ht
    · exact (hsame w).1 hs
    · simp at ht
  | case2 seen left v todo ih =>
    -- a node is left
    have hrest := ih h.leave
    exact ⟨hrest.nodup, hrest.lt, hrest.seen, fun u hu => hrest.entered u (by simpa using hu),
      hrest.closed⟩
  | case3 seen left v todo hv ih =>
    -- a node is entered for the first time
    have hrest := ih (h.enter hv.1 hv.2)
    refine ⟨hrest.nodup, hrest.lt, fun u hu => hrest.seen u (List.mem_cons_of_mem _ hu), ?_,
      hrest.closed⟩
    intro u hu hun
    rcases List.mem_cons.1 hu with heq | hu
    · obtain rfl : u = v := by simpa using heq
      exact hrest.seen u List.mem_cons_self
    · exact hrest.entered u (List.mem_append_right _ (List.mem_cons_of_mem _ hu)) hun
  | case4 seen left v todo hv ih =>
    -- a node has been seen before
    have hrest := ih (h.skip hg hv)
    refine ⟨hrest.nodup, hrest.lt, hrest.seen, ?_, hrest.closed⟩
    intro u hu hun
    rcases List.mem_cons.1 hu with heq | hu
    · obtain rfl : u = v := by simpa using heq
      exact hrest.seen u (not_not.1 fun hs => hv ⟨hun, hs⟩)
    · exact hrest.entered u hu hun

/-- A search goes only where calls lead. -/
theorem reaches_of_mem_walk {todo : List Visit} {seen left : List Nat} {w : Nat}
    (h : w ∈ g.walk todo seen left) :
    w ∈ left ∨ .leave w ∈ todo ∨ ∃ v, .enter v ∈ todo ∧ g.Reaches v w := by
  fun_induction g.walk todo seen left with
  | case1 seen left => exact Or.inl h
  | case2 seen left v todo ih =>
    rcases ih h with hl | ht | ⟨u, hu, hreach⟩
    · rcases List.mem_append.1 hl with hl | hl
      · exact Or.inl hl
      · exact Or.inr (Or.inl (by simp_all))
    · exact Or.inr (Or.inl (List.mem_cons_of_mem _ ht))
    · exact Or.inr (Or.inr ⟨u, List.mem_cons_of_mem _ hu, hreach⟩)
  | case3 seen left v todo hv ih =>
    rcases ih h with hl | ht | ⟨u, hu, hreach⟩
    · exact Or.inl hl
    · -- only `v` itself is left anew
      rcases List.mem_append.1 ht with ht | ht
      · simp at ht
      · rcases List.mem_cons.1 ht with heq | ht
        · obtain rfl : w = v := by simpa using heq
          exact Or.inr (Or.inr ⟨w, List.mem_cons_self, Relation.ReflTransGen.refl⟩)
        · exact Or.inr (Or.inl (List.mem_cons_of_mem _ ht))
    · -- what is entered anew is called by `v`
      rcases List.mem_append.1 hu with hu | hu
      · obtain ⟨s, hs, heq⟩ := List.mem_map.1 hu
        obtain rfl : s = u := by simpa using heq
        exact Or.inr (Or.inr ⟨v, List.mem_cons_self, hreach.head (mem_successors.1 hs)⟩)
      · refine Or.inr (Or.inr ⟨u, List.mem_cons_of_mem _ ?_, hreach⟩)
        simpa using hu
  | case4 seen left v todo hv ih =>
    rcases ih h with hl | ht | ⟨u, hu, hreach⟩
    · exact Or.inl hl
    · exact Or.inr (Or.inl (List.mem_cons_of_mem _ ht))
    · exact Or.inr (Or.inr ⟨u, List.mem_cons_of_mem _ hu, hreach⟩)

/-! ## Searches from one node and from all nodes -/

/-- A search from a node leaves exactly the nodes that it reaches. -/
theorem mem_reached (hg : g.Closed) {v w : Nat} (hv : v < g.nodeCount) :
    w ∈ g.reached v ↔ g.Reaches v w := by
  have hsearched := (searching_start g [v]).walk hg
  constructor
  · intro h
    rcases reaches_of_mem_walk h with hl | ht | ⟨u, hu, hreach⟩
    · simp at hl
    · simp at ht
    · obtain rfl : u = v := by simpa using hu
      exact hreach
  · intro h
    induction h with
    | refl => exact hsearched.entered v (by simp) hv
    | tail _ hcall ih => exact hsearched.closed _ ih _ hcall

theorem nodup_reached (hg : g.Closed) (v : Nat) : (g.reached v).Nodup :=
  ((searching_start g [v]).walk hg).nodup

/-- A search from all nodes leaves every node once. -/
theorem leaveOrder_perm (hg : g.Closed) : g.leaveOrder.Perm (List.range g.nodeCount) := by
  have hsearched := (searching_start g (List.range g.nodeCount)).walk hg
  refine (List.perm_ext_iff_of_nodup hsearched.nodup List.nodup_range).2 fun v => ?_
  rw [List.mem_range]
  constructor
  · exact hsearched.lt v
  · intro hv
    exact hsearched.entered v (List.mem_map_of_mem (List.mem_range.2 hv)) hv

end PonziScreen.CallGraph
