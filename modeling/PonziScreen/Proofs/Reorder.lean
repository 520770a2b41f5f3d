import Mathlib.Data.List.FinRange
import PonziScreen.Proofs.Matrix

/-!
# Other orders

A permutation of the positions of a list gives the list in another order (`reorder`), and a
permutation of the nodes of a graph gives the nodes new numbers (`renumber`). Operations that work
item by item do not care about the order, so reordering can be moved past them.
-/

namespace PonziScreen

variable {α β γ : Type} {n : Nat}

/-! ## Numbers -/

/-- The new number of a node. Numbers from `n` on stay as they are. -/
def renumber (p : Equiv.Perm (Fin n)) (i : Nat) : Nat := if h : i < n then p ⟨i, h⟩ else i

theorem renumber_of_lt (p : Equiv.Perm (Fin n)) {i : Nat} (h : i < n) : renumber p i = p ⟨i, h⟩ :=
  dif_pos h

theorem renumber_lt (p : Equiv.Perm (Fin n)) {i : Nat} (h : i < n) : renumber p i < n := by
  rw [renumber_of_lt p h]
  exact (p ⟨i, h⟩).isLt

theorem renumber_symm (p : Equiv.Perm (Fin n)) (i : Nat) : renumber p.symm (renumber p i) = i := by
  by_cases h : i < n
  · rw [renumber_of_lt _ (renumber_lt p h)]
    simp [renumber_of_lt p h]
  · simp [renumber, h]

theorem renumber_injective (p : Equiv.Perm (Fin n)) : Function.Injective (renumber p) :=
  Function.LeftInverse.injective (renumber_symm p)

/-! ## Lists -/

/-- A list of `n` items in another order: the item at position `i` goes to position `p i`. Lists of
other lengths stay as they are. -/
def reorder (p : Equiv.Perm (Fin n)) (items : List β) : List β :=
  if h : items.length = n then List.ofFn fun i => items.get ((p.symm i).cast h.symm) else items

variable (p : Equiv.Perm (Fin n))

theorem reorder_perm (items : List β) : (reorder p items).Perm items := by
  unfold reorder
  split
  · rename_i h
    subst h
    have hperm := Equiv.Perm.ofFn_comp_perm p.symm items.get
    rwa [List.ofFn_get] at hperm
  · exact List.Perm.refl items

theorem length_reorder (items : List β) : (reorder p items).length = items.length :=
  (reorder_perm p items).length_eq

theorem reorder_map (f : β → γ) (items : List β) :
    reorder p (items.map f) = (reorder p items).map f := by
  unfold reorder
  by_cases h : items.length = n
  · simp [h, List.map_ofFn, Function.comp_def]
  · simp [h]

theorem reorder_zip {xs : List β} {ys : List γ} (h : xs.length = ys.length) :
    reorder p (xs.zip ys) = (reorder p xs).zip (reorder p ys) := by
  have hx : xs = (xs.zip ys).map Prod.fst := (List.map_fst_zip h.le).symm
  have hy : ys = (xs.zip ys).map Prod.snd := (List.map_snd_zip h.ge).symm
  have hleft : reorder p xs = (reorder p (xs.zip ys)).map Prod.fst := by
    rw [← reorder_map, ← hx]
  have hright : reorder p ys = (reorder p (xs.zip ys)).map Prod.snd := by
    rw [← reorder_map, ← hy]
  rw [hleft, hright, List.zip_map', List.map_id'']
  intro q
  rfl

/-- The item at a new position is the one from the old position. -/
theorem reorder_map_range (f : Nat → β) :
    reorder p ((List.range n).map f) = (List.range n).map fun i => f (renumber p.symm i) := by
  apply List.ext_getElem
  · simp [length_reorder]
  · intro i h₁ h₂
    have hi : i < n := by simpa using h₂
    simp [reorder, renumber_of_lt p.symm hi]

/-! ## Matrices -/

namespace Matrix

/-- A matrix of `n` rows with its rows in another order. Matrices of other heights stay as they
are. -/
def reorderRows (m : Matrix α) : Matrix α where
  width := m.width
  rows := reorder p m.rows
  uniform := fun r hr => m.uniform r ((reorder_perm p m.rows).mem_iff.1 hr)

theorem width_reorderRows (m : Matrix α) : (m.reorderRows p).width = m.width := rfl

theorem height_reorderRows (m : Matrix α) : (m.reorderRows p).height = m.height :=
  length_reorder p m.rows

theorem mapRows_reorderRows (m : Matrix α) (width : Nat) (f : List α → List β)
    (hf : ∀ r, r.length = m.width → (f r).length = width) :
    (m.reorderRows p).mapRows width f hf = (m.mapRows width f hf).reorderRows p :=
  eq_of_rows rfl (reorder_map p f m.rows).symm

end Matrix

end PonziScreen
