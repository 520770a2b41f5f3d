import PonziScreen.Proofs.Locality

/-!
# Sums and maxima in any order

In exact arithmetic the order in which numbers are added or compared does not matter.
`Scalar.OrderFree` asks for nothing else: addition and maximum are commutative and associative. All
other operations stay fixed functions.

Then every group of rows may come in any order, in sums, in maxima, in a softmax and in the
statistics of a batch normalisation, and every layer tolerates that messages arrive in another order
(`Layer.tolerates_perm`).
-/

namespace PonziScreen

/-- Scalars whose sums and maxima do not depend on the order. -/
class Scalar.OrderFree (α : Type) [Scalar α] : Prop where
  add_comm : ∀ x y : α, x + y = y + x
  add_assoc : ∀ x y z : α, x + y + z = x + (y + z)
  max_comm : ∀ x y : α, Scalar.max x y = Scalar.max y x
  max_assoc : ∀ x y z : α, Scalar.max (Scalar.max x y) z = Scalar.max x (Scalar.max y z)

variable {α : Type} [Scalar α] [Scalar.OrderFree α]

namespace Scalar

theorem add_right_comm (x y z : α) : x + y + z = x + z + y := by
  rw [OrderFree.add_assoc, OrderFree.add_comm y z, OrderFree.add_assoc]

theorem max_right_comm (x y z : α) : max (max x y) z = max (max x z) y := by
  rw [OrderFree.max_assoc, OrderFree.max_comm y z, OrderFree.max_assoc]

theorem sum_perm {xs ys : List α} (h : xs.Perm ys) : sum xs = sum ys :=
  h.foldl_eq' (fun x _ y _ z => add_right_comm z x y) zero

/-- The maximum of a list that is not empty does not depend on which number comes first. -/
theorem foldl_max_perm {x y : α} {xs ys : List α} (h : (x :: xs).Perm (y :: ys)) :
    xs.foldl max x = ys.foldl max y := by
  by_cases hxy : x = y
  · subst hxy
    exact (List.perm_cons x |>.1 h).foldl_eq' (fun x _ y _ z => max_right_comm z x y) x
  · -- each list holds the first number of the other one
    have hy : y ∈ xs := (List.mem_cons.1 (h.mem_iff.2 List.mem_cons_self)).resolve_left
      fun he => hxy he.symm
    obtain ⟨before, after, hsplit⟩ := List.append_of_mem hy
    let zs := before ++ after
    have hzs : xs.Perm (y :: zs) := hsplit ▸ List.perm_middle
    have hys : ys.Perm (x :: zs) := by
      have hcons := h.symm.trans ((hzs.cons x).trans (List.Perm.swap y x zs))
      exact List.perm_cons y |>.1 hcons
    rw [hzs.foldl_eq' (fun x _ y _ z => max_right_comm z x y) x,
      hys.foldl_eq' (fun x _ y _ z => max_right_comm z x y) y, List.foldl_cons, List.foldl_cons,
      OrderFree.max_comm x y]

theorem maximum_perm {xs ys : List α} (h : xs.Perm ys) : maximum xs = maximum ys := by
  have hnumbers := h.filter isNumber
  unfold maximum
  cases hx : xs.filter isNumber with
  | nil =>
    rw [hx] at hnumbers
    rw [hnumbers.nil_eq.symm]
  | cons x xs' =>
    cases hy : ys.filter isNumber with
    | nil =>
      rw [hx, hy] at hnumbers
      exact absurd hnumbers.eq_nil (List.cons_ne_nil x xs')
    | cons y ys' =>
      rw [hx, hy] at hnumbers
      exact foldl_max_perm hnumbers

end Scalar

namespace Matrix

/-! ## Rows -/

theorem zipWith_add_right_comm (xs ys zs : List α) :
    List.zipWith (· + ·) (List.zipWith (· + ·) xs ys) zs
      = List.zipWith (· + ·) (List.zipWith (· + ·) xs zs) ys := by
  induction xs generalizing ys zs with
  | nil => simp
  | cons x xs ih =>
    cases ys with
    | nil => cases zs <;> simp
    | cons y ys =>
      cases zs with
      | nil => simp
      | cons z zs =>
        rw [List.zipWith_cons_cons, List.zipWith_cons_cons, List.zipWith_cons_cons,
          List.zipWith_cons_cons, ih, Scalar.add_right_comm]

theorem sumRows_perm (width : Nat) {rows rows' : List (List α)} (h : rows.Perm rows') :
    sumRows width rows = sumRows width rows' :=
  h.foldl_eq' (fun x _ y _ z => zipWith_add_right_comm z x y) _

theorem maxRow_perm (width : Nat) {rows rows' : List (List α)} (h : rows.Perm rows') :
    maxRow width rows = maxRow width rows' := by
  have hempty : rows.isEmpty = rows'.isEmpty := by
    rw [Bool.eq_iff_iff, List.isEmpty_iff, List.isEmpty_iff]
    exact ⟨fun he => (he ▸ h).nil_eq.symm, fun he => (he ▸ h).eq_nil⟩
  unfold maxRow
  rw [hempty]
  split
  · rfl
  · exact List.map_congr_left fun j _ => Scalar.maximum_perm (h.filterMap _)

end Matrix

open PonziScreen.Matrix

/-! ## Layers -/

namespace Attention

theorem mix_perm (layer : Attention α) (target : List α) {sources sources' : List (List α)}
    (h : sources.Perm sources') : layer.mix target sources = layer.mix target sources' := by
  have htop : Scalar.maximum (sources.map fun s => layer.scoreOf s target)
      = Scalar.maximum (sources'.map fun s => layer.scoreOf s target) :=
    Scalar.maximum_perm (h.map _)
  unfold mix
  simp only [htop]
  rw [Scalar.sum_perm (h.map _)]
  exact sumRows_perm layer.channels (h.map _)

omit [Scalar α] [Scalar.OrderFree α] in
theorem attended_perm (own : List α) {received received' : List (Arrival α)}
    (h : received.Perm received') : (attended own received).Perm (attended own received') :=
  ((h.filter _).map _).append_right [own]

end Attention

/-- It does not matter in which order messages arrive. -/
theorem Layer.tolerates_perm (l : Layer α) : l.Tolerates List.Perm := by
  cases l with
  | edgeGated l =>
    intro own a a' h
    unfold EdgeGated.residualRow
    rw [sumRows_perm l.channels (h.map _)]
  | graphConv l =>
    intro own a a' h
    unfold GraphConv.nodeRow
    rw [sumRows_perm l.channels (h.map _)]
  | attention l =>
    intro own a a' h
    unfold Attention.nodeRow
    rw [Attention.mix_perm l _ ((Attention.attended_perm own h).map _)]
  | gatedGraph l =>
    intro weight own a a' h
    unfold GatedGraph.stepRow
    rw [sumRows_perm l.cell.size (h.map _)]

/-! ## Statistics -/

namespace NormChannel

theorem mean_perm {column column' : List α} (h : column.Perm column') :
    mean column = mean column' := by
  unfold mean
  rw [Scalar.sum_perm h, h.length_eq]

theorem variance_perm {column column' : List α} (h : column.Perm column') :
    variance column = variance column' := by
  unfold variance
  rw [mean_perm h]
  exact mean_perm (h.map _)

theorem observe_perm (c : NormChannel α) {column column' : List α} (h : column.Perm column') :
    c.observe column = c.observe column' := by
  unfold observe
  rw [mean_perm h, variance_perm h, h.length_eq]

end NormChannel

end PonziScreen
