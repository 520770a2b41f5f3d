import Mathlib.Analysis.SpecialFunctions.Log.Basic
import Mathlib.Analysis.SpecialFunctions.Sqrt
import PonziScreen.Proofs.OrderFree

/-!
# Exact arithmetic

The real numbers as scalars: nothing is rounded, and every value is a finite number. Two operations
have no exact counterpart. The decimal notation is cut off after six digits, and the maximum of no
numbers is taken to be zero, since no real number is below all others.
-/

namespace PonziScreen

open Classical in
/-- The real numbers. -/
noncomputable instance : Scalar ℝ where
  ofNat n := n
  mulAdd x y z := x * y + z
  exp := Real.exp
  ln := Real.log
  ln1p x := Real.log (1 + x)
  tanh := Real.tanh
  sqrt := Real.sqrt
  lt x y := decide (x < y)
  le x y := decide (x ≤ y)
  isNumber _ := true
  isFinite _ := true
  lowest := 0
  toByte x := UInt8.ofNat (min ⌊x⌋₊ 255)
  text x := toString ⌊x * 1000000⌋ ++ "e-6"

theorem Scalar.max_real (x y : ℝ) : Scalar.max x y = x ⊔ y := by
  unfold Scalar.max
  by_cases h : x < y
  · simp [Scalar.lt, h, max_eq_right h.le]
  · simp [Scalar.lt, h, max_eq_left (not_lt.1 h)]

theorem Scalar.min_real (x y : ℝ) : Scalar.min x y = x ⊓ y := by
  unfold Scalar.min
  by_cases h : y < x
  · simp [Scalar.lt, h, min_eq_right h.le]
  · simp [Scalar.lt, h, min_eq_left (not_lt.1 h)]

theorem Scalar.clamp_real {low high : ℝ} (h : low ≤ high) (x : ℝ) :
    Scalar.clamp low high x = low ⊔ (high ⊓ x) := by
  unfold Scalar.clamp
  by_cases hlow : x < low
  · simp [Scalar.lt, hlow, min_eq_right (hlow.le.trans h), max_eq_left hlow.le]
  · by_cases hhigh : high < x
    · simp [Scalar.lt, hlow, hhigh, min_eq_left hhigh.le, max_eq_right h]
    · simp [Scalar.lt, hlow, hhigh, min_eq_right (not_lt.1 hhigh), max_eq_right (not_lt.1 hlow)]

instance : Scalar.OrderFree ℝ where
  add_comm := add_comm
  add_assoc := add_assoc
  max_comm x y := by rw [Scalar.max_real, Scalar.max_real, max_comm]
  max_assoc x y z := by simp only [Scalar.max_real, max_assoc]

@[simp]
theorem Scalar.zero_real : (Scalar.zero : ℝ) = 0 := Nat.cast_zero

@[simp]
theorem Scalar.one_real : (Scalar.one : ℝ) = 1 := Nat.cast_one

@[simp]
theorem Scalar.ratio_real (num den : Nat) : (Scalar.ratio num den : ℝ) = num / den := rfl

@[simp]
theorem Scalar.sum_real (xs : List ℝ) : Scalar.sum xs = xs.sum := by
  rw [Scalar.sum, Scalar.zero_real, List.sum_eq_foldl]

/-- The initial settings are valid in exact arithmetic. -/
theorem Config.fault?_initial_real : (Config.initial : Config ℝ).fault? = none := by
  have hratio : (Scalar.ratio 1 10 : ℝ) = 1 / 10 := by
    rw [Scalar.ratio_real, Nat.cast_one, Nat.cast_ofNat]
  rw [Config.fault?_eq_none]
  refine ⟨by decide, by decide, rfl, ⟨?_, ?_⟩, by decide, by decide⟩
  · show decide ((Scalar.zero : ℝ) ≤ Scalar.ratio 1 10) = true
    rw [Scalar.zero_real, hratio, decide_eq_true (by norm_num)]
  · show decide ((Scalar.ratio 1 10 : ℝ) < Scalar.one) = true
    rw [Scalar.one_real, hratio, decide_eq_true (by norm_num)]

end PonziScreen
