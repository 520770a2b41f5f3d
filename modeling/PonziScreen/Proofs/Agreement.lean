import Mathlib.Algebra.BigOperators.Ring.List
import PonziScreen.Proofs.Votes

/-!
# The confidence as a measure of agreement

In exact arithmetic the confidence of an ensemble is one, less a fiftieth for each point of the
standard deviation of the scores, and it is cut off at zero.

The cut never acts on scores up to 100. For numbers from `low` to `high` with the mean `m`, the
variance and the mean of `(high - x) * (x - low)` add up to `(high - m) * (m - low)`
(`Ensemble.variance_add_mean`). The latter is at most 50² for scores, and only if the mean is 50;
the former is zero only if every score stands at one of the ends. So the variance reaches 50²
exactly if half of the scores are 0 and the other half are 100.

* `Ensemble.confidence_eq` — the confidence by the deviation, which is the only thing that is cut
* `Ensemble.confidence_agreement` — what the confidence says about scores
-/

namespace PonziScreen

namespace Ensemble

/-! ## Mean and deviation -/

/-- The mean of some numbers. -/
noncomputable def mean (xs : List ℝ) : ℝ := xs.sum / xs.length

/-- The mean of the squared distances from the mean. -/
noncomputable def variance (xs : List ℝ) : ℝ := mean (xs.map fun x => (x - mean xs) ^ 2)

/-- The standard deviation of some numbers, which are the whole population. -/
noncomputable def deviation (xs : List ℝ) : ℝ := √(variance xs)

section Mean

variable {xs ys : List ℝ}

theorem length_pos_real (hne : xs ≠ []) : (0 : ℝ) < xs.length :=
  Nat.cast_pos.2 (List.length_pos_iff.2 hne)

theorem mean_map_nonneg {f : ℝ → ℝ} (h : ∀ x ∈ xs, 0 ≤ f x) : 0 ≤ mean (xs.map f) := by
  refine div_nonneg (List.sum_nonneg fun y hy => ?_) (Nat.cast_nonneg _)
  obtain ⟨x, hx, rfl⟩ := List.mem_map.1 hy
  exact h x hx

/-- A mean of numbers that are not negative is zero if all of them are. -/
theorem mean_map_eq_zero_iff (hne : xs ≠ []) {f : ℝ → ℝ} (h : ∀ x ∈ xs, 0 ≤ f x) :
    mean (xs.map f) = 0 ↔ ∀ x ∈ xs, f x = 0 := by
  have hnonneg : ∀ y ∈ xs.map f, 0 ≤ y := by
    intro y hy
    obtain ⟨x, hx, rfl⟩ := List.mem_map.1 hy
    exact h x hx
  rw [mean, List.length_map, div_eq_zero_iff, or_iff_left (length_pos_real hne).ne']
  refine ⟨fun hsum x hx => ?_, fun hzero => List.sum_eq_zero ?_⟩
  · exact List.all_zero_of_le_zero_le_of_sum_eq_zero hnonneg hsum (List.mem_map_of_mem hx)
  · simpa using hzero

theorem mean_perm (h : xs.Perm ys) : mean xs = mean ys := by
  rw [mean, mean, h.sum_eq, h.length_eq]

/-- The mean of a line over some numbers is its value at their mean. -/
theorem mean_line (hne : xs ≠ []) (a b : ℝ) :
    mean (xs.map fun x => a * x + b) = a * mean xs + b := by
  have hlength : (xs.length : ℝ) ≠ 0 := (length_pos_real hne).ne'
  rw [mean, mean, List.sum_map_add, List.sum_map_mul_left, List.length_map, List.map_id',
    List.map_const', List.sum_replicate, nsmul_eq_mul]
  field_simp

theorem mean_add (f g : ℝ → ℝ) :
    mean (xs.map fun x => f x + g x) = mean (xs.map f) + mean (xs.map g) := by
  simp only [mean, List.sum_map_add, List.length_map, add_div]

/-- Numbers are all the same exactly if all of them are their mean. -/
theorem eq_mean_iff (hne : xs ≠ []) :
    (∀ x ∈ xs, x = mean xs) ↔ ∀ x ∈ xs, ∀ y ∈ xs, x = y := by
  refine ⟨fun h x hx y hy => (h x hx).trans (h y hy).symm, fun h x hx => ?_⟩
  have hsum : xs.sum = xs.length * x := by
    rw [List.sum_eq_card_nsmul xs x fun y hy => h y hy x hx, nsmul_eq_mul]
  rw [mean, hsum, mul_div_cancel_left₀ _ (length_pos_real hne).ne']

end Mean

section Variance

variable {xs ys : List ℝ}

theorem variance_nonneg (xs : List ℝ) : 0 ≤ variance xs :=
  mean_map_nonneg fun _ _ => sq_nonneg _

theorem variance_eq_zero_iff (hne : xs ≠ []) :
    variance xs = 0 ↔ ∀ x ∈ xs, ∀ y ∈ xs, x = y := by
  rw [variance, mean_map_eq_zero_iff hne fun _ _ => sq_nonneg _, ← eq_mean_iff hne]
  simp only [pow_eq_zero_iff two_ne_zero, sub_eq_zero]

theorem variance_perm (h : xs.Perm ys) : variance xs = variance ys := by
  rw [variance, variance, mean_perm h]
  exact mean_perm (h.map _)

/-- Moving all numbers by the same amount leaves their distances from the mean as they are. -/
theorem variance_map_add (hne : xs ≠ []) (c : ℝ) : variance (xs.map (· + c)) = variance xs := by
  have hmean : mean (xs.map (· + c)) = mean xs + c := by
    simpa using mean_line hne 1 c
  rw [variance, hmean, List.map_map, variance]
  refine congrArg mean (List.map_congr_left fun x _ => ?_)
  rw [Function.comp_apply, add_sub_add_right_eq_sub]

/-- How far the variance stays below what the ends of an interval allow. -/
theorem variance_add_mean (hne : xs ≠ []) (low high : ℝ) :
    variance xs + mean (xs.map fun x => (high - x) * (x - low))
      = (high - mean xs) * (mean xs - low) := by
  have hline : ∀ x, (x - mean xs) ^ 2 + (high - x) * (x - low)
      = (high + low - 2 * mean xs) * x + (mean xs ^ 2 - high * low) := fun x => by ring
  calc variance xs + mean (xs.map fun x => (high - x) * (x - low))
      = mean (xs.map fun x => (x - mean xs) ^ 2 + (high - x) * (x - low)) := (mean_add _ _).symm
    _ = mean (xs.map fun x =>
          (high + low - 2 * mean xs) * x + (mean xs ^ 2 - high * low)) := by simp only [hline]
    _ = (high + low - 2 * mean xs) * mean xs + (mean xs ^ 2 - high * low) := mean_line hne _ _
    _ = (high - mean xs) * (mean xs - low) := by ring

variable {low high : ℝ} (h : ∀ x ∈ xs, low ≤ x ∧ x ≤ high)

include h

theorem inner_nonneg : ∀ x ∈ xs, 0 ≤ (high - x) * (x - low) :=
  fun x hx => mul_nonneg (sub_nonneg.2 (h x hx).2) (sub_nonneg.2 (h x hx).1)

/-- Numbers in an interval have a variance of at most the square of half its length. -/
theorem variance_le (hne : xs ≠ []) : variance xs ≤ ((high - low) / 2) ^ 2 := by
  have hsplit := variance_add_mean hne low high
  have hinner := mean_map_nonneg (inner_nonneg h)
  nlinarith [sq_nonneg (mean xs - (high + low) / 2)]

/-- The variance is as large as that only if the mean is in the middle and all numbers stand at the
ends. -/
theorem variance_eq_iff (hne : xs ≠ []) :
    variance xs = ((high - low) / 2) ^ 2
      ↔ mean xs = (high + low) / 2 ∧ ∀ x ∈ xs, x = low ∨ x = high := by
  have hsplit := variance_add_mean hne low high
  have hinner := mean_map_nonneg (inner_nonneg h)
  have hends : mean (xs.map fun x => (high - x) * (x - low)) = 0
      ↔ ∀ x ∈ xs, x = low ∨ x = high := by
    rw [mean_map_eq_zero_iff hne (inner_nonneg h)]
    refine forall₂_congr fun x _ => ?_
    rw [mul_eq_zero, sub_eq_zero, sub_eq_zero, or_comm, eq_comm (a := high)]
  rw [← hends]
  constructor
  · intro hbound
    have hmiddle : (mean xs - (high + low) / 2) ^ 2 = 0 := by
      nlinarith [sq_nonneg (mean xs - (high + low) / 2)]
    have hmean : mean xs = (high + low) / 2 :=
      sub_eq_zero.1 ((pow_eq_zero_iff two_ne_zero).1 hmiddle)
    refine ⟨hmean, ?_⟩
    rw [hbound, hmean] at hsplit
    linarith
  · rintro ⟨hmean, hzero⟩
    rw [hmean, hzero] at hsplit
    linarith

end Variance

/-! ## Scores -/

/-- Scores as real numbers. -/
def values (scores : List UInt8) : List ℝ := scores.map fun s => (s.toNat : ℝ)

section Scores

variable {scores : List UInt8}

theorem values_ne_nil (hne : scores ≠ []) : values scores ≠ [] := by
  simpa [values] using hne

theorem toNat_real_injective : Function.Injective fun s : UInt8 => (s.toNat : ℝ) :=
  fun _ _ h => UInt8.toNat_inj.1 (Nat.cast_injective h)

/-- The confidence falls with the deviation, and no further than to zero. -/
theorem confidence_eq (hne : scores ≠ []) :
    (confidence scores : ℝ) = 1 - min 50 (deviation (values scores)) / 50 := by
  have hvariance : variance (values scores) = ((values scores).map fun s =>
      (s - (values scores).sum / scores.length) * (s - (values scores).sum / scores.length)).sum
        / scores.length := by
    simp only [variance, mean, List.length_map, values, sq]
  have hdeviation : 0 ≤ min 50 (deviation (values scores)) :=
    le_min (by norm_num) (Real.sqrt_nonneg _)
  have hcut : min 50 (deviation (values scores)) ≤ 50 := min_le_left ..
  have hreal : (confidence scores : ℝ)
      = max 0 (min 1 ((50 - min 50 (deviation (values scores))) / 50)) := by
    rw [deviation, hvariance]
    exact confidence_real hne
  rw [hreal, min_eq_right (by linarith), max_eq_right (by linarith)]
  ring

/-- Scores of the two ends alone are counted, and their sum is a multiple of the count. -/
theorem count_ends (scores : List UInt8) :
    scores.count 0 + scores.count 100 = scores.countP fun s => s = 0 ∨ s = 100 := by
  induction scores with
  | nil => rfl
  | cons s rest ih =>
    rw [List.countP_cons, ← ih, List.count_cons, List.count_cons]
    by_cases hzero : s = 0
    · subst hzero
      simp
      omega
    · by_cases hhundred : s = 100
      · subst hhundred
        simp
        omega
      · simp [hzero, hhundred]

theorem sum_values_ends (h : ∀ s ∈ scores, s = 0 ∨ s = 100) :
    (values scores).sum = 100 * scores.count 100 := by
  induction scores with
  | nil => simp [values]
  | cons s rest ih =>
    have hrest := ih fun t ht => h t (List.mem_cons_of_mem _ ht)
    have hcons : (values (s :: rest)).sum = s.toNat + (values rest).sum := List.sum_cons
    rw [hcons, hrest]
    obtain rfl | rfl := h s List.mem_cons_self
    · simp
    · simp [show UInt8.toNat 100 = 100 from rfl]
      ring

/-- Scores have the mean 50 and are all 0 or 100 exactly if half of them are 0 and half 100. -/
theorem halves_iff (hne : scores ≠ []) :
    (mean (values scores) = 50 ∧ ∀ x ∈ values scores, x = 0 ∨ x = 100)
      ↔ 2 * scores.count 0 = scores.length ∧ 2 * scores.count 100 = scores.length := by
  have hends : (∀ x ∈ values scores, x = 0 ∨ x = 100) ↔ ∀ s ∈ scores, s = 0 ∨ s = 100 := by
    have hzero : ∀ s : UInt8, (s.toNat : ℝ) = 0 ↔ s = 0 := fun s =>
      ⟨fun h => toNat_real_injective (h.trans Nat.cast_zero.symm), fun h => h ▸ Nat.cast_zero⟩
    have hhundred : ∀ s : UInt8, (s.toNat : ℝ) = 100 ↔ s = 100 := fun s =>
      ⟨fun h => toNat_real_injective (h.trans Nat.cast_ofNat.symm), fun h => h ▸ Nat.cast_ofNat⟩
    simp only [values, List.forall_mem_map, hzero, hhundred]
  have hall : (∀ s ∈ scores, s = 0 ∨ s = 100)
      ↔ scores.count 0 + scores.count 100 = scores.length := by
    rw [count_ends, List.countP_eq_length]
    simp only [decide_eq_true_eq]
  have hsum : (∀ s ∈ scores, s = 0 ∨ s = 100) →
      (mean (values scores) = 50 ↔ 2 * scores.count 100 = scores.length) := by
    intro h
    rw [mean, sum_values_ends h, div_eq_iff (length_pos_real (values_ne_nil hne)).ne', values,
      List.length_map, ← Nat.cast_inj (R := ℝ), Nat.cast_mul, Nat.cast_ofNat]
    constructor <;> intro heq <;> linarith
  rw [hends]
  constructor
  · rintro ⟨hmean, h⟩
    have hcount := hall.1 h
    have hhundred := (hsum h).1 hmean
    exact ⟨by omega, hhundred⟩
  · rintro ⟨hzero, hhundred⟩
    have h := hall.2 (by omega)
    exact ⟨(hsum h).2 hhundred, h⟩

theorem deviation_eq_zero_iff (hne : scores ≠ []) :
    deviation (values scores) = 0 ↔ ∀ s ∈ scores, ∀ s' ∈ scores, s = s' := by
  rw [deviation, Real.sqrt_eq_zero (variance_nonneg _), variance_eq_zero_iff (values_ne_nil hne)]
  simp only [values, List.forall_mem_map, toNat_real_injective.eq_iff]

/-- Scores up to 100 deviate by at most 50. -/
theorem deviation_le (hne : scores ≠ []) (h : ∀ s ∈ scores, s ≤ 100) :
    deviation (values scores) ≤ 50 ∧
      (deviation (values scores) = 50
        ↔ 2 * scores.count 0 = scores.length ∧ 2 * scores.count 100 = scores.length) := by
  have hrange : ∀ x ∈ values scores, (0 : ℝ) ≤ x ∧ x ≤ 100 := by
    intro x hx
    obtain ⟨s, hs, rfl⟩ := List.mem_map.1 hx
    exact ⟨Nat.cast_nonneg _, by exact_mod_cast UInt8.le_iff_toNat_le.1 (h s hs)⟩
  have hhalf : (((100 : ℝ) - 0) / 2) = 50 := by norm_num
  have hmiddle : (((100 : ℝ) + 0) / 2) = 50 := by norm_num
  have hle := variance_le hrange (values_ne_nil hne)
  have hiff := variance_eq_iff hrange (values_ne_nil hne)
  rw [hhalf] at hle
  rw [hhalf, hmiddle] at hiff
  refine ⟨(Real.sqrt_le_left (by norm_num)).2 hle, ?_⟩
  rw [← halves_iff hne, ← hiff, deviation, Real.sqrt_eq_iff_eq_sq (variance_nonneg _) (by norm_num)]

theorem confidence_nonneg (hne : scores ≠ []) : 0 ≤ (confidence scores : ℝ) := by
  have hcut : min 50 (deviation (values scores)) ≤ 50 := min_le_left ..
  rw [confidence_eq hne]
  linarith

theorem confidence_le_one (hne : scores ≠ []) : (confidence scores : ℝ) ≤ 1 := by
  have hcut : 0 ≤ min 50 (deviation (values scores)) := le_min (by norm_num) (Real.sqrt_nonneg _)
  rw [confidence_eq hne]
  linarith

theorem confidence_eq_one_iff (hne : scores ≠ []) :
    (confidence scores : ℝ) = 1 ↔ ∀ s ∈ scores, ∀ s' ∈ scores, s = s' := by
  have hcut : (confidence scores : ℝ) = 1 ↔ min 50 (deviation (values scores)) = 0 := by
    rw [confidence_eq hne]
    constructor <;> intro h <;> linarith
  rw [hcut, ← deviation_eq_zero_iff hne]
  constructor
  · intro h
    obtain hfifty | hdeviation := min_choice 50 (deviation (values scores))
    · rw [hfifty] at h
      norm_num at h
    · exact hdeviation ▸ h
  · intro h
    rw [h]
    exact min_eq_right (by norm_num)

theorem confidence_perm (hne : scores ≠ []) {others : List UInt8} (h : others.Perm scores) :
    (confidence others : ℝ) = confidence scores := by
  have hothers : others ≠ [] := by
    rintro rfl
    exact hne h.nil_eq.symm
  have hvalues : (values others).Perm (values scores) := h.map _
  rw [confidence_eq hothers, confidence_eq hne, deviation, deviation, variance_perm hvalues]

/-- The confidence of scores that are moved by the same amount. -/
theorem confidence_moved (hne : scores ≠ []) {moved : List UInt8} {d : ℤ}
    (h : moved.map (fun s => (s.toNat : ℤ)) = scores.map fun s => (s.toNat : ℤ) + d) :
    (confidence moved : ℝ) = confidence scores := by
  have hmoved : moved ≠ [] := by
    rintro rfl
    exact hne (List.map_eq_nil_iff.1 h.symm)
  have hvalues : values moved = (values scores).map (· + (d : ℝ)) := by
    have hcast := congrArg (List.map ((↑) : ℤ → ℝ)) h
    simpa [values, Function.comp_def] using hcast
  rw [confidence_eq hmoved, confidence_eq hne, deviation, deviation, hvalues,
    variance_map_add (values_ne_nil hne)]

end Scores

/-- The confidence of a verdict is that of the scores of its results. -/
theorem confidence_of_detect {analyzers : List (Analyzer ℝ)} {t : Target} {v : Verdict ℝ}
    (h : detect analyzers t = .ok v) :
    v.confidence = confidence (v.results.map fun e => e.2.riskScore) := by
  obtain ⟨votes, -, rfl⟩ := map_eq_ok.1 h
  rfl

/-- What the confidence says about the scores of some results, in exact arithmetic. It is between 0
and 1, it is 1 exactly if the scores are all the same, and neither their order nor moving all of
them by the same amount makes a difference. If no score is above 100, nothing is cut off: it is one
less a fiftieth of the standard deviation, and it is 0 exactly if half of the scores are 0 and half
are 100. -/
theorem confidence_agreement {scores : List UInt8} (hne : scores ≠ []) :
    (0 ≤ (confidence scores : ℝ) ∧ (confidence scores : ℝ) ≤ 1) ∧
    ((confidence scores : ℝ) = 1 ↔ ∀ s ∈ scores, ∀ s' ∈ scores, s = s') ∧
    (∀ (d : ℤ) (moved : List UInt8),
      moved.map (fun s => (s.toNat : ℤ)) = scores.map (fun s => (s.toNat : ℤ) + d) →
      (confidence moved : ℝ) = confidence scores) ∧
    (∀ others, others.Perm scores → (confidence others : ℝ) = confidence scores) ∧
    ((∀ s ∈ scores, s ≤ 100) →
      deviation (values scores) ≤ 50 ∧
      (confidence scores : ℝ) = 1 - deviation (values scores) / 50 ∧
      ((confidence scores : ℝ) = 0
        ↔ 2 * scores.count 0 = scores.length ∧ 2 * scores.count 100 = scores.length)) ∧
    ∀ (analyzers : List (Analyzer ℝ)) (t : Target) (v : Verdict ℝ),
      detect analyzers t = .ok v → v.results.map (fun e => e.2.riskScore) = scores →
      v.confidence = confidence scores := by
  refine ⟨⟨confidence_nonneg hne, confidence_le_one hne⟩, confidence_eq_one_iff hne,
    fun d moved => confidence_moved hne, fun others => confidence_perm hne, fun h => ?_, ?_⟩
  · obtain ⟨hle, hiff⟩ := deviation_le hne h
    have hplain : (confidence scores : ℝ) = 1 - deviation (values scores) / 50 := by
      rw [confidence_eq hne, min_eq_right hle]
    refine ⟨hle, hplain, ?_⟩
    rw [← hiff, hplain]
    constructor <;> intro heq <;> linarith
  · rintro analyzers t v hdetect rfl
    exact confidence_of_detect hdetect

/-- Four scores of which half are 0 and half 100 agree least, and so do four scores that are higher
by 30 each, which goes past 100. -/
theorem confidence_agreement_halves :
    (confidence [100, 0, 0, 100] : ℝ) = 0 ∧ (confidence [130, 30, 30, 130] : ℝ) = 0 ∧
      (confidence [30, 130, 30, 130] : ℝ) = 0 ∧ (confidence [7, 7, 7] : ℝ) = 1 := by
  have hne : ([100, 0, 0, 100] : List UInt8) ≠ [] := List.cons_ne_nil _ _
  have hne' : ([130, 30, 30, 130] : List UInt8) ≠ [] := List.cons_ne_nil _ _
  have hsame : ([7, 7, 7] : List UInt8) ≠ [] := List.cons_ne_nil _ _
  obtain ⟨-, -, hmoved, -, hplain, -⟩ := confidence_agreement hne
  obtain ⟨-, -, -, hperm, -⟩ := confidence_agreement hne'
  obtain ⟨-, hequal, -⟩ := confidence_agreement hsame
  have hzero : (confidence [100, 0, 0, 100] : ℝ) = 0 :=
    (hplain (by simp)).2.2.2 (by decide)
  have hthirty : (confidence [130, 30, 30, 130] : ℝ) = 0 :=
    (hmoved 30 _ (by decide)).trans hzero
  exact ⟨hzero, hthirty, (hperm [30, 130, 30, 130] (by decide)).trans hthirty,
    hequal.2 (by simp)⟩

end Ensemble

end PonziScreen
