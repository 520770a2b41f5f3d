import Mathlib.Algebra.Order.BigOperators.Group.List
import PonziScreen.Proofs.SilentAnalyzers

/-!
# The mean of the scores

In exact arithmetic the risk score of an ensemble is the mean of the scores of all answers by
weight, without its fraction. A mean by weights that are not negative lies between the scores of
answers that have a weight (`Ensemble.exists_score_le_mean`, `Ensemble.exists_mean_le_score`), so it
fits into a byte, and the cut at the highest byte never acts.

The sums behind the mean do not depend on the order of the answers, and a higher score raises them.

* `Ensemble.toNat_riskScore` — the risk score as a mean
* `Ensemble.detect_vote` — what the mean does to verdicts
-/

namespace PonziScreen

theorem toNat_toByte_real (x : ℝ) : (Scalar.toByte x).toNat = min ⌊x⌋₊ 255 :=
  UInt8.toNat_ofNat_of_lt' (Nat.lt_succ_of_le (min_le_right _ _))

theorem toByte_mono_real {x y : ℝ} (h : x ≤ y) : Scalar.toByte x ≤ Scalar.toByte y := by
  rw [UInt8.le_iff_toNat_le, toNat_toByte_real, toNat_toByte_real]
  exact min_le_min_right 255 (Nat.floor_mono h)

/-- An analyzer with an answer does not diverge. -/
theorem Analyzer.not_diverges_of_answer? {σ : Type} {a : Analyzer σ} {t : Target}
    {r : AnalysisResult} (h : a.answer? t = some r) : ¬ a.Diverges t := by
  rintro ⟨hcan, detail, hanalyze⟩
  simp [answer?, hcan, hanalyze, Except.toOption] at h

namespace Ensemble

variable {given given' : List (Analyzer ℝ × AnalysisResult)}

/-! ## Weights and scores -/

/-- The weights of some answers together. -/
def weightOf (given : List (Analyzer ℝ × AnalysisResult)) : ℝ :=
  (given.map fun p => p.1.weight).sum

/-- The scores of some answers together, each as often as its weight says. -/
noncomputable def scoreOf (given : List (Analyzer ℝ × AnalysisResult)) : ℝ :=
  (given.map fun p => (p.2.riskScore.toNat : ℝ) * p.1.weight).sum

/-- The mean of the scores by weight. -/
noncomputable def weightedMean (given : List (Analyzer ℝ × AnalysisResult)) : ℝ :=
  scoreOf given / weightOf given

theorem weightOf_perm (h : given.Perm given') : weightOf given = weightOf given' :=
  (h.map _).sum_eq

theorem scoreOf_perm (h : given.Perm given') : scoreOf given = scoreOf given' :=
  (h.map _).sum_eq

theorem weightOf_append (given given' : List (Analyzer ℝ × AnalysisResult)) :
    weightOf (given ++ given') = weightOf given + weightOf given' := by
  rw [weightOf, List.map_append, List.sum_append]
  rfl

theorem scoreOf_append (given given' : List (Analyzer ℝ × AnalysisResult)) :
    scoreOf (given ++ given') = scoreOf given + scoreOf given' := by
  rw [scoreOf, List.map_append, List.sum_append]
  rfl

theorem scoreOf_eq_mul (hpos : 0 < weightOf given) :
    scoreOf given = (given.map fun p => weightedMean given * p.1.weight).sum := by
  rw [List.sum_map_mul_left]
  exact (div_mul_cancel₀ _ hpos.ne').symm

theorem exists_weight_pos (hpos : 0 < weightOf given) : ∃ p ∈ given, 0 < p.1.weight := by
  refine List.exists_lt_of_sum_lt (fun _ => 0) (fun p : Analyzer ℝ × _ => p.1.weight) ?_
  simpa [weightOf] using hpos

/-- Sums by weight differ if they do wherever there is a weight. -/
theorem sum_mul_weight_lt (hweights : ∀ p ∈ given, 0 ≤ p.1.weight) (hpos : 0 < weightOf given)
    {f g : Analyzer ℝ × AnalysisResult → ℝ}
    (h : ∀ p ∈ given, 0 < p.1.weight → f p < g p) :
    (given.map fun p => f p * p.1.weight).sum < (given.map fun p => g p * p.1.weight).sum := by
  obtain ⟨q, hq, hqpos⟩ := exists_weight_pos hpos
  refine List.sum_lt_sum _ _ (fun p hp => ?_) ⟨q, hq, mul_lt_mul_of_pos_right (h q hq hqpos) hqpos⟩
  rcases (hweights p hp).eq_or_lt with hzero | hppos
  · rw [← hzero, mul_zero, mul_zero]
  · exact mul_le_mul_of_nonneg_right (h p hp hppos).le hppos.le

/-- Not all scores that have a weight are above their mean. -/
theorem exists_score_le_mean (hweights : ∀ p ∈ given, 0 ≤ p.1.weight)
    (hpos : 0 < weightOf given) :
    ∃ p ∈ given, 0 < p.1.weight ∧ (p.2.riskScore.toNat : ℝ) ≤ weightedMean given := by
  by_contra hnone
  push Not at hnone
  exact (sum_mul_weight_lt hweights hpos hnone).ne (scoreOf_eq_mul hpos).symm

/-- Not all scores that have a weight are below their mean. -/
theorem exists_mean_le_score (hweights : ∀ p ∈ given, 0 ≤ p.1.weight)
    (hpos : 0 < weightOf given) :
    ∃ p ∈ given, 0 < p.1.weight ∧ weightedMean given ≤ (p.2.riskScore.toNat : ℝ) := by
  by_contra hnone
  push Not at hnone
  exact (sum_mul_weight_lt hweights hpos hnone).ne (scoreOf_eq_mul hpos)

/-! ## Risk scores -/

theorem riskScore_addAll (given : List (Analyzer ℝ × AnalysisResult)) :
    (Votes.none.addAll given).riskScore
      = if 0 < weightOf given then Scalar.toByte (weightedMean given) else 0 := by
  obtain ⟨hscore, htotal⟩ := weights_addAll given
  rw [Scalar.sum_real] at hscore htotal
  unfold Votes.riskScore
  rw [hscore, htotal, Scalar.zero_real]
  simp only [Scalar.lt, decide_eq_true_eq]
  rfl

/-- The risk score is the mean of the scores without its fraction: no mean of bytes is above the
highest byte. -/
theorem toNat_riskScore (hweights : ∀ p ∈ given, 0 ≤ p.1.weight) (hpos : 0 < weightOf given) :
    (Votes.none.addAll given).riskScore.toNat = ⌊weightedMean given⌋₊ := by
  obtain ⟨p, -, -, hp⟩ := exists_mean_le_score hweights hpos
  have hbyte : ⌊weightedMean given⌋₊ ≤ p.2.riskScore.toNat := Nat.floor_le_of_le hp
  have hlt : p.2.riskScore.toNat < 256 := p.2.riskScore.toNat_lt
  rw [riskScore_addAll, if_pos hpos, toNat_toByte_real]
  omega

/-- The risk score stands between the scores of two answers that have a weight. -/
theorem riskScore_between (hweights : ∀ p ∈ given, 0 ≤ p.1.weight) (hpos : 0 < weightOf given) :
    (∃ p ∈ given, 0 < p.1.weight ∧ p.2.riskScore ≤ (Votes.none.addAll given).riskScore) ∧
      ∃ p ∈ given, 0 < p.1.weight ∧ (Votes.none.addAll given).riskScore ≤ p.2.riskScore := by
  obtain ⟨p, hp, hppos, hlow⟩ := exists_score_le_mean hweights hpos
  obtain ⟨q, hq, hqpos, hhigh⟩ := exists_mean_le_score hweights hpos
  refine ⟨⟨p, hp, hppos, ?_⟩, q, hq, hqpos, ?_⟩
  · rw [UInt8.le_iff_toNat_le, toNat_riskScore hweights hpos]
    exact Nat.le_floor hlow
  · rw [UInt8.le_iff_toNat_le, toNat_riskScore hweights hpos]
    exact Nat.floor_le_of_le hhigh

/-- Higher scores of the same weight do not lower the risk score. -/
theorem riskScore_mono (hweight : weightOf given' = weightOf given)
    (hscore : scoreOf given ≤ scoreOf given') :
    (Votes.none.addAll given).riskScore ≤ (Votes.none.addAll given').riskScore := by
  rw [riskScore_addAll, riskScore_addAll, hweight]
  split
  · rename_i hpos
    refine toByte_mono_real ?_
    rw [weightedMean, weightedMean, hweight]
    exact div_le_div_of_nonneg_right hscore hpos.le
  · exact UInt8.le_refl 0

/-- A higher score of one answer does not lower the risk score: only its summand changes, and its
weight is not negative. -/
theorem riskScore_raise {before after : List (Analyzer ℝ × AnalysisResult)} {a a' : Analyzer ℝ}
    {r r' : AnalysisResult} (hweight : a'.weight = a.weight) (hnonneg : 0 ≤ a.weight)
    (hraised : r.riskScore ≤ r'.riskScore) :
    (Votes.none.addAll (before ++ (a, r) :: after)).riskScore
      ≤ (Votes.none.addAll (before ++ (a', r') :: after)).riskScore := by
  have hterm : (r.riskScore.toNat : ℝ) * a.weight ≤ (r'.riskScore.toNat : ℝ) * a'.weight := by
    rw [hweight]
    exact mul_le_mul_of_nonneg_right (Nat.cast_le.2 (UInt8.le_iff_toNat_le.1 hraised)) hnonneg
  refine riskScore_mono ?_ ?_
  · rw [weightOf_append, weightOf_append]
    simp [weightOf, hweight]
  · rw [scoreOf_append, scoreOf_append]
    simpa [scoreOf] using hterm

theorem riskScore_perm (h : given.Perm given') :
    (Votes.none.addAll given').riskScore = (Votes.none.addAll given).riskScore := by
  rw [riskScore_addAll, riskScore_addAll, weightedMean, weightedMean, weightOf_perm h,
    scoreOf_perm h]

/-! ## Verdicts -/

theorem detect_eq_ok {σ : Type} [Scalar σ] {analyzers : List (Analyzer σ)} {t : Target}
    {v : Verdict σ} : detect analyzers t = .ok v ↔ (∀ a ∈ analyzers, ¬ a.Diverges t) ∧
      (Votes.none.addAll (answers t analyzers)).verdict t = v := by
  rw [detect_eq]
  cases hfirst : analyzers.findSome? fun a => a.divergence? t with
  | some detail =>
    obtain ⟨a, ha, hdiverges⟩ := List.exists_of_findSome?_eq_some hfirst
    simp only [reduceCtorEq, false_iff, not_and]
    intro hnone
    rw [Analyzer.divergence?_eq_none.2 (hnone a ha)] at hdiverges
    cases hdiverges
  | none =>
    have hnone : ∀ a ∈ analyzers, ¬ a.Diverges t := fun a ha =>
      Analyzer.divergence?_eq_none.1 (List.findSome?_eq_none_iff.1 hfirst a ha)
    simp only [Except.ok.injEq]
    exact (and_iff_right hnone).symm

theorem answers_split {σ : Type} {t : Target} {before after : List (Analyzer σ)} {a : Analyzer σ}
    {r : AnalysisResult} (h : a.answer? t = some r) :
    answers t (before ++ a :: after) = answers t before ++ (a, r) :: answers t after := by
  rw [answers, List.filterMap_append, List.filterMap_cons_some (by rw [h, Option.map_some])]
  rfl

theorem verdict_of_detect {analyzers : List (Analyzer ℝ)} {t : Target} {v : Verdict ℝ}
    (h : detect analyzers t = .ok v) :
    v.riskScore = (Votes.none.addAll (answers t analyzers)).riskScore ∧
      v.isPonzi = decide (threshold ≤ v.riskScore) := by
  rw [← (detect_eq_ok.1 h).2]
  exact ⟨rfl, rfl⟩

/-- A higher score of one analyzer neither lowers the risk score nor clears a contract. -/
theorem detect_raise {before after : List (Analyzer ℝ)} {a a' : Analyzer ℝ}
    {r r' : AnalysisResult} {t : Target} {v : Verdict ℝ}
    (h : detect (before ++ a :: after) t = .ok v) (ha : a.answer? t = some r)
    (ha' : a'.answer? t = some r') (hweight : a'.weight = a.weight) (hnonneg : 0 ≤ a.weight)
    (hraised : r.riskScore ≤ r'.riskScore) :
    ∃ v', detect (before ++ a' :: after) t = .ok v' ∧ v.riskScore ≤ v'.riskScore ∧
      (v.isPonzi = true → v'.isPonzi = true) := by
  have hnone := (detect_eq_ok.1 h).1
  obtain ⟨hscore, hponzi⟩ := verdict_of_detect h
  have hnone' : ∀ b ∈ before ++ a' :: after, ¬ b.Diverges t := by
    intro b hb
    rcases List.mem_append.1 hb with hb | hb
    · exact hnone b (List.mem_append_left _ hb)
    · rcases List.mem_cons.1 hb with rfl | hb
      · exact Analyzer.not_diverges_of_answer? ha'
      · exact hnone b (List.mem_append_right _ (List.mem_cons_of_mem _ hb))
  have hle : v.riskScore ≤ (Votes.none.addAll (answers t (before ++ a' :: after))).riskScore := by
    rw [hscore, answers_split ha, answers_split ha']
    exact riskScore_raise hweight hnonneg hraised
  refine ⟨_, detect_eq_ok.2 ⟨hnone', rfl⟩, hle, fun hv => ?_⟩
  exact decide_eq_true (UInt8.le_trans (of_decide_eq_true (hponzi ▸ hv)) hle)

/-- The order of the analyzers does not matter for the risk score. -/
theorem detect_perm {analyzers others : List (Analyzer ℝ)} {t : Target} {v : Verdict ℝ}
    (h : detect analyzers t = .ok v) (hperm : others.Perm analyzers) :
    ∃ v', detect others t = .ok v' ∧ v'.riskScore = v.riskScore ∧ v'.isPonzi = v.isPonzi := by
  have hnone : ∀ a ∈ others, ¬ a.Diverges t :=
    fun a ha => (detect_eq_ok.1 h).1 a (hperm.mem_iff.1 ha)
  have hothers := detect_eq_ok.2 ⟨hnone, rfl⟩
  obtain ⟨hscore, hponzi⟩ := verdict_of_detect h
  obtain ⟨hscore', hponzi'⟩ := verdict_of_detect hothers
  have heq := hscore'.trans ((riskScore_perm (hperm.symm.filterMap _)).trans hscore.symm)
  exact ⟨_, hothers, heq, by rw [hponzi', hponzi, heq]⟩

/-- The weighted vote in exact arithmetic. With weights that are not negative, the risk score is the
mean of the scores by weight without its fraction, or zero if nothing has a weight. So it lies
between the scores of answers that have a weight, and it is their score if they agree. A higher
score of one answer neither lowers it nor clears a contract, and it does not depend on the order of
the analyzers. -/
theorem detect_vote {analyzers : List (Analyzer ℝ)} {t : Target} {v : Verdict ℝ}
    (hweights : ∀ a ∈ analyzers, 0 ≤ a.weight) (h : detect analyzers t = .ok v) :
    let given := answers t analyzers
    (0 < weightOf given → v.riskScore.toNat = ⌊weightedMean given⌋₊ ∧
      (∃ p ∈ given, 0 < p.1.weight ∧ p.2.riskScore ≤ v.riskScore) ∧
      (∃ p ∈ given, 0 < p.1.weight ∧ v.riskScore ≤ p.2.riskScore) ∧
      ∀ s, (∀ p ∈ given, 0 < p.1.weight → p.2.riskScore = s) → v.riskScore = s) ∧
    (¬ 0 < weightOf given → v.riskScore = 0) ∧
    (∀ before a after a' r r', analyzers = before ++ a :: after →
      a.answer? t = some r → a'.answer? t = some r' → a'.weight = a.weight →
      r.riskScore ≤ r'.riskScore → ∃ v', detect (before ++ a' :: after) t = .ok v' ∧
        v.riskScore ≤ v'.riskScore ∧ (v.isPonzi = true → v'.isPonzi = true)) ∧
    ∀ others, others.Perm analyzers → ∃ v', detect others t = .ok v' ∧
      v'.riskScore = v.riskScore ∧ v'.isPonzi = v.isPonzi := by
  intro given
  have hscore : v.riskScore = (Votes.none.addAll given).riskScore := (verdict_of_detect h).1
  have hgiven : ∀ p ∈ given, 0 ≤ p.1.weight := by
    intro p hp
    obtain ⟨a, ha, hanswer⟩ := List.mem_filterMap.1 hp
    obtain ⟨r, -, rfl⟩ := Option.map_eq_some_iff.1 hanswer
    exact hweights a ha
  refine ⟨fun hpos => ?_, fun hzero => ?_, ?_, fun others hperm => detect_perm h hperm⟩
  · obtain ⟨hlow, hhigh⟩ := riskScore_between hgiven hpos
    rw [hscore]
    refine ⟨toNat_riskScore hgiven hpos, hlow, hhigh, fun s hs => ?_⟩
    obtain ⟨p, hp, hppos, hple⟩ := hlow
    obtain ⟨q, hq, hqpos, hqle⟩ := hhigh
    exact UInt8.le_antisymm (hs q hq hqpos ▸ hqle) (hs p hp hppos ▸ hple)
  · rw [hscore, riskScore_addAll, if_neg hzero]
  · rintro before a after a' r r' rfl ha ha' hweight hraised
    exact detect_raise h ha ha' hweight (hweights a (by simp)) hraised

/-- An analyzer that gives the same score to every target, with a weight. -/
def weighted (name : String) (score : UInt8) (weight : ℝ) : Analyzer ℝ :=
  ⟨name, weight, fun _ => true, fun _ => .ok ⟨score, [], []⟩⟩

/-- Two analyzers that disagree, and together reach the threshold. -/
theorem detect_vote_disagreeing :
    ∃ (t : Target) (v : Verdict ℝ),
      detect [weighted "a" 100 (3 / 5), weighted "b" 0 (2 / 5)] t = .ok v ∧
      v.riskScore.toNat = 60 ∧
      (∃ v', detect [weighted "a" 100 (3 / 5), weighted "b" 50 (2 / 5)] t = .ok v' ∧
        v.riskScore ≤ v'.riskScore ∧ (v.isPonzi = true → v'.isPonzi = true)) ∧
      ∃ v', detect [weighted "b" 0 (2 / 5), weighted "a" 100 (3 / 5)] t = .ok v' ∧
        v'.riskScore = v.riskScore ∧ v'.isPonzi = v.isPonzi := by
  let t : Target := .ofContract ⟨"T", [], [], []⟩
  have hdetect : detect [weighted "a" 100 (3 / 5), weighted "b" 0 (2 / 5)] t = .ok _ := rfl
  have hweights : ∀ a ∈ [weighted "a" 100 (3 / 5), weighted "b" 0 (2 / 5)], 0 ≤ a.weight := by
    simp [weighted]
    norm_num
  have hweight : weightOf (answers t [weighted "a" 100 (3 / 5), weighted "b" 0 (2 / 5)]) = 1 := by
    show List.sum [(3 / 5 : ℝ), 2 / 5] = 1
    norm_num
  have hmean : weightedMean (answers t [weighted "a" 100 (3 / 5), weighted "b" 0 (2 / 5)])
      = (60 : ℕ) := by
    rw [weightedMean, hweight, div_one]
    show List.sum [((100 : ℕ) : ℝ) * (3 / 5), ((0 : ℕ) : ℝ) * (2 / 5)] = (60 : ℕ)
    norm_num
  obtain ⟨hpositive, -, hraise, horder⟩ := detect_vote hweights hdetect
  refine ⟨t, _, hdetect, ?_, ?_, ?_⟩
  · rw [(hpositive (hweight ▸ one_pos)).1, hmean, Nat.floor_natCast]
  · exact hraise [weighted "a" 100 (3 / 5)] _ [] (weighted "b" 50 (2 / 5)) _ _ rfl rfl rfl rfl
      (by decide)
  · exact horder _ (List.Perm.swap _ _ _)

end Ensemble

end PonziScreen
