import Mathlib.Data.Real.Basic
import PonziScreen.Ensemble
import PonziScreen.Proofs.RealScalar

/-!
# What becomes of the answers of analyzers

A verdict is made of the answers of those analyzers that can analyze the target and succeed
(`Ensemble.answers`). Others leave no trace, except that the first divergence is the failure of the
whole (`Ensemble.detect_eq`).

The risk score and the findings are made of all answers. The results are kept by name, so an answer
whose name comes again later is no longer among them, and the confidence, which is computed from the
results, does not see it. Nothing keeps analyzers from having the same name: all screens with a
classifier have.

* `Ensemble.lastOfEach` — what is left when later entries of a name replace earlier ones
* `Ensemble.detect_results` — each part of a verdict in terms of the answers; the results are all
  answers exactly if no name is repeated
* `Ensemble.detect_repeated_name` — an answer that is lost, and the confidence with it
-/

namespace PonziScreen

variable {σ : Type} [Scalar σ]

/-! ## Answers -/

namespace Analyzer

omit [Scalar σ]

/-- What an analyzer answers if it can analyze a target and succeeds. -/
def answer? (a : Analyzer σ) (t : Target) : Option AnalysisResult :=
  if a.canAnalyze t then (a.analyze t).toOption else none

/-- How an analyzer that can analyze a target diverges on it. -/
def divergence? (a : Analyzer σ) (t : Target) : Option String :=
  if a.canAnalyze t then
    match a.analyze t with
    | .error (.diverged detail) => some detail
    | _ => none
  else none

end Analyzer

namespace Ensemble

omit [Scalar σ] in
/-- The analyzers that have an answer, with their answers. -/
def answers (t : Target) (analyzers : List (Analyzer σ)) : List (Analyzer σ × AnalysisResult) :=
  analyzers.filterMap fun a => (a.answer? t).map fun r => (a, r)

/-- Adds answers to votes, one after another. -/
def Votes.addAll (v : Votes σ) (answers : List (Analyzer σ × AnalysisResult)) : Votes σ :=
  answers.foldl (fun v p => v.add p.1 p.2) v

/-- Votes are gathered from answers, unless an analyzer diverges. -/
theorem gather_eq (t : Target) (analyzers : List (Analyzer σ)) (v : Votes σ) :
    gather t v analyzers = match analyzers.findSome? fun a => a.divergence? t with
      | some detail => .error (.diverged detail)
      | none => .ok (v.addAll (answers t analyzers)) := by
  induction analyzers generalizing v with
  | nil => rfl
  | cons a rest ih =>
    rw [gather, List.findSome?_cons, answers, List.filterMap_cons]
    by_cases hcan : a.canAnalyze t = true
    · rw [if_pos hcan, Analyzer.divergence?, if_pos hcan, Analyzer.answer?, if_pos hcan]
      cases hanalyze : a.analyze t with
      | ok r => exact ih (v.add a r)
      | error failure =>
        cases failure with
        | diverged detail => rfl
        | _ => exact ih v
    · rw [if_neg hcan, Analyzer.divergence?, if_neg hcan, Analyzer.answer?, if_neg hcan]
      exact ih v

theorem detect_eq (t : Target) (analyzers : List (Analyzer σ)) :
    detect analyzers t = match analyzers.findSome? fun a => a.divergence? t with
      | some detail => .error (.diverged detail)
      | none => .ok ((Votes.none.addAll (answers t analyzers)).verdict t) := by
  rw [detect, gather_eq]
  cases analyzers.findSome? fun a => a.divergence? t <;> rfl

/-! ## Sums over answers -/

theorem findings_addAll (v : Votes σ) (answers : List (Analyzer σ × AnalysisResult)) :
    (v.addAll answers).findings = v.findings ++ answers.flatMap fun p => p.2.findings := by
  induction answers generalizing v with
  | nil => exact (List.append_nil _).symm
  | cons p rest ih =>
    rw [Votes.addAll, List.foldl_cons, ← Votes.addAll, ih, List.flatMap_cons, ← List.append_assoc]
    rfl

/-- The scores of all answers are weighed. -/
theorem weights_addAll (answers : List (Analyzer σ × AnalysisResult)) :
    (Votes.none.addAll answers).weightedScore
        = Scalar.sum (answers.map fun p => Scalar.ofNat p.2.riskScore.toNat * p.1.weight) ∧
      (Votes.none.addAll answers).totalWeight = Scalar.sum (answers.map fun p => p.1.weight) := by
  have hfold : ∀ v : Votes σ,
      (v.addAll answers).weightedScore = (answers.map fun p =>
          Scalar.ofNat p.2.riskScore.toNat * p.1.weight).foldl (· + ·) v.weightedScore ∧
        (v.addAll answers).totalWeight
          = (answers.map fun p => p.1.weight).foldl (· + ·) v.totalWeight := by
    induction answers with
    | nil => exact fun v => ⟨rfl, rfl⟩
    | cons p rest ih => exact fun v => ih (v.add p.1 p.2)
  exact hfold Votes.none

/-! ## Results by name -/

section LastOfEach

variable {β : Type}

/-- The entries after which no entry of the same name follows. -/
def lastOfEach : List (String × β) → List (String × β)
  | [] => []
  | e :: rest => if e.1 ∈ rest.map Prod.fst then lastOfEach rest else e :: lastOfEach rest

theorem lastOfEach_sublist (entries : List (String × β)) :
    (lastOfEach entries).Sublist entries := by
  induction entries with
  | nil => exact .slnil
  | cons e rest ih =>
    rw [lastOfEach]
    split
    · exact ih.cons e
    · exact ih.cons_cons e

theorem nodup_keys_lastOfEach (entries : List (String × β)) :
    ((lastOfEach entries).map Prod.fst).Nodup := by
  induction entries with
  | nil => exact List.nodup_nil
  | cons e rest ih =>
    rw [lastOfEach]
    split
    · exact ih
    · rename_i hlast
      rw [List.map_cons, List.nodup_cons]
      exact ⟨fun hmem => hlast (((lastOfEach_sublist rest).map Prod.fst).subset hmem), ih⟩

theorem lastOfEach_eq_self {entries : List (String × β)} (h : (entries.map Prod.fst).Nodup) :
    lastOfEach entries = entries := by
  induction entries with
  | nil => rfl
  | cons e rest ih =>
    rw [List.map_cons, List.nodup_cons] at h
    rw [lastOfEach, if_neg h.1, ih h.2]

/-- No entry is lost exactly if no name is repeated. -/
theorem lastOfEach_perm_iff {entries : List (String × β)} :
    (lastOfEach entries).Perm entries ↔ (entries.map Prod.fst).Nodup := by
  constructor
  · intro h
    exact (h.map Prod.fst).nodup_iff.1 (nodup_keys_lastOfEach entries)
  · intro h
    rw [lastOfEach_eq_self h]

end LastOfEach

omit [Scalar σ] in
/-- Answers by the names of their analyzers. -/
def named (answers : List (Analyzer σ × AnalysisResult)) : List (String × AnalysisResult) :=
  answers.map fun p => (p.1.name, p.2)

/-- An answer replaces all earlier ones of its name. -/
theorem results_addAll (v : Votes σ) (answers : List (Analyzer σ × AnalysisResult)) :
    (v.addAll answers).results
      = v.results.filter (fun e => e.1 ∉ (named answers).map Prod.fst)
        ++ lastOfEach (named answers) := by
  induction answers generalizing v with
  | nil => simp [Votes.addAll, named, lastOfEach]
  | cons p rest ih =>
    have hnamed : named (p :: rest) = (p.1.name, p.2) :: named rest := rfl
    -- what was there before stays if neither this name nor a later one is its own
    have hold : (v.results.filter fun e => e.1 != p.1.name).filter
          (fun e => e.1 ∉ (named rest).map Prod.fst)
        = v.results.filter fun e => e.1 ∉ (named (p :: rest)).map Prod.fst := by
      rw [List.filter_filter, hnamed, List.map_cons]
      refine List.filter_congr fun e _ => ?_
      simp [bne, Bool.and_comm]
    have hadd : (v.add p.1 p.2).results
        = (v.results.filter fun e => e.1 != p.1.name) ++ [(p.1.name, p.2)] := rfl
    rw [Votes.addAll, List.foldl_cons, ← Votes.addAll, ih, hadd, List.filter_append, hold,
      List.append_assoc, hnamed, lastOfEach]
    congr 1
    by_cases hlast : p.1.name ∈ (named rest).map Prod.fst
    · rw [if_pos hlast, List.filter_cons_of_neg (by simpa using hlast)]
      rfl
    · rw [if_neg hlast, List.filter_cons_of_pos (by simpa using hlast)]
      rfl

/-! ## Verdicts -/

/-- The confidence in exact arithmetic, with the standard deviation written out. -/
theorem confidence_real {scores : List UInt8} (hne : scores ≠ []) :
    let values := scores.map fun s => (s.toNat : ℝ)
    let mean := values.sum / scores.length
    let variance := (values.map fun s => (s - mean) * (s - mean)).sum / scores.length
    (confidence scores : ℝ) = 0 ⊔ (1 ⊓ (50 - 50 ⊓ √variance) / 50) := by
  intro values mean variance
  have hfifty : (Scalar.ofNat 50 : ℝ) = 50 := Nat.cast_ofNat
  have hempty : scores.isEmpty = false := by simpa using hne
  simp only [confidence, hempty, Bool.false_eq_true, if_false, Scalar.sum_real, Scalar.min_real,
    hfifty, Scalar.zero_real, Scalar.one_real, Scalar.clamp_real zero_le_one]
  rfl

/-- What a verdict is made of. The findings and the risk score come from all answers; the results
are the last answers of each name, and the confidence comes from the results. So no answer is
missing among the results exactly if all analyzers that answered have names of their own. -/
theorem detect_results {analyzers : List (Analyzer σ)} {t : Target} {v : Verdict σ}
    (h : detect analyzers t = .ok v) :
    let given := answers t analyzers
    let total := Scalar.sum (given.map fun p => p.1.weight)
    v.findings = (given.flatMap fun p => p.2.findings) ∧
      v.riskScore = (if Scalar.lt Scalar.zero total then
        Scalar.toByte (Scalar.sum (given.map fun p =>
          Scalar.ofNat p.2.riskScore.toNat * p.1.weight) / total) else 0) ∧
      v.results = lastOfEach (named given) ∧
      v.confidence = confidence (v.results.map fun e => e.2.riskScore) ∧
      (v.results.Perm (named given) ↔ ((named given).map Prod.fst).Nodup) ∧
      (((named given).map Prod.fst).Nodup →
        v.confidence = confidence (given.map fun p => p.2.riskScore)) := by
  intro given total
  rw [detect_eq] at h
  cases hdiverges : analyzers.findSome? fun a => a.divergence? t with
  | some detail => simp [hdiverges] at h
  | none =>
    simp only [hdiverges, Except.ok.injEq] at h
    subst h
    obtain ⟨hscore, htotal⟩ := weights_addAll (σ := σ) given
    have hresults := results_addAll Votes.none given
    refine ⟨findings_addAll Votes.none given, ?_, hresults, rfl, ?_, fun hnodup => ?_⟩
    · show Votes.riskScore _ = _
      rw [Votes.riskScore, hscore, htotal]
    · show List.Perm (Votes.none.addAll given).results _ ↔ _
      rw [hresults]
      exact lastOfEach_perm_iff
    · show confidence ((Votes.none.addAll given).results.map _) = _
      rw [hresults]
      show confidence ((lastOfEach (named given)).map _) = _
      rw [lastOfEach_eq_self hnodup, named, List.map_map]
      rfl

/-- An analyzer that gives the same score to every target. -/
def steady (name : String) (score : UInt8) : Analyzer σ :=
  ⟨name, Scalar.one, fun _ => true, fun _ => .ok ⟨score, [], []⟩⟩

/-- Analyzers with names of their own: no answer is lost, and the confidence sees that they
disagree. -/
theorem detect_results_two_names :
    ∃ (t : Target) (v : Verdict ℝ), detect [steady "a" 100, steady "b" 0] t = .ok v ∧
      v.results.Perm (named (answers t [steady "a" 100, (steady "b" 0 : Analyzer ℝ)])) ∧
      v.confidence = confidence [100, 0] := by
  let t : Target := .ofContract ⟨"T", [], [], []⟩
  have hdetect : detect [steady "a" 100, (steady "b" 0 : Analyzer ℝ)] t = .ok _ := rfl
  obtain ⟨-, -, -, -, hperm, hconfidence⟩ := detect_results hdetect
  have hnames : ((named (answers t [steady "a" 100, (steady "b" 0 : Analyzer ℝ)])).map
      Prod.fst).Nodup := by
    show ["a", "b"].Nodup
    decide
  exact ⟨t, _, hdetect, hperm.2 hnames, hconfidence hnames⟩

/-- Two analyzers of one name: one of their answers is lost, and the confidence is complete although
the answers could not disagree more. -/
theorem detect_repeated_name :
    ∃ (t : Target) (v : Verdict ℝ), detect [steady "a" 100, steady "a" 0] t = .ok v ∧
      (answers t [steady "a" 100, (steady "a" 0 : Analyzer ℝ)]).map (fun p => p.2.riskScore)
        = [100, 0] ∧
      v.results.map (fun e => e.2.riskScore) = [0] ∧
      v.confidence = 1 ∧ confidence [100, 0] = (0 : ℝ) := by
  refine ⟨.ofContract ⟨"T", [], [], []⟩, _, rfl, rfl, rfl, ?_, ?_⟩
  · show confidence [0] = (1 : ℝ)
    rw [confidence_real (List.cons_ne_nil _ _)]
    norm_num
  · have hscores : ([100, 0] : List UInt8).map (fun s => (s.toNat : ℝ)) = [100, 0] := by
      simp [show UInt8.toNat 100 = 100 from rfl]
    have hroot : √(2500 : ℝ) = 50 := by
      rw [show (2500 : ℝ) = 50 ^ 2 by norm_num, Real.sqrt_sq (by norm_num)]
    have hvariance : (([100, 0] : List ℝ).map fun s =>
        (s - ([100, 0] : List ℝ).sum / 2) * (s - ([100, 0] : List ℝ).sum / 2)).sum / 2 = 2500 := by
      norm_num
    rw [confidence_real (List.cons_ne_nil _ _), hscores]
    simp only [List.length_cons, List.length_nil, Nat.zero_add, Nat.reduceAdd, Nat.cast_ofNat]
    rw [hvariance, hroot]
    norm_num

end Ensemble

end PonziScreen
