import PonziScreen.Facts.Basic
import PonziScreen.Failure
import PonziScreen.Scalar
import PonziScreen.Verdict.Basic

/-!
# Ensembles of analyzers

Several analyzers look at one target, and their risk scores are weighed against each other. An
analyzer that declines or fails does not count, except that a diverged model is the failure of the
whole. The confidence is high when the scores lie close together.
-/

namespace PonziScreen

/-- Something that analyses targets, with the weight of its score. -/
structure Analyzer (σ : Type) where
  name : String
  weight : σ
  canAnalyze : Target → Bool
  analyze : Target → Except Failure AnalysisResult

namespace Ensemble

variable {σ : Type} [Scalar σ]

/-! ## Confidence -/

/-- How well some risk scores agree: one if they are all the same, and less by a fiftieth for each
point of their standard deviation. The scores are added in the order of the list; with rounding,
another order of three or more may give another last digit. -/
def confidence (scores : List UInt8) : σ :=
  if scores.isEmpty then Scalar.zero
  else
    let n : σ := Scalar.ofNat scores.length
    let scores : List σ := scores.map fun s => Scalar.ofNat s.toNat
    let mean := Scalar.sum scores / n
    let variance := Scalar.sum (scores.map fun s => (s - mean) * (s - mean)) / n
    let fifty : σ := Scalar.ofNat 50
    let spread := Scalar.min fifty (Scalar.sqrt variance)
    Scalar.clamp Scalar.zero Scalar.one ((fifty - spread) / fifty)

/-! ## Votes -/

/-- What has been gathered from the analyzers so far. -/
structure Votes (σ : Type) where
  weightedScore : σ
  totalWeight : σ
  findings : List Finding
  /-- The results by the names of their analyzers. Nothing promises an order of them; the one that
  is fixed here, by the last answer under each name, is one of all that there may be. -/
  results : List (String × AnalysisResult)

/-- No votes. -/
def Votes.none : Votes σ := ⟨Scalar.zero, Scalar.zero, [], []⟩

/-- Adds a result under the name of its analyzer. Of two results under one name the later one is
kept, but the scores and the findings of both count. -/
def Votes.add (v : Votes σ) (a : Analyzer σ) (r : AnalysisResult) : Votes σ where
  weightedScore := v.weightedScore + Scalar.ofNat r.riskScore.toNat * a.weight
  totalWeight := v.totalWeight + a.weight
  findings := v.findings ++ r.findings
  results := v.results.filter (fun e => e.1 != a.name) ++ [(a.name, r)]

/-- Lets the analyzers vote one after another. -/
def gather (t : Target) (v : Votes σ) : List (Analyzer σ) → Except Failure (Votes σ)
  | [] => .ok v
  | a :: rest =>
    if a.canAnalyze t then
      match a.analyze t with
      | .ok r => gather t (v.add a r) rest
      | .error (.diverged detail) => .error (.diverged detail)
      | .error _ => gather t v rest
    else gather t v rest

/-- The mean of the scores by weight, without its fraction; zero if nothing was weighed. -/
def Votes.riskScore (v : Votes σ) : UInt8 :=
  if Scalar.lt Scalar.zero v.totalWeight then Scalar.toByte (v.weightedScore / v.totalWeight)
  else 0

/-- From this risk score on a contract is taken for a Ponzi scheme. -/
def threshold : UInt8 := 60

/-- The verdict that votes amount to. -/
def Votes.verdict (v : Votes σ) (t : Target) : Verdict σ where
  contract := t.contract.name
  isPonzi := decide (threshold ≤ v.riskScore)
  riskScore := v.riskScore
  confidence := confidence (v.results.map fun e => e.2.riskScore)
  findings := v.findings
  results := v.results

/-- The verdict of some analyzers on a target. -/
def detect (analyzers : List (Analyzer σ)) (t : Target) : Except Failure (Verdict σ) :=
  (gather t .none analyzers).map fun v => v.verdict t

end Ensemble

end PonziScreen
