import PonziScreen.Ensemble
import PonziScreen.Network.Classifier
import PonziScreen.Rules

/-!
# Analyzers

The two analyzers that screen contracts: the rules, and a classifier of call graphs.
-/

namespace PonziScreen

/-! ## Rules -/

/-- The weight `0.4` for the rules and `0.6` for a classifier. -/
def Rules.weight {σ : Type} [Scalar σ] : σ := Scalar.ratio 2 5

/-- The rules as an analyzer. They can say something about every target. -/
def Rules.analyzer {σ : Type} [Scalar σ] : Analyzer σ where
  name := "static-fact-analysis"
  weight := Rules.weight
  canAnalyze _ := true
  analyze t := .ok (Rules.analyze t)

/-! ## Classifiers -/

/-- A classifier that screens contracts by their feature graphs. -/
structure GraphScreen where
  model : Classifier Float32

/-- What a classifier says about a contract. The two scores need not sum to one. -/
structure GraphPrediction where
  isPonzi : Bool
  riskScore : UInt8
  ponziScore : Float32
  safeScore : Float32
  modelName : String
deriving Repr

namespace GraphPrediction

/-- A score as evidence; one that is not finite has no value there. -/
def scoreValue (x : Float32) : Value := if x.isFinite then .real x.toFloat else .null

/-- A score with three places. -/
def scoreText (x : Float32) : String := (BinaryValue.ofFloat32 x).fixed 3

/-- The finding on a prediction. -/
def finding (p : GraphPrediction) : Finding :=
  let answer := if p.isPonzi then "Ponzi-like call graph" else "no Ponzi pattern"
  let ponzi := scoreText p.ponziScore
  let safe := scoreText p.safeScore
  { severity := .ofScore p.riskScore
    category := .graphModel
    message := s!"{p.modelName} model: {answer} (ponzi {ponzi}, safe {safe})"
    evidence := some (.record [("risk_score", .int p.riskScore.toNat),
      ("ponzi_score", scoreValue p.ponziScore)]) }

/-- The result of an analysis that made a prediction. -/
def result (p : GraphPrediction) : AnalysisResult where
  riskScore := p.riskScore
  findings := [p.finding]
  metadata := [("gnn_model", .text p.modelName), ("gnn_ponzi_score", scoreValue p.ponziScore),
    ("gnn_safe_score", scoreValue p.safeScore)]

/-- The prediction that the scores of a single graph stand for. -/
def ofScores (modelName : String) (scores : Matrix Float32) : Except Failure GraphPrediction := do
  let row ← pick scores.rows 0
  let safeScore ← pick row 0
  let ponziScore ← pick row 1
  let percent := Scalar.clamp (Scalar.ofNat 0) (Scalar.ofNat 100) (ponziScore * Scalar.ofNat 100)
  return {
    isPonzi := decide (safeScore < ponziScore), riskScore := Scalar.toByte percent, ponziScore,
    safeScore, modelName }

end GraphPrediction

namespace GraphScreen

/-- A screen with a trained classifier, which is put into evaluation mode. -/
def ofModel (m : Classifier Float32) : GraphScreen := ⟨m.eval⟩

/-- Predicts for a target. The screen afterwards holds the classifier as its use has left it. -/
def predict (s : GraphScreen) (t : Target) : Except Failure GraphPrediction × GraphScreen :=
  match Batch.ofGraph (FeatureGraph.ofTarget t) with
  | .error failure => (.error failure, s)
  | .ok b =>
    let (scores, m) := s.model.forward b
    (scores.bind (GraphPrediction.ofScores m.modelName), ⟨m⟩)

/-- Analyses a target. -/
def analyze (s : GraphScreen) (t : Target) : Except Failure AnalysisResult × GraphScreen :=
  let (p, s) := s.predict t
  (p.map GraphPrediction.result, s)

/-- There is nothing to classify without functions. -/
def canAnalyze (t : Target) : Bool := 0 < t.facts.calls.nodeCount

/-- The weight of a classifier. -/
def weight {σ : Type} [Scalar σ] : σ := Scalar.ratio 3 5

/-- The screen as an analyzer. -/
def analyzer {σ : Type} [Scalar σ] (s : GraphScreen) : Analyzer σ where
  name := "gnn-call-graph"
  weight := weight
  canAnalyze := canAnalyze
  analyze t := (s.analyze t).1

end GraphScreen

end PonziScreen
