import PonziScreen.Network.Classifier

/-!
# Evaluation

How well a classifier does on labelled batches: the share of graphs whose class it gets right, and
the mean loss over graphs. Totals are kept in a scalar of their own, which may be wider than that of
the model.
-/

namespace PonziScreen

/-- The outcome of an evaluation. -/
structure Evaluation (σ : Type) where
  accuracy : σ
  meanLoss : σ
  graphs : Nat
deriving Repr

/-- Running totals over batches: graphs got right, the sum of losses, and graphs seen. -/
structure Tally (σ : Type) where
  correct : Nat
  loss : σ
  graphs : Nat
deriving Repr

namespace Evaluation

variable {α σ : Type} [Scalar α] [Scalar σ] [Widen α σ]

/-- How many of two lists of classes agree, position by position. -/
def agreements (predicted expected : List Nat) : Nat :=
  (List.zipWith (fun p e => decide (p = e)) predicted expected).count true

/-- Adds the scores of a batch with its labels. -/
def addScores (t : Tally σ) (b : Batch α) (scores labels : Matrix α) :
    Except Failure (Tally σ) := do
  let loss : α ← crossEntropy scores labels
  return {
    correct := t.correct + agreements scores.argmaxRows labels.argmaxRows
    loss := t.loss + (Widen.widen loss : σ) * Scalar.ofNat b.graphCount
    graphs := t.graphs + b.graphCount }

/-- Adds batches one after another. A batch without labels is reported by the number of its first
graph among all graphs. -/
def addBatches (m : Classifier α) (t : Tally σ) :
    List (Batch α) → Except Failure (Tally σ) × Classifier α
  | [] => (.ok t, m)
  | b :: rest =>
    match b.labels with
    | none => (.error (.missingLabel t.graphs), m)
    | some labels =>
      match m.forward b with
      | (.error failure, m) => (.error failure, m)
      | (.ok scores, m) =>
        match addScores t b scores labels with
        | .error failure => (.error failure, m)
        | .ok t => addBatches m t rest

/-- The outcome for totals; zeros if there were no graphs. -/
def ofTally (t : Tally σ) : Evaluation σ :=
  if t.graphs = 0 then ⟨Scalar.zero, Scalar.zero, 0⟩
  else
    let n : σ := Scalar.ofNat t.graphs
    ⟨Scalar.ofNat t.correct / n, t.loss / n, t.graphs⟩

end Evaluation

/-- Evaluates a classifier on labelled batches. The classifier is in evaluation mode afterwards,
also after a failure. -/
def Classifier.evaluate {α σ : Type} [Scalar α] [Scalar σ] [Widen α σ] (m : Classifier α)
    (batches : List (Batch α)) : Except Failure (Evaluation σ) × Classifier α :=
  let (total, m) := Evaluation.addBatches m.eval (⟨0, Scalar.zero, 0⟩ : Tally σ) batches
  (total.map Evaluation.ofTally, m)

end PonziScreen
