import PonziScreen.Network.Evaluation
import PonziScreen.Proofs.Collate
import PonziScreen.Proofs.RefusedSteps
import PonziScreen.Screening

/-!
# Inference only reads

A classifier in evaluation mode stays as it is, whatever it is applied to and whether or not there
is a result. An evaluation puts it into that mode first, so it changes at most the mode, wherever it
stops.

A screen holds a classifier in evaluation mode. It may be asked any number of times, for predictions
and for analyses, about targets that it can read and about others in between: each answer is that of
a new screen. So `GraphScreen.analyzer` may leave out what a use does to the screen.

* `Classifier.forward_snd_of_eval`, `Classifier.evaluate_snd` — what is left of a classifier
* `GraphScreen.answers_eq` — a sequence of uses, one use at a time
* `GraphScreen.answer_ne_misaligned` — no use of a screen asks for something that does not exist
* `GraphScreen.inference_readOnly` — all of it
-/

namespace PonziScreen

/-! ## Classifiers -/

namespace Classifier

variable {α σ : Type} [Scalar α] [Scalar σ] [Widen α σ]

theorem forward_snd_of_eval {m : Classifier α} (he : m.training = false) (b : Batch α) :
    (m.forward b).2 = m :=
  (m.forward_follows b).eq_of_eval he

/-- However far an evaluation gets, the classifier stays as it is. -/
theorem addBatches_snd {m : Classifier α} (he : m.training = false) (t : Tally σ)
    (batches : List (Batch α)) : (Evaluation.addBatches m t batches).2 = m := by
  induction batches generalizing t with
  | nil => rfl
  | cons b rest ih =>
    have hforward := forward_snd_of_eval he b
    unfold Evaluation.addBatches
    split
    · rfl
    · split
      · rename_i hf
        rw [hf] at hforward
        exact hforward
      · rename_i labels _ _ scores m' hf
        rw [hf] at hforward
        obtain rfl : m' = m := hforward
        split
        · rfl
        · exact ih _

/-- An evaluation only sets the mode. -/
theorem evaluate_snd (m : Classifier α) (batches : List (Batch α)) :
    (m.evaluate batches : Except Failure (Evaluation σ) × Classifier α).2 = m.eval :=
  addBatches_snd (σ := σ) rfl _ batches

end Classifier

/-! ## Screens -/

namespace GraphScreen

/-- A use of a screen. -/
inductive Use where
  | predict (t : Target)
  | analyze (t : Target)

/-- What a screen answers to a use. -/
inductive Answer where
  | prediction (result : Except Failure GraphPrediction)
  | analysis (result : Except Failure AnalysisResult)

/-- The failure of a use, if it was one. -/
def Answer.failure? : Answer → Option Failure
  | prediction (.error failure) => some failure
  | analysis (.error failure) => some failure
  | _ => none

/-- Uses a screen, with the screen afterwards. -/
def answer (s : GraphScreen) : Use → Answer × GraphScreen
  | .predict t =>
    let (p, s) := s.predict t
    (.prediction p, s)
  | .analyze t =>
    let (r, s) := s.analyze t
    (.analysis r, s)

/-- Uses a screen several times. -/
def answers (s : GraphScreen) : List Use → List Answer × GraphScreen
  | [] => ([], s)
  | u :: rest =>
    let (a, s) := s.answer u
    let (others, s) := s.answers rest
    (a :: others, s)

theorem predict_snd {s : GraphScreen} (he : s.model.training = false) (t : Target) :
    (s.predict t).2 = s := by
  unfold predict
  split
  · rfl
  · rename_i b _
    show (⟨(s.model.forward b).2⟩ : GraphScreen) = s
    rw [Classifier.forward_snd_of_eval he]

theorem answer_snd {s : GraphScreen} (he : s.model.training = false) (u : Use) :
    (s.answer u).2 = s := by
  cases u with
  | predict t => exact predict_snd he t
  | analyze t => exact predict_snd he t

/-- Uses do not see each other. -/
theorem answers_eq {s : GraphScreen} (he : s.model.training = false) (uses : List Use) :
    s.answers uses = (uses.map fun u => (s.answer u).1, s) := by
  induction uses with
  | nil => rfl
  | cons u rest ih =>
    have hsame := answer_snd he u
    unfold answers
    dsimp only
    rw [hsame, ih]
    rfl

/-! ## No use is out of range -/

/-- A graph that is no batch by itself has a fault. -/
theorem ofGraph_cases {α : Type} [Scalar α] (g : Graph α) :
    (∃ b, Batch.ofGraph g = .ok b ∧ b.graphCount = 1) ∨
      ∃ fault, Batch.ofGraph g = .error (.shapeMismatch fault) := by
  cases hfault : g.fault? with
  | none =>
    obtain ⟨b, hb⟩ := Batch.ofGraph_eq_ok hfault
    exact .inl ⟨b, hb, (Batch.collate_joins (List.cons_ne_nil g []) hb).graphCount⟩
  | some fault =>
    refine .inr ⟨fault, ?_⟩
    simp [Batch.ofGraph, Batch.collate, Batch.firstMisfit?, Batch.misfit?, hfault]

theorem ofScores_eq_ok (modelName : String) {scores : Matrix Float32} (hh : scores.height = 1)
    (hw : scores.width = 2) : ∃ p, GraphPrediction.ofScores modelName scores = .ok p := by
  obtain ⟨row, hrows⟩ := List.length_eq_one_iff.1 hh
  have hrow : row.length = 2 := (scores.uniform row (hrows ▸ List.mem_singleton_self row)).trans hw
  obtain ⟨safe, ponzi, rfl⟩ := List.length_eq_two.1 hrow
  unfold GraphPrediction.ofScores
  rw [hrows]
  exact ⟨_, rfl⟩

/-- A classifier gives a single graph its two scores, or it refuses it, or it has diverged. -/
theorem predict_ne_misaligned {s : GraphScreen} (hm : s.model.Shaped) (t : Target) :
    (s.predict t).1 ≠ .error .misaligned := by
  unfold predict
  obtain ⟨b, hb, hcount⟩ | ⟨fault, hfault⟩ := ofGraph_cases (α := Float32) (FeatureGraph.ofTarget t)
  · rw [hb]
    dsimp only
    have hne : b.graphCount ≠ 0 := by
      rw [hcount]
      exact Nat.one_ne_zero
    cases hdiverged : s.model.divergence? with
    | some failure =>
      obtain ⟨detail, rfl⟩ := Classifier.divergence?_eq_some hdiverged
      simp [Classifier.forward, hdiverged, Except.bind]
    | none =>
      obtain ⟨-, fault, hrefused⟩ | ⟨edgeFeatures, hfault, hencode, hscore⟩ :=
        Classifier.forward_cases hm hne hdiverged
      · simp [hrefused, Except.bind]
      · obtain ⟨haccepted, hrefused⟩ := Classifier.score_answers hm hfault hencode
        rw [hscore]
        by_cases h : s.model.Accepts b
        · obtain ⟨y, hy, hyh, hyw⟩ := haccepted h
          obtain ⟨p, hp⟩ := ofScores_eq_ok (s.model.score b edgeFeatures).2.modelName
            (hyh.trans hcount) (hyw.trans (Config.fault?_eq_none.1 hm.valid).2.2.1)
          simp [hy, hp, Except.bind]
        · obtain ⟨fault, hfault⟩ := hrefused h
          simp [hfault, Except.bind]
  · simp [hfault]

/-- No use of a screen asks for something that does not exist. -/
theorem answer_ne_misaligned {s : GraphScreen} (hm : s.model.Shaped) (u : Use) :
    (s.answer u).1.failure? ≠ some .misaligned := by
  cases u with
  | predict t =>
    have h := predict_ne_misaligned hm t
    show (Answer.prediction (s.predict t).1).failure? ≠ _
    cases hp : (s.predict t).1 <;> simp_all [Answer.failure?]
  | analyze t =>
    have h := predict_ne_misaligned hm t
    show (Answer.analysis ((s.predict t).1.map GraphPrediction.result)).failure? ≠ _
    cases hp : (s.predict t).1 <;> simp_all [Answer.failure?, Except.map]

/-! ## Inference -/

/-- Inference only reads. A classifier in evaluation mode stays as it is, with or without scores; an
evaluation leaves the classifier in that mode and else as it was; and a screen answers each of any
uses, in any order, as a new screen with the same classifier would. -/
theorem inference_readOnly {α σ : Type} [Scalar α] [Scalar σ] [Widen α σ] :
    (∀ m : Classifier α, m.training = false → ∀ b : Batch α, (m.forward b).2 = m) ∧
    (∀ (m : Classifier α) (batches : List (Batch α)),
      (m.evaluate batches : Except Failure (Evaluation σ) × Classifier α).2 = m.eval) ∧
    ∀ (m : Classifier Float32) (uses : List Use),
      (ofModel m).answers uses = (uses.map fun u => ((ofModel m).answer u).1, ofModel m) ∧
      (m.Shaped → ∀ u ∈ uses, ((ofModel m).answer u).1.failure? ≠ some .misaligned) := by
  refine ⟨fun m he b => Classifier.forward_snd_of_eval he b,
    fun m batches => m.evaluate_snd batches, fun m uses => ⟨?_, fun hm u _ => ?_⟩⟩
  · exact answers_eq rfl uses
  · exact answer_ne_misaligned (Classifier.eval_shaped hm) u

/-- A contract with a function that pays out, and two screens that are asked about it three times:
that of a new classifier, which is still in training mode, and that of a classifier for node
features of another width, which refuses each time. -/
theorem inference_readOnly_initial :
    ∃ (m : Classifier Float32) (t : Target),
      m.config = Config.initial ∧ m.Shaped ∧ m.training = true ∧
      t = .ofContract ⟨"Doubler", [], [⟨"paid", "uint", none⟩], [⟨⟨7⟩, "payOut", false, false,
        true, [⟨some "owner.transfer(paid)", ["paid"], []⟩], []⟩]⟩ ∧
      (∀ b : Batch Float32, (m.eval.forward b).2 = m.eval) ∧
      (∀ batches : List (Batch Float32),
        (m.evaluate batches : Except Failure (Evaluation Float) × Classifier Float32).2 = m.eval) ∧
      (ofModel m).answers [.analyze t, .predict t, .analyze t]
        = ([.analyze t, .predict t, .analyze t].map fun u => ((ofModel m).answer u).1, ofModel m) ∧
      ((ofModel m).answer (.analyze t)).1.failure? ≠ some .misaligned ∧
      ((ofModel Classifier.oneColumn).answer (.predict t)).1
        = .prediction (.error (.shapeMismatch (.modelWidth 1 8))) ∧
      (ofModel Classifier.oneColumn).answers [.predict t, .analyze t, .predict t]
        = ([.predict t, .analyze t, .predict t].map
            fun u => ((ofModel Classifier.oneColumn).answer u).1,
          ofModel Classifier.oneColumn) := by
  obtain ⟨built, hbuilt⟩ :=
    Classifier.exists_build 0 (c := (Config.initial : Config Float32)) (by decide)
  obtain ⟨hbuiltShaped, hconfig⟩ := Classifier.build_shaped hbuilt
  let m := built.train
  have hshaped : m.Shaped := Classifier.train_shaped hbuiltShaped
  obtain ⟨hforward, hevaluate, hscreen⟩ :=
    inference_readOnly (α := Float32) (σ := Float)
  let t : Target := .ofContract ⟨"Doubler", [], [⟨"paid", "uint", none⟩],
    [⟨⟨7⟩, "payOut", false, false, true, [⟨some "owner.transfer(paid)", ["paid"], []⟩], []⟩]⟩
  obtain ⟨hanswers, hdefined⟩ := hscreen m [.analyze t, .predict t, .analyze t]
  obtain ⟨hrefused, -⟩ := hscreen Classifier.oneColumn [.predict t, .analyze t, .predict t]
  exact ⟨m, t, hconfig, hshaped, rfl, rfl, fun b => hforward m.eval rfl b,
    fun batches => hevaluate m batches, hanswers, hdefined hshaped _ List.mem_cons_self, rfl,
    hrefused⟩

end GraphScreen

end PonziScreen
