import PonziScreen.Proofs.CheckedReal
import PonziScreen.Proofs.ParameterTable
import PonziScreen.Proofs.ReadOnly
import PonziScreen.Proofs.Rebatching
import PonziScreen.Proofs.RefusedSteps

/-!
# The life of a classifier

A classifier is built once, and then it is trained, evaluated and used in any order, while an
optimiser writes new numbers into its parameters. `Classifier.Sound` is what all of this keeps: the
settings, the shapes, and running variances above zero. The running estimates are no parameters, so
nothing but training moves them, and there a variance goes a tenth of the way to another one, which
cannot be negative.

* `Classifier.build_sound` — a new classifier is sound
* `Classifier.Sound.apply`, `Classifier.Sound.run` — one operation, and any number of them
* `Classifier.life_sound` — what is true of a classifier at any time, in exact arithmetic
-/

namespace PonziScreen

/-! ## Operations -/

/-- What can be done with a classifier. -/
inductive Operation where
  | train
  | eval
  /-- Asks for the scores of a batch, whether or not there are any. -/
  | forward (b : Batch ℝ)
  /-- Evaluates the classifier, whether or not this succeeds. -/
  | evaluate (batches : List (Batch ℝ))
  /-- Overwrites entries of parameters, given the name, the position and the old value. -/
  | overwrite (f : String → Nat → ℝ → ℝ)

namespace Classifier

/-- A classifier after an operation. -/
noncomputable def apply (m : Classifier ℝ) : Operation → Classifier ℝ
  | .train => m.train
  | .eval => m.eval
  | .forward b => (m.forward b).2
  | .evaluate batches => (m.evaluate batches : Except Failure (Evaluation ℝ) × Classifier ℝ).2
  | .overwrite f => m.mapParameters f

/-- A classifier after several operations. -/
noncomputable def run (m : Classifier ℝ) (operations : List Operation) : Classifier ℝ :=
  operations.foldl apply m

/-- The classifier has the given settings and the shapes that they ask for, and its running
variances are above zero. -/
structure Sound (c : Config ℝ) (m : Classifier ℝ) : Prop where
  config_eq : m.config = c
  shaped : m.Shaped
  positive : ∀ b ∈ m.norms, b.Positive

end Classifier

/-! ## New classifiers -/

section Build

variable {α : Type} [Scalar α] {c : Config α}

theorem Layer.mem_drawStack {n : Nat} {g : Generator} {l : Layer α}
    (h : l ∈ (drawStack c n g).1) : ∃ g', l = (draw c g').1 := by
  induction n generalizing g with
  | zero => cases h
  | succ n ih =>
    rcases List.mem_cons.1 h with rfl | hrest
    · exact ⟨g, rfl⟩
    · exact ih hrest

theorem Layer.norm?_draw {g : Generator} {b : BatchNorm α} (h : (draw c g).1.norm? = some b) :
    b = .initial c.featureSize := by
  unfold draw at h
  split at h
  · have hnorm :
      (if c.batchNorm then some (BatchNorm.initial c.featureSize) else none) = some b := h
    split at hnorm
    · exact (Option.some.inj hnorm).symm
    · cases hnorm
  · cases h
  · cases h
  · cases h

/-- A new classifier has drawn layers, and a normalisation that has seen nothing. -/
theorem Classifier.build_parts {seed : UInt64} {m : Classifier α} (h : build c seed = .ok m) :
    ∃ g, m.layers = (Layer.drawStack c c.layers g).1 ∧ m.norm = .initial c.denseNeurons := by
  unfold build Config.validate at h
  cases hf : c.fault? with
  | some fault => simp [hf, bind, Except.bind] at h
  | none =>
    simp only [hf, bind, Except.bind, pure, Except.pure, Except.ok.injEq] at h
    subst h
    exact ⟨_, rfl, rfl⟩

end Build

/-- An overwritten layer has the normalisation that it had, overwritten. -/
theorem Layer.norm?_mapParameters {l : Layer ℝ} {path : String} {f : String → Nat → ℝ → ℝ}
    {b' : BatchNorm ℝ} (h : (l.mapParameters path f).norm? = some b') :
    ∃ b, l.norm? = some b ∧ b' = b.mapParameters s!"{path}.bn" f := by
  cases l with
  | edgeGated layer =>
    obtain ⟨b, hb, rfl⟩ := Option.map_eq_some_iff.1 h
    exact ⟨b, hb, rfl⟩
  | graphConv layer => cases h
  | attention layer => cases h
  | gatedGraph layer => cases h

namespace Classifier

variable {c : Config ℝ} {m : Classifier ℝ}

theorem build_sound {seed : UInt64} (h : build c seed = .ok m) : m.Sound c := by
  obtain ⟨hshaped, hconfig⟩ := build_shaped h
  obtain ⟨g, hlayers, hnorm⟩ := build_parts h
  refine ⟨hconfig, hshaped, fun b hb => ?_⟩
  obtain ⟨l, hl, hsome⟩ | rfl := mem_norms.1 hb
  · rw [hlayers] at hl
    obtain ⟨g', rfl⟩ := Layer.mem_drawStack hl
    rw [Layer.norm?_draw hsome]
    exact BatchNorm.positive_initial _
  · rw [hnorm]
    exact BatchNorm.positive_initial _

/-! ## Soundness is kept -/

/-- What follows a sound classifier is sound: its normalisations are the same, or they have seen a
matrix. -/
theorem Sound.follows {m' : Classifier ℝ} (h : m.Sound c) (hf : m.Follows m')
    (hshaped : m'.Shaped) : m'.Sound c where
  config_eq := by
    obtain ⟨layers, norm, generator, -, -, -⟩ := hf
    exact h.config_eq
  shaped := hshaped
  positive := by
    intro b' hb'
    obtain ⟨b, hb, hfollows⟩ := hf.exists_norm hb'
    have hpositive := h.positive b hb
    cases hfollows with
    | same => exact hpositive
    | observed x => exact hpositive.observe x

theorem Sound.eval (h : m.Sound c) : m.eval.Sound c :=
  ⟨h.config_eq, eval_shaped h.shaped, h.positive⟩

/-- Parameters are all that is overwritten, and the running estimates are none. -/
theorem Sound.overwrite (h : m.Sound c) (f : String → Nat → ℝ → ℝ) :
    (m.mapParameters f).Sound c where
  config_eq := h.config_eq
  shaped := mapParameters_shaped h.shaped f
  positive := by
    intro b' hb'
    obtain ⟨l', hl', hsome⟩ | rfl := mem_norms.1 hb'
    · obtain ⟨i, hi, rfl⟩ := List.mem_mapIdx.1 hl'
      obtain ⟨b, hb, rfl⟩ := Layer.norm?_mapParameters hsome
      exact (h.positive b (mem_norms.2 (.inl ⟨_, List.getElem_mem hi, hb⟩))).mapParameters _ f
    · exact (h.positive m.norm (mem_norms.2 (.inr rfl))).mapParameters "bn2" f

/-- One operation keeps a classifier sound. -/
theorem Sound.apply (h : m.Sound c) (operation : Operation) : (m.apply operation).Sound c := by
  cases operation with
  | train => exact ⟨h.config_eq, train_shaped h.shaped, h.positive⟩
  | eval => exact h.eval
  | forward b => exact h.follows (m.forward_follows b) (forward_shaped h.shaped b)
  | evaluate batches =>
    have hstate : m.apply (.evaluate batches) = m.eval := m.evaluate_snd batches
    rw [hstate]
    exact h.eval
  | overwrite f => exact h.overwrite f

/-- Any operations keep a classifier sound. -/
theorem Sound.run (h : m.Sound c) (operations : List Operation) : (m.run operations).Sound c := by
  induction operations generalizing m with
  | nil => exact h
  | cons operation rest ih => exact ih (h.apply operation)

/-! ## At any time -/

theorem Sound.signatures (h : m.Sound c) :
    m.parameters.map Parameter.signature = c.parameterTable := by
  rw [h.shaped.signatures, h.config_eq]

theorem Sound.norm_widths (h : m.Sound c) : m.norms.map BatchNorm.width = c.normWidths := by
  rw [h.shaped.norm_widths, h.config_eq]

/-- A classifier can be built from valid settings, and from then on, whatever is done with it, it
keeps its settings, the names and shapes of its parameters and the widths of its normalisations.
Neither scores nor evaluations change a parameter. Its running variances are above zero, and so no
normalisation, of any matrix and in either mode, divides by zero or takes the root of a negative
number. -/
theorem life_sound (hc : c.fault? = none) (seed : UInt64) :
    ∃ built, build c seed = .ok built ∧ ∀ operations : List Operation,
      (built.run operations).config = c ∧
      (built.run operations).parameters.map Parameter.signature =
        built.parameters.map Parameter.signature ∧
      (built.run operations).norms.map BatchNorm.width = built.norms.map BatchNorm.width ∧
      (∀ b, ((built.run operations).forward b).2.parameters =
        (built.run operations).parameters) ∧
      (∀ batches, ((built.run operations).evaluate batches :
        Except Failure (Evaluation ℝ) × Classifier ℝ).2.parameters =
        (built.run operations).parameters) ∧
      ∀ b ∈ (built.run operations).norms, b.Positive ∧ ∀ (x : Matrix ℝ) (training : Bool),
        b.checked.forward (x.map CheckedReal.value) training =
          ((b.forward x training).1.map (Matrix.map CheckedReal.value),
            (b.forward x training).2.checked) := by
  obtain ⟨built, hbuilt⟩ := exists_build seed hc
  have hnew : built.Sound c := build_sound hbuilt
  refine ⟨built, hbuilt, fun operations => ?_⟩
  have hsound : (built.run operations).Sound c := hnew.run operations
  refine ⟨hsound.config_eq, hsound.signatures.trans hnew.signatures.symm,
    hsound.norm_widths.trans hnew.norm_widths.symm, ?_, ?_, ?_⟩
  · exact fun b => (forward_follows _ b).parameters_eq
  · intro batches
    rw [evaluate_snd]
    rfl
  · intro b hb
    exact ⟨hsound.positive b hb, BatchNorm.forward_checked (hsound.positive b hb)⟩

theorem fault?_oneColumn : (oneColumn : Classifier ℝ).config.fault? = none := by
  rw [Config.fault?_eq_none]
  refine ⟨by decide, by decide, rfl, ⟨?_, ?_⟩, by decide, by decide⟩
  · exact decide_eq_true (le_refl (Scalar.zero : ℝ))
  · show decide ((Scalar.zero : ℝ) < Scalar.one) = true
    rw [Scalar.zero_real, Scalar.one_real, decide_eq_true one_pos]

/-- A new classifier with an edge-gated layer, through a training step that is refused half way, an
update of all its parameters, and an evaluation. -/
theorem life_sound_oneColumn :
    (oneColumn : Classifier ℝ).config.fault? = none ∧
    ∃ built m, build (oneColumn : Classifier ℝ).config 0 = .ok built ∧
      m = built.run [.train, .forward pairOfNodes, .overwrite fun _ _ x => x - 1,
        .evaluate [pairOfNodes], .eval] ∧
      m.config = (oneColumn : Classifier ℝ).config ∧
      m.parameters.map Parameter.signature = built.parameters.map Parameter.signature ∧
      m.norms.map BatchNorm.width = built.norms.map BatchNorm.width ∧
      (m.forward pairOfNodes).2.parameters = m.parameters ∧
      ∀ b ∈ m.norms, b.Positive ∧
        b.checked.forward (Matrix.map CheckedReal.value pairOfNodes.features) true =
          ((b.forward pairOfNodes.features true).1.map (Matrix.map CheckedReal.value),
            (b.forward pairOfNodes.features true).2.checked) := by
  obtain ⟨built, hbuilt, hlife⟩ := life_sound fault?_oneColumn 0
  obtain ⟨hconfig, hsignatures, hwidths, hforward, -, hnorms⟩ :=
    hlife [.train, .forward pairOfNodes, .overwrite fun _ _ x => x - 1,
      .evaluate [pairOfNodes], .eval]
  exact ⟨fault?_oneColumn, built, _, hbuilt, rfl, hconfig, hsignatures, hwidths,
    hforward pairOfNodes, fun b hb => ⟨(hnorms b hb).1, (hnorms b hb).2 _ true⟩⟩

end Classifier

end PonziScreen
