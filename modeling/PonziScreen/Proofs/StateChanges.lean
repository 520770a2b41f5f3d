import PonziScreen.Proofs.Acceptance

/-!
# What a pass changes

Applying a classifier to a batch gives a result and the classifier as it is afterwards. Little of it
can be different: a normalisation may have seen a matrix, and numbers may have been drawn for
dropout, and both happen in training only. `Classifier.Follows` says so of two classifiers. It asks
for no shapes, and it holds whether or not there was a result, so what is kept by it is kept by
every pass.

* `BatchNorm.Follows`, `Layer.Follows`, `Classifier.Follows` — the same, or later in training
* `Layer.forward_cases` — a layer is refused before it computes, or it gets to its normalisation
* `Classifier.forward_follows` — a pass leads to a classifier that follows
* `Classifier.Follows.eq_of_eval` — in evaluation mode it is the same classifier
* `Classifier.Follows.parameters_eq` — in any mode it has the same parameters
* `Classifier.Follows.exists_norm` — and its normalisations (`Classifier.norms`) follow those that
  were there before
-/

namespace PonziScreen

variable {α : Type} [Scalar α]

/-! ## Normalisations -/

namespace BatchNorm

/-- A normalisation is the same as before, or it has seen a matrix of its width in training. -/
inductive Follows (training : Bool) (b : BatchNorm α) : BatchNorm α → Prop
  | same : Follows training b b
  | observed (x : Matrix α) (htraining : training = true) (hwidth : x.width = b.width)
      (hheight : 2 ≤ x.height) : Follows training b (b.observe x)

theorem forward_follows (b : BatchNorm α) (x : Matrix α) (training : Bool) :
    b.Follows training (b.forward x training).2 := by
  unfold forward
  split
  · rename_i hx
    split
    · rename_i htraining
      split
      · exact .same
      · rename_i hh
        exact .observed x htraining hx (by omega)
    · exact .same
  · exact .same

/-- A matrix that is refused has not been seen. -/
theorem forward_snd_of_error {b : BatchNorm α} {x : Matrix α} {training : Bool} {failure : Failure}
    (h : (b.forward x training).1 = .error failure) : (b.forward x training).2 = b := by
  unfold forward at h ⊢
  split
  · rename_i hx
    rw [dif_pos hx] at h
    split
    · rename_i htraining
      rw [if_pos htraining] at h
      split
      · rfl
      · rename_i hh
        rw [if_neg hh] at h
        cases h
    · rfl
  · rfl

/-- In evaluation mode there is nothing to follow. -/
theorem Follows.eq_of_eval {b b' : BatchNorm α} (h : b.Follows false b') : b' = b := by
  cases h with
  | same => rfl
  | observed x htraining => exact absurd htraining Bool.false_ne_true

/-- Seeing a matrix moves the running estimates, not what is learned. -/
theorem map_observe {β : Type} {f : NormChannel α → β}
    (hf : ∀ c column, f (NormChannel.observe c column) = f c) {b : BatchNorm α} {x : Matrix α}
    (hx : x.width = b.width) : (b.observe x).channels.map f = b.channels.map f := by
  have hlength : x.columns.length = b.channels.length := x.length_columns.trans hx
  apply List.ext_getElem
  · simp [observe, hlength]
  · intro i h₁ h₂
    simp [observe, hf]

theorem Follows.parameters_eq {training : Bool} {b b' : BatchNorm α} (h : b.Follows training b')
    (path : String) : b'.parameters path = b.parameters path := by
  cases h with
  | same => rfl
  | observed x htraining hx hheight =>
    unfold parameters
    rw [map_observe (fun _ _ => rfl) hx, map_observe (fun _ _ => rfl) hx]

end BatchNorm

/-! ## Layers -/

namespace Layer

/-- The normalisation at the end of a layer. -/
def norm? : Layer α → Option (BatchNorm α)
  | edgeGated layer => layer.norm
  | _ => none

/-- A layer is the same as before, but for its normalisation if it has one. -/
inductive Follows (training : Bool) : Layer α → Layer α → Prop
  | same (l : Layer α) : Follows training l l
  | norm {layer : EdgeGated α} {b b' : BatchNorm α} (hb : layer.norm = some b)
      (h : b.Follows training b') :
      Follows training (edgeGated layer) (edgeGated { layer with norm := some b' })

theorem finish_follows (l : Layer α) (training : Bool) (y : Matrix α) :
    l.Follows training (l.finish training y).2 := by
  unfold finish
  split
  · rename_i layer
    split
    · exact .same _
    · rename_i b hb
      exact .norm hb (b.forward_follows y training)
  · exact .same _

/-- A layer whose end refuses a matrix stays as it is. -/
theorem finish_snd_of_error {l : Layer α} {training : Bool} {y : Matrix α} {failure : Failure}
    (h : (l.finish training y).1 = .error failure) : (l.finish training y).2 = l := by
  unfold finish at h ⊢
  split
  · rename_i layer
    split
    · rfl
    · rename_i b hb
      simp only [hb] at h
      show edgeGated { layer with norm := some (b.forward y training).2 } = edgeGated layer
      rw [BatchNorm.forward_snd_of_error h, ← hb]
  · rfl

/-- A layer is refused without any change, or it computes something and then ends. Nothing is asked
of its shapes. -/
theorem forward_cases (l : Layer α) (x : Matrix α) (edges : List (Nat × Nat))
    (edgeFeatures : Option (Matrix α)) (training : Bool) :
    (∃ failure, l.forward x edges edgeFeatures training = (.error failure, l)) ∨
      ∃ y, l.forward x edges edgeFeatures training = l.finish training y := by
  cases l with
  | edgeGated layer =>
    cases hnode : nodeFault? x layer.channels edges with
    | some fault =>
      exact .inl ⟨.shapeMismatch fault, by simp only [forward, EdgeGated.forward, hnode]⟩
    | none =>
      cases hedge : layer.edgeFeatureFault? edges edgeFeatures with
      | some fault =>
        exact .inl ⟨.shapeMismatch fault, by simp only [forward, EdgeGated.forward, hnode, hedge]⟩
      | none =>
        cases hy : layer.residual x edges edgeFeatures with
        | error failure =>
          exact .inl ⟨failure, by simp only [forward, EdgeGated.forward, hnode, hedge, hy]⟩
        | ok y =>
          refine .inr ⟨y, ?_⟩
          cases hb : layer.norm <;>
            simp only [forward, EdgeGated.forward, finish, hnode, hedge, hy, hb]
  | graphConv layer =>
    cases hy : layer.forward x edges with
    | error failure => exact .inl ⟨failure, by simp only [forward, hy]⟩
    | ok y => exact .inr ⟨y, by simp only [forward, finish, hy]⟩
  | attention layer =>
    cases hy : layer.forward x edges with
    | error failure => exact .inl ⟨failure, by simp only [forward, hy]⟩
    | ok y => exact .inr ⟨y, by simp only [forward, finish, hy]⟩
  | gatedGraph layer =>
    cases hy : layer.forward x edges with
    | error failure => exact .inl ⟨failure, by simp only [forward, hy]⟩
    | ok y => exact .inr ⟨y, by simp only [forward, finish, hy]⟩

theorem forward_follows (l : Layer α) (x : Matrix α) (edges : List (Nat × Nat))
    (edgeFeatures : Option (Matrix α)) (training : Bool) :
    l.Follows training (l.forward x edges edgeFeatures training).2 := by
  obtain ⟨failure, h⟩ | ⟨y, h⟩ := l.forward_cases x edges edgeFeatures training
  · rw [h]
    exact .same l
  · rw [h]
    exact l.finish_follows training y

/-- A layer that refuses its input stays as it is. -/
theorem forward_snd_of_error {l : Layer α} {x : Matrix α} {edges : List (Nat × Nat)}
    {edgeFeatures : Option (Matrix α)} {training : Bool} {failure : Failure}
    (h : (l.forward x edges edgeFeatures training).1 = .error failure) :
    (l.forward x edges edgeFeatures training).2 = l := by
  obtain ⟨_, hrefused⟩ | ⟨y, hy⟩ := l.forward_cases x edges edgeFeatures training
  · rw [hrefused]
  · rw [hy] at h ⊢
    exact finish_snd_of_error h

/-- Layers that a batch has gone through, also if it did not get to all of them. -/
theorem forwardStack_follows (edges : List (Nat × Nat)) (edgeFeatures : Option (Matrix α))
    (training : Bool) (layers : List (Layer α)) (x : Matrix α) :
    List.Forall₂ (Follows training) layers
      (forwardStack edges edgeFeatures training layers x).2 := by
  induction layers generalizing x with
  | nil => exact .nil
  | cons l rest ih =>
    have hl := l.forward_follows x edges edgeFeatures training
    unfold forwardStack
    split
    · rename_i hf
      rw [hf] at hl
      exact .cons hl (List.forall₂_same.2 fun k _ => .same k)
    · rename_i y l' hf
      rw [hf] at hl
      exact .cons hl (ih y)

/-- The normalisation of a layer follows the one it had. -/
theorem Follows.norm? {training : Bool} {l l' : Layer α} (h : l.Follows training l')
    {b' : BatchNorm α} (hb' : l'.norm? = some b') :
    ∃ b, l.norm? = some b ∧ b.Follows training b' := by
  cases h with
  | same => exact ⟨b', hb', .same⟩
  | norm hb h =>
    obtain rfl := Option.some.inj hb'
    exact ⟨_, hb, h⟩

theorem Follows.eq_of_eval {l l' : Layer α} (h : l.Follows false l') : l' = l := by
  cases h with
  | same => rfl
  | norm hb h => rw [h.eq_of_eval, ← hb]

theorem Follows.parameters_eq {training : Bool} {l l' : Layer α} (h : l.Follows training l')
    (path : String) : l'.parameters path = l.parameters path := by
  cases h with
  | same => rfl
  | norm hb h =>
    simp only [parameters, EdgeGated.parameters, hb, Option.map_some, h.parameters_eq]

theorem stackParameters_eq {training : Bool} {layers layers' : List (Layer α)}
    (h : List.Forall₂ (Follows training) layers layers') (i : Nat) :
    stackParameters i layers' = stackParameters i layers := by
  induction h generalizing i with
  | nil => rfl
  | cons hl _ ih => rw [stackParameters, stackParameters, hl.parameters_eq, ih]

end Layer

/-! ## Classifiers -/

namespace Classifier

/-- All normalisations of a classifier: those of its layers, and that of its head. -/
def norms (m : Classifier α) : List (BatchNorm α) := m.layers.filterMap Layer.norm? ++ [m.norm]

omit [Scalar α] in
theorem mem_norms {m : Classifier α} {b : BatchNorm α} :
    b ∈ m.norms ↔ (∃ l ∈ m.layers, l.norm? = some b) ∨ b = m.norm := by
  simp [norms]

/-- A classifier is the same as before, but for what training moves: the running estimates of its
normalisations, and the generator. -/
inductive Follows (m : Classifier α) : Classifier α → Prop
  | mk (layers : List (Layer α)) (norm : BatchNorm α) (generator : Generator)
      (hlayers : List.Forall₂ (Layer.Follows m.training) m.layers layers)
      (hnorm : m.norm.Follows m.training norm)
      (hgenerator : m.training = false → generator = m.generator) :
      Follows m { m with layers, norm, generator }

/-- The head moves its normalisation and the generator. -/
theorem head_snd_follows (m : Classifier α) (pooled : Matrix α) :
    ∃ norm generator, m.norm.Follows m.training norm ∧
      (m.training = false → generator = m.generator) ∧
      (m.head pooled).2 = { m with norm, generator } := by
  -- without training nothing is drawn
  obtain ⟨h, generator, hdropout, hgenerator⟩ : ∃ h generator,
      (if m.training then dropout m.config.dropoutRate pooled m.generator
        else (pooled, m.generator)) = (h, generator) ∧
      (m.training = false → generator = m.generator) := by
    cases m.training with
    | false => exact ⟨_, _, rfl, fun _ => rfl⟩
    | true => exact ⟨_, _, rfl, fun h => absurd h.symm Bool.false_ne_true⟩
  unfold head
  rw [hdropout]
  dsimp only
  cases m.hidden.apply h with
  | error failure => exact ⟨m.norm, generator, .same, hgenerator, rfl⟩
  | ok y =>
    refine ⟨_, generator, m.norm.forward_follows (y.map relu) m.training, hgenerator, ?_⟩
    dsimp only
    cases (m.norm.forward (y.map relu) m.training).1 <;> rfl

theorem score_follows (m : Classifier α) (b : Batch α) (edgeFeatures : Option (Matrix α)) :
    m.Follows (m.score b edgeFeatures).2 := by
  have hlayers :=
    Layer.forwardStack_follows b.edges edgeFeatures m.training m.layers b.features
  unfold score
  cases hf : Layer.forwardStack b.edges edgeFeatures m.training m.layers b.features with
  | mk result layers =>
    rw [hf] at hlayers
    cases result with
    | error failure => exact .mk layers m.norm m.generator hlayers .same fun _ => rfl
    | ok x =>
      dsimp only
      cases x.maxPool b.graphOf b.graphCount with
      | error failure => exact .mk layers m.norm m.generator hlayers .same fun _ => rfl
      | ok pooled =>
        obtain ⟨norm, generator, hnorm, hgenerator, hhead⟩ :=
          head_snd_follows { m with layers } pooled
        dsimp only
        rw [hhead]
        exact .mk layers norm generator hlayers hnorm hgenerator

theorem Follows.refl (m : Classifier α) : m.Follows m :=
  .mk m.layers m.norm m.generator (List.forall₂_same.2 fun l _ => .same l) .same fun _ => rfl

/-- What a pass makes of a classifier follows it, whether or not the pass gave scores. -/
theorem forward_follows (m : Classifier α) (b : Batch α) : m.Follows (m.forward b).2 := by
  unfold forward
  split
  · exact .refl m
  · split
    · exact .refl m
    · split
      · exact .refl m
      · split
        · exact .refl m
        · exact score_follows m b _

theorem divergence?_eq_some {m : Classifier α} {failure : Failure}
    (h : m.divergence? = some failure) : ∃ detail, failure = .diverged detail := by
  unfold divergence? at h
  dsimp only at h
  split at h
  · exact ⟨_, (Option.some.inj h).symm⟩
  · split at h
    · cases h
    · exact ⟨_, (Option.some.inj h).symm⟩

/-- A batch is refused before the first layer, without any change, or it gets to the layers. What is
refused that early is not accepted in evaluation mode either. -/
theorem forward_cases {m : Classifier α} (hm : m.Shaped) {b : Batch α} (hcount : b.graphCount ≠ 0)
    (hfinite : m.divergence? = none) :
    (¬ m.eval.Accepts b ∧ ∃ fault, m.forward b = (.error (.shapeMismatch fault), m)) ∨
      ∃ edgeFeatures, m.batchFault? b = none ∧ m.encodeEdges b = .ok edgeFeatures ∧
        m.forward b = m.score b edgeFeatures := by
  unfold forward
  simp only [hfinite, hcount, if_false]
  cases hfault : m.batchFault? b with
  | some fault =>
    refine .inl ⟨fun h => ?_, fault, rfl⟩
    have hnone : m.batchFault? b = none :=
      batchFault?_eq_none.2 ⟨h.width, h.graphOf_length, h.graphOf_lt⟩
    simp [hfault] at hnone
  | none =>
    by_cases hedges : m.config.edgeDim = 0 ∨
        ∃ e, b.edgeFeatures = some e ∧ e.width = m.config.edgeDim
    · obtain ⟨edgeFeatures, hencode, -⟩ := encodeEdges_eq_ok hm (b := b) fun hd =>
        hedges.resolve_left (Nat.ne_of_gt hd)
      exact .inr ⟨edgeFeatures, rfl, hencode, by rw [hencode]⟩
    · obtain ⟨fault, hrefused⟩ := encodeEdges_refused hm hedges
      exact .inl ⟨fun h => hedges h.edgeFeatures, fault, by rw [hrefused]⟩

/-- In evaluation mode there is nothing to follow. -/
theorem Follows.eq_of_eval {m m' : Classifier α} (h : m.Follows m') (he : m.training = false) :
    m' = m := by
  obtain ⟨layers, norm, generator, hlayers, hnorm, hgenerator⟩ := h
  rw [he] at hlayers hnorm
  have hsame : List.Forall₂ Eq m.layers layers := hlayers.imp fun _ _ h => h.eq_of_eval.symm
  rw [List.forall₂_eq_eq_eq] at hsame
  rw [← hsame, hgenerator he, hnorm.eq_of_eval]

/-- Each normalisation follows one that was there before. -/
theorem Follows.exists_norm {m m' : Classifier α} (h : m.Follows m') {b' : BatchNorm α}
    (hb' : b' ∈ m'.norms) : ∃ b ∈ m.norms, b.Follows m.training b' := by
  obtain ⟨layers, norm, generator, hlayers, hnorm, -⟩ := h
  obtain ⟨l', hl', hsome⟩ | rfl := mem_norms.1 hb'
  · obtain ⟨i, hi', rfl⟩ := List.mem_iff_getElem.1 hl'
    have hi : i < m.layers.length := hlayers.length_eq ▸ hi'
    obtain ⟨b, hb, hfollows⟩ := (hlayers.get hi hi').norm? hsome
    exact ⟨b, mem_norms.2 (.inl ⟨_, List.getElem_mem hi, hb⟩), hfollows⟩
  · exact ⟨m.norm, mem_norms.2 (.inr rfl), hnorm⟩

/-- Passes change no parameter. -/
theorem Follows.parameters_eq {m m' : Classifier α} (h : m.Follows m') :
    m'.parameters = m.parameters := by
  obtain ⟨layers, norm, generator, hlayers, hnorm, hgenerator⟩ := h
  simp only [parameters, Layer.stackParameters_eq hlayers, hnorm.parameters_eq]

end Classifier

end PonziScreen
