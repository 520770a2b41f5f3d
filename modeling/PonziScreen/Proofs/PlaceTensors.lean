import Mathlib.Data.List.Flatten
import PonziScreen.Proofs.PlaceNames
import PonziScreen.Proofs.StateChanges

/-!
# Tables at places

What a classifier has learned stands in tables of numbers, and each of them has its place. The rest
that can change in a classifier are the running estimates of its normalisations, its mode and the
generator of its dropout. Two classifiers of the same settings that agree on all of this are the
same, so no table has been forgotten. What the settings fix, such as the number of steps or whether
a map has a bias, is the same in both because both have the shapes of the settings.

* `Layer.tensor?`, `Classifier.tensor?` — the table at a place
* `Linear.eq_of_tensor?`, `BatchNorm.eq_of_tensor`, `Layer.eq_of_tensor?`,
  `Classifier.eq_of_tensor?` — a part is known by its tables
* `Classifier.runningStatistics_mapParameters` — the running estimates are in none of them
-/

namespace PonziScreen

variable {α : Type}

/-! ## Tables -/

/-- A table of numbers with its shape, by whatever name. -/
structure Tensor (α : Type) where
  shape : List Nat
  entries : List α

namespace Tensor

def ofMatrix (m : Matrix α) : Tensor α := ⟨[m.height, m.width], m.entries⟩

def ofList (xs : List α) : Tensor α := ⟨[xs.length], xs⟩

/-- The table as a parameter. -/
def named (name : String) (t : Tensor α) : Parameter α := ⟨name, t.shape, t.entries⟩

theorem named_inj {name name' : String} {t t' : Tensor α} :
    t.named name = t'.named name' ↔ name = name' ∧ t = t' := by
  cases t
  cases t'
  simp [named]

theorem ofList_injective : Function.Injective (ofList : List α → Tensor α) :=
  fun _ _ h => congrArg entries h

/-- The entries of a matrix, with its shape, are the matrix. -/
theorem ofMatrix_injective : Function.Injective (ofMatrix : Matrix α → Tensor α) := by
  intro m n h
  obtain ⟨hheight, hwidth⟩ : m.height = n.height ∧ m.width = n.width := by
    simpa [ofMatrix] using congrArg shape h
  have hlengths : ∀ k : Matrix α, k.rows.map List.length = List.replicate k.height k.width :=
    fun k => List.eq_replicate_iff.2 ⟨List.length_map _, by simpa using k.uniform⟩
  refine Matrix.eq_of_rows hwidth (List.eq_iff_flatten_eq.2 ⟨congrArg entries h, ?_⟩)
  rw [hlengths, hlengths, hheight, hwidth]

end Tensor

/-! ## Maps and normalisations -/

def Linear.tensor? (l : Linear α) : Half → Option (Tensor α)
  | .weight => some (.ofMatrix l.weight)
  | .bias => l.bias.map .ofList

theorem Linear.eq_of_tensor? {l l' : Linear α} (h : ∀ half, l'.tensor? half = l.tensor? half) :
    l' = l := by
  have hweight : l'.weight = l.weight := Tensor.ofMatrix_injective (Option.some.inj (h .weight))
  have hbias : l'.bias = l.bias := Option.map_injective Tensor.ofList_injective (h .bias)
  cases l
  cases l'
  rw [Linear.mk.injEq]
  exact ⟨hweight, hbias⟩

namespace BatchNorm

def tensor (b : BatchNorm α) : Half → Tensor α
  | .weight => .ofList (b.channels.map NormChannel.weight)
  | .bias => .ofList (b.channels.map NormChannel.bias)

/-- A normalisation is known by what it has learned and what it has seen. -/
theorem eq_of_tensor {b b' : BatchNorm α} (h : ∀ half, b'.tensor half = b.tensor half)
    (hseen : b'.runningStatistics = b.runningStatistics) : b' = b := by
  have hweight : b'.channels.map NormChannel.weight = b.channels.map NormChannel.weight :=
    Tensor.ofList_injective (h .weight)
  have hbias : b'.channels.map NormChannel.bias = b.channels.map NormChannel.bias :=
    Tensor.ofList_injective (h .bias)
  have hlength : b'.channels.length = b.channels.length := by
    simpa using congrArg List.length hweight
  have hchannels : b'.channels = b.channels := by
    refine List.ext_getElem hlength fun j h₁ h₂ => ?_
    have hw := List.getElem_of_eq hweight (by simpa using h₁)
    have hb := List.getElem_of_eq hbias (by simpa using h₁)
    have hs := List.getElem_of_eq hseen (by simpa [runningStatistics] using h₁)
    simp only [runningStatistics, List.getElem_map, Prod.mk.injEq] at hw hb hs
    generalize b'.channels[j] = c' at hw hb hs
    generalize b.channels[j] = c at hw hb hs
    cases c
    cases c'
    simp_all
  cases b
  cases b'
  exact congrArg BatchNorm.mk hchannels

theorem runningStatistics_mapParameters (b : BatchNorm α) (path : String)
    (f : String → Nat → α → α) :
    (b.mapParameters path f).runningStatistics = b.runningStatistics := by
  apply List.ext_getElem
  · simp [runningStatistics, mapParameters]
  · intro j h₁ h₂
    simp [runningStatistics, mapParameters]

end BatchNorm

/-! ## Layers -/

namespace Layer

/-- The table that a layer has at a place, if it has one there. -/
def tensor? : Layer α → LayerPlace → Option (Tensor α)
  | edgeGated l, .lineAttention half => l.lineAttention.tensor? half
  | edgeGated l, .lineNode half => l.lineNode.tensor? half
  | edgeGated l, .norm half => l.norm.map fun b => b.tensor half
  | graphConv l, .related half => l.related.tensor? half
  | graphConv l, .root half => l.root.tensor? half
  | attention l, .map half => l.map.tensor? half
  | attention l, .sourceScore => some (.ofList l.sourceScore)
  | attention l, .targetScore => some (.ofList l.targetScore)
  | attention l, .bias => some (.ofList l.bias)
  | gatedGraph l, .step k half => l.steps[k]?.bind fun w => w.tensor? half
  | gatedGraph l, .cellInput half => l.cell.input.tensor? half
  | gatedGraph l, .cellHidden half => l.cell.hidden.tensor? half
  | _, _ => none

/-- The running estimates of the normalisation of a layer, if it has one. -/
def runningStatistics? (l : Layer α) : Option (List (α × α)) :=
  l.norm?.map BatchNorm.runningStatistics

theorem runningStatistics?_mapParameters (l : Layer α) (path : String)
    (f : String → Nat → α → α) :
    (l.mapParameters path f).runningStatistics? = l.runningStatistics? := by
  cases l with
  | edgeGated l =>
    show (l.norm.map fun b => b.mapParameters s!"{path}.bn" f).map _ = l.norm.map _
    rw [Option.map_map]
    exact Option.map_congr fun b _ => b.runningStatistics_mapParameters _ f
  | _ l => rfl

end Layer

/-- A normalisation that may be missing is known by its tables and by what it has seen. -/
theorem BatchNorm.eq_of_tensor? {o o' : Option (BatchNorm α)}
    (h : ∀ half, (o'.map fun b => b.tensor half) = o.map fun b => b.tensor half)
    (hseen : o'.map BatchNorm.runningStatistics = o.map BatchNorm.runningStatistics) : o' = o := by
  cases o with
  | none => exact Option.map_eq_none_iff.1 hseen
  | some b =>
    obtain ⟨b', rfl, hb⟩ := Option.map_eq_some_iff.1 hseen
    exact congrArg some (BatchNorm.eq_of_tensor (fun half => Option.some.inj (h half)) hb)

theorem EdgeGated.eq_of_tensor? {l l' : EdgeGated α} {channels edgeDim : Nat} {norm : Bool}
    (hl : l.Shaped channels edgeDim norm) (hl' : l'.Shaped channels edgeDim norm)
    (h : ∀ p, (Layer.edgeGated l').tensor? p = (Layer.edgeGated l).tensor? p)
    (hseen : (Layer.edgeGated l').runningStatistics? = (Layer.edgeGated l).runningStatistics?) :
    l' = l := by
  have hattention : l'.lineAttention = l.lineAttention :=
    Linear.eq_of_tensor? fun half => h (.lineAttention half)
  have hnode : l'.lineNode = l.lineNode := Linear.eq_of_tensor? fun half => h (.lineNode half)
  have hnorm : l'.norm = l.norm := BatchNorm.eq_of_tensor? (fun half => h (.norm half)) hseen
  have hchannels := hl'.channels_eq.trans hl.channels_eq.symm
  have hedgeDim := hl'.edgeDim_eq.trans hl.edgeDim_eq.symm
  cases l
  cases l'
  rw [EdgeGated.mk.injEq]
  exact ⟨hchannels, hedgeDim, hattention, hnode, hnorm⟩

theorem GraphConv.eq_of_tensor? {l l' : GraphConv α} {channels : Nat} (hl : l.Shaped channels)
    (hl' : l'.Shaped channels)
    (h : ∀ p, (Layer.graphConv l').tensor? p = (Layer.graphConv l).tensor? p) : l' = l := by
  have hrelated : l'.related = l.related := Linear.eq_of_tensor? fun half => h (.related half)
  have hroot : l'.root = l.root := Linear.eq_of_tensor? fun half => h (.root half)
  have hchannels := hl'.channels_eq.trans hl.channels_eq.symm
  cases l
  cases l'
  rw [GraphConv.mk.injEq]
  exact ⟨hchannels, hrelated, hroot⟩

theorem Attention.eq_of_tensor? {l l' : Attention α} {channels : Nat} (hl : l.Shaped channels)
    (hl' : l'.Shaped channels)
    (h : ∀ p, (Layer.attention l').tensor? p = (Layer.attention l).tensor? p) : l' = l := by
  have hmap : l'.map = l.map := Linear.eq_of_tensor? fun half => h (.map half)
  have hsource : l'.sourceScore = l.sourceScore :=
    Tensor.ofList_injective (Option.some.inj (h .sourceScore))
  have htarget : l'.targetScore = l.targetScore :=
    Tensor.ofList_injective (Option.some.inj (h .targetScore))
  have hbias : l'.bias = l.bias := Tensor.ofList_injective (Option.some.inj (h .bias))
  have hchannels := hl'.channels_eq.trans hl.channels_eq.symm
  cases l
  cases l'
  rw [Attention.mk.injEq]
  exact ⟨hchannels, hmap, hsource, htarget, hbias⟩

theorem GatedGraph.eq_of_tensor? {l l' : GatedGraph α} {channels steps : Nat}
    (hl : l.Shaped channels steps) (hl' : l'.Shaped channels steps)
    (h : ∀ p, (Layer.gatedGraph l').tensor? p = (Layer.gatedGraph l).tensor? p) : l' = l := by
  have hsteps : l'.steps = l.steps := by
    refine List.ext_getElem (hl'.steps_length.trans hl.steps_length.symm) fun k h₁ h₂ => ?_
    refine Linear.eq_of_tensor? fun half => ?_
    simpa [Layer.tensor?, h₁, h₂] using h (.step k half)
  have hinput : l'.cell.input = l.cell.input :=
    Linear.eq_of_tensor? fun half => h (.cellInput half)
  have hhidden : l'.cell.hidden = l.cell.hidden :=
    Linear.eq_of_tensor? fun half => h (.cellHidden half)
  have hsize := hl'.cell.size_eq.trans hl.cell.size_eq.symm
  have hchannels := hl'.channels_eq.trans hl.channels_eq.symm
  obtain ⟨_, _, _, _, _⟩ := l
  obtain ⟨_, _, _, _, _⟩ := l'
  rw [GatedGraph.mk.injEq, GruCell.mk.injEq]
  exact ⟨hchannels, hsteps, hsize, hinput, hhidden⟩

/-- A layer is known by its tables and by what its normalisation has seen. -/
theorem Layer.eq_of_tensor? {c : Config α} {l l' : Layer α} (hl : l.Shaped c) (hl' : l'.Shaped c)
    (h : ∀ p, l'.tensor? p = l.tensor? p) (hseen : l'.runningStatistics? = l.runningStatistics?) :
    l' = l := by
  -- both are of the kind that the settings ask for
  cases l <;> cases l' <;> try exact absurd (hl.1.symm.trans hl'.1) (by decide)
  case edgeGated.edgeGated l l' =>
    exact congrArg edgeGated (EdgeGated.eq_of_tensor? hl.2 hl'.2 h hseen)
  case graphConv.graphConv l l' =>
    exact congrArg graphConv (GraphConv.eq_of_tensor? hl.2 hl'.2 h)
  case attention.attention l l' =>
    exact congrArg attention (Attention.eq_of_tensor? hl.2 hl'.2 h)
  case gatedGraph.gatedGraph l l' =>
    exact congrArg gatedGraph (GatedGraph.eq_of_tensor? hl.2 hl'.2 h)

/-! ## Classifiers -/

namespace Classifier

/-- The table that a classifier has at a place, if it has one there. -/
def tensor? (m : Classifier α) : Place → Option (Tensor α)
  | .edgeFirst half => m.edgeEncoder.bind fun e => e.first.tensor? half
  | .edgeSecond half => m.edgeEncoder.bind fun e => e.second.tensor? half
  | .layer i place => m.layers[i]?.bind fun l => l.tensor? place
  | .hidden half => m.hidden.tensor? half
  | .norm half => some (m.norm.tensor half)
  | .output half => m.output.tensor? half

/-- The running estimates of the normalisation of each layer, if it has one, and those of the
head. -/
def runningStatistics (m : Classifier α) : List (Option (List (α × α))) :=
  m.layers.map Layer.runningStatistics? ++ [some m.norm.runningStatistics]

/-- Writing into parameters moves no running estimates. -/
theorem runningStatistics_mapParameters (m : Classifier α) (f : String → Nat → α → α) :
    (m.mapParameters f).runningStatistics = m.runningStatistics := by
  have hlayers : (m.mapParameters f).layers.map Layer.runningStatistics?
      = m.layers.map Layer.runningStatistics? := by
    apply List.ext_getElem
    · simp [mapParameters]
    · intro i h₁ h₂
      simp [mapParameters, Layer.runningStatistics?_mapParameters]
  have hnorm : (m.mapParameters f).norm.runningStatistics = m.norm.runningStatistics :=
    m.norm.runningStatistics_mapParameters "bn2" f
  rw [runningStatistics, runningStatistics, hlayers, hnorm]

variable [Scalar α] {m m' : Classifier α}

theorem edgeEncoder_eq (hm : m.Shaped) (hm' : m'.Shaped) (hconfig : m'.config = m.config)
    (h : ∀ p, m'.tensor? p = m.tensor? p) : m'.edgeEncoder = m.edgeEncoder := by
  have hsome : m'.edgeEncoder.isSome = m.edgeEncoder.isSome := by
    rw [hm'.encoder_isSome, hm.encoder_isSome, hconfig]
  have hfirst := fun half => h (.edgeFirst half)
  have hsecond := fun half => h (.edgeSecond half)
  simp only [tensor?] at hfirst hsecond
  cases he : m.edgeEncoder with
  | none => rwa [he, Option.isSome_none, Option.isSome_eq_false_iff, Option.isNone_iff_eq_none]
      at hsome
  | some e =>
    rw [he, Option.isSome_some, Option.isSome_iff_exists] at hsome
    obtain ⟨e', he'⟩ := hsome
    simp only [he, he', Option.bind_some] at hfirst hsecond
    have hboth := And.intro (Linear.eq_of_tensor? hfirst) (Linear.eq_of_tensor? hsecond)
    rw [he', Option.some.injEq]
    cases e
    cases e'
    rwa [EdgeEncoder.mk.injEq]

theorem layers_eq (hm : m.Shaped) (hm' : m'.Shaped) (hconfig : m'.config = m.config)
    (h : ∀ p, m'.tensor? p = m.tensor? p)
    (hseen : m'.layers.map Layer.runningStatistics? = m.layers.map Layer.runningStatistics?) :
    m'.layers = m.layers := by
  have hlength : m'.layers.length = m.layers.length := by
    rw [hm'.layers_length, hm.layers_length, hconfig]
  refine List.ext_getElem hlength fun i h₁ h₂ => ?_
  have hl' := hm'.layers _ (List.getElem_mem h₁)
  rw [hconfig] at hl'
  refine Layer.eq_of_tensor? (hm.layers _ (List.getElem_mem h₂)) hl' (fun p => ?_) ?_
  · simpa [tensor?, h₁, h₂] using h (.layer i p)
  · have hl := List.getElem_of_eq hseen (by simpa using h₁)
    rwa [List.getElem_map, List.getElem_map] at hl

/-- A classifier is known by its settings, its tables, its running estimates, its mode and its
generator: it has learned nothing that is not in a table. -/
theorem eq_of_tensor? (hm : m.Shaped) (hm' : m'.Shaped) (hconfig : m'.config = m.config)
    (h : ∀ p, m'.tensor? p = m.tensor? p) (hseen : m'.runningStatistics = m.runningStatistics)
    (htraining : m'.training = m.training) (hgenerator : m'.generator = m.generator) :
    m' = m := by
  obtain ⟨hlayersSeen, hnormSeen⟩ := List.append_inj' hseen rfl
  have hencoder := edgeEncoder_eq hm hm' hconfig h
  have hlayers := layers_eq hm hm' hconfig h hlayersSeen
  have hhidden : m'.hidden = m.hidden := Linear.eq_of_tensor? fun half => h (.hidden half)
  have hnorm : m'.norm = m.norm :=
    BatchNorm.eq_of_tensor (fun half => Option.some.inj (h (.norm half))) (by simpa using hnormSeen)
  have houtput : m'.output = m.output := Linear.eq_of_tensor? fun half => h (.output half)
  cases m
  cases m'
  rw [Classifier.mk.injEq]
  exact ⟨hconfig, hencoder, hlayers, hhidden, hnorm, houtput, htraining, hgenerator⟩

end Classifier

end PonziScreen
