import Mathlib.Data.List.Nodup
import PonziScreen.Proofs.ParameterTable
import PonziScreen.Proofs.PlaceTensors

/-!
# Names of parameters

The parameters of a classifier are the tables of numbers that it has at its places, in the order of
the places and each under the name of its place. There is one list of places for each kind of layer,
with a place for whatever a layer of this kind can have; where a particular layer has nothing, such
as a missing bias, the list of parameters has a gap.

* `Layer.parameters_eq_listed`, `Classifier.parameters_eq_listed` — the parameters by places
* `Classifier.parameters_at_places`, `Classifier.nodup_names` — every table once, and every name
* `Classifier.named_mem_parameters` — a table is found under the name of its place
* `Classifier.parameters_named` — what is true of the parameters of a classifier at any time
-/

namespace PonziScreen

variable {α : Type}

/-! ## All places in order -/

/-- Both halves, in the order of parameters. -/
def Half.all : List Half := [weight, bias]

/-- The places of a layer, in the order of parameters. There may be no table at some of them. -/
def Layer.places : Layer α → List LayerPlace
  | edgeGated _ => Half.all.map .lineAttention ++ Half.all.map .lineNode ++ Half.all.map .norm
  | graphConv _ => Half.all.map .related ++ Half.all.map .root
  | attention _ => Half.all.map .map ++ [.sourceScore, .targetScore, .bias]
  | gatedGraph l => ((List.range l.steps.length).flatMap fun k => Half.all.map (.step k)) ++
      (Half.all.map .cellInput ++ Half.all.map .cellHidden)

namespace Classifier

/-- The places of the layer of a number; none if there is no such layer. -/
def layerPlaces (m : Classifier α) (i : Nat) : List Place :=
  (m.layers[i]?.map fun l => l.places.map (.layer i)).getD []

/-- The places of a classifier, in the order of parameters. -/
def places (m : Classifier α) : List Place :=
  (Half.all.map .edgeFirst ++ Half.all.map .edgeSecond) ++
    (List.range m.layers.length).flatMap m.layerPlaces ++
    (Half.all.map .hidden ++ Half.all.map .norm ++ Half.all.map .output)

end Classifier

/-! ## Parameters by places -/

/-- The parameters at some places. -/
def listed {ι : Type} (name : ι → String) (tensor? : ι → Option (Tensor α)) (places : List ι) :
    List (Parameter α) :=
  places.filterMap fun p => (tensor? p).map (Tensor.named (name p))

section Listed

variable {ι κ : Type} {name : ι → String} {tensor? : ι → Option (Tensor α)}

theorem listed_append (places places' : List ι) :
    listed name tensor? (places ++ places')
      = listed name tensor? places ++ listed name tensor? places' :=
  List.filterMap_append

theorem listed_flatMap (f : κ → List ι) (items : List κ) :
    listed name tensor? (items.flatMap f)
      = items.flatMap fun k => listed name tensor? (f k) := by
  rw [listed, List.filterMap_flatMap]
  rfl

/-- Two halves under one path. -/
theorem listed_halves (f : Half → ι) {path : String}
    (hname : ∀ half, name (f half) = ".".intercalate [path, half.segment]) :
    listed name tensor? (Half.all.map f)
      = ((tensor? (f .weight)).map (Tensor.named s!"{path}.weight")).toList ++
        ((tensor? (f .bias)).map (Tensor.named s!"{path}.bias")).toList := by
  have hweight : name (f .weight) = s!"{path}.weight" :=
    (hname .weight).trans (intercalate_under path "weight" [])
  have hbias : name (f .bias) = s!"{path}.bias" :=
    (hname .bias).trans (intercalate_under path "bias" [])
  rw [listed, List.filterMap_eq_flatMap_toList, Half.all, List.map_cons, List.map_singleton,
    List.flatMap_cons, List.flatMap_singleton, hweight, hbias]

theorem Linear.listed_eq (l : Linear α) (f : Half → ι) {path : String}
    (hname : ∀ half, name (f half) = ".".intercalate [path, half.segment])
    (htensor : ∀ half, tensor? (f half) = l.tensor? half) :
    listed name tensor? (Half.all.map f) = l.parameters path := by
  rw [listed_halves f hname, htensor, htensor, Linear.tensor?, Linear.tensor?, Option.map_map]
  rfl

theorem BatchNorm.listed_eq (b : BatchNorm α) (f : Half → ι) {path : String}
    (hname : ∀ half, name (f half) = ".".intercalate [path, half.segment])
    (htensor : ∀ half, tensor? (f half) = some (b.tensor half)) :
    listed name tensor? (Half.all.map f) = b.parameters path := by
  rw [listed_halves f hname, htensor, htensor]
  rfl

/-- Each parameter of a list stands at the next place that has a table. -/
theorem forall₂_listed (places : List ι) :
    List.Forall₂ (fun place p => p.name = name place ∧ tensor? place = some ⟨p.shape, p.entries⟩)
      (places.filter fun p => (tensor? p).isSome) (listed name tensor? places) := by
  induction places with
  | nil => exact .nil
  | cons place rest ih =>
    cases ht : tensor? place with
    | none =>
      have hskip : listed name tensor? (place :: rest) = listed name tensor? rest :=
        List.filterMap_cons_none (by rw [ht, Option.map_none])
      rw [List.filter_cons_of_neg (by simp [ht]), hskip]
      exact ih
    | some t =>
      have hfirst : listed name tensor? (place :: rest)
          = t.named (name place) :: listed name tensor? rest :=
        List.filterMap_cons_some (by rw [ht, Option.map_some])
      rw [List.filter_cons_of_pos (by simp [ht]), hfirst]
      exact .cons ⟨rfl, ht⟩ ih

theorem listed_eq_nil {places : List ι} (h : ∀ p ∈ places, tensor? p = none) :
    listed name tensor? places = [] :=
  List.filterMap_eq_nil_iff.2 fun p hp => by rw [h p hp, Option.map_none]

end Listed

/-- Lists made for items that are numbered one after another. -/
theorem numbered_eq {β γ : Type} {f : Nat → β → List γ} {g : Nat → List β → List γ}
    (hnil : ∀ i, g i [] = []) (hcons : ∀ i b rest, g i (b :: rest) = f i b ++ g (i + 1) rest)
    (i : Nat) (items : List β) :
    g i items = (List.range items.length).flatMap fun k =>
      (items[k]?.map fun b => f (i + k) b).getD [] := by
  induction items generalizing i with
  | nil => exact hnil i
  | cons b rest ih =>
    rw [hcons, ih, List.length_cons, List.range_succ_eq_map, List.flatMap_cons, List.flatMap_map]
    simp only [List.getElem?_cons_zero, List.getElem?_cons_succ, Option.map_some, Option.getD_some,
      Nat.add_zero, Nat.succ_eq_add_one, Nat.add_assoc, Nat.add_comm 1]

/-! ## Layers -/

section Layers

open LayerPlace (nameUnder nameUnder_pair)

theorem EdgeGated.parameters_eq_listed (l : EdgeGated α) (path : String) :
    l.parameters path
      = listed (nameUnder path) (Layer.edgeGated l).tensor? (Layer.edgeGated l).places := by
  have hattention : listed (nameUnder path) (Layer.edgeGated l).tensor?
      (Half.all.map .lineAttention) = l.lineAttention.parameters s!"{path}.line_attention" :=
    l.lineAttention.listed_eq _ (nameUnder_pair path "line_attention" fun _ => rfl) fun _ => rfl
  have hnode : listed (nameUnder path) (Layer.edgeGated l).tensor? (Half.all.map .lineNode)
      = l.lineNode.parameters s!"{path}.line_node" :=
    l.lineNode.listed_eq _ (nameUnder_pair path "line_node" fun _ => rfl) fun _ => rfl
  have hnorm : listed (nameUnder path) (Layer.edgeGated l).tensor? (Half.all.map .norm)
      = (l.norm.map fun b => b.parameters s!"{path}.bn").getD [] := by
    cases hb : l.norm with
    | none => exact listed_eq_nil (by simp [Layer.tensor?, hb])
    | some b =>
      exact b.listed_eq LayerPlace.norm (nameUnder_pair path "bn" fun _ => rfl)
        (by simp [Layer.tensor?, hb])
  rw [Layer.places, listed_append, listed_append, hattention, hnode, hnorm]
  rfl

theorem GraphConv.parameters_eq_listed (l : GraphConv α) (path : String) :
    l.parameters path
      = listed (nameUnder path) (Layer.graphConv l).tensor? (Layer.graphConv l).places := by
  have hrelated : listed (nameUnder path) (Layer.graphConv l).tensor? (Half.all.map .related)
      = l.related.parameters s!"{path}.lin_rel" :=
    l.related.listed_eq _ (nameUnder_pair path "lin_rel" fun _ => rfl) fun _ => rfl
  have hroot : listed (nameUnder path) (Layer.graphConv l).tensor? (Half.all.map .root)
      = l.root.parameters s!"{path}.lin_root" :=
    l.root.listed_eq _ (nameUnder_pair path "lin_root" fun _ => rfl) fun _ => rfl
  rw [Layer.places, listed_append, hrelated, hroot]
  rfl

theorem Attention.parameters_eq_listed (l : Attention α) (path : String) :
    l.parameters path
      = listed (nameUnder path) (Layer.attention l).tensor? (Layer.attention l).places := by
  have hmap : listed (nameUnder path) (Layer.attention l).tensor? (Half.all.map .map)
      = l.map.parameters s!"{path}.lin" :=
    l.map.listed_eq _ (nameUnder_pair path "lin" fun _ => rfl) fun _ => rfl
  have hsource : nameUnder path .sourceScore = s!"{path}.att_src" :=
    intercalate_under path "att_src" []
  have htarget : nameUnder path .targetScore = s!"{path}.att_dst" :=
    intercalate_under path "att_dst" []
  have hbias : nameUnder path .bias = s!"{path}.bias" := intercalate_under path "bias" []
  have hvectors : listed (nameUnder path) (Layer.attention l).tensor?
      [.sourceScore, .targetScore, .bias]
      = [.ofList s!"{path}.att_src" l.sourceScore, .ofList s!"{path}.att_dst" l.targetScore,
        .ofList s!"{path}.bias" l.bias] := by
    rw [← hsource, ← htarget, ← hbias]
    rfl
  rw [Layer.places, listed_append, hmap, hvectors]
  rfl

/-- The number of a step is a segment of its own. -/
theorem LayerPlace.nameUnder_step (path : String) (k : Nat) (half : Half) :
    nameUnder path (.step k half) = ".".intercalate [s!"{path}.weight.{k}", half.segment] := by
  have hpath : path ++ ("." ++ "weight") ++ ("." ++ toString k) = s!"{path}.weight.{k}" := by
    calc path ++ ("." ++ "weight") ++ ("." ++ toString k)
        = path ++ ("." ++ "weight" ++ ".") ++ toString k := by simp only [String.append_assoc]
      _ = s!"{path}.weight.{k}" := rfl
  rw [nameUnder, segments, intercalate_under, intercalate_under, hpath]

theorem GatedGraph.stepParameters_eq_listed (l : GatedGraph α) (path : String) :
    GatedGraph.stepParameters path 0 l.steps
      = listed (nameUnder path) (Layer.gatedGraph l).tensor?
        ((List.range l.steps.length).flatMap fun k => Half.all.map (.step k)) := by
  have hstep : ∀ k, listed (nameUnder path) (Layer.gatedGraph l).tensor? (Half.all.map (.step k))
      = (l.steps[k]?.map fun w => w.parameters s!"{path}.weight.{k}").getD [] := by
    intro k
    cases hw : l.steps[k]? with
    | none => exact listed_eq_nil (by simp [Layer.tensor?, hw])
    | some w =>
      exact w.listed_eq (LayerPlace.step k) (LayerPlace.nameUnder_step path k)
        (by simp [Layer.tensor?, hw])
  have hnumbered := numbered_eq (g := GatedGraph.stepParameters path) (fun _ => rfl)
    (fun _ _ _ => rfl) 0 l.steps
  rw [listed_flatMap, hnumbered]
  simp only [hstep, Nat.zero_add]

theorem GatedGraph.parameters_eq_listed (l : GatedGraph α) (path : String) :
    l.parameters path
      = listed (nameUnder path) (Layer.gatedGraph l).tensor? (Layer.gatedGraph l).places := by
  have hinput : listed (nameUnder path) (Layer.gatedGraph l).tensor? (Half.all.map .cellInput)
      = l.cell.input.parameters (s!"{path}.rnn" ++ ("." ++ "input")) :=
    l.cell.input.listed_eq _ (fun half => (intercalate_under path "rnn" _).trans
      (intercalate_under _ "input" _)) fun _ => rfl
  have hhidden : listed (nameUnder path) (Layer.gatedGraph l).tensor? (Half.all.map .cellHidden)
      = l.cell.hidden.parameters (s!"{path}.rnn" ++ ("." ++ "hidden")) :=
    l.cell.hidden.listed_eq _ (fun half => (intercalate_under path "rnn" _).trans
      (intercalate_under _ "hidden" _)) fun _ => rfl
  rw [Layer.places, listed_append, listed_append, ← l.stepParameters_eq_listed path, hinput,
    hhidden]
  rfl

/-- The parameters of a layer are those at its places. -/
theorem Layer.parameters_eq_listed (l : Layer α) (path : String) :
    l.parameters path = listed (nameUnder path) l.tensor? l.places := by
  cases l with
  | edgeGated l => exact l.parameters_eq_listed path
  | graphConv l => exact l.parameters_eq_listed path
  | attention l => exact l.parameters_eq_listed path
  | gatedGraph l => exact l.parameters_eq_listed path

end Layers

/-! ## Classifiers -/

namespace Classifier

/-- The parameters of the layer of a number. -/
theorem listed_layerPlaces (m : Classifier α) (i : Nat) :
    listed Place.name m.tensor? (m.layerPlaces i)
      = (m.layers[i]?.map fun l => l.parameters s!"gnn_layers.{i}").getD [] := by
  rw [layerPlaces]
  cases hl : m.layers[i]? with
  | none => rfl
  | some l =>
    rw [Option.map_some, Option.getD_some, Option.map_some, Option.getD_some,
      l.parameters_eq_listed, listed, List.filterMap_map]
    refine List.filterMap_congr fun p _ => ?_
    rw [Function.comp_apply, tensor?, hl, Option.bind_some]
    rfl

theorem stackParameters_eq_listed (m : Classifier α) :
    Layer.stackParameters 0 m.layers
      = listed Place.name m.tensor? ((List.range m.layers.length).flatMap m.layerPlaces) := by
  have hnumbered := numbered_eq (g := Layer.stackParameters) (fun _ => rfl) (fun _ _ _ => rfl) 0
    m.layers
  rw [listed_flatMap, hnumbered]
  simp only [m.listed_layerPlaces, Nat.zero_add]

theorem encoderParameters_eq_listed (m : Classifier α) :
    (m.edgeEncoder.map fun e => e.first.parameters "linear_edge1" ++
        e.second.parameters "linear_edge2").getD []
      = listed Place.name m.tensor? (Half.all.map .edgeFirst ++ Half.all.map .edgeSecond) := by
  rw [listed_append]
  cases he : m.edgeEncoder with
  | none =>
    rw [listed_eq_nil (by simp [tensor?, he]), listed_eq_nil (by simp [tensor?, he])]
    rfl
  | some e =>
    rw [e.first.listed_eq Place.edgeFirst (fun _ => rfl) (by simp [tensor?, he]),
      e.second.listed_eq Place.edgeSecond (fun _ => rfl) (by simp [tensor?, he])]
    rfl

/-- The parameters of a classifier are those at its places. -/
theorem parameters_eq_listed (m : Classifier α) :
    m.parameters = listed Place.name m.tensor? m.places := by
  have hhidden : listed Place.name m.tensor? (Half.all.map .hidden)
      = m.hidden.parameters "linear1" :=
    m.hidden.listed_eq _ (fun _ => rfl) fun _ => rfl
  have hnorm : listed Place.name m.tensor? (Half.all.map .norm) = m.norm.parameters "bn2" :=
    m.norm.listed_eq _ (fun _ => rfl) fun _ => rfl
  have houtput : listed Place.name m.tensor? (Half.all.map .output)
      = m.output.parameters "linear2" :=
    m.output.listed_eq _ (fun _ => rfl) fun _ => rfl
  rw [places, listed_append, listed_append, ← m.encoderParameters_eq_listed,
    ← m.stackParameters_eq_listed, listed_append, listed_append, hhidden, hnorm, houtput,
    ← List.append_assoc, ← List.append_assoc]
  rfl

end Classifier

/-! ## Every place once -/

theorem Half.mem_all (half : Half) : half ∈ all := by
  cases half <;> decide

/-- A layer has its tables at its places only. -/
theorem Layer.mem_places {l : Layer α} {p : LayerPlace} (h : (l.tensor? p).isSome) :
    p ∈ l.places := by
  cases l with
  | gatedGraph l =>
    cases p with
    | step k half =>
      have hk : k < l.steps.length := by
        by_contra hge
        simp [tensor?, List.getElem?_eq_none (Nat.le_of_not_lt hge)] at h
      simp [places, Half.mem_all, hk]
    | cellInput half => simp [places, Half.mem_all]
    | cellHidden half => simp [places, Half.mem_all]
    | _ => simp [tensor?] at h
  | _ l => cases p <;> simp_all [tensor?, places, Half.mem_all]

theorem Layer.nodup_places (l : Layer α) : l.places.Nodup := by
  cases l with
  | gatedGraph l =>
    have hsteps : ((List.range l.steps.length).flatMap fun k =>
        Half.all.map (LayerPlace.step k)).Nodup := by
      refine List.nodup_flatMap.2 ⟨fun k _ => by simp [Half.all], ?_⟩
      refine List.pairwise_lt_range.imp fun hlt p hp hp' => ?_
      obtain ⟨half, -, rfl⟩ := List.mem_map.1 hp
      obtain ⟨half', -, hsame⟩ := List.mem_map.1 hp'
      cases hsame
      exact Nat.lt_irrefl _ hlt
    refine List.nodup_append.2 ⟨hsteps, by decide, ?_⟩
    rintro p hp _ hcell rfl
    obtain ⟨k, -, hk⟩ := List.mem_flatMap.1 hp
    obtain ⟨half, -, rfl⟩ := List.mem_map.1 hk
    simp at hcell
  | _ l =>
    rw [places]
    decide

namespace Classifier

variable {m : Classifier α}

theorem mem_layerPlaces {i : Nat} {p : Place} (h : p ∈ m.layerPlaces i) :
    ∃ l q, m.layers[i]? = some l ∧ q ∈ l.places ∧ p = .layer i q := by
  unfold layerPlaces at h
  cases hl : m.layers[i]? with
  | none => simp [hl] at h
  | some l =>
    rw [hl, Option.map_some, Option.getD_some] at h
    obtain ⟨q, hq, rfl⟩ := List.mem_map.1 h
    exact ⟨l, q, rfl, hq, rfl⟩

/-- A classifier has its tables at its places only. -/
theorem mem_places {p : Place} (h : (m.tensor? p).isSome) : p ∈ m.places := by
  cases p with
  | layer i q =>
    cases hl : m.layers[i]? with
    | none => simp [tensor?, hl] at h
    | some l =>
      rw [tensor?, hl, Option.bind_some] at h
      obtain ⟨hi, -⟩ := List.getElem?_eq_some_iff.1 hl
      have hq : Place.layer i q ∈ m.layerPlaces i := by
        rw [layerPlaces, hl]
        exact List.mem_map_of_mem (Layer.mem_places h)
      exact List.mem_append_left _ (List.mem_append_right _
        (List.mem_flatMap.2 ⟨i, List.mem_range.2 hi, hq⟩))
  | _ half => simp [places, Half.mem_all]

theorem nodup_places (m : Classifier α) : m.places.Nodup := by
  have hlayers : ((List.range m.layers.length).flatMap m.layerPlaces).Nodup := by
    refine List.nodup_flatMap.2 ⟨fun i _ => ?_, List.pairwise_lt_range.imp fun hlt p hp hp' => ?_⟩
    · unfold layerPlaces
      cases m.layers[i]? with
      | none => exact List.nodup_nil
      | some l => exact l.nodup_places.map fun _ _ h => Place.layer.inj h |>.2
    · obtain ⟨_, q, -, -, rfl⟩ := mem_layerPlaces hp
      obtain ⟨_, q', -, -, hsame⟩ := mem_layerPlaces hp'
      cases hsame
      exact Nat.lt_irrefl _ hlt
  have hlayer : ∀ p ∈ (List.range m.layers.length).flatMap m.layerPlaces,
      ∃ i q, p = .layer i q := by
    intro p hp
    obtain ⟨i, -, hi⟩ := List.mem_flatMap.1 hp
    obtain ⟨-, q, -, -, rfl⟩ := mem_layerPlaces hi
    exact ⟨i, q, rfl⟩
  have hends : ∀ p ∈ Half.all.map Place.edgeFirst ++ Half.all.map Place.edgeSecond,
      p ∉ Half.all.map Place.hidden ++ Half.all.map Place.norm ++ Half.all.map Place.output := by
    decide
  refine List.nodup_append.2 ⟨List.nodup_append.2 ⟨by decide, hlayers, ?_⟩, by decide, ?_⟩
  · rintro p hp _ hq rfl
    obtain ⟨i, q, rfl⟩ := hlayer p hq
    simp at hp
  · rintro p hp _ hq rfl
    rcases List.mem_append.1 hp with hp | hp
    · exact hends p hp hq
    · obtain ⟨i, q, rfl⟩ := hlayer p hp
      simp at hq

/-- The parameters stand at the places that have a table, one by one and under their names. -/
theorem parameters_at_places (m : Classifier α) :
    ∃ places : List Place, places.Nodup ∧ (∀ p, p ∈ places ↔ (m.tensor? p).isSome) ∧
      List.Forall₂ (fun place p => p.name = place.name ∧
        m.tensor? place = some ⟨p.shape, p.entries⟩) places m.parameters := by
  refine ⟨m.places.filter fun p => (m.tensor? p).isSome, m.nodup_places.filter _, fun p => ?_, ?_⟩
  · rw [List.mem_filter]
    exact ⟨fun h => h.2, fun h => ⟨mem_places h, h⟩⟩
  · rw [parameters_eq_listed]
    exact forall₂_listed m.places

/-- No two parameters have the same name. -/
theorem nodup_names (m : Classifier α) : (m.parameters.map Parameter.name).Nodup := by
  obtain ⟨places, hnodup, -, hat⟩ := m.parameters_at_places
  have hnames : m.parameters.map Parameter.name = places.map Place.name := by
    rw [← List.forall₂_eq_eq_eq, List.forall₂_map_left_iff, List.forall₂_map_right_iff]
    exact (hat.imp fun _ _ h => h.1).flip
  rw [hnames]
  exact hnodup.map Place.name_injective

/-- What is at a place can be looked up under the name of the place. -/
theorem named_mem_parameters {m : Classifier α} {p : Place} {t : Tensor α} :
    t.named p.name ∈ m.parameters ↔ m.tensor? p = some t := by
  rw [parameters_eq_listed, listed, List.mem_filterMap]
  constructor
  · rintro ⟨q, -, hq⟩
    obtain ⟨u, hu, hsame⟩ := Option.map_eq_some_iff.1 hq
    obtain ⟨hname, rfl⟩ := Tensor.named_inj.1 hsame
    rwa [← Place.name_injective hname]
  · intro h
    exact ⟨p, mem_places (by rw [h]; rfl), by rw [h, Option.map_some]⟩

/-- Classifiers with the same parameters have the same tables. -/
theorem tensor?_congr {m m' : Classifier α} (h : m'.parameters = m.parameters) (p : Place) :
    m'.tensor? p = m.tensor? p := by
  ext t
  rw [← named_mem_parameters, ← named_mem_parameters, h]

end Classifier

/-! ## Use -/

namespace Classifier

variable [Scalar α] {c : Config α} {m : Classifier α}

/-- A classifier that has been built from the given settings with some seed, and has then been used,
switched and overwritten in any order. -/
inductive Reached (c : Config α) : Classifier α → Prop
  | build {seed : UInt64} {m : Classifier α} (h : build c seed = .ok m) : Reached c m
  | train {m : Classifier α} (h : Reached c m) : Reached c m.train
  | eval {m : Classifier α} (h : Reached c m) : Reached c m.eval
  /-- Scores are asked for, whether or not there are any. -/
  | forward {m : Classifier α} (h : Reached c m) (b : Batch α) : Reached c (m.forward b).2
  /-- Entries of parameters are overwritten, given the name, the position and the old value. -/
  | overwrite {m : Classifier α} (h : Reached c m) (f : String → Nat → α → α) :
    Reached c (m.mapParameters f)

theorem Follows.config_eq {m' : Classifier α} (h : m.Follows m') : m'.config = m.config := by
  obtain ⟨layers, norm, generator, -, -, -⟩ := h
  rfl

theorem Reached.shaped (h : Reached c m) : m.Shaped ∧ m.config = c := by
  induction h with
  | build h => exact build_shaped h
  | train _ ih => exact ⟨train_shaped ih.1, ih.2⟩
  | eval _ ih => exact ⟨eval_shaped ih.1, ih.2⟩
  | @forward m _ b ih => exact ⟨forward_shaped ih.1 b, (m.forward_follows b).config_eq.trans ih.2⟩
  | overwrite _ f ih => exact ⟨mapParameters_shaped ih.1 f, ih.2⟩

/-- Two classifiers built from the same settings are the same if they have the same parameters, have
seen the same and are in the same mode and state of chance. -/
theorem Reached.eq_of_parameters {m' : Classifier α} (h : Reached c m) (h' : Reached c m')
    (hparameters : m'.parameters = m.parameters)
    (hseen : m'.runningStatistics = m.runningStatistics) (htraining : m'.training = m.training)
    (hgenerator : m'.generator = m.generator) : m' = m := by
  obtain ⟨hshaped, hconfig⟩ := h.shaped
  obtain ⟨hshaped', hconfig'⟩ := h'.shaped
  exact eq_of_tensor? hshaped hshaped' (hconfig'.trans hconfig.symm)
    (fun p => tensor?_congr hparameters p) hseen htraining hgenerator

/-- The parameters of a classifier that has been built from valid settings, by any seed, and used in
any way. No two of them have the same name. The names and the shapes are those that the settings ask
for, in their order. The tables of the classifier and its parameters are the same things, each
counted once, and the name of a parameter is that of its place and of no other one. Running
estimates are no parameters: a batch that moves them leaves all parameters as they are, and writing
into parameters leaves the estimates as they are. Apart from parameters and running estimates there
is only the mode and the generator of dropout, so nothing learned is left out. -/
theorem parameters_named (hc : c.fault? = none) :
    Function.Injective Place.name ∧ (∀ seed, ∃ m, build c seed = .ok m) ∧
    ∀ m, Reached c m →
      (m.parameters.map Parameter.name).Nodup ∧
      m.parameters.map Parameter.signature = c.parameterTable ∧
      (∃ places : List Place, places.Nodup ∧ (∀ p, p ∈ places ↔ (m.tensor? p).isSome) ∧
        List.Forall₂ (fun place p => p.name = place.name ∧
          m.tensor? place = some ⟨p.shape, p.entries⟩) places m.parameters) ∧
      (∀ b, (m.forward b).2.parameters = m.parameters) ∧
      (∀ f, (m.mapParameters f).runningStatistics = m.runningStatistics) ∧
      ∀ m', Reached c m' → m'.parameters = m.parameters →
        m'.runningStatistics = m.runningStatistics → m'.training = m.training →
        m'.generator = m.generator → m' = m := by
  refine ⟨Place.name_injective, fun seed => exists_build seed hc, fun m hm => ?_⟩
  obtain ⟨hshaped, hconfig⟩ := hm.shaped
  refine ⟨m.nodup_names, ?_, m.parameters_at_places, fun b => (m.forward_follows b).parameters_eq,
    m.runningStatistics_mapParameters, fun m' hm' => hm.eq_of_parameters hm'⟩
  rw [hshaped.signatures, hconfig]

/-- Settings with a gated graph layer of two steps, and with features of edges. -/
def twoSteps : Config Float32 :=
  { (Config.initial : Config Float32) with
    featureSize := 1, layers := 1, dropoutRate := 0, denseNeurons := 1, edgeDenseNeurons := 1,
    edgeNeurons := 1, edgeDim := 1, layerKind := .gatedGraph, gatedSteps := 2 }

/-- A classifier of two steps after training on no graphs and an update of its parameters. -/
theorem parameters_named_twoSteps :
    twoSteps.fault? = none ∧ ∃ built m, build twoSteps 0 = .ok built ∧
      m = ((built.train.forward Batch.empty).2.mapParameters fun _ _ x => x - 1) ∧
      (m.parameters.map Parameter.name).Nodup ∧
      m.parameters.map Parameter.name = ["linear_edge1.weight", "linear_edge1.bias",
        "linear_edge2.weight", "linear_edge2.bias", "gnn_layers.0.weight.0.weight",
        "gnn_layers.0.weight.1.weight", "gnn_layers.0.rnn.input.weight",
        "gnn_layers.0.rnn.input.bias", "gnn_layers.0.rnn.hidden.weight",
        "gnn_layers.0.rnn.hidden.bias", "linear1.weight", "linear1.bias", "bn2.weight", "bn2.bias",
        "linear2.weight", "linear2.bias"] := by
  have hc : twoSteps.fault? = none := by decide
  obtain ⟨-, hbuild, hreached⟩ := parameters_named hc
  obtain ⟨built, hbuilt⟩ := hbuild 0
  obtain ⟨hnodup, hsignatures, -⟩ := hreached _
    ((((Reached.build hbuilt).train).forward Batch.empty).overwrite fun _ _ x => x - 1)
  refine ⟨hc, built, _, hbuilt, rfl, hnodup, ?_⟩
  have hnames := congrArg (List.map Prod.fst) hsignatures
  rw [List.map_map] at hnames
  exact hnames

end Classifier

end PonziScreen
