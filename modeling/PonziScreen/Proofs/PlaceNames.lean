import Mathlib.Data.List.Basic

/-!
# Names of places

An optimiser that keeps its own numbers for each parameter knows a parameter by its name only. So
different parameters need different names, however many layers and steps there are.

The tables of numbers that a classifier learns are found at places (`Place`), such as the bias of
the second map of the third layer. The name of a place is the list of its segments with dots between
them. No segment has a dot in it, so the segments can be read back from the name, and the place from
the segments.

* `Place.splitOn_name` — the segments are what is between the dots
* `Place.name_injective` — different places have different names
-/

namespace PonziScreen

/-! ## Places -/

/-- The two tables of a linear map or of a normalisation. -/
inductive Half where
  | weight
  | bias
deriving DecidableEq

/-- Where a layer of any kind may have a table. -/
inductive LayerPlace where
  | lineAttention (half : Half)
  | lineNode (half : Half)
  | norm (half : Half)
  | related (half : Half)
  | root (half : Half)
  | map (half : Half)
  | sourceScore
  | targetScore
  | bias
  | step (k : Nat) (half : Half)
  | cellInput (half : Half)
  | cellHidden (half : Half)
deriving DecidableEq

/-- Where a classifier may have a table. -/
inductive Place where
  | edgeFirst (half : Half)
  | edgeSecond (half : Half)
  | layer (i : Nat) (place : LayerPlace)
  | hidden (half : Half)
  | norm (half : Half)
  | output (half : Half)
deriving DecidableEq

/-! ## Names of places -/

def Half.segment : Half → String
  | weight => "weight"
  | bias => "bias"

/-- What the name of a place in a layer has after the name of the layer. -/
def LayerPlace.segments : LayerPlace → List String
  | lineAttention half => ["line_attention", half.segment]
  | lineNode half => ["line_node", half.segment]
  | norm half => ["bn", half.segment]
  | related half => ["lin_rel", half.segment]
  | root half => ["lin_root", half.segment]
  | map half => ["lin", half.segment]
  | sourceScore => ["att_src"]
  | targetScore => ["att_dst"]
  | bias => ["bias"]
  | step k half => ["weight", toString k, half.segment]
  | cellInput half => ["rnn", "input", half.segment]
  | cellHidden half => ["rnn", "hidden", half.segment]

/-- A segment more in a path is one less after it. -/
theorem intercalate_under (path s : String) (segments : List String) :
    ".".intercalate (path :: s :: segments)
      = ".".intercalate ((path ++ ("." ++ s)) :: segments) := by
  rw [← String.append_assoc]
  rfl

/-- The name of a place in a layer under the path of the layer. -/
def LayerPlace.nameUnder (path : String) (p : LayerPlace) : String :=
  ".".intercalate (path :: p.segments)

/-- The halves of a linear map or a normalisation that is named by one segment. -/
theorem LayerPlace.nameUnder_pair (path s : String) {f : Half → LayerPlace}
    (h : ∀ half, (f half).segments = [s, half.segment]) (half : Half) :
    nameUnder path (f half) = ".".intercalate [path ++ ("." ++ s), half.segment] := by
  rw [nameUnder, h, intercalate_under]

namespace Place

def segments : Place → List String
  | edgeFirst half => ["linear_edge1", half.segment]
  | edgeSecond half => ["linear_edge2", half.segment]
  | layer i place => "gnn_layers" :: toString i :: place.segments
  | hidden half => ["linear1", half.segment]
  | norm half => ["bn2", half.segment]
  | output half => ["linear2", half.segment]

/-- The segments of a place with dots between them. -/
def name (p : Place) : String := ".".intercalate p.segments

end Place

/-! ## Reading names -/

theorem toString_injective : Function.Injective (toString : Nat → String) := by
  intro i k h
  have hdigits : Nat.toDigits 10 i = Nat.toDigits 10 k := by
    rw [← Nat.toList_repr, ← Nat.toList_repr]
    exact congrArg String.toList h
  calc i = Nat.ofDigitChars 10 (Nat.toDigits 10 i) 0 := Nat.ofDigitChars_ten_toDigits.symm
    _ = Nat.ofDigitChars 10 (Nat.toDigits 10 k) 0 := by rw [hdigits]
    _ = k := Nat.ofDigitChars_ten_toDigits

theorem Half.segment_injective : Function.Injective segment := by
  rintro (_ | _) (_ | _) h <;> simp_all [segment]

theorem LayerPlace.segments_injective : Function.Injective segments := by
  intro a b h
  cases a <;> cases b <;>
    simp_all [-Nat.toString_eq_repr, segments, Half.segment_injective.eq_iff,
      toString_injective.eq_iff]

/-- The dot does not occur in the decimal digits of a number. -/
theorem dot_notMem_toString (i : Nat) : '.' ∉ (toString i).toList := by
  intro h
  rw [Nat.toString_eq_repr, Nat.toList_repr] at h
  exact absurd (Nat.isDigit_of_mem_toDigits (by decide) (by decide) h) (by decide)

theorem Half.dot_notMem_segment (half : Half) : '.' ∉ half.segment.toList := by
  cases half <;> decide

theorem LayerPlace.dot_notMem_segments (p : LayerPlace) : ∀ s ∈ p.segments, '.' ∉ s.toList := by
  cases p <;>
    simp [-Nat.toString_eq_repr, segments, Half.dot_notMem_segment, dot_notMem_toString]

namespace Place

theorem segments_injective : Function.Injective segments := by
  intro a b h
  cases a <;> cases b <;>
    simp_all [-Nat.toString_eq_repr, segments, Half.segment_injective.eq_iff,
      toString_injective.eq_iff, LayerPlace.segments_injective.eq_iff]

theorem dot_notMem_segments (p : Place) : ∀ s ∈ p.segments, '.' ∉ s.toList := by
  cases p with
  | layer i place =>
    have hplace := place.dot_notMem_segments
    simp_all [-Nat.toString_eq_repr, segments, dot_notMem_toString]
  | _ half => simp [segments, Half.dot_notMem_segment]

theorem segments_ne_nil (p : Place) : p.segments ≠ [] := by
  cases p <;> exact List.cons_ne_nil _ _

/-- The segments of a name are what is between the dots. -/
theorem splitOn_name (p : Place) : p.name.toList.splitOn '.' = p.segments.map String.toList := by
  rw [name, String.toList_intercalate]
  refine List.splitOn_intercalate '.' ?_ (mt List.map_eq_nil_iff.1 p.segments_ne_nil)
  intro cs hcs
  obtain ⟨s, hs, rfl⟩ := List.mem_map.1 hcs
  exact p.dot_notMem_segments s hs

/-- Different places have different names. -/
theorem name_injective : Function.Injective name := by
  intro p q h
  have hsplit := congrArg (fun s => s.toList.splitOn '.') h
  simp only [splitOn_name] at hsplit
  exact segments_injective (List.map_injective_iff.2 (fun _ _ => String.toList_inj.1) hsplit)

end Place

end PonziScreen
