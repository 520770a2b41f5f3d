import Mathlib.Data.List.Basic

/-!
# The order of texts

Texts are compared character by character, and so are the bytes of their encodings. The two orders
are the same, since the encoding of a greater character has a greater byte at the first position
where the encodings differ.

Sorting in the order of texts is therefore sorting by bytes (`pairwise_sort_textBytes`).
-/

namespace PonziScreen

/-- The bytes of a text in UTF-8. -/
def textBytes (s : String) : List UInt8 := s.toUTF8.data.toList

theorem textBytes_eq (s : String) : textBytes s = s.toList.flatMap String.utf8EncodeChar := by
  unfold textBytes
  rw [String.toUTF8_eq_toByteArray, ← String.utf8Encode_toList, List.utf8Encode,
    List.data_toByteArray]

/-- The encoding of a greater character has a greater byte where it differs first, whatever
follows. -/
theorem utf8EncodeChar_append_lt {c d : Char} (h : c < d) (r r' : List UInt8) :
    String.utf8EncodeChar c ++ r < String.utf8EncodeChar d ++ r' := by
  have hlt : c.val.toNat < d.val.toNat := h
  have hd : d.val.toNat < 0x110000 := by
    rcases d.valid with hv | hv
    · exact Nat.lt_trans hv (by decide)
    · exact hv.2
  -- the high parts of a code point, each made from the one below it
  have htwo : ∀ n : Nat, n / 4096 = n / 64 / 64 := fun n => by omega
  have hthree : ∀ n : Nat, n / 262144 = n / 64 / 64 / 64 := fun n => by omega
  generalize hr : (r < r') = rest
  unfold String.utf8EncodeChar
  generalize c.val.toNat = m at *
  generalize d.val.toNat = n at *
  simp only [htwo, hthree]
  split_ifs <;> first
    | omega
    | simp only [List.cons_append, List.nil_append, List.cons_lt_cons_iff, UInt8.lt_iff_toNat_lt,
        ← UInt8.toNat_inj, UInt8.toNat_ofNat', hr]
      omega

theorem flatMap_utf8EncodeChar_lt {s t : List Char} (h : s < t) :
    s.flatMap String.utf8EncodeChar < t.flatMap String.utf8EncodeChar := by
  induction s generalizing t with
  | nil =>
    cases t with
    | nil => exact absurd h (List.not_lt_nil [])
    | cons d t =>
      rw [List.flatMap_cons]
      cases he : String.utf8EncodeChar d with
      | nil =>
        have hlength := String.length_utf8EncodeChar d
        rw [he, List.length_nil] at hlength
        exact absurd hlength.symm (Nat.ne_of_gt d.utf8Size_pos)
      | cons b bytes => exact List.nil_lt_cons b _
  | cons c s ih =>
    cases t with
    | nil => exact absurd h (List.not_lt_nil _)
    | cons d t =>
      rw [List.flatMap_cons, List.flatMap_cons]
      rcases List.cons_lt_cons_iff.1 h with hlt | ⟨rfl, hlt⟩
      · exact utf8EncodeChar_append_lt hlt _ _
      · exact List.append_left_lt (ih hlt)

/-- Texts are ordered by their bytes. -/
theorem lt_iff_textBytes_lt {s t : String} : s < t ↔ textBytes s < textBytes t := by
  rw [textBytes_eq, textBytes_eq, String.lt_iff]
  constructor
  · exact flatMap_utf8EncodeChar_lt
  · intro h
    by_contra hnot
    rcases List.le_iff_lt_or_eq.1 (List.not_lt.1 hnot) with hgt | heq
    · exact List.lt_asymm h (flatMap_utf8EncodeChar_lt hgt)
    · rw [heq] at h
      exact List.lt_irrefl _ h

theorem le_iff_textBytes_le {s t : String} : s ≤ t ↔ textBytes s ≤ textBytes t := by
  show ¬ t < s ↔ ¬ textBytes t < textBytes s
  rw [lt_iff_textBytes_lt]

theorem textBytes_injective {s t : String} (h : textBytes s = textBytes t) : s = t := by
  unfold textBytes at h
  rw [String.toUTF8_eq_toByteArray, String.toUTF8_eq_toByteArray] at h
  exact String.toByteArray_inj.1 (ByteArray.ext (Array.toList_inj.1 h))

/-! ## Sorting -/

theorem text_le_trans {s t u : String} (h : s ≤ t) (h' : t ≤ u) : s ≤ u :=
  le_iff_textBytes_le.2 (List.le_trans (le_iff_textBytes_le.1 h) (le_iff_textBytes_le.1 h'))

theorem text_le_total (s t : String) : s ≤ t ∨ t ≤ s :=
  (List.le_total (textBytes s) (textBytes t)).imp le_iff_textBytes_le.2 le_iff_textBytes_le.2

/-- Things that are sorted by a text are sorted by its bytes. -/
theorem pairwise_sort_textBytes {β : Type} (key : β → String) (items : List β) :
    (items.mergeSort fun a b => decide (key a ≤ key b)).Pairwise
      fun a b => textBytes (key a) ≤ textBytes (key b) := by
  let below := fun a b : β => decide (key a ≤ key b)
  have htrans : ∀ a b c, below a b = true → below b c = true → below a c = true :=
    fun a b c hab hbc =>
      decide_eq_true (text_le_trans (of_decide_eq_true hab) (of_decide_eq_true hbc))
  have htotal : ∀ a b, (below a b || below b a) = true := fun a b => by
    simpa [below] using text_le_total (key a) (key b)
  have hsorted := List.pairwise_mergeSort htrans htotal items
  exact hsorted.imp fun h => le_iff_textBytes_le.1 (of_decide_eq_true h)

end PonziScreen
