/-!
# First and last occurrences

The first and the last item of a list with a property. A search from the front finds the first one;
a walk that lets every item replace what an earlier one has left ends with the last one.
-/

namespace PonziScreen

variable {β : Type} {p : β → Prop} {items : List β} {x : β}

/-- An item of a list has a property, and none before it has. -/
def IsFirst (p : β → Prop) (items : List β) (x : β) : Prop :=
  ∃ before after, items = before ++ x :: after ∧ p x ∧ ∀ y ∈ before, ¬ p y

/-- An item of a list has a property, and none after it has. -/
def IsLast (p : β → Prop) (items : List β) (x : β) : Prop :=
  ∃ before after, items = before ++ x :: after ∧ p x ∧ ∀ y ∈ after, ¬ p y

theorem IsFirst.mem (h : IsFirst p items x) : x ∈ items := by
  obtain ⟨before, after, rfl, -⟩ := h
  exact List.mem_append_right _ List.mem_cons_self

theorem IsFirst.holds (h : IsFirst p items x) : p x := by
  obtain ⟨-, -, -, hx, -⟩ := h
  exact hx

theorem IsLast.mem (h : IsLast p items x) : x ∈ items := by
  obtain ⟨before, after, rfl, -⟩ := h
  exact List.mem_append_right _ List.mem_cons_self

theorem IsLast.holds (h : IsLast p items x) : p x := by
  obtain ⟨-, -, -, hx, -⟩ := h
  exact hx

/-- A search from the front finds the first item with a property. -/
theorem find?_eq_some_iff_isFirst [DecidablePred p] :
    items.find? (fun y => p y) = some x ↔ IsFirst p items x := by
  rw [List.find?_eq_some_iff_append]
  simp only [decide_eq_true_eq, Bool.not_eq_true', decide_eq_false_iff_not]
  constructor
  · rintro ⟨hx, before, after, hitems, hbefore⟩
    exact ⟨before, after, hitems, hx, hbefore⟩
  · rintro ⟨before, after, hitems, hx, hbefore⟩
    exact ⟨hx, before, after, hitems, hbefore⟩

/-- A list with an item that has a property has a last one. -/
theorem exists_isLast (h : ∃ x ∈ items, p x) : ∃ x, IsLast p items x := by
  induction items with
  | nil => simp at h
  | cons y rest ih =>
    by_cases hrest : ∃ x ∈ rest, p x
    · obtain ⟨x, before, after, rfl, hx, hafter⟩ := ih hrest
      exact ⟨x, y :: before, after, rfl, hx, hafter⟩
    · have hnone : ∀ z ∈ rest, ¬ p z := fun z hz hp => hrest ⟨z, hz, hp⟩
      obtain ⟨x, hx, hp⟩ := h
      rcases List.mem_cons.1 hx with rfl | hmem
      · exact ⟨x, [], rest, rfl, hp, hnone⟩
      · exact absurd hp (hnone x hmem)

end PonziScreen
