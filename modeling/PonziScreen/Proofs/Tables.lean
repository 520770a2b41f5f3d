import PonziScreen.Facts.Basic
import PonziScreen.Proofs.Contract
import PonziScreen.Proofs.Occurrences

/-!
# What tables hold

A table is known by the value that it finds for each key. These lemmas follow that value through the
operations that change a table, and through the walks over a contract that fill one.
-/

namespace PonziScreen

namespace Table

variable {κ ν : Type} [DecidableEq κ]

theorem contains_iff {t : Table κ ν} {k : κ} : t.contains k = true ↔ k ∈ t.keys := by
  simp [contains, keys]

theorem mem_keys_alter {t : Table κ ν} {k a : κ} {f : Option ν → ν} :
    a ∈ (t.alter k f).keys ↔ a = k ∨ a ∈ t.keys :=
  mem_keys_alterEntries

theorem find?_empty (k : κ) : (empty : Table κ ν).find? k = none := rfl

/-- The entry of a key is its only one. -/
theorem mem_entries_iff {t : Table κ ν} {k : κ} {v : ν} :
    (k, v) ∈ t.entries ↔ t.find? k = some v := by
  -- the rest of a table is no table by itself, so the induction is on lists of entries
  have hmem : ∀ {entries : List (κ × ν)}, (entries.map Prod.fst).Nodup →
      ((k, v) ∈ entries ↔ (entries.find? fun e => e.1 = k).map Prod.snd = some v) := by
    intro entries hnodup
    induction entries with
    | nil => simp
    | cons e rest ih =>
      rw [List.map_cons, List.nodup_cons] at hnodup
      rw [List.mem_cons, List.find?_cons]
      by_cases he : e.1 = k
      · have hrest : (k, v) ∉ rest := fun h => hnodup.1 (he ▸ List.mem_map_of_mem h)
        simp only [he, decide_true, Option.map_some, Option.some.injEq, hrest, or_false]
        constructor
        · rintro rfl
          rfl
        · rintro rfl
          rw [← he]
      · have hne : (k, v) ≠ e := fun h => he (by rw [← h])
        simp only [he, decide_false, hne, false_or]
        exact ih hnodup.2
  exact hmem t.nodup

theorem find?_alter_self (t : Table κ ν) (k : κ) (f : Option ν → ν) :
    (t.alter k f).find? k = some (f (t.find? k)) := by
  have hfind : ∀ entries : List (κ × ν),
      ((alterEntries k f entries).find? fun e => e.1 = k).map Prod.snd
        = some (f ((entries.find? fun e => e.1 = k).map Prod.snd)) := by
    intro entries
    induction entries with
    | nil => simp [alterEntries]
    | cons e rest ih =>
      unfold alterEntries
      by_cases he : e.1 = k
      · simp [he]
      · rw [if_neg he, List.find?_cons, List.find?_cons]
        simpa [he] using ih
  exact hfind t.entries

theorem find?_alter_of_ne (t : Table κ ν) {k a : κ} (h : a ≠ k) (f : Option ν → ν) :
    (t.alter k f).find? a = t.find? a := by
  have hfind : ∀ entries : List (κ × ν),
      ((alterEntries k f entries).find? fun e => e.1 = a).map Prod.snd
        = (entries.find? fun e => e.1 = a).map Prod.snd := by
    intro entries
    induction entries with
    | nil => simp [alterEntries, h.symm]
    | cons e rest ih =>
      unfold alterEntries
      by_cases he : e.1 = k
      · rw [if_pos he, List.find?_cons, List.find?_cons]
        simp [he, h.symm]
      · rw [if_neg he, List.find?_cons, List.find?_cons]
        by_cases hea : e.1 = a
        · simp [hea]
        · simpa [hea] using ih
  exact hfind t.entries

theorem find?_insert_self (t : Table κ ν) (k : κ) (v : ν) : (t.insert k v).find? k = some v :=
  find?_alter_self t k _

theorem find?_insert_of_ne (t : Table κ ν) {k a : κ} (h : a ≠ k) (v : ν) :
    (t.insert a v).find? k = t.find? k :=
  find?_alter_of_ne t h.symm _

/-- The entries after a change: a new one for the key, and those of all other keys. -/
theorem mem_entries_alter {t : Table κ ν} {k a : κ} {f : Option ν → ν} {v : ν} :
    (a, v) ∈ (t.alter k f).entries ↔ if a = k then v = f (t.find? k) else (a, v) ∈ t.entries := by
  rw [mem_entries_iff]
  split
  · rename_i ha
    rw [ha, find?_alter_self, Option.some.injEq, eq_comm]
  · rename_i ha
    rw [find?_alter_of_ne t ha, mem_entries_iff]

/-! ## Walks -/

section Walk

variable {ι : Type} {step : Table κ ν → ι → Table κ ν} {k : κ}

/-- A key keeps its value over a walk if no step of the walk touches it. -/
theorem find?_foldl_of_keep {items : List ι}
    (hkeep : ∀ i ∈ items, ∀ t, (step t i).find? k = t.find? k) (t : Table κ ν) :
    (items.foldl step t).find? k = t.find? k := by
  induction items generalizing t with
  | nil => rfl
  | cons i rest ih =>
    rw [List.foldl_cons, ih fun j hj => hkeep j (List.mem_cons_of_mem _ hj),
      hkeep i List.mem_cons_self]

/-- After a walk a key has the value that the last step to touch it has given it. -/
theorem find?_foldl_of_isLast {p : ι → Prop} {items : List ι} {i : ι} {v : ν}
    (hi : IsLast p items i) (hset : ∀ t, (step t i).find? k = some v)
    (hkeep : ∀ j, ¬ p j → ∀ t, (step t j).find? k = t.find? k) (t : Table κ ν) :
    (items.foldl step t).find? k = some v := by
  obtain ⟨before, after, rfl, -, hafter⟩ := hi
  rw [List.foldl_append, List.foldl_cons, find?_foldl_of_keep fun j hj => hkeep j (hafter j hj)]
  exact hset _

end Walk

/-! ## Lists of items -/

/-- What a key holds after items have been added for some keys: what it held before and then its own
items. -/
theorem find?_foldl_push {β ι : Type} (key : ι → κ) (item : ι → β) (items : List ι)
    (t : Table κ (List β)) (k : κ) :
    ((items.foldl (fun t i => t.push (key i) (item i)) t).find? k).getD []
      = (t.find? k).getD [] ++ ((items.filter fun i => key i = k).map item) := by
  induction items generalizing t with
  | nil => simp
  | cons i rest ih =>
    rw [List.foldl_cons, ih, push]
    by_cases hi : key i = k
    · subst hi
      simp [find?_alter_self]
    · rw [find?_alter_of_ne t (fun h => hi h.symm)]
      simp [hi]

theorem mem_keys_foldl_push {β ι : Type} (key : ι → κ) (item : ι → β) (items : List ι)
    (t : Table κ (List β)) (k : κ) :
    k ∈ (items.foldl (fun t i => t.push (key i) (item i)) t).keys ↔
      k ∈ t.keys ∨ ∃ i ∈ items, key i = k := by
  induction items generalizing t with
  | nil => simp
  | cons i rest ih =>
    rw [List.foldl_cons, ih, push, mem_keys_alter]
    simp only [List.mem_cons, exists_eq_or_imp, eq_comm (a := k)]
    rw [or_comm (a := key i = k), or_assoc]

/-- What a key holds after values have been given to keys that had none: what it held before, or
else the first value given to it. -/
theorem find?_foldl_insertNew {ι : Type} (key : ι → κ) (value : ι → ν) (items : List ι)
    (t : Table κ ν) (k : κ) :
    (items.foldl (fun t i => t.insertNew (key i) (value i)) t).find? k
      = (t.find? k).or ((items.find? fun i => key i = k).map value) := by
  induction items generalizing t with
  | nil => simp
  | cons i rest ih =>
    rw [List.foldl_cons, ih, insertNew]
    by_cases hi : key i = k
    · subst hi
      rw [find?_alter_self, List.find?_cons_of_pos (by simp)]
      cases t.find? (key i) <;> rfl
    · rw [find?_alter_of_ne t (fun h => hi h.symm), List.find?_cons_of_neg (by simpa using hi)]

theorem mem_keys_foldl_insertNew {ι : Type} (key : ι → κ) (value : ι → ν) (items : List ι)
    (t : Table κ ν) (k : κ) :
    k ∈ (items.foldl (fun t i => t.insertNew (key i) (value i)) t).keys ↔
      k ∈ t.keys ∨ ∃ i ∈ items, key i = k := by
  induction items generalizing t with
  | nil => simp
  | cons i rest ih =>
    rw [List.foldl_cons, ih, insertNew, mem_keys_alter]
    simp only [List.mem_cons, exists_eq_or_imp, eq_comm (a := k)]
    rw [or_comm (a := key i = k), or_assoc]

end Table

namespace Facts

/-! ## Usage -/

section Usage

variable {used : Function → List String}

/-- What a function adds to a table of uses. -/
def uses (used : Function → List String) (f : Function) : List (String × FunctionRef) :=
  (used f).map fun name => (name, f.ref)

/-- The loop over functions and the loop over names are one loop over uses. -/
theorem usageTable_eq (functions : List Function) :
    usageTable used functions = (functions.flatMap (uses used)).foldl
      (fun (t : Table String (List FunctionRef)) use => t.push use.1 use.2) .empty := by
  unfold usageTable uses
  rw [List.foldl_flatMap]
  simp only [List.foldl_map]

theorem filter_uses {f : Function} (h : (used f).Nodup) (v : String) :
    ((uses used f).filter fun use => use.1 = v).map Prod.snd
      = if v ∈ used f then [f.ref] else [] := by
  have hname : (used f).filter (fun name => name = v) = if v ∈ used f then [v] else [] := by
    rw [List.filter_eq]
    by_cases hv : v ∈ used f
    · rw [if_pos hv, List.count_eq_one_of_mem h hv]
      rfl
    · rw [if_neg hv, List.count_eq_zero_of_not_mem hv]
      rfl
  unfold uses
  rw [List.filter_map, List.map_map]
  show ((used f).filter fun name => name = v).map _ = _
  rw [hname]
  split <;> rfl

/-- The functions that a table of uses lists for a name: those that use it, once each, in order. -/
theorem find?_usageTable {functions : List Function} (h : ∀ f ∈ functions, (used f).Nodup)
    (v : String) :
    ((usageTable used functions).find? v).getD []
      = (functions.filter fun f => v ∈ used f).map Function.ref := by
  rw [usageTable_eq, Table.find?_foldl_push, Table.find?_empty, Option.getD_none, List.nil_append]
  induction functions with
  | nil => rfl
  | cons f rest ih =>
    rw [List.flatMap_cons, List.filter_append, List.map_append,
      filter_uses (h f List.mem_cons_self), ih fun d hd => h d (List.mem_cons_of_mem _ hd)]
    by_cases hv : v ∈ used f
    · simp [hv]
    · simp [hv]

/-- A table of uses has a name exactly if some function uses it. -/
theorem mem_keys_usageTable {functions : List Function} {v : String} :
    v ∈ (usageTable used functions).keys ↔ ∃ f ∈ functions, v ∈ used f := by
  rw [usageTable_eq, Table.mem_keys_foldl_push]
  simp [Table.keys, Table.empty, uses]

end Usage

/-! ## Senders -/

theorem sendFunction?_id {f : Function} {s : SendFunction} (h : sendFunction? f = some s) :
    s.id = f.id := by
  obtain ⟨p, -, rfl⟩ := Option.map_eq_some_iff.1 h
  rfl

/-- A function counts as a sender if one of its statements moves native currency. -/
theorem isSome_sendFunction? {f : Function} :
    (sendFunction? f).isSome ↔ ∃ s ∈ f.statements, s.isTransfer = true := by
  unfold sendFunction?
  rw [Option.isSome_map, List.find?_isSome]
  constructor
  · rintro ⟨p, hp, ht⟩
    exact ⟨p.1, List.fst_mem_of_mem_zipIdx hp, ht⟩
  · rintro ⟨s, hs, ht⟩
    obtain ⟨i, hi, rfl⟩ := List.mem_iff_getElem.1 hs
    exact ⟨(f.statements[i], i), List.mem_zipIdx_iff_getElem?.2 (by simp [hi]), ht⟩

/-- The senders of a contract are the numbers of declared functions that move native currency. -/
theorem isSender_ofContract {c : Contract} {f : FunctionId} :
    (ofContract c).isSender f = true ↔
      ∃ d ∈ c.functions, d.id = f ∧ ∃ s ∈ d.statements, s.isTransfer = true := by
  have hkeys := Table.mem_keys_foldl_insertNew SendFunction.id (fun s => s)
    (c.functions.filterMap sendFunction?) .empty f
  show (sendTable c).contains f = true ↔ _
  rw [Table.contains_iff]
  refine hkeys.trans ⟨?_, ?_⟩
  · rintro (h | ⟨s, hs, rfl⟩)
    · simp [Table.keys, Table.empty] at h
    · obtain ⟨d, hd, hsome⟩ := List.mem_filterMap.1 hs
      refine ⟨d, hd, (sendFunction?_id hsome).symm, isSome_sendFunction?.1 ?_⟩
      rw [hsome]
      rfl
  · rintro ⟨d, hd, rfl, hsends⟩
    obtain ⟨s, hs⟩ := Option.isSome_iff_exists.1 (isSome_sendFunction?.2 hsends)
    exact Or.inr ⟨s, List.mem_filterMap.2 ⟨d, hd, hs⟩, sendFunction?_id hs⟩

theorem isSender_eq (c : Contract) (f : FunctionId) :
    (ofContract c).isSender f = decide (c.Transfers f) := by
  rw [Bool.eq_iff_iff, decide_eq_true_eq, isSender_ofContract]
  simp only [Statement.isTransfer_iff]
  rfl

end Facts

end PonziScreen
