import Mathlib.Data.Finset.Card
import Mathlib.Data.List.Infix
import Mathlib.Data.List.Nodup
import PonziScreen.Contract.Basic

/-!
# What a contract says

The questions that are asked of a contract, put in terms of its text: which statement transfers
value, and which variables a function reads and writes.
-/

namespace PonziScreen

/-! ## Texts -/

/-- One text stands somewhere in another. -/
def Contains (text part : String) : Prop := part.toList <:+: text.toList

instance (text part : String) : Decidable (Contains text part) :=
  inferInstanceAs (Decidable (part.toList <:+: text.toList))

theorem occursIn_iff {part text : List Char} : occursIn part text = true ↔ part <:+: text := by
  induction text with
  | nil =>
    unfold occursIn
    rw [List.isEmpty_iff, List.infix_nil]
  | cons c rest ih =>
    unfold occursIn
    rw [Bool.or_eq_true, List.isPrefixOf_iff_prefix, ih, List.infix_cons_iff]

theorem includes_iff {text part : String} : includes text part = true ↔ Contains text part :=
  occursIn_iff

/-- A statement transfers value if its text calls `transfer` or `send` of something. -/
theorem Statement.isTransfer_iff {s : Statement} :
    s.isTransfer = true ↔ Contains s.text ".transfer(" ∨ Contains s.text ".send(" := by
  rw [isTransfer, Bool.or_eq_true, includes_iff, includes_iff]

/-! ## Lists without repetitions -/

section FirstSeen

variable {β : Type} [DecidableEq β]

theorem foldl_firstSeen (items seen : List β) (hseen : seen.Nodup) :
    (items.foldl (fun seen b => if b ∈ seen then seen else seen ++ [b]) seen).Nodup ∧
      ∀ b, b ∈ items.foldl (fun seen b => if b ∈ seen then seen else seen ++ [b]) seen ↔
        b ∈ seen ∨ b ∈ items := by
  induction items generalizing seen with
  | nil => exact ⟨hseen, by simp⟩
  | cons a rest ih =>
    rw [List.foldl_cons]
    by_cases ha : a ∈ seen
    · rw [if_pos ha]
      obtain ⟨hnodup, hmem⟩ := ih seen hseen
      refine ⟨hnodup, fun b => (hmem b).trans ?_⟩
      rw [List.mem_cons]
      exact ⟨fun h => h.imp_right Or.inr, fun h => h.elim Or.inl fun h =>
        h.elim (fun heq => Or.inl (heq ▸ ha)) Or.inr⟩
    · rw [if_neg ha]
      have hnew : (seen ++ [a]).Nodup := by
        rw [List.nodup_append_comm]
        exact List.nodup_cons.2 ⟨ha, hseen⟩
      obtain ⟨hnodup, hmem⟩ := ih (seen ++ [a]) hnew
      refine ⟨hnodup, fun b => (hmem b).trans ?_⟩
      rw [List.mem_append, List.mem_singleton, List.mem_cons, or_assoc]

theorem nodup_firstSeen (items : List β) : (firstSeen items).Nodup :=
  (foldl_firstSeen items [] List.nodup_nil).1

theorem mem_firstSeen {items : List β} {b : β} : b ∈ firstSeen items ↔ b ∈ items :=
  ((foldl_firstSeen items [] List.nodup_nil).2 b).trans (by simp)

/-- An item at the end is kept if it has not come before. -/
theorem firstSeen_concat (items : List β) (b : β) :
    firstSeen (items ++ [b]) = if b ∈ items then firstSeen items else firstSeen items ++ [b] := by
  have hlast : firstSeen (items ++ [b])
      = if b ∈ firstSeen items then firstSeen items else firstSeen items ++ [b] :=
    List.foldl_append
  rw [hlast]
  simp only [mem_firstSeen]

end FirstSeen

/-! ## Functions -/

namespace Function

theorem mem_reads {f : Function} {v : String} :
    v ∈ f.reads ↔ ∃ s ∈ f.statements, v ∈ s.reads := by
  rw [reads, mem_firstSeen, List.mem_flatMap]

theorem mem_writes {f : Function} {v : String} :
    v ∈ f.writes ↔ ∃ s ∈ f.statements, v ∈ s.writes := by
  rw [writes, mem_firstSeen, List.mem_flatMap]

theorem nodup_reads (f : Function) : f.reads.Nodup := nodup_firstSeen _

theorem nodup_writes (f : Function) : f.writes.Nodup := nodup_firstSeen _

/-- A function moves native currency itself. -/
def Transfers (f : Function) : Prop :=
  ∃ s ∈ f.statements, Contains s.text ".transfer(" ∨ Contains s.text ".send("

instance : DecidablePred Transfers := fun f => inferInstanceAs
  (Decidable (∃ s ∈ f.statements, Contains s.text ".transfer(" ∨ Contains s.text ".send("))

end Function

/-! ## Functions by number -/

namespace Contract

variable {c : Contract}

/-- Where numbers tell functions apart, a declared function is the only one of its number. -/
theorem filter_id (hids : (c.functions.map Function.id).Nodup) {d : Function}
    (hd : d ∈ c.functions) : c.functions.filter (fun k => k.id = d.id) = [d] := by
  have hsame : c.functions.filter (fun k => k.id = d.id) = c.functions.filter (fun k => k = d) :=
    List.filter_congr fun k hk => decide_eq_decide.2
      ⟨fun h => List.inj_on_of_nodup_map hids hk hd h, congrArg Function.id⟩
  rw [hsame, List.filter_eq, List.count_eq_one_of_mem (List.Nodup.of_map _ hids) hd]
  rfl

theorem filter_id_eq_nil {f : FunctionId} (hf : ∀ d ∈ c.functions, d.id ≠ f) :
    c.functions.filter (fun k => k.id = f) = [] := by
  simpa using hf

theorem functionWith?_eq_head? (f : FunctionId) :
    c.functionWith? f = (c.functions.filter fun k => k.id = f).head? :=
  List.head?_filter.symm

/-- A declared function of a number moves native currency itself. -/
def Transfers (c : Contract) (f : FunctionId) : Prop :=
  ∃ d ∈ c.functions, d.id = f ∧ d.Transfers

instance (c : Contract) : DecidablePred c.Transfers := fun f =>
  inferInstanceAs (Decidable (∃ d ∈ c.functions, d.id = f ∧ d.Transfers))

theorem transfers_iff (hids : (c.functions.map Function.id).Nodup) {d : Function}
    (hd : d ∈ c.functions) : c.Transfers d.id ↔ d.Transfers := by
  constructor
  · rintro ⟨k, hk, hid, ht⟩
    exact List.inj_on_of_nodup_map hids hk hd hid ▸ ht
  · exact fun ht => ⟨d, hd, rfl, ht⟩

end Contract

end PonziScreen
