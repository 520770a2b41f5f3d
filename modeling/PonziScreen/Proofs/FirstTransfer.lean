import Mathlib.Order.Bounds.Basic
import PonziScreen.Proofs.Tables

/-!
# The first transfer under a number

The table of senders has an entry for each number under which a function moves native currency. Of
several functions with the number it tells of the first one that does, and of several statements of
that function of the first one that does (`Facts.sends_firstTransfer`).

So the entry of a number depends on little: functions that do not transfer may come and go, and what
stands after the first transfer may be anything.
-/

namespace PonziScreen

/-! ## What the contract says -/

/-- A statement moves native currency. -/
def Statement.Transfers (s : Statement) : Prop :=
  Contains s.text ".transfer(" ∨ Contains s.text ".send("

instance : DecidablePred Statement.Transfers := fun s =>
  inferInstanceAs (Decidable (Contains s.text ".transfer(" ∨ Contains s.text ".send("))

/-- An entry of the table of senders tells of the first transfer of a function. -/
structure SendFunction.TellsOf (e : SendFunction) (d : Function) : Prop where
  id : e.id = d.id
  name : e.name = d.name
  /-- No earlier statement transfers. -/
  index : IsLeast {i | ∃ s, d.statements[i]? = some s ∧ s.Transfers} e.index
  statement : d.statements[e.index]? = some e.statement
  text : e.text = e.statement.text

/-- A search through numbered items finds the one with the least number. -/
theorem find?_zipIdx_eq_some {β : Type} {p : β → Prop} [DecidablePred p] {items : List β} {x : β}
    {i : Nat} : (items.zipIdx.find? fun e => p e.1) = some (x, i) ↔
      IsLeast {j | ∃ y, items[j]? = some y ∧ p y} i ∧ items[i]? = some x := by
  have hfound : ∀ {y : β} {j : Nat}, (items.zipIdx.find? fun e => p e.1) = some (y, j) →
      IsLeast {j | ∃ y, items[j]? = some y ∧ p y} j ∧ items[j]? = some y := by
    intro y j h
    obtain ⟨hy, k, hk, hget, hbefore⟩ := List.find?_eq_some_iff_getElem.1 h
    rw [List.getElem_zipIdx, Nat.zero_add, Prod.mk.injEq] at hget
    obtain ⟨rfl, rfl⟩ := hget
    rw [List.length_zipIdx] at hk
    have hitem : items[k]? = some items[k] := List.getElem?_eq_getElem hk
    refine ⟨⟨⟨_, hitem, of_decide_eq_true hy⟩, ?_⟩, hitem⟩
    rintro l ⟨z, hz, hp⟩
    by_contra hlt
    have hnot := hbefore l (Nat.lt_of_not_le hlt)
    obtain ⟨hl, rfl⟩ := List.getElem?_eq_some_iff.1 hz
    simp [hp] at hnot
  refine ⟨hfound, ?_⟩
  rintro ⟨hleast, hitem⟩
  -- the search finds something, and there is only one least number
  obtain ⟨y, hy, hp⟩ := hleast.1
  have hsome : (items.zipIdx.find? fun e => p e.1).isSome := by
    rw [List.find?_isSome]
    exact ⟨(y, i), List.mk_mem_zipIdx_iff_getElem?.2 hy, decide_eq_true hp⟩
  obtain ⟨⟨z, j⟩, hfind⟩ := Option.isSome_iff_exists.1 hsome
  obtain ⟨hleast', hitem'⟩ := hfound hfind
  obtain rfl := hleast.unique hleast'
  obtain rfl := Option.some.inj (hitem'.symm.trans hitem)
  exact hfind

namespace Facts

variable {c : Contract} {f : FunctionId}

/-! ## One function -/

theorem sendFunction?_eq (d : Function) : sendFunction? d
    = (d.statements.zipIdx.find? fun s => decide s.1.Transfers).map fun s =>
        ⟨d.id, d.name, s.1.text, s.2, s.1⟩ := by
  unfold sendFunction?
  congr 2
  funext s
  rw [Bool.eq_iff_iff, Statement.isTransfer_iff, decide_eq_true_eq]
  rfl

theorem sendFunction?_eq_some_iff {d : Function} {e : SendFunction} :
    sendFunction? d = some e ↔ e.TellsOf d := by
  rw [sendFunction?_eq, Option.map_eq_some_iff]
  constructor
  · rintro ⟨⟨s, i⟩, hfind, rfl⟩
    obtain ⟨hleast, hitem⟩ := find?_zipIdx_eq_some.1 hfind
    exact ⟨rfl, rfl, hleast, hitem, rfl⟩
  · rintro ⟨hid, hname, hleast, hitem, htext⟩
    refine ⟨(e.statement, e.index), find?_zipIdx_eq_some.2 ⟨hleast, hitem⟩, ?_⟩
    rw [← hid, ← hname, ← htext]

/-- What follows after a transfer makes no difference. -/
theorem sendFunction?_of_transfer {d : Function} {shared rest : List Statement}
    (h : d.statements = shared ++ rest) (hs : ∃ s ∈ shared, s.Transfers) (rest' : List Statement) :
    sendFunction? { d with statements := shared ++ rest' } = sendFunction? d := by
  obtain ⟨s, hs, ht⟩ := hs
  have hfound : (shared.zipIdx.find? fun s => decide s.1.Transfers).isSome := by
    obtain ⟨i, hi⟩ := List.mem_iff_getElem?.1 hs
    rw [List.find?_isSome]
    exact ⟨(s, i), List.mk_mem_zipIdx_iff_getElem?.2 hi, decide_eq_true ht⟩
  obtain ⟨found, hfind⟩ := Option.isSome_iff_exists.1 hfound
  rw [sendFunction?_eq, sendFunction?_eq, h]
  simp only [List.zipIdx_append, List.find?_append, hfind, Option.some_or]

/-! ## The table -/

/-- The entry of a number comes from the first function of the number that transfers. -/
theorem find?_sendTable (c : Contract) (f : FunctionId) : (sendTable c).find? f
    = (c.functions.find? fun d => decide (d.id = f ∧ d.Transfers)).bind sendFunction? := by
  have htable := Table.find?_foldl_insertNew SendFunction.id (fun s => s)
    (c.functions.filterMap sendFunction?) .empty f
  have hsends : ∀ d : Function, (sendFunction? d).any (fun e => decide (e.id = f))
      = decide (d.id = f ∧ d.Transfers) := by
    intro d
    have hsome : (sendFunction? d).isSome ↔ d.Transfers := by
      rw [isSome_sendFunction?]
      simp only [Statement.isTransfer_iff]
      rfl
    cases hd : sendFunction? d with
    | none =>
      rw [hd] at hsome
      simp [← hsome]
    | some e =>
      rw [hd] at hsome
      simp [← hsome, sendFunction?_id hd]
  rw [Table.find?_empty, Option.none_or, Option.map_id'] at htable
  refine htable.trans ?_
  rw [List.find?_filterMap]
  simp only [hsends]

/-- Only functions before one that transfers can stand in its way. -/
theorem find?_sendTable_of_transfers {before after : List Function} {d : Function}
    (h : c.functions = before ++ d :: after) (hid : d.id = f) (hd : d.Transfers) :
    (sendTable c).find? f
      = sendFunction? ((before.find? fun d => decide (d.id = f ∧ d.Transfers)).getD d) := by
  have hhead : decide (d.id = f ∧ d.Transfers) = true := decide_eq_true ⟨hid, hd⟩
  rw [find?_sendTable, h, List.find?_append, List.find?_cons, hhead]
  cases before.find? fun d => decide (d.id = f ∧ d.Transfers) <;> rfl

theorem mem_keys_sendTable :
    f ∈ (sendTable c).keys ↔ ∃ d ∈ c.functions, d.id = f ∧ d.Transfers := by
  rw [← Table.contains_iff]
  refine (Bool.eq_iff_iff.1 (isSender_eq c f)).trans ?_
  rw [decide_eq_true_eq]
  rfl

theorem find?_sendTable_eq_some_iff {e : SendFunction} : (sendTable c).find? f = some e ↔
    ∃ d, IsFirst (fun d => d.id = f ∧ d.Transfers) c.functions d ∧ e.TellsOf d := by
  rw [find?_sendTable, Option.bind_eq_some_iff]
  simp only [find?_eq_some_iff_isFirst, sendFunction?_eq_some_iff]

/-- Functions that do not transfer make no difference. -/
theorem find?_sendTable_congr {c' : Contract}
    (h : (c'.functions.filter fun d => d.Transfers) = (c.functions.filter fun d => d.Transfers)) :
    (sendTable c').find? f = (sendTable c).find? f := by
  have hsearch : ∀ c : Contract, c.functions.find? (fun d => decide (d.id = f ∧ d.Transfers))
      = (c.functions.filter fun d => d.Transfers).find? fun d => decide (d.id = f) := by
    intro c
    rw [List.find?_filter]
    simp only [Bool.decide_and, Bool.decide_coe, Bool.and_comm]
  rw [find?_sendTable, find?_sendTable, hsearch, hsearch, h]

/-- What follows after a transfer makes no difference, in the function and after it. -/
theorem find?_sendTable_of_later {before after : List Function} {d : Function}
    {shared rest : List Statement} (h : c.functions = before ++ d :: after) (hid : d.id = f)
    (hstatements : d.statements = shared ++ rest) (hs : ∃ s ∈ shared, s.Transfers)
    (rest' : List Statement) (after' : List Function) :
    (sendTable { c with functions :=
        before ++ { d with statements := shared ++ rest' } :: after' }).find? f
      = (sendTable c).find? f := by
  obtain ⟨s, hmem, ht⟩ := hs
  let changed : Function := { d with statements := shared ++ rest' }
  have hd : d.Transfers := ⟨s, hstatements ▸ List.mem_append_left _ hmem, ht⟩
  have hchanged : changed.Transfers := ⟨s, List.mem_append_left _ hmem, ht⟩
  refine (find?_sendTable_of_transfers (d := changed) rfl hid hchanged).trans
    (.trans ?_ (find?_sendTable_of_transfers h hid hd).symm)
  cases before.find? fun d => decide (d.id = f ∧ d.Transfers) with
  | some first => rfl
  | none => exact sendFunction?_of_transfer hstatements ⟨s, hmem, ht⟩ rest'

/-- The table of senders. A number has an entry exactly if a function of the number transfers value,
and the entry tells of the first one. It stays the same when functions that do not transfer are
added or taken out, and whatever comes after a transfer, later in the function or in later
functions. -/
theorem sends_firstTransfer (c : Contract) (f : FunctionId) :
    let sends := (ofContract c).sends
    (f ∈ sends.keys ↔ ∃ d ∈ c.functions, d.id = f ∧ ∃ s ∈ d.statements,
      Contains s.text ".transfer(" ∨ Contains s.text ".send(") ∧
    (∀ e, sends.find? f = some e ↔
      ∃ d, IsFirst (fun d => d.id = f ∧ d.Transfers) c.functions d ∧ e.TellsOf d) ∧
    (∀ c' : Contract, (c'.functions.filter fun d => d.Transfers)
        = (c.functions.filter fun d => d.Transfers) →
      (ofContract c').sends.find? f = sends.find? f) ∧
    ∀ before d after shared rest, c.functions = before ++ d :: after → d.id = f →
      d.statements = shared ++ rest → (∃ s ∈ shared, s.Transfers) → ∀ rest' after',
        (ofContract { c with functions :=
          before ++ { d with statements := shared ++ rest' } :: after' }).sends.find? f
            = sends.find? f := by
  refine ⟨mem_keys_sendTable, fun e => find?_sendTable_eq_some_iff, fun c' => find?_sendTable_congr,
    ?_⟩
  intro before d after shared rest hfunctions hid hstatements hs
  exact find?_sendTable_of_later hfunctions hid hstatements hs

/-- Two functions have the number 1. The first one does not transfer, and of the transfers of the
second one the first counts. -/
example :
    let still : Function := ⟨⟨1⟩, "still", false, false, true, [⟨some "x = 1", [], ["x"]⟩], []⟩
    let pay : Function := ⟨⟨1⟩, "pay", false, false, true,
      [⟨none, [], []⟩, ⟨some "a.send(1)", [], []⟩, ⟨some "b.transfer(2)", [], []⟩], []⟩
    (sendTable ⟨"Bank", [], [], [still, pay]⟩).find? ⟨1⟩
      = some ⟨⟨1⟩, "pay", "a.send(1)", 1, ⟨some "a.send(1)", [], []⟩⟩ := by
  decide

end Facts

end PonziScreen
