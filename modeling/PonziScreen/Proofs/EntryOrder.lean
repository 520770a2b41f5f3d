import PonziScreen.Proofs.CallGraphImage
import PonziScreen.Proofs.FeatureGraph
import PonziScreen.Proofs.LedgerRule

/-!
# The order of entries

The facts about a contract are kept in tables, and a table may list its entries in any order. What
is made of the facts does not show that order (`Facts.entryOrder_unseen`): entries are looked up by
key, counted, or sorted. A sorted list is strictly ascending, because no two entries of a table have
the same key, and there is only one such list of given entries (`Ascending.eq_of_perm`).

* `Facts.Shuffled` — the same facts, listed in any order
* `Facts.sortedEntries_perm`, `Facts.Shuffled.sortedSends_eq` — sorting forgets the order
* `Facts.Shuffled.report_eq`, `Facts.Shuffled.analyze_eq`, `Facts.Shuffled.ofTarget_eq` — what is
  made of the facts of a contract is made of shuffled facts as well
-/

namespace PonziScreen

/-! ## Ascending lists -/

/-- Items in strictly ascending order of their keys. -/
def Ascending {β κ : Type} [LT κ] (key : β → κ) (items : List β) : Prop :=
  items.Pairwise fun a b => key a < key b

/-- There is only one ascending list of given items. -/
theorem Ascending.eq_of_perm {β κ : Type} [LT κ] (hasymm : ∀ k l : κ, k < l → ¬ l < k)
    {key : β → κ} {items items' : List β} (hitems : Ascending key items)
    (hitems' : Ascending key items') (h : items'.Perm items) : items' = items :=
  List.Perm.eq_of_pairwise (fun _ _ _ _ hab hba => absurd hba (hasymm _ _ hab)) hitems' hitems h

/-! ## Tables -/

namespace Table

variable {κ ν : Type} [DecidableEq κ] {t t' : Table κ ν}

omit [DecidableEq κ] in
/-- The same entries, the last one first. -/
def reverse (t : Table κ ν) : Table κ ν where
  entries := t.entries.reverse
  nodup := by
    rw [List.map_reverse, List.nodup_reverse]
    exact t.nodup

theorem find?_perm (h : t'.entries.Perm t.entries) (k : κ) : t'.find? k = t.find? k := by
  ext v
  rw [← mem_entries_iff, ← mem_entries_iff, h.mem_iff]

theorem contains_perm (h : t'.entries.Perm t.entries) (k : κ) : t'.contains k = t.contains k := by
  rw [Bool.eq_iff_iff, contains_iff, contains_iff]
  exact (h.map Prod.fst).mem_iff

end Table

namespace Facts

/-! ### Tables by name -/

section Names

variable {ν : Type} {t t' : Table String ν}

theorem ascending_sortedEntries (t : Table String ν) :
    Ascending (fun e => textBytes e.1) (sortedEntries t) :=
  (List.pairwise_map (f := Prod.fst) (R := fun a b => textBytes a < textBytes b)).1
    (Rules.pairwise_sortedEntries t)

/-- Sorting by name forgets the order of the entries. -/
theorem sortedEntries_perm (h : t'.entries.Perm t.entries) : sortedEntries t' = sortedEntries t :=
  (ascending_sortedEntries t).eq_of_perm (fun _ _ => List.lt_asymm) (ascending_sortedEntries t')
    ((List.mergeSort_perm _ _).trans (h.trans (List.mergeSort_perm _ _).symm))

/-- A section of a report lists a table. Below a heading it has a line for each entry, in the order
of the bytes of their names. -/
def Lists (heading : String) (line : String × ν → String) (t : Table String ν)
    (lines : List String) : Prop :=
  ∃ entries : List (String × ν), entries.Perm t.entries ∧
    Ascending (fun e => textBytes e.1) entries ∧ lines = heading :: entries.map line

theorem lists_sortedEntries (heading : String) (line : String × ν → String) (t : Table String ν) :
    Lists heading line t (heading :: (sortedEntries t).map line) :=
  ⟨sortedEntries t, List.mergeSort_perm _ _, ascending_sortedEntries t, rfl⟩

end Names

/-! ### Senders -/

/-- The senders of a table in the order of their numbers. -/
def sortedSends (t : Table FunctionId SendFunction) : List SendFunction :=
  t.values.mergeSort fun a b => decide (a.id.value ≤ b.id.value)

/-- Where no two senders have one number, sorting orders them strictly. -/
theorem ascending_sortedSends {t : Table FunctionId SendFunction}
    (h : (t.values.map SendFunction.id).Nodup) :
    Ascending (fun s => s.id.value) (sortedSends t) := by
  have hsorted : (sortedSends t).Pairwise fun a b => a.id.value ≤ b.id.value := by
    refine (List.pairwise_mergeSort ?_ ?_ t.values).imp of_decide_eq_true
    · intro a b d hab hbd
      exact decide_eq_true (UInt64.le_trans (of_decide_eq_true hab) (of_decide_eq_true hbd))
    · intro a b
      simpa using UInt64.le_total a.id.value b.id.value
  have hdistinct : (sortedSends t).Pairwise fun a b => a.id ≠ b.id :=
    List.pairwise_map.1 (((List.mergeSort_perm t.values _).map SendFunction.id).nodup_iff.2 h)
  refine (hsorted.and hdistinct).imp fun {a b} hab => UInt64.lt_of_le_of_ne hab.1 fun heq => ?_
  exact hab.2 (congrArg FunctionId.mk heq)

/-- Sorting senders is all that the findings on transfers do with their table. -/
theorem transferFindings_eq (facts : Facts) : Rules.transferFindings facts
    = if sortedSends facts.sends = [] then
        [⟨.info, .valueTransfer, "No direct transfer/send calls", none⟩]
      else (sortedSends facts.sends).map Rules.sendFinding := by
  have hempty : sortedSends facts.sends = [] ↔ facts.sends.entries = [] := by
    rw [← List.length_eq_zero_iff, ← List.length_eq_zero_iff, sortedSends, List.length_mergeSort,
      Table.values, List.length_map]
  unfold Rules.transferFindings
  simp only [List.isEmpty_iff, hempty]
  rfl

/-! ### Structures -/

/-- The key of a structure is its name. -/
theorem name_of_mem_structureTable {c : Contract} {e : String × Structure}
    (h : e ∈ (structureTable c).entries) : e.2.name = e.1 := by
  have hwalk : ∀ (structures : List Structure) (t : Table String Structure),
      (∀ e ∈ t.entries, e.2.name = e.1) →
      ∀ e ∈ (structures.foldl (fun t s => t.insert s.name s) t).entries, e.2.name = e.1 := by
    intro structures
    induction structures with
    | nil => exact fun _ ht => ht
    | cons s rest ih =>
      intro t ht
      refine ih _ fun e he => ?_
      have hentry := Table.mem_entries_alter.1 he
      by_cases hkey : e.1 = s.name
      · rw [if_pos hkey] at hentry
        rw [hentry, hkey]
      · rw [if_neg hkey] at hentry
        exact ht e hentry
  exact hwalk c.structures .empty (by simp [Table.empty]) e h

/-! ## Shuffled facts -/

/-- The same facts, with the entries of each table in any order. -/
structure Shuffled (facts facts' : Facts) : Prop where
  name : facts'.name = facts.name
  structures : facts'.structures.entries.Perm facts.structures.entries
  declarations : facts'.declarations.entries.Perm facts.declarations.entries
  reads : facts'.reads.entries.Perm facts.reads.entries
  writes : facts'.writes.entries.Perm facts.writes.entries
  sends : facts'.sends.entries.Perm facts.sends.entries
  calls : facts'.calls = facts.calls

/-- The facts with each table the other way round. -/
def reverse (facts : Facts) : Facts :=
  { facts with
    structures := facts.structures.reverse
    declarations := facts.declarations.reverse
    reads := facts.reads.reverse
    writes := facts.writes.reverse
    sends := facts.sends.reverse }

theorem shuffled_reverse (facts : Facts) : facts.Shuffled facts.reverse where
  name := rfl
  structures := List.reverse_perm _
  declarations := List.reverse_perm _
  reads := List.reverse_perm _
  writes := List.reverse_perm _
  sends := List.reverse_perm _
  calls := rfl

namespace Shuffled

variable {c : Contract} {facts facts' : Facts}

theorem refl (facts : Facts) : facts.Shuffled facts :=
  ⟨rfl, .refl _, .refl _, .refl _, .refl _, .refl _, rfl⟩

/-- Two shufflings of the same facts are shufflings of each other. -/
theorem between {origin : Facts} (h : origin.Shuffled facts) (h' : origin.Shuffled facts') :
    facts.Shuffled facts' where
  name := h'.name.trans h.name.symm
  structures := h'.structures.trans h.structures.symm
  declarations := h'.declarations.trans h.declarations.symm
  reads := h'.reads.trans h.reads.symm
  writes := h'.writes.trans h.writes.symm
  sends := h'.sends.trans h.sends.symm
  calls := h'.calls.trans h.calls.symm

theorem report_eq (h : facts.Shuffled facts') : facts'.report = facts.report := by
  unfold report
  rw [h.name, sortedEntries_perm h.declarations, sortedEntries_perm h.reads,
    sortedEntries_perm h.writes]

theorem isSender_eq (h : facts.Shuffled facts') : facts'.isSender = facts.isSender :=
  funext fun f => Table.contains_perm h.sends f

/-! ### Rules -/

/-- The key of a sender is its number. -/
theorem map_values_sends (h : (ofContract c).Shuffled facts) :
    facts.sends.values.map (fun s => (s.id, s)) = facts.sends.entries := by
  rw [Table.values, List.map_map]
  refine (List.map_congr_left fun e he => ?_).trans (List.map_id facts.sends.entries)
  exact Prod.ext (mem_sendTable (k := e.1) (s := e.2) (h.sends.mem_iff.1 he)).1 rfl

theorem ascending_sortedSends (h : (ofContract c).Shuffled facts) :
    Ascending (fun s => s.id.value) (sortedSends facts.sends) := by
  have hids : facts.sends.values.map SendFunction.id = facts.sends.keys := by
    rw [Table.keys, ← h.map_values_sends, List.map_map]
    rfl
  refine Facts.ascending_sortedSends ?_
  rw [hids]
  exact facts.sends.nodup

theorem sortedSends_eq (h : (ofContract c).Shuffled facts) (h' : (ofContract c).Shuffled facts') :
    sortedSends facts'.sends = sortedSends facts.sends := by
  have hvalues : facts'.sends.values.Perm facts.sends.values := (h.between h').sends.map Prod.snd
  exact h.ascending_sortedSends.eq_of_perm (fun _ _ => UInt64.lt_asymm) h'.ascending_sortedSends
    ((List.mergeSort_perm _ _).trans (hvalues.trans (List.mergeSort_perm _ _).symm))

theorem ledgerFindings_eq (h : facts.Shuffled facts') :
    Rules.ledgerFindings c facts' = Rules.ledgerFindings c facts := by
  have hpayers : Rules.payers facts' = Rules.payers facts := by
    funext v
    unfold Rules.payers
    rw [Table.find?_perm h.reads, h.isSender_eq]
  unfold Rules.ledgerFindings Rules.ledgerFinding?
  rw [sortedEntries_perm h.writes, hpayers]

theorem cycleFindings_eq (h : facts.Shuffled facts') :
    Rules.cycleFindings facts' = Rules.cycleFindings facts := by
  unfold Rules.cycleFindings Rules.cycleFinding? Rules.sendersIn
  rw [h.calls, h.isSender_eq]

theorem structureFindings_eq (h : facts.Shuffled facts') :
    Rules.structureFindings facts' = Rules.structureFindings facts := by
  unfold Rules.structureFindings
  rw [sortedEntries_perm h.structures]

theorem analyze_eq (h : (ofContract c).Shuffled facts) (h' : (ofContract c).Shuffled facts') :
    Rules.analyze ⟨c, facts'⟩ = Rules.analyze ⟨c, facts⟩ := by
  have hfindings : Rules.findings ⟨c, facts'⟩ = Rules.findings ⟨c, facts⟩ := by
    unfold Rules.findings
    rw [transferFindings_eq, transferFindings_eq, sortedSends_eq h h',
      (h.between h').ledgerFindings_eq, (h.between h').cycleFindings_eq,
      (h.between h').structureFindings_eq]
  rw [Rules.analyze, Rules.analyze, hfindings]

/-! ### Feature graphs -/

theorem usageCount_perm {t t' : Table String (List FunctionRef)}
    (h : t'.entries.Perm t.entries) (f : FunctionId) :
    FeatureGraph.usageCount t' f = FeatureGraph.usageCount t f := by
  have hvalues : t'.values.Perm t.values := h.map Prod.snd
  rw [FeatureGraph.usageCount, FeatureGraph.usageCount, ← List.sum_eq_foldl, ← List.sum_eq_foldl]
  exact (hvalues.map _).sum_eq

theorem ofTarget_eq {α : Type} [Scalar α] (h : facts.Shuffled facts') :
    (FeatureGraph.ofTarget ⟨c, facts'⟩ : Graph α) = FeatureGraph.ofTarget ⟨c, facts⟩ := by
  have hnodes : (FeatureGraph.nodeMatrix c facts' : Matrix α)
      = FeatureGraph.nodeMatrix c facts := by
    refine Matrix.eq_of_rows rfl ?_
    unfold FeatureGraph.nodeMatrix FeatureGraph.nodeRow
    simp only [h.calls, h.isSender_eq, usageCount_perm h.reads, usageCount_perm h.writes]
  have hedges : (FeatureGraph.edgeMatrix facts' : Matrix α) = FeatureGraph.edgeMatrix facts := by
    refine Matrix.eq_of_rows rfl ?_
    unfold FeatureGraph.edgeMatrix FeatureGraph.edgeRow FeatureGraph.sendsAt
    simp only [h.calls, h.isSender_eq]
  unfold FeatureGraph.ofTarget FeatureGraph.ofContract
  rw [hnodes, hedges, h.calls]

end Shuffled

/-- The order in which tables list their entries is not to be seen. In whichever order they do, the
report has the same lines, the rules have the same findings in the same order with the same score,
and the feature graph is the same. Each section of the report lists all variables of its table, in
strictly ascending order of the bytes of their names; a line has the name of a variable and its
declaration, or its name and those of the functions that use it. The findings on transfers are in
strictly ascending order of the numbers of the senders; these are keys of their table, and so are
the names of structures, in the order of which the findings on structures are. -/
theorem entryOrder_unseen {α : Type} [Scalar α] {c : Contract} {facts facts' : Facts}
    (h : (ofContract c).Shuffled facts) (h' : (ofContract c).Shuffled facts') :
    facts'.report = facts.report ∧
    Rules.analyze ⟨c, facts'⟩ = Rules.analyze ⟨c, facts⟩ ∧
    (FeatureGraph.ofTarget ⟨c, facts'⟩ : Graph α) = FeatureGraph.ofTarget ⟨c, facts⟩ ∧
    (∃ declarations reads writes, facts.report = declarations ++ reads ++ writes ∧
      Lists ("=== " ++ c.name ++ " state variable declarations")
        (fun e => match e.2 with
          | .bare _ text => "  " ++ e.1 ++ ": " ++ text
          | .assigned f _ fullText => "  " ++ e.1 ++ ": " ++ fullText ++ " (in " ++ f.name ++ ")")
        facts.declarations declarations ∧
      Lists ("=== " ++ c.name ++ " state variable reads")
        (fun e => "  " ++ e.1 ++ ": " ++ ", ".intercalate (e.2.map FunctionRef.name))
        facts.reads reads ∧
      Lists ("=== " ++ c.name ++ " state variable writes")
        (fun e => "  " ++ e.1 ++ ": " ++ ", ".intercalate (e.2.map FunctionRef.name))
        facts.writes writes) ∧
    (∃ sends : List SendFunction, (sends.map fun s => (s.id, s)).Perm facts.sends.entries ∧
      Ascending (fun s => s.id.value) sends ∧
      ((Rules.analyze ⟨c, facts⟩).findings.filter fun f => f.category = .valueTransfer)
        = if sends = [] then [⟨.info, .valueTransfer, "No direct transfer/send calls", none⟩]
          else sends.map fun s => ⟨.low, .valueTransfer, s.name ++ "() transfers value",
            some (.record [("statement", .text s.text), ("node_index", .int s.index)])⟩) ∧
    ∀ e ∈ facts.structures.entries, e.2.name = e.1 := by
  refine ⟨(h.between h').report_eq, h.analyze_eq h', (h.between h').ofTarget_eq, ?_, ?_, ?_⟩
  · have hname : facts.name = c.name := h.name
    refine ⟨_, _, _, ?_, lists_sortedEntries _ _ _, lists_sortedEntries _ _ _,
      lists_sortedEntries _ _ _⟩
    rw [report, hname]
    rfl
  · refine ⟨sortedSends facts.sends, ?_, h.ascending_sortedSends, ?_⟩
    · rw [← h.map_values_sends]
      exact (List.mergeSort_perm _ _).map _
    · rw [Rules.filter_valueTransfer, transferFindings_eq]
      rfl
  · exact fun e he => name_of_mem_structureTable (h.structures.mem_iff.1 he)

/-- Two senders and two variables, listed in either order. -/
theorem entryOrder_unseen_twoSenders :
    ∃ (c : Contract) (facts facts' : Facts),
      (ofContract c).Shuffled facts ∧ (ofContract c).Shuffled facts' ∧
      facts.sends.keys = [⟨7⟩, ⟨2⟩] ∧ facts'.sends.keys = [⟨2⟩, ⟨7⟩] ∧
      facts.reads.keys = ["paid", "investors"] ∧ facts'.reads.keys = ["investors", "paid"] ∧
      facts'.report = facts.report ∧ Rules.analyze ⟨c, facts'⟩ = Rules.analyze ⟨c, facts⟩ ∧
      (FeatureGraph.ofTarget ⟨c, facts'⟩ : Graph Float32)
        = FeatureGraph.ofTarget ⟨c, facts⟩ := by
  let payOut : Function := ⟨⟨7⟩, "payOut", false, false, true,
    [⟨some "investors[paid].send(1)", ["paid", "investors"], ["paid"]⟩], []⟩
  let refund : Function := ⟨⟨2⟩, "refund", false, false, true,
    [⟨some "owner.transfer(paid)", ["paid"], []⟩], []⟩
  let c : Contract := ⟨"Doubler", [], [⟨"investors", "address[]", none⟩, ⟨"paid", "uint", none⟩],
    [payOut, refund]⟩
  have h := Shuffled.refl (ofContract c)
  have h' := shuffled_reverse (ofContract c)
  obtain ⟨hreport, hanalysis, hgraph, -⟩ := entryOrder_unseen (α := Float32) h h'
  exact ⟨c, _, _, h, h', by decide, by decide, by decide, by decide, hreport, hanalysis, hgraph⟩

end Facts

end PonziScreen
