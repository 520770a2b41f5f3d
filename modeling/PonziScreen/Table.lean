/-!
# Tables

A table gives a value to some keys, each key at most once. The entries are kept in the order in
which their keys came first. No result of this library depends on that order: where an answer shows
one, it is the order of the keys.
-/

namespace PonziScreen

/-- Pairs of a key and its value in which no key is repeated. -/
structure Table (κ : Type) (ν : Type) where
  entries : List (κ × ν)
  nodup : (entries.map Prod.fst).Nodup

namespace Table

variable {κ ν : Type} [DecidableEq κ]

/-- The table without keys. -/
def empty : Table κ ν := ⟨[], List.nodup_nil⟩

/-- The keys in the order of the entries. -/
def keys (t : Table κ ν) : List κ := t.entries.map Prod.fst

/-- The values in the order of the entries. -/
def values (t : Table κ ν) : List ν := t.entries.map Prod.snd

/-- The value of a key. -/
def find? (t : Table κ ν) (k : κ) : Option ν :=
  (t.entries.find? fun e => e.1 = k).map Prod.snd

/-- Whether a key has a value. -/
def contains (t : Table κ ν) (k : κ) : Bool := t.entries.any fun e => e.1 = k

/-- Changes the value of a key in a list of entries: `f` gets the value that is there, if any. A new
key goes to the end. -/
def alterEntries (k : κ) (f : Option ν → ν) : List (κ × ν) → List (κ × ν)
  | [] => [(k, f none)]
  | e :: rest => if e.1 = k then (k, f (some e.2)) :: rest else e :: alterEntries k f rest

/-- Changing the value of a key adds at most that key. -/
theorem mem_keys_alterEntries {k a : κ} {f : Option ν → ν} {l : List (κ × ν)} :
    a ∈ (alterEntries k f l).map Prod.fst ↔ a = k ∨ a ∈ l.map Prod.fst := by
  induction l with
  | nil => simp [alterEntries]
  | cons e l ih =>
    unfold alterEntries
    split
    · rename_i he
      simp only [List.map_cons, List.mem_cons, he]
      grind
    · simp only [List.map_cons, List.mem_cons, ih]
      grind

/-- Changing the value of a key repeats no key. -/
theorem nodup_keys_alterEntries {k : κ} {f : Option ν → ν} {l : List (κ × ν)}
    (h : (l.map Prod.fst).Nodup) : ((alterEntries k f l).map Prod.fst).Nodup := by
  induction l with
  | nil => simp [alterEntries]
  | cons e l ih =>
    rw [List.map_cons, List.nodup_cons] at h
    unfold alterEntries
    split
    · rename_i he
      rw [List.map_cons, List.nodup_cons]
      exact ⟨he ▸ h.1, h.2⟩
    · rename_i he
      rw [List.map_cons, List.nodup_cons, mem_keys_alterEntries]
      exact ⟨fun hm => hm.elim he h.1, ih h.2⟩

/-- Changes the value of a key. -/
def alter (t : Table κ ν) (k : κ) (f : Option ν → ν) : Table κ ν :=
  ⟨alterEntries k f t.entries, nodup_keys_alterEntries t.nodup⟩

/-- Gives a key a value, whatever it had before. -/
def insert (t : Table κ ν) (k : κ) (v : ν) : Table κ ν := t.alter k fun _ => v

/-- Gives a key a value unless it has one. -/
def insertNew (t : Table κ ν) (k : κ) (v : ν) : Table κ ν := t.alter k fun old => old.getD v

/-- Adds an item to the list that belongs to a key. -/
def push {β : Type} (t : Table κ (List β)) (k : κ) (b : β) : Table κ (List β) :=
  t.alter k fun old => old.getD [] ++ [b]

end Table

end PonziScreen
