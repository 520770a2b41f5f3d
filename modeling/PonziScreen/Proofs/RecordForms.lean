import Mathlib.Data.List.Forall2
import PonziScreen.Json.Record

/-!
# The forms of a record

A record that has been written as an object can be given in other forms that mean the same: with its
members in another order, without members whose value is the default, and with members that the
record does not know. `Json.RecordVaries` says that one object is a form of another. A field says
how its own value may vary, so the relation reaches to any depth.

Reading does not see the difference. What `Json.fields?` keeps of a form are the known members in
the order of their declaration, and in these each field is found or had its default
(`Json.fields?_of_varies`). A reader that gives the written value back from every form of it undoes
the writer (`Undoes`); `Undoes.required?`, `Undoes.defaulted` and `Undoes.items` take this to the
fields of a record.
-/

namespace PonziScreen

/-- A field of a record: its name, the value that may be left out, if there is one, and how a value
may vary. -/
structure Field where
  name : String
  default? : Option Json
  varies : Json → Json → Prop

/-- A field that is always written, in one way. -/
def Field.plain (name : String) : Field := ⟨name, none, Eq⟩

/-- A field that may be left out when it has a certain value, and is else written in one way. -/
def Field.defaulted (name : String) (default : Json) : Field := ⟨name, some default, Eq⟩

/-- The declaration of a field that is known by one name. -/
def Field.declared (f : Field) : FieldName := .only f.name

/-- The members of a record in other forms, some of them left out. -/
inductive FieldsVary : List Field → List (String × Json) → List (String × Json) → Prop
  | nil : FieldsVary [] [] []
  | keep {f : Field} {fields : List Field} {v v' : Json} {written kept : List (String × Json)}
    (hv : f.varies v v') (h : FieldsVary fields written kept) :
    FieldsVary (f :: fields) ((f.name, v) :: written) ((f.name, v') :: kept)
  | drop {f : Field} {fields : List Field} {v : Json} {written kept : List (String × Json)}
    (hv : f.default? = some v) (h : FieldsVary fields written kept) :
    FieldsVary (f :: fields) ((f.name, v) :: written) kept

/-- Another form of a record: its members in any order and some of them left out, with unknown
members between them. -/
def Json.RecordVaries (fields : List Field) (j j' : Json) : Prop :=
  ∃ written kept unknown shown : List (String × Json),
    j = .record written ∧ FieldsVary fields written kept ∧
    (∀ m ∈ unknown, m.1 ∉ fields.map Field.name) ∧
    shown.Perm (kept ++ unknown) ∧ j' = .record shown

/-- An array with each item in another form. -/
inductive Json.ListVaries (varies : Json → Json → Prop) : Json → Json → Prop
  | items {items items' : List Json} (h : List.Forall₂ varies items items') :
    ListVaries varies (.array items) (.array items')

/-- A field with a list, which may be left out when it is empty, and whose items vary. -/
def Field.items (name : String) (varies : Json → Json → Prop) : Field :=
  ⟨name, some (.array []), Json.ListVaries varies⟩

theorem Json.RecordVaries.refl {fields : List Field} {written : List (String × Json)}
    (h : FieldsVary fields written written) :
    RecordVaries fields (.record written) (.record written) :=
  ⟨written, written, [], written, rfl, h, List.forall_mem_nil _, by rw [List.append_nil], rfl⟩

theorem Json.ListVaries.refl {β : Type} {varies : Json → Json → Prop} {write : β → Json}
    (h : ∀ b, varies (write b) (write b)) (bs : List β) :
    ListVaries varies (.array (bs.map write)) (.array (bs.map write)) := by
  refine .items ?_
  rw [List.forall₂_map_left_iff, List.forall₂_map_right_iff, List.forall₂_same]
  exact fun b _ => h b

/-! ## What is kept of a form -/

theorem Json.record_injective {members members' : List (String × Json)}
    (h : Json.record members = .record members') : members = members' := by
  rw [record, record, Json.object.injEq] at h
  refine List.map_injective_iff.mpr ?_ h
  rintro ⟨n, v⟩ ⟨n', v'⟩ he
  simpa using he

namespace FieldsVary

variable {fields : List Field} {written kept : List (String × Json)}

/-- All fields have been written. -/
theorem names_written (h : FieldsVary fields written kept) :
    written.map Prod.fst = fields.map Field.name := by
  induction h with
  | nil => rfl
  | keep _ _ ih | drop _ _ ih => rw [List.map_cons, List.map_cons, ih]

/-- What is kept has names of fields. -/
theorem names_kept (h : FieldsVary fields written kept) :
    (kept.map Prod.fst).Sublist (fields.map Field.name) := by
  induction h with
  | nil => exact .slnil
  | keep _ _ ih => exact ih.cons_cons _
  | drop _ _ ih => exact ih.cons _

/-- A name that is not the name of a field is not kept. -/
theorem ne_of_mem_kept (h : FieldsVary fields written kept) {name : String}
    (hname : name ∉ fields.map Field.name) {m : String × Json} (hm : m ∈ kept) : m.1 ≠ name := by
  rintro rfl
  exact hname (h.names_kept.subset (List.mem_map_of_mem hm))

/-- A field with the value that was written for it: the first field with the first value, or one
of the other fields with one of the other values. -/
theorem mem_cons_cases (h : FieldsVary fields written kept) {f g : Field} {v w : Json}
    (hg : g.name ∉ fields.map Field.name) (hf : f ∈ g :: fields)
    (hv : (f.name, v) ∈ (g.name, w) :: written) :
    (f = g ∧ v = w) ∨ (f.name ≠ g.name ∧ f ∈ fields ∧ (f.name, v) ∈ written) := by
  obtain rfl | hf := List.mem_cons.mp hf
  · obtain he | hv := List.mem_cons.mp hv
    · exact .inl ⟨rfl, congrArg Prod.snd he⟩
    · exact absurd (h.names_written ▸ List.mem_map_of_mem hv) hg
  · have hne : f.name ≠ g.name := fun he => hg (he ▸ List.mem_map_of_mem hf)
    exact .inr ⟨hne, hf, (List.mem_cons.mp hv).resolve_left fun he => hne (congrArg Prod.fst he)⟩

/-- A field is found in one of its forms, or it has been left out and had its default. -/
theorem lookup (h : FieldsVary fields written kept) (hnames : (fields.map Field.name).Nodup)
    {f : Field} (hf : f ∈ fields) {v : Json} (hv : (f.name, v) ∈ written) :
    (∃ v', f.varies v v' ∧ kept.lookup f.name = some v') ∨
      (f.default? = some v ∧ kept.lookup f.name = none) := by
  induction h with
  | nil => exact absurd hf List.not_mem_nil
  | keep hw h ih =>
    rw [List.map_cons, List.nodup_cons] at hnames
    obtain ⟨rfl, rfl⟩ | ⟨hne, hf, hv⟩ := h.mem_cons_cases hnames.1 hf hv
    · exact .inl ⟨_, hw, List.lookup_cons_self⟩
    · have hnext : (f.name == _) = false := beq_eq_false_iff_ne.mpr hne
      simpa only [List.lookup_cons, hnext] using ih hnames.2 hf hv
  | drop hw h ih =>
    rw [List.map_cons, List.nodup_cons] at hnames
    obtain ⟨rfl, rfl⟩ | ⟨-, hf, hv⟩ := h.mem_cons_cases hnames.1 hf hv
    · refine .inr ⟨hw, List.lookup_eq_none_iff.mpr fun m hm => ?_⟩
      exact bne_iff_ne.mpr (h.ne_of_mem_kept hnames.1 hm).symm
    · exact ih hnames.2 hf hv

/-- The kept members of one field after the other are all kept members. -/
theorem flatten_filter (h : FieldsVary fields written kept)
    (hnames : (fields.map Field.name).Nodup) :
    (fields.map fun f => kept.filter fun m => m.1 == f.name).flatten = kept := by
  induction h with
  | nil => rfl
  | @keep g fields w w' written kept hw h ih =>
    rw [List.map_cons, List.nodup_cons] at hnames
    have hfront : kept.filter (fun m => m.1 == g.name) = [] :=
      List.filter_eq_nil_iff.mpr fun m hm => by simpa using h.ne_of_mem_kept hnames.1 hm
    have hrest : ∀ f ∈ fields, ((g.name, w') :: kept).filter (fun m => m.1 == f.name)
        = kept.filter fun m => m.1 == f.name := by
      intro f hf
      have hne : g.name ≠ f.name := fun he => hnames.1 (he ▸ List.mem_map_of_mem hf)
      exact List.filter_cons_of_neg (by simpa using hne)
    rw [List.map_cons, List.flatten_cons, List.map_congr_left hrest, ih hnames.2,
      List.filter_cons_of_pos (by simp), hfront, List.singleton_append]
  | @drop g fields w written kept hw h ih =>
    rw [List.map_cons, List.nodup_cons] at hnames
    have hfront : kept.filter (fun m => m.1 == g.name) = [] :=
      List.filter_eq_nil_iff.mpr fun m hm => by simpa using h.ne_of_mem_kept hnames.1 hm
    rw [List.map_cons, List.flatten_cons, ih hnames.2, hfront, List.nil_append]

/-- Among the kept members there is at most one for a name. -/
theorem filter_kept (h : FieldsVary fields written kept) (hnames : (fields.map Field.name).Nodup)
    (name : String) :
    kept.filter (fun m => m.1 == name) = [] ∨
      ∃ v, kept.filter (fun m => m.1 == name) = [(name, v)] := by
  have hnodup : (kept.map Prod.fst).Nodup := hnames.sublist h.names_kept
  match hkept : kept.filter (fun m => m.1 == name) with
  | [] => exact .inl hkept
  | [(name', v)] =>
    have hname := (List.mem_filter.mp (hkept ▸ List.mem_singleton_self (name', v))).2
    obtain rfl : name' = name := by simpa using hname
    exact .inr ⟨v, hkept⟩
  | m :: m' :: rest =>
    -- Two members of one name would repeat the name of a field.
    have hall : ∀ p ∈ kept.filter (fun m => m.1 == name), p.1 = name :=
      fun p hp => by simpa using (List.mem_filter.mp hp).2
    have hsub := (List.filter_sublist (p := fun m => m.1 == name) (l := kept)).map Prod.fst
    have htwice := hnodup.sublist hsub
    rw [hkept] at hall htwice
    simp [hall m (by simp), hall m' (by simp)] at htwice

end FieldsVary

/-! ## Reading a form -/

theorem mapM_eq_some_of_forall₂ {β γ : Type} {f : β → Option γ} {bs : List β} {cs : List γ}
    (h : List.Forall₂ (fun b c => f b = some c) bs cs) : bs.mapM f = some cs := by
  induction h with
  | nil => rfl
  | cons hb _ ih => simp [List.mapM_cons, hb, ih]

/-- From an object with the kept members and unknown ones, in any order, a field takes its member
among the kept ones. -/
theorem Field.member?_of_perm {fields : List Field}
    {written kept unknown shown : List (String × Json)} (h : FieldsVary fields written kept)
    (hnames : (fields.map Field.name).Nodup)
    (hunknown : ∀ m ∈ unknown, m.1 ∉ fields.map Field.name) (hshown : shown.Perm (kept ++ unknown))
    {f : Field} (hf : f ∈ fields) :
    f.declared.member? shown = some (kept.filter fun m => m.1 == f.name) := by
  have hrest : unknown.filter (fun m => m.1 == f.name) = [] := by
    refine List.filter_eq_nil_iff.mpr fun m hm => ?_
    have hne : m.1 ≠ f.name := fun he => hunknown m hm (he ▸ List.mem_map_of_mem hf)
    simpa using hne
  have hperm : (shown.filter fun m => m.1 == f.name).Perm (kept.filter fun m => m.1 == f.name) := by
    have hfilter := hshown.filter fun m => m.1 == f.name
    rwa [List.filter_append, hrest, List.append_nil] at hfilter
  have haccepts : f.declared.accepts = fun name => name == f.name := by
    funext name
    simp [declared, FieldName.only, FieldName.accepts]
  rw [FieldName.member?, haccepts]
  obtain hnone | ⟨v, hone⟩ := h.filter_kept hnames f.name
  · rw [hnone, List.perm_nil] at hperm
    rw [hnone, hperm]
  · rw [hone, List.perm_singleton] at hperm
    rw [hone, hperm]
    rfl

/-- What has been read of a record shows each written value in one of its forms, or not at all if it
is the default. -/
def Fields.Shows (read : Fields) (fields : List Field) (written : List (String × Json)) : Prop :=
  ∀ f ∈ fields, ∀ v, (f.name, v) ∈ written →
    (∃ v', f.varies v v' ∧ read.get? f.name = some v') ∨
      (f.default? = some v ∧ read.get? f.name = none)

/-- **Every form of a record is read, and shows what has been written.** -/
theorem Json.fields?_of_varies {fields : List Field} (hnames : (fields.map Field.name).Nodup)
    {written : List (String × Json)} {j : Json} (h : RecordVaries fields (.record written) j) :
    ∃ read, j.fields? (fields.map Field.declared) = some read ∧ read.Shows fields written := by
  obtain ⟨written', kept, unknown, shown, hwritten, hvary, hunknown, hshown, rfl⟩ := h
  obtain rfl := record_injective hwritten
  have hread : (shown.map fun m => (some m.1, m.2)).mapM
      (fun m : Option String × Json => m.1.map fun name => (name, m.2)) = some shown :=
    mapM_eq_some_of_forall₂ (List.forall₂_map_left_iff.mpr (List.forall₂_same.mpr fun _ _ => rfl))
  have hmembers : (fields.map Field.declared).mapM (fun f => f.member? shown)
      = some (fields.map fun f => kept.filter fun m => m.1 == f.name) := by
    refine mapM_eq_some_of_forall₂ ?_
    rw [List.forall₂_map_left_iff, List.forall₂_map_right_iff, List.forall₂_same]
    exact fun f hf => Field.member?_of_perm hvary hnames hunknown hshown hf
  refine ⟨⟨kept, true⟩, ?_, fun f hf v hv => hvary.lookup hnames hf hv⟩
  simp only [record, fields?, hread, hmembers, Option.bind_eq_bind, Option.bind_some,
    Option.pure_def, hvary.flatten_filter hnames]

/-! ## Readers that undo writers -/

/-- A reader gives back what has been written, from every form of it. -/
def Undoes {β : Type} (varies : Json → Json → Prop) (write : β → Json) (read : Json → Option β) :
    Prop :=
  ∀ b j, varies (write b) j → read j = some b

namespace Undoes

variable {β : Type} {varies : Json → Json → Prop} {write : β → Json} {read : Json → Option β}

/-- A value that is always written in the same way. -/
theorem of_eq (h : ∀ b, read (write b) = some b) : Undoes Eq write read := by
  rintro b _ rfl
  exact h b

/-- A list whose items are read in all their forms. -/
theorem list (h : Undoes varies write read) :
    Undoes (Json.ListVaries varies) (fun bs => .array (bs.map write)) (Json.list? read) := by
  rintro bs _ ⟨hitems⟩
  rw [List.forall₂_map_left_iff] at hitems
  exact mapM_eq_some_of_forall₂ (List.Forall₂.flip (hitems.imp fun b j => h b j))

section Fields

variable {fields : List Field} {written : List (String × Json)} {shown : Fields} {name : String}

/-- A field that is always there is read. -/
theorem required? (h : Undoes Eq write read) (hshown : shown.Shows fields written)
    (hf : .plain name ∈ fields) {b : β} (hb : (name, write b) ∈ written) :
    shown.required? name read = some b := by
  obtain ⟨v', hv', hget⟩ | ⟨hnone, -⟩ := hshown _ hf _ hb
  · have hget : shown.get? name = some v' := hget
    rw [Fields.required?, hget, Option.bind_some, h b v' hv']
  · exact absurd hnone (Option.some_ne_none _).symm

/-- A field that may be left out is read, and the default stands for one that has been left out.
The default has to be a form of itself: then no other value is written as the default is. -/
theorem default? (h : Undoes varies write read) (hshown : shown.Shows fields written) {d : β}
    (hf : ⟨name, some (write d), varies⟩ ∈ fields) (hd : varies (write d) (write d)) {b : β}
    (hb : (name, write b) ∈ written) : shown.default? name d read = some b := by
  rw [Fields.default?]
  obtain ⟨v', hv', hget⟩ | ⟨hdefault, hget⟩ := hshown _ hf _ hb
  · rw [hget]
    exact h b v' hv'
  · have hsame : write d = write b := Option.some.inj hdefault
    rw [hget, ← h d _ hd, hsame, h b _ (hsame ▸ hd)]

/-- A field is read that may be left out and is else written in one way. -/
theorem defaulted (h : Undoes Eq write read) (hshown : shown.Shows fields written) {d : β}
    (hf : .defaulted name (write d) ∈ fields) {b : β} (hb : (name, write b) ∈ written) :
    shown.default? name d read = some b :=
  h.default? hshown hf rfl hb

/-- A field with a list is read. -/
theorem items (h : Undoes varies write read) (hshown : shown.Shows fields written)
    (hf : .items name varies ∈ fields) {bs : List β}
    (hb : (name, .array (bs.map write)) ∈ written) :
    shown.default? name [] (Json.list? read) = some bs :=
  h.list.default? hshown hf ⟨.nil⟩ hb

end Fields

end Undoes

end PonziScreen
