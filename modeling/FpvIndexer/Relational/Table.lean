import Mathlib.Data.List.Nodup
import Mathlib.Data.List.Basic

namespace Relational

structure Table (α : Type) {κ : Type} (key : α → κ) where
  rows : List α
  nodup : (rows.map key).Nodup

namespace Table
variable {α κ : Type} {key : α → κ}

@[ext] theorem ext {t u : Table α key} (same : t.rows = u.rows) : t = u := by
  cases t
  cases u
  cases same
  rfl

instance [DecidableEq α] : DecidableEq (Table α key) := fun t u =>
  decidable_of_iff (t.rows = u.rows) ⟨Table.ext, fun same => same ▸ rfl⟩

def empty : Table α key := ⟨[], List.nodup_nil⟩

@[simp] theorem empty_rows : (empty : Table α key).rows = [] := rfl

theorem eq_of_key (t : Table α key) {a b : α} (ha : a ∈ t.rows) (hb : b ∈ t.rows)
    (same : key a = key b) : a = b :=
  List.inj_on_of_nodup_map t.nodup ha hb same

theorem rows_nodup (t : Table α key) : t.rows.Nodup := List.Nodup.of_map key t.nodup

section Insert
variable [DecidableEq κ]

def ofRows? (rows : List α) : Option (Table α key) :=
  if distinct : (rows.map key).Nodup then some ⟨rows, distinct⟩ else none

theorem ofRows?_rows {rows : List α} {t : Table α key} (built : ofRows? rows = some t) :
    t.rows = rows := by
  unfold ofRows? at built
  split at built
  · cases built
    rfl
  · cases built

theorem exists_ofRows? {rows : List α} (distinct : (rows.map key).Nodup) :
    ∃ t : Table α key, ofRows? rows = some t ∧ t.rows = rows :=
  ⟨⟨rows, distinct⟩, dif_pos distinct, rfl⟩

theorem ofRows?_self (t : Table α key) : ofRows? t.rows = some t := dif_pos t.nodup

def insert? (t : Table α key) (row : α) : Option (Table α key) :=
  if taken : key row ∈ t.rows.map key then none
  else some ⟨t.rows ++ [row], by
    rw [List.map_append, List.map_singleton, ← List.concat_eq_append]
    exact t.nodup.concat taken⟩

theorem insert?_rows {t u : Table α key} {row : α} (inserted : t.insert? row = some u) :
    u.rows = t.rows ++ [row] := by
  unfold insert? at inserted
  split at inserted
  · cases inserted
  · cases inserted
    rfl

theorem insert?_fresh {t u : Table α key} {row : α} (inserted : t.insert? row = some u) :
    key row ∉ t.rows.map key := by
  unfold insert? at inserted
  split at inserted
  · cases inserted
  · assumption

theorem exists_insert? (t : Table α key) (row : α) (fresh : key row ∉ t.rows.map key) :
    ∃ u, t.insert? row = some u ∧ u.rows = t.rows ++ [row] := by
  unfold insert?
  rw [dif_neg fresh]
  exact ⟨_, rfl, rfl⟩

theorem insert?_eq_none {t : Table α key} {row : α} :
    t.insert? row = none ↔ key row ∈ t.rows.map key := by
  unfold insert?
  split <;> simp_all

section DoNothing
variable (t : Table α key) (row : α)

theorem subset_getD_insert? : t.rows ⊆ ((t.insert? row).getD t).rows := by
  cases inserted : t.insert? row with
  | none => exact List.Subset.refl _
  | some u =>
      rw [Option.getD_some, insert?_rows inserted]
      exact List.subset_append_left _ _

theorem key_mem_getD_insert? : key row ∈ ((t.insert? row).getD t).rows.map key := by
  cases inserted : t.insert? row with
  | none => exact insert?_eq_none.mp inserted
  | some u =>
      rw [Option.getD_some, insert?_rows inserted]
      simp

end DoNothing

def insertAll? (t : Table α key) (rows : List α) : Option (Table α key) :=
  rows.foldlM insert? t

theorem insertAll?_rows {t u : Table α key} {rows : List α}
    (inserted : t.insertAll? rows = some u) : u.rows = t.rows ++ rows := by
  induction rows generalizing t with
  | nil =>
      cases inserted
      simp
  | cons row rest ih =>
      simp only [insertAll?, List.foldlM_cons] at inserted
      obtain ⟨next, first, later⟩ := Option.bind_eq_some_iff.mp inserted
      rw [ih later, insert?_rows first]
      simp

theorem exists_insertAll? (t : Table α key) (rows : List α) (distinct : ((t.rows ++ rows).map key).Nodup) :
    ∃ u, t.insertAll? rows = some u ∧ u.rows = t.rows ++ rows := by
  induction rows generalizing t with
  | nil => exact ⟨t, rfl, (List.append_nil _).symm⟩
  | cons row rest ih =>
      have fresh : key row ∉ t.rows.map key := by
        intro taken
        rw [List.map_append, List.nodup_append] at distinct
        exact distinct.2.2 _ taken _ (by simp) rfl
      obtain ⟨next, inserted, nextRows⟩ := t.exists_insert? row fresh
      obtain ⟨u, onward, rows⟩ := ih next (by simpa [nextRows] using distinct)
      refine ⟨u, ?_, by simp [rows, nextRows]⟩
      rw [insertAll?, List.foldlM_cons, inserted]
      exact onward

/-- `INSERT … ON CONFLICT DO UPDATE SET` of all columns. -/
def upsert (t : Table α key) (row : α) : Table α key :=
  ⟨t.rows.filter (fun other => key other ≠ key row) ++ [row], by
    rw [List.map_append, List.map_singleton, ← List.concat_eq_append]
    apply List.Nodup.concat _ ((List.filter_sublist.map key).nodup t.nodup)
    intro taken
    obtain ⟨other, kept, same⟩ := List.mem_map.mp taken
    exact of_decide_eq_true (List.mem_filter.mp kept).2 same⟩

@[simp] theorem upsert_rows (t : Table α key) (row : α) :
    (t.upsert row).rows = t.rows.filter (fun other => key other ≠ key row) ++ [row] := rfl

def lookup? (t : Table α key) (k : κ) : Option α := t.rows.find? fun row => key row = k

@[simp] theorem lookup?_empty (k : κ) : (empty : Table α key).lookup? k = none := rfl

theorem lookup?_eq_some {t : Table α key} {k : κ} {row : α} :
    t.lookup? k = some row ↔ row ∈ t.rows ∧ key row = k := by
  constructor
  · intro found
    unfold lookup? at found
    exact ⟨List.mem_of_find?_eq_some found, by simpa using List.find?_some found⟩
  · rintro ⟨member, same⟩
    cases found : t.lookup? k with
    | none => exact absurd (decide_eq_true same) (List.find?_eq_none.mp found row member)
    | some other =>
        have inRows := List.mem_of_find?_eq_some found
        have sameKey : key other = k := by
          unfold lookup? at found
          simpa using List.find?_some found
        rw [t.eq_of_key inRows member (sameKey.trans same.symm)]

@[simp] theorem lookup?_upsert_self (t : Table α key) (row : α) : (t.upsert row).lookup? (key row) = some row :=
  lookup?_eq_some.mpr ⟨by simp, rfl⟩

theorem lookup?_upsert_of_ne (t : Table α key) {row : α} {k : κ} (other : k ≠ key row) :
    (t.upsert row).lookup? k = t.lookup? k := by
  apply Option.ext
  intro found
  rw [lookup?_eq_some, lookup?_eq_some, upsert_rows, List.mem_append, List.mem_filter, List.mem_singleton]
  constructor
  · rintro ⟨⟨member, -⟩ | rfl, rfl⟩
    · exact ⟨member, rfl⟩
    · exact absurd rfl other
  · rintro ⟨member, rfl⟩
    exact ⟨Or.inl ⟨member, decide_eq_true other⟩, rfl⟩

end Insert

def delete (t : Table α key) (p : α → Bool) : Table α key :=
  ⟨t.rows.filter fun row => !p row, (List.filter_sublist.map key).nodup t.nodup⟩

@[simp] theorem delete_rows (t : Table α key) (p : α → Bool) :
    (t.delete p).rows = t.rows.filter fun row => !p row := rfl

def update (t : Table α key) (p : α → Bool) (set : α → α)
    (keeps : ∀ row, key (set row) = key row) : Table α key :=
  ⟨t.rows.map fun row => if p row then set row else row, by
    have same : (fun row => key (if p row then set row else row)) = key := by
      funext row
      split
      · exact keeps row
      · rfl
    rw [List.map_map, Function.comp_def, same]
    exact t.nodup⟩

@[simp] theorem update_rows (t : Table α key) (p : α → Bool) (set : α → α)
    (keeps : ∀ row, key (set row) = key row) :
    (t.update p set keeps).rows = t.rows.map fun row => if p row then set row else row := rfl

def view (t : Table α key) (keep : α → Bool) (see : α → α) (keeps : ∀ row, key (see row) = key row) : Table α key :=
  ⟨(t.rows.filter keep).map see, by
    have same : key ∘ see = key := funext keeps
    rw [List.map_map, same]
    exact (List.filter_sublist.map key).nodup t.nodup⟩

@[simp] theorem view_rows (t : Table α key) (keep : α → Bool) (see : α → α)
    (keeps : ∀ row, key (see row) = key row) : (t.view keep see keeps).rows = (t.rows.filter keep).map see := rfl

section View
variable (keep : α → Bool) (see : α → α) (keeps : ∀ row, key (see row) = key row) {t u : Table α key}

theorem filter_append_view {rows added : List α} (unseen : ∀ row ∈ added, ¬ keep row) :
    ((rows ++ added).filter keep).map see = (rows.filter keep).map see := by
  rw [List.filter_append, List.filter_eq_nil_iff.mpr unseen, List.append_nil]

theorem view_append {added : List α} (rows : u.rows = t.rows ++ added) (unseen : ∀ row ∈ added, ¬ keep row) :
    u.view keep see keeps = t.view keep see keeps := by
  apply Table.ext
  rw [view_rows, view_rows, rows]
  exact filter_append_view keep see unseen

theorem view_append_singleton {row : α} (rows : u.rows = t.rows ++ [row]) (unseen : keep row = false) :
    u.view keep see keeps = t.view keep see keeps := by
  apply view_append keep see keeps rows
  intro added member
  rw [List.mem_singleton.mp member, unseen]
  exact Bool.false_ne_true

theorem filter_map_view {g : α → α} {rows : List α}
    (same : ∀ row ∈ rows, keep (g row) = keep row ∧ (keep row → see (g row) = see row)) :
    ((rows.map g).filter keep).map see = (rows.filter keep).map see := by
  induction rows with
  | nil => rfl
  | cons row rest ih =>
      obtain ⟨here, others⟩ := List.forall_mem_cons.mp same
      rw [List.map_cons]
      by_cases seen : keep row
      · rw [List.filter_cons_of_pos (here.1.trans seen), List.filter_cons_of_pos seen, List.map_cons, List.map_cons,
          here.2 seen, ih others]
      · rw [List.filter_cons_of_neg (by rw [here.1]; exact seen), List.filter_cons_of_neg seen, ih others]

theorem filter_filter_view {kept : α → Bool} {rows : List α} (within : ∀ row, keep row → kept row) :
    ((rows.filter kept).filter keep).map see = (rows.filter keep).map see := by
  rw [List.filter_filter]
  congr 1
  apply List.filter_congr
  intro row _
  by_cases seen : keep row
  · simp [seen, within row seen]
  · simp [seen]

end View
end Table
end Relational
