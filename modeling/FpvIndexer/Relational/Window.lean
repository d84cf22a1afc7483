import FpvIndexer.Relational.Query

/-!
# Rows beside their predecessors

`LAG` pairs a row with the one before it. Over rows in strict order the pairs cut the line behind a start into
intervals: each opens right after the predecessor and closes at the row.
-/

namespace Relational

section Lag
variable {α : Type}

theorem mem_zip_previous {rows : List α} {row : α} {before previous : Option α} :
    (row, previous) ∈ rows.zip (before :: rows.map some) ↔
      ∃ front back, rows = front ++ row :: back ∧ previous = front.getLast?.or before := by
  induction rows generalizing before with
  | nil => simp
  | cons head rest ih =>
      rw [List.map_cons, List.zip_cons_cons, List.mem_cons, ih]
      constructor
      · rintro (first | ⟨front, back, rfl, rfl⟩)
        · obtain ⟨rfl, rfl⟩ := Prod.mk.inj first
          exact ⟨[], rest, rfl, rfl⟩
        · refine ⟨head :: front, back, rfl, ?_⟩
          rw [List.getLast?_cons, Option.or_some, Option.some_or]
      · rintro ⟨front, back, split, rfl⟩
        cases front with
        | nil =>
            obtain ⟨rfl, -⟩ := List.cons.inj split
            exact Or.inl rfl
        | cons first front =>
            obtain ⟨rfl, rfl⟩ := List.cons.inj split
            refine Or.inr ⟨front, back, rfl, ?_⟩
            rw [List.getLast?_cons, Option.or_some, Option.some_or]

theorem mem_lag {rows : List α} {row : α} {previous : Option α} :
    (row, previous) ∈ lag rows ↔ ∃ front back, rows = front ++ row :: back ∧ previous = front.getLast? := by
  unfold lag
  simp only [mem_zip_previous, Option.or_none]

theorem head?_of_mem_lag {rows : List α} {row : α} (first : (row, none) ∈ lag rows) : rows.head? = some row := by
  obtain ⟨front, back, rfl, none⟩ := mem_lag.mp first
  rw [List.getLast?_eq_none_iff.mp none.symm]
  rfl

theorem mem_lag_of_head? {rows : List α} {row : α} (first : rows.head? = some row) : (row, none) ∈ lag rows := by
  apply List.mem_of_head?
  rw [lag_head?, first]
  rfl

theorem mem_of_mem_lag {rows : List α} {row : α} {previous : Option α} (member : (row, previous) ∈ lag rows) :
    row ∈ rows := by
  rw [← lag_map_fst rows]
  exact List.mem_map_of_mem (f := Prod.fst) member

end Lag

section Intervals
variable {α P : Type} [LinearOrder P] {key : α → P} (start : P) (after : P → P)

def opensAt (key : α → P) (previous : Option α) : P := previous.elim start fun row => after (key row)

variable {start after} {rows : List α}

theorem lag_covers (next : ∀ p x, after p ≤ x ↔ p < x) {x : P} (started : start ≤ x) (ends : ∃ row ∈ rows, x ≤ key row) :
    ∃ row previous, (row, previous) ∈ lag rows ∧ opensAt start after key previous ≤ x ∧ x ≤ key row := by
  have scan : ∀ before : Option α, opensAt start after key before ≤ x → ∃ row previous,
      (row, previous) ∈ rows.zip (before :: rows.map some) ∧ opensAt start after key previous ≤ x ∧ x ≤ key row := by
    clear started
    induction rows with
    | nil =>
        obtain ⟨row, member, -⟩ := ends
        cases member
    | cons head rest ih =>
        intro before opened
        by_cases here : x ≤ key head
        · exact ⟨head, before, List.mem_cons_self, opened, here⟩
        · obtain ⟨row, member, le⟩ := ends
          have later : row ∈ rest := (List.mem_cons.mp member).resolve_left fun same => here (same ▸ le)
          obtain ⟨found, previous, paired, opens, closes⟩ :=
            ih ⟨row, later, le⟩ (some head) ((next _ _).mpr (not_le.mp here))
          exact ⟨found, previous, List.mem_cons_of_mem _ paired, opens, closes⟩
  exact scan none started

variable (sorted : rows.Pairwise fun a b => key a < key b)
include sorted

theorem lag_previous {row previous : α} (member : (row, some previous) ∈ lag rows) :
    previous ∈ rows ∧ key previous < key row ∧ ∀ other ∈ rows, key other ≤ key previous ∨ key row ≤ key other := by
  obtain ⟨front, back, rfl, last⟩ := mem_lag.mp member
  obtain ⟨earlier, rfl⟩ := List.getLast?_eq_some_iff.mp last.symm
  obtain ⟨frontSorted, backSorted, across⟩ := List.pairwise_append.mp sorted
  obtain ⟨-, -, earlierBefore⟩ := List.pairwise_append.mp frontSorted
  refine ⟨by simp, across previous (by simp) row (by simp), ?_⟩
  intro other inRows
  rcases List.mem_append.mp inRows with inFront | inBack
  · left
    rcases List.mem_append.mp inFront with before | same
    · exact (earlierBefore other before previous (by simp)).le
    · rw [List.mem_singleton.mp same]
  · right
    rcases List.mem_cons.mp inBack with rfl | behind
    · exact le_rfl
    · exact ((List.pairwise_cons.mp backSorted).1 other behind).le

theorem head?_le {row : α} (first : rows.head? = some row) : ∀ other ∈ rows, key row ≤ key other := by
  obtain ⟨rest, rfl⟩ := List.head?_eq_some_iff.mp first
  intro other member
  rcases List.mem_cons.mp member with rfl | behind
  · exact le_rfl
  · exact ((List.pairwise_cons.mp sorted).1 other behind).le

theorem lag_before (next : ∀ p x, after p ≤ x ↔ p < x) {a b : α} {previous : Option α} (ha : a ∈ rows)
    (hb : (b, previous) ∈ lag rows) {x : P} (opens : opensAt start after key previous ≤ x) (lt : key a < key b) :
    key a < x := by
  cases previous with
  | none => exact absurd lt (not_lt.mpr (head?_le sorted (head?_of_mem_lag hb) a ha))
  | some previous =>
      obtain ⟨-, -, beside⟩ := lag_previous sorted hb
      have le := (beside a ha).resolve_right (not_le.mpr lt)
      exact le.trans_lt ((next _ _).mp opens)

theorem lag_disjoint (next : ∀ p x, after p ≤ x ↔ p < x) {a b : α} {p q : Option α} (ha : (a, p) ∈ lag rows)
    (hb : (b, q) ∈ lag rows) {x : P} (opensA : opensAt start after key p ≤ x) (closesA : x ≤ key a)
    (opensB : opensAt start after key q ≤ x) (closesB : x ≤ key b) : a = b ∧ p = q := by
  have same : key a = key b := by
    apply le_antisymm
    · by_contra lt
      have before := lag_before sorted next (mem_of_mem_lag hb) ha opensA (not_le.mp lt)
      exact absurd closesB (not_le.mpr before)
    · by_contra lt
      have before := lag_before sorted next (mem_of_mem_lag ha) hb opensB (not_le.mp lt)
      exact absurd closesA (not_le.mpr before)
  have distinct : ((lag rows).map fun entry => key entry.1).Nodup := by
    rw [show (fun entry : α × Option α => key entry.1) = key ∘ Prod.fst from rfl, ← List.map_map, lag_map_fst]
    exact List.pairwise_map.mpr (sorted.imp fun lt => lt.ne)
  exact Prod.mk.inj (List.inj_on_of_nodup_map distinct ha hb same)

end Intervals
end Relational
