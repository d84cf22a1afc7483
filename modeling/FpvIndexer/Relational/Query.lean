import Mathlib.Data.List.Sort
import Mathlib.Data.Prod.Lex
import Mathlib.Data.List.Basic
import Mathlib.Algebra.BigOperators.Group.List.Basic
import Mathlib.Algebra.Order.BigOperators.Group.List

/-!
# Query operators

`ORDER BY`, `DISTINCT ON`, `ROW_NUMBER`, `LAG` and `WITH RECURSIVE` on lists of rows. Rows that an
`ORDER BY` leaves tied keep the order in which they were read.
-/

namespace Relational
variable {α β κ : Type}

section OrderBy
variable [LinearOrder κ] (key : α → κ)

def orderBy (rows : List α) : List α :=
  rows.insertionSort fun a b => key a ≤ key b

theorem orderBy_cons (row : α) (rest : List α) :
    orderBy key (row :: rest) =
      (orderBy key rest).orderedInsert (fun a b => key a ≤ key b) row := rfl

instance keyTotal : Std.Total fun a b : α => key a ≤ key b := ⟨fun a b => le_total (key a) (key b)⟩

instance keyTrans : IsTrans α fun a b => key a ≤ key b := ⟨fun _ _ _ => le_trans⟩

theorem orderBy_perm (rows : List α) : (orderBy key rows).Perm rows :=
  List.perm_insertionSort _ rows

@[simp] theorem mem_orderBy {rows : List α} {row : α} : row ∈ orderBy key rows ↔ row ∈ rows :=
  (orderBy_perm key rows).mem_iff

theorem orderBy_sorted (rows : List α) : (orderBy key rows).Pairwise fun a b => key a ≤ key b :=
  List.pairwise_insertionSort _ rows

theorem orderBy_of_sorted {rows : List α} (sorted : rows.Pairwise fun a b => key a ≤ key b) :
    orderBy key rows = rows :=
  sorted.insertionSort_eq

theorem orderBy_concat {rows : List α} {row : α} (last : ∀ other ∈ rows, key other ≤ key row) :
    orderBy key (rows ++ [row]) = orderBy key rows ++ [row] := by
  induction rows with
  | nil => rfl
  | cons head rest ih =>
      obtain ⟨headLe, others⟩ := List.forall_mem_cons.mp last
      rw [List.cons_append, orderBy_cons, orderBy_cons, ih others]
      induction orderBy key rest with
      | nil => exact List.orderedInsert_cons_of_le (r := fun a b => key a ≤ key b) _ headLe
      | cons next later inner =>
          by_cases first : key head ≤ key next
          · rw [List.cons_append, List.orderedInsert_cons_of_le (r := fun a b => key a ≤ key b) _ first,
              List.orderedInsert_cons_of_le (r := fun a b => key a ≤ key b) _ first]
            rfl
          · rw [List.cons_append, List.orderedInsert_of_not_le (r := fun a b => key a ≤ key b) _ first, inner,
              List.orderedInsert_of_not_le (r := fun a b => key a ≤ key b) _ first]
            rfl

theorem filter_orderedInsert (p : α → Bool) (row : α) (rows : List α)
    (sorted : rows.Pairwise fun a b => key a ≤ key b) :
    (rows.orderedInsert (fun a b => key a ≤ key b) row).filter p =
      if p row then (rows.filter p).orderedInsert (fun a b => key a ≤ key b) row
      else rows.filter p := by
  induction rows with
  | nil => by_cases keep : p row <;> simp [keep]
  | cons head rest ih =>
      obtain ⟨headLe, restSorted⟩ := List.pairwise_cons.mp sorted
      by_cases first : key row ≤ key head
      · rw [List.orderedInsert_cons_of_le (r := fun a b => key a ≤ key b) _ first]
        by_cases keep : p row
        · rw [if_pos keep, List.filter_cons_of_pos keep]
          have below : ∀ b ∈ (head :: rest).filter p, key row ≤ key b := by
            intro b member
            rcases List.mem_cons.mp (List.mem_of_mem_filter member) with rfl | later
            · exact first
            · exact first.trans (headLe b later)
          cases kept : (head :: rest).filter p with
          | nil => simp
          | cons b tail =>
              rw [kept] at below
              rw [List.orderedInsert_cons_of_le (r := fun a b => key a ≤ key b) _ (below b (by simp))]
        · rw [if_neg keep, List.filter_cons_of_neg keep]
      · rw [List.orderedInsert_of_not_le (r := fun a b => key a ≤ key b) _ first]
        by_cases keep : p head
        · rw [List.filter_cons_of_pos keep, List.filter_cons_of_pos keep, ih restSorted]
          split
          · rw [List.orderedInsert_of_not_le (r := fun a b => key a ≤ key b) _ first]
          · rfl
        · rw [List.filter_cons_of_neg keep, List.filter_cons_of_neg keep, ih restSorted]

theorem filter_orderBy (p : α → Bool) (rows : List α) :
    (orderBy key rows).filter p = orderBy key (rows.filter p) := by
  induction rows with
  | nil => rfl
  | cons row rest ih =>
      rw [orderBy_cons, filter_orderedInsert key p row _ (orderBy_sorted key rest), ih]
      by_cases keep : p row
      · rw [if_pos keep, List.filter_cons_of_pos keep, orderBy_cons]
      · rw [if_neg keep, List.filter_cons_of_neg keep]

theorem head?_orderBy_eq_none {rows : List α} : (orderBy key rows).head? = none ↔ rows = [] := by
  rw [List.head?_eq_none_iff]
  constructor
  · intro empty
    have perm := orderBy_perm key rows
    rw [empty] at perm
    exact List.nil_perm.mp perm
  · rintro rfl
    rfl

theorem mem_of_head?_orderBy {rows : List α} {row : α} (first : (orderBy key rows).head? = some row) :
    row ∈ rows :=
  (mem_orderBy key).mp (List.mem_of_mem_head? first)

theorem le_of_head?_orderBy {rows : List α} {row other : α}
    (first : (orderBy key rows).head? = some row) (member : other ∈ rows) : key row ≤ key other := by
  have sorted := orderBy_sorted key rows
  rw [← mem_orderBy key] at member
  cases kept : orderBy key rows with
  | nil => simp [kept] at first
  | cons head rest =>
      rw [kept] at first sorted member
      cases first
      rcases List.mem_cons.mp member with rfl | later
      · exact le_rfl
      · exact (List.pairwise_cons.mp sorted).1 other later

theorem map_orderBy (key' : β → κ) (f : α → β) (same : ∀ row, key' (f row) = key row) (rows : List α) :
    (orderBy key rows).map f = orderBy key' (rows.map f) := by
  apply List.map_insertionSort
  intro a _ b _
  rw [same, same]

end OrderBy

theorem filter_map_filter {p : α → Bool} {c : β → Bool} (c' : α → Bool) {f : α → β}
    (same : ∀ row, p row → c (f row) = c' row) (rows : List α) :
    ((rows.filter p).map f).filter c = ((rows.filter c').filter p).map f := by
  rw [List.filter_map, List.filter_filter, List.filter_filter]
  congr 1
  apply List.filter_congr
  intro row _
  by_cases keep : p row
  · simp [keep, same row keep]
  · simp [keep]

theorem filter_map_filter_within {p : α → Bool} {c : β → Bool} (c' : α → Bool) {f : α → β}
    (same : ∀ row, p row → c (f row) = c' row) (within : ∀ row, c' row → p row) (rows : List α) :
    ((rows.filter p).map f).filter c = (rows.filter c').map f := by
  rw [filter_map_filter c' same, List.filter_filter]
  congr 1
  apply List.filter_congr
  intro row _
  by_cases keep : c' row
  · simp [keep, within row keep]
  · simp [keep]

theorem flatMap_filter (p : α → Bool) (f : α → List β) (rows : List α) :
    (rows.filter p).flatMap f = rows.flatMap fun row => if p row then f row else [] := by
  induction rows with
  | nil => rfl
  | cons row rest ih =>
      by_cases keep : p row
      · rw [List.filter_cons_of_pos keep, List.flatMap_cons, List.flatMap_cons, ih, if_pos keep]
      · rw [List.filter_cons_of_neg keep, List.flatMap_cons, ih, if_neg keep, List.nil_append]

theorem eq_filter_append_filter {before : α → α → Prop} {rows : List α} (p : α → Bool)
    (sorted : rows.Pairwise before) (down : ∀ a b, before a b → p b → p a) :
    rows = rows.filter p ++ rows.filter fun row => !p row := by
  induction rows with
  | nil => rfl
  | cons head rest ih =>
      obtain ⟨headBefore, restSorted⟩ := List.pairwise_cons.mp sorted
      by_cases keep : p head
      · rw [List.filter_cons_of_pos keep, List.filter_cons_of_neg (by simpa using keep),
          List.cons_append, ← ih restSorted]
      · have none : ∀ b ∈ rest, ¬ p b := fun b member kept => keep (down head b (headBefore b member) kept)
        rw [List.filter_cons_of_neg keep, List.filter_eq_nil_iff.mpr none,
          List.filter_cons_of_pos (by simpa using keep), List.nil_append,
          List.filter_eq_self.mpr fun b member => by simpa using none b member]

theorem perm_of_groups [DecidableEq α] [DecidableEq κ] (key : α → κ) {rows others : List α}
    (same : ∀ k, (rows.filter (key · = k)).Perm (others.filter (key · = k))) : rows.Perm others := by
  rw [List.perm_iff_count]
  intro row
  have inGroup : ∀ all : List α, all.count row = (all.filter (key · = key row)).count row :=
    fun all => (List.count_filter (p := (key · = key row)) (decide_eq_true rfl)).symm
  rw [inGroup rows, inGroup others]
  exact (same (key row)).count_eq row

section DistinctOn
variable [DecidableEq κ] (key : α → κ)

def distinctOn : List α → List α
  | [] => []
  | row :: rest => row :: (distinctOn rest).filter fun other => key other ≠ key row

theorem distinctOn_sublist (rows : List α) : (distinctOn key rows).Sublist rows := by
  induction rows with
  | nil => exact List.Sublist.slnil
  | cons row rest ih => exact (List.filter_sublist.trans ih).cons_cons row

theorem distinctOn_pairwise (rows : List α) :
    (distinctOn key rows).Pairwise fun a b => key a ≠ key b := by
  induction rows with
  | nil => exact List.Pairwise.nil
  | cons row rest ih =>
      refine List.pairwise_cons.mpr ⟨?_, ih.filter _⟩
      intro other member same
      exact of_decide_eq_true (List.mem_filter.mp member).2 same.symm

theorem distinctOn_inj {rows : List α} {a b : α} (ha : a ∈ distinctOn key rows) (hb : b ∈ distinctOn key rows)
    (same : key a = key b) : a = b :=
  List.inj_on_of_nodup_map (List.pairwise_map.mpr (distinctOn_pairwise key rows)) ha hb same

theorem exists_mem_distinctOn {before : α → α → Prop} (refl : ∀ a, before a a) {rows : List α}
    (sorted : rows.Pairwise before) {row : α} (member : row ∈ rows) :
    ∃ first ∈ distinctOn key rows, key first = key row ∧ before first row := by
  induction rows with
  | nil => cases member
  | cons head rest ih =>
      obtain ⟨headBefore, restSorted⟩ := List.pairwise_cons.mp sorted
      by_cases same : key head = key row
      · refine ⟨head, List.mem_cons_self, same, ?_⟩
        rcases List.mem_cons.mp member with rfl | later
        · exact refl _
        · exact headBefore row later
      · rcases List.mem_cons.mp member with rfl | later
        · exact absurd rfl same
        · obtain ⟨first, found, sameKey, earlier⟩ := ih restSorted later
          refine ⟨first, List.mem_cons_of_mem _ (List.mem_filter.mpr ⟨found, ?_⟩), sameKey, earlier⟩
          exact decide_eq_true fun equal => same (equal.symm.trans sameKey)

theorem mem_of_mem_distinctOn_orderBy {ι : Type} [LinearOrder ι] {order : α → ι} {rows : List α} {row : α}
    (member : row ∈ distinctOn key (orderBy order rows)) : row ∈ rows := by
  have listed := (distinctOn_sublist key _).subset member
  rwa [mem_orderBy] at listed

theorem exists_distinctOn_orderBy {ι : Type} [LinearOrder ι] (order : α → ι) {rows : List α} {row : α}
    (member : row ∈ rows) :
    ∃ first ∈ distinctOn key (orderBy order rows), key first = key row ∧ order first ≤ order row := by
  have itself : ∀ a, order a ≤ order a := fun _ => le_rfl
  rw [← mem_orderBy order] at member
  exact exists_mem_distinctOn key itself (orderBy_sorted order rows) member

theorem map_distinctOn (key' : β → κ) (f : α → β) (same : ∀ row, key' (f row) = key row) (rows : List α) :
    (distinctOn key rows).map f = distinctOn key' (rows.map f) := by
  induction rows with
  | nil => rfl
  | cons row rest ih =>
      rw [distinctOn, List.map_cons, List.map_cons, distinctOn, ← ih, List.filter_map]
      simp only [Function.comp_def, same]

theorem filter_distinctOn {p : α → Bool} (byKey : ∀ a b, key a = key b → p a = p b) (rows : List α) :
    (distinctOn key rows).filter p = distinctOn key (rows.filter p) := by
  induction rows with
  | nil => rfl
  | cons row rest ih =>
      rw [distinctOn]
      by_cases keep : p row
      · rw [List.filter_cons_of_pos keep, List.filter_cons_of_pos keep, distinctOn, ← ih, List.filter_filter,
          List.filter_filter]
        simp only [Bool.and_comm]
      · rw [List.filter_cons_of_neg keep, List.filter_cons_of_neg keep, ← ih, List.filter_filter]
        apply List.filter_congr
        intro other _
        by_cases same : key other = key row
        · simp [byKey other row same, keep]
        · simp [same]

theorem distinctOn_orderBy_filter_map {ι : Type} [LinearOrder ι] (order : α → ι) {order' : β → ι} {key' : β → κ}
    {p : α → Bool} {c : β → Bool} {c' : α → Bool} (f : α → β) (sameOrder : ∀ row, order' (f row) = order row)
    (sameKey : ∀ row, key' (f row) = key row) (same : ∀ row, p row → c (f row) = c' row) (rows : List α) :
    distinctOn key' (orderBy order' (((rows.filter p).map f).filter c)) =
      (distinctOn key (orderBy order ((rows.filter c').filter p))).map f := by
  rw [filter_map_filter c' same, ← map_orderBy order order' f sameOrder, map_distinctOn key key' f sameKey]

theorem mem_distinctOn_id [DecidableEq α] {rows : List α} {row : α} : row ∈ distinctOn id rows ↔ row ∈ rows := by
  constructor
  · exact fun member => (distinctOn_sublist id rows).subset member
  · intro member
    induction rows with
    | nil => cases member
    | cons head rest ih =>
        by_cases same : row = head
        · exact same ▸ List.mem_cons_self
        · have later := ih (List.mem_of_ne_of_mem same member)
          exact List.mem_cons_of_mem _ (List.mem_filter.mpr ⟨later, decide_eq_true same⟩)

theorem distinctOn_orderBy_keys {ι : Type} [LinearOrder κ] [LinearOrder ι] (place : α → ι) (rows : List α) :
    ((distinctOn key (orderBy (fun row => toLex (key row, place row)) rows)).map key).Pairwise (· < ·) := by
  have sorted := orderBy_sorted (fun row => toLex (key row, place row)) rows
  have ascending := sorted.imp fun {a b} le => (Prod.Lex.toLex_le_toLex.mp le).elim le_of_lt fun tied => tied.1.le
  have kept := List.Pairwise.sublist (distinctOn_sublist key _) ascending
  refine List.pairwise_map.mpr ((kept.and (distinctOn_pairwise key _)).imp ?_)
  exact fun both => lt_of_le_of_ne both.1 both.2

end DistinctOn

section Ascending
variable [LinearOrder κ]

def inOrder (keys : List κ) : List κ := orderBy id (distinctOn id keys)

@[simp] theorem mem_inOrder {keys : List κ} {k : κ} : k ∈ inOrder keys ↔ k ∈ keys := by
  unfold inOrder
  rw [mem_orderBy, mem_distinctOn_id]

theorem inOrder_ascending (keys : List κ) : (inOrder keys).Pairwise (· < ·) := by
  have nodup : (inOrder keys).Nodup := (orderBy_perm id _).nodup_iff.mpr (distinctOn_pairwise id keys)
  exact ((orderBy_sorted id (distinctOn id keys)).and nodup).imp fun both => lt_of_le_of_ne both.1 both.2

theorem eq_inOrder {keys others : List κ} (ascending : keys.Pairwise (· < ·)) (same : ∀ k, k ∈ keys ↔ k ∈ others) :
    keys = inOrder others := by
  have othersAscending := inOrder_ascending others
  have perm := (List.perm_ext_iff_of_nodup (ascending.imp fun lt => lt.ne) (othersAscending.imp fun lt => lt.ne)).mpr
    fun k => (same k).trans mem_inOrder.symm
  exact perm.eq_of_pairwise (fun a b _ _ ab ba => absurd (ab.trans ba) (lt_irrefl a)) ascending othersAscending

end Ascending

section GroupBy
variable [DecidableEq κ] (key : α → κ)

def groupBy (rows : List α) : List (κ × List α) :=
  (distinctOn id (rows.map key)).map fun k => (k, rows.filter (key · = k))

theorem groupBy_keys (rows : List α) : (groupBy key rows).map Prod.fst = distinctOn id (rows.map key) := by
  unfold groupBy
  rw [List.map_map]
  exact List.map_id _

theorem groupBy_keys_nodup (rows : List α) : ((groupBy key rows).map Prod.fst).Nodup := by
  rw [groupBy_keys]
  exact distinctOn_pairwise id _

theorem mem_groupBy {rows : List α} {group : κ × List α} : group ∈ groupBy key rows ↔
    (∃ row ∈ rows, key row = group.1) ∧ group.2 = rows.filter (key · = group.1) := by
  unfold groupBy
  rw [List.mem_map]
  constructor
  · rintro ⟨k, listed, rfl⟩
    rw [mem_distinctOn_id, List.mem_map] at listed
    exact ⟨listed, rfl⟩
  · rintro ⟨listed, members⟩
    rw [← List.mem_map] at listed
    exact ⟨group.1, mem_distinctOn_id.mpr listed, Prod.ext rfl members.symm⟩

end GroupBy

section LeftJoin
variable (on : α → β → Bool)

def leftJoin (rows : List α) (others : List β) : List (α × Option β) :=
  rows.flatMap fun row =>
    match others.filter (on row) with
    | [] => [(row, none)]
    | matched => matched.map fun other => (row, some other)

theorem leftJoin_filter (p : α → Bool) (c : β → Bool) (rows : List α) (others : List β) :
    ((leftJoin on rows others).filter fun pair => pair.2.any c && p pair.1) =
      (rows.filter p).flatMap fun row => ((others.filter c).filter (on row)).map fun other => (row, some other) := by
  unfold leftJoin
  rw [List.filter_flatMap, flatMap_filter]
  refine congrArg (rows.flatMap ·) (funext fun row => ?_)
  have kept : ∀ matched : List β, ((matched.map fun other => (row, some other)).filter fun pair =>
      pair.2.any c && p pair.1) = if p row then (matched.filter c).map (fun other => (row, some other)) else [] := by
    intro matched
    rw [List.filter_map]
    cases keep : p row <;> simp [Function.comp_def, keep]
  rw [List.filter_comm, ← kept]
  split
  · rename_i none
    rw [none]
    rfl
  · rfl

end LeftJoin

section RowNumber

def rowNumber (rows : List α) : List (α × Nat) :=
  rows.zipIdx 1

@[simp] theorem rowNumber_map_fst (rows : List α) : (rowNumber rows).map Prod.fst = rows :=
  List.zipIdx_map_fst 1 rows

theorem rowNumber_append (front back : List α) :
    rowNumber (front ++ back) = rowNumber front ++ back.zipIdx (1 + front.length) := by
  simp [rowNumber, List.zipIdx_append]

theorem rowNumber_orderBy_concat [LinearOrder κ] (key : α → κ) (f : α × Nat → β) {rows : List α} {added : Option α}
    (last : ∀ row ∈ added, ∀ other ∈ rows, key other ≤ key row) :
    (rowNumber (orderBy key (rows ++ added.toList))).map f =
      (rowNumber (orderBy key rows)).map f ++ (added.map fun row => f (row, rows.length + 1)).toList := by
  cases added with
  | none => simp
  | some row =>
      have length : (orderBy key rows).length = rows.length := (orderBy_perm key rows).length_eq
      rw [Option.toList_some, orderBy_concat key (last row rfl), rowNumber_append, length, Nat.add_comm, List.map_append]
      rfl

theorem rowNumber_length (rows : List α) : (rowNumber rows).length = rows.length := by
  simp [rowNumber]

def lag (rows : List α) : List (α × Option α) :=
  rows.zip (none :: rows.map some)

@[simp] theorem lag_map_fst (rows : List α) : (lag rows).map Prod.fst = rows :=
  List.map_fst_zip (by simp)

theorem lag_head? (rows : List α) : (lag rows).head? = rows.head?.map fun row => (row, none) := by
  cases rows <;> simp [lag]

end RowNumber

section Sum
variable {M : Type} [AddCommMonoid M]

theorem sum_map_comm (as : List α) (bs : List β) (f : α → β → M) :
    (as.map fun a => (bs.map (f a)).sum).sum = (bs.map fun b => (as.map fun a => f a b).sum).sum := by
  induction as with
  | nil => simp
  | cons a as ih => simp only [List.map_cons, List.sum_cons, ih, ← List.sum_map_add]

theorem sum_ite_eq_of_mem [DecidableEq κ] {groups : List κ} (nodup : groups.Nodup) {group : κ}
    (member : group ∈ groups) (value : M) : (groups.map fun g => if g = group then value else 0).sum = value := by
  have once := List.count_eq_one_of_mem nodup member
  rw [List.sum_map_eq_nsmul_single group, once, one_nsmul, if_pos rfl]
  intro other differ _
  exact if_neg differ

theorem sum_map_filter (p : α → Bool) (f : α → M) (rows : List α) :
    ((rows.filter p).map f).sum = (rows.map fun row => if p row then f row else 0).sum := by
  induction rows with
  | nil => rfl
  | cons row rest ih =>
      by_cases keep : p row
      · rw [List.filter_cons_of_pos keep, List.map_cons, List.map_cons, List.sum_cons, List.sum_cons, ih, if_pos keep]
      · rw [List.filter_cons_of_neg keep, List.map_cons, List.sum_cons, ih, if_neg keep, zero_add]

theorem sum_map_mem_keys [DecidableEq κ] {keys : List κ} (nodup : keys.Nodup) (key : α → κ) (f : α → M)
    (rows : List α) : (rows.map fun row => if key row ∈ keys then f row else 0).sum =
      (keys.map fun k => ((rows.filter (key · = k)).map f).sum).sum := by
  simp only [sum_map_filter, sum_map_comm keys, decide_eq_true_eq]
  refine congrArg List.sum (List.map_congr_left fun row _ => ?_)
  by_cases listed : key row ∈ keys
  · simp only [if_pos listed, eq_comm (a := key row), sum_ite_eq_of_mem nodup listed]
  · have none : ∀ k ∈ keys, ¬ key row = k := fun k member same => listed (same ▸ member)
    rw [if_neg listed, List.map_congr_left fun k member => if_neg (none k member)]
    simp

theorem sum_map_filter_split (p q : α → Bool) (f : α → M) (rows : List α) :
    ((rows.filter p).map f).sum =
      ((rows.filter fun row => p row && q row).map f).sum + ((rows.filter fun row => p row && !q row).map f).sum := by
  simp only [sum_map_filter, ← List.sum_map_add]
  refine congrArg List.sum (List.map_congr_left fun row _ => ?_)
  cases p row <;> cases q row <;> simp

theorem sum_map_eq_iff {M : Type} [AddCommMonoid M] [PartialOrder M] [IsOrderedCancelAddMonoid M] {f g : α → M}
    {rows : List α} (le : ∀ row ∈ rows, f row ≤ g row) :
    (rows.map f).sum = (rows.map g).sum ↔ ∀ row ∈ rows, f row = g row := by
  induction rows with
  | nil => simp
  | cons row rest ih =>
      obtain ⟨here, later⟩ := List.forall_mem_cons.mp le
      rw [List.map_cons, List.map_cons, List.sum_cons, List.sum_cons, List.forall_mem_cons, ← ih later]
      exact add_eq_add_iff_eq_and_eq here (List.sum_le_sum later)

end Sum

section Limit

theorem flatMap_pages (rows : List α) (limit count : Nat) :
    ((List.range count).flatMap fun page => (rows.drop (page * limit)).take limit) = rows.take (count * limit) := by
  induction count with
  | zero => simp
  | succ count ih =>
      rw [List.range_succ, List.flatMap_append, ih, List.flatMap_singleton, Nat.succ_mul, List.take_add]

end Limit

section Recursive

def recursiveUnion (step : List β → List β) : Nat → List β → List β
  | 0, _ => []
  | fuel + 1, working =>
      if working.isEmpty then [] else working ++ recursiveUnion step fuel (step working)

variable (seqOf : α → Nat) (seq : β → Nat) (next : β → α → β)

/-- One round of a recursive query that joins the rows on the number after the previous one. -/
def joinSuccessor (items : List α) (working : List β) : List β :=
  items.flatMap fun item =>
    (working.filter fun previous => seqOf item = seq previous + 1).map fun previous => next previous item

theorem recursiveUnion_nil (step : List β → List β) (fuel : Nat) : recursiveUnion step fuel [] = [] := by
  cases fuel <;> rfl

theorem forall_mem_recursiveUnion {P : β → Prop} {step : List β → List β}
    (keeps : ∀ working, (∀ b ∈ working, P b) → ∀ b ∈ step working, P b) (fuel : Nat) {working : List β}
    (holds : ∀ b ∈ working, P b) : ∀ b ∈ recursiveUnion step fuel working, P b := by
  induction fuel generalizing working with
  | zero => simp [recursiveUnion]
  | succ fuel ih =>
      intro b member
      unfold recursiveUnion at member
      split at member
      · cases member
      · rcases List.mem_append.mp member with here | later
        · exact holds b here
        · exact ih (keeps working holds) b later

theorem mem_recursiveUnion_of_mem (step : List β → List β) (fuel : Nat) {working : List β} {b : β} (member : b ∈ working) :
    b ∈ recursiveUnion step (fuel + 1) working := by
  unfold recursiveUnion
  rw [if_neg (by simpa using List.ne_nil_of_mem member)]
  exact List.mem_append_left _ member

theorem recursiveUnion_congr {good : β → Prop} {step other : List β → List β}
    (same : ∀ working, (∀ b ∈ other working, good b) → step working = other working) (fuel : Nat) {working : List β}
    (all : ∀ b ∈ recursiveUnion other fuel working, good b) :
    recursiveUnion step fuel working = recursiveUnion other fuel working := by
  induction fuel generalizing working with
  | zero => rfl
  | succ fuel ih =>
      unfold recursiveUnion at all ⊢
      split
      · rfl
      · rename_i some
        rw [if_neg some] at all
        have later : ∀ b ∈ recursiveUnion other fuel (other working), good b :=
          fun b member => all b (List.mem_append_right _ member)
        cases fuel with
        | zero => rfl
        | succ fuel =>
            rw [same working fun b member => later b (mem_recursiveUnion_of_mem other fuel member), ih later]

theorem recursiveUnion_perm_flatMap {step : List β → List β}
    (additive : ∀ working, (step working).Perm (working.flatMap fun b => step [b])) (fuel : Nat) (working : List β) :
    (recursiveUnion step fuel working).Perm (working.flatMap fun b => recursiveUnion step fuel [b]) := by
  induction fuel generalizing working with
  | zero => simp [recursiveUnion]
  | succ fuel ih =>
      have unfolded : ∀ working, recursiveUnion step (fuel + 1) working = working ++ recursiveUnion step fuel (step working) := by
        intro working
        cases working with
        | nil =>
            have none : step [] = [] := List.perm_nil.mp (additive [])
            rw [none, recursiveUnion_nil, recursiveUnion_nil, List.append_nil]
        | cons b rest => rfl
      let onward := fun b => recursiveUnion step fuel (step [b])
      have rounds : (recursiveUnion step fuel (step working)).Perm (working.flatMap onward) := by
        refine (ih _).trans (((additive working).flatMap_right _).trans ?_)
        rw [List.flatMap_assoc]
        exact List.Perm.flatMap_left _ fun b _ => (ih _).symm
      rw [unfolded]
      refine (rounds.append_left working).trans ?_
      have split : (working.flatMap fun b => recursiveUnion step (fuel + 1) [b]) =
          working.flatMap fun b => [b] ++ onward b := rfl
      rw [split]
      have merged := List.flatMap_append_perm working (fun b => [b]) onward
      simpa using merged

theorem joinSuccessor_perm_flatMap (items : List α) (working : List β) :
    (joinSuccessor seqOf seq next items working).Perm
      (working.flatMap fun b => joinSuccessor seqOf seq next items [b]) := by
  induction working with
  | nil => simp [joinSuccessor]
  | cons b rest ih =>
      rw [List.flatMap_cons]
      refine List.Perm.trans ?_ (ih.append_left _)
      refine List.Perm.trans ?_ (List.flatMap_append_perm items _ _).symm
      apply List.Perm.of_eq
      unfold joinSuccessor
      congr 1
      funext item
      by_cases joined : seqOf item = seq b + 1
      · simp [joined]
      · simp [joined]

/-- Joined on the next row number, a recursive query is a left-to-right scan of the numbered rows. -/
theorem recursiveUnion_joinSuccessor (keeps : ∀ previous item, seq (next previous item) = seqOf item)
    (done rest : List α)
    (numbered : (done ++ rest).map seqOf = List.range' 1 (done ++ rest).length)
    (previous : β) (position : seq previous = done.length) (fuel : Nat) (enough : rest.length < fuel) :
    recursiveUnion (joinSuccessor seqOf seq next (done ++ rest)) fuel [previous] =
      List.scanl next previous rest := by
  induction rest generalizing done previous fuel with
  | nil =>
      obtain ⟨fuel, rfl⟩ : ∃ n, fuel = n + 1 := ⟨fuel - 1, by simp at enough; omega⟩
      rw [List.append_nil] at numbered ⊢
      have last : joinSuccessor seqOf seq next done [previous] = [] := by
        refine List.flatMap_eq_nil_iff.mpr fun item member => ?_
        have bound : seqOf item ∈ List.range' 1 done.length := numbered ▸ List.mem_map_of_mem member
        rw [List.mem_range'_1] at bound
        have differ : ¬ seqOf item = seq previous + 1 := by omega
        simp [differ]
      simp only [recursiveUnion, List.isEmpty_cons, Bool.false_eq_true, ↓reduceIte, last,
        recursiveUnion_nil, List.scanl_nil, List.append_nil]
  | cons item rest ih =>
      obtain ⟨fuel, rfl⟩ : ∃ n, fuel = n + 1 := ⟨fuel - 1, by simp at enough; omega⟩
      have parts : done.map seqOf = List.range' 1 done.length ∧
          (item :: rest).map seqOf = List.range' (1 + done.length) (rest.length + 1) := by
        rw [List.map_append, List.length_append, List.length_cons, ← List.range'_append_1] at numbered
        exact List.append_inj numbered (by simp)
      have here : seqOf item = done.length + 1 := by
        have := parts.2
        rw [List.map_cons, List.range'_succ, List.cons.injEq] at this
        omega
      have before : ∀ other ∈ done, ¬ seqOf other = seq previous + 1 := by
        intro other member
        have bound : seqOf other ∈ List.range' 1 done.length := parts.1 ▸ List.mem_map_of_mem member
        rw [List.mem_range'_1] at bound
        omega
      have after : ∀ other ∈ rest, ¬ seqOf other = seq previous + 1 := by
        intro other member
        have shifted : rest.map seqOf = List.range' (1 + done.length + 1) rest.length := by
          have := parts.2
          rw [List.map_cons, List.range'_succ, List.cons.injEq] at this
          exact this.2
        have bound : seqOf other ∈ List.range' (1 + done.length + 1) rest.length :=
          shifted ▸ List.mem_map_of_mem member
        rw [List.mem_range'_1] at bound
        omega
      have step : joinSuccessor seqOf seq next (done ++ item :: rest) [previous] = [next previous item] := by
        have front : done.flatMap (fun other => ([previous].filter fun p => seqOf other = seq p + 1).map
            fun p => next p other) = [] :=
          List.flatMap_eq_nil_iff.mpr fun other member => by simp [before other member]
        have back : rest.flatMap (fun other => ([previous].filter fun p => seqOf other = seq p + 1).map
            fun p => next p other) = [] :=
          List.flatMap_eq_nil_iff.mpr fun other member => by simp [after other member]
        rw [joinSuccessor, List.flatMap_append, List.flatMap_cons, front, back]
        simp [here, position]
      have tail := ih (done ++ [item]) (by simpa using numbered) (next previous item)
        (by rw [keeps, here]; simp) fuel (by simp at enough; omega)
      rw [List.append_assoc, List.singleton_append] at tail
      simp only [recursiveUnion, List.isEmpty_cons, Bool.false_eq_true, ↓reduceIte, step, tail,
        List.scanl_cons, List.singleton_append]

end Recursive
end Relational
