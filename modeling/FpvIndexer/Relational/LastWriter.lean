import FpvIndexer.Relational.Scan
import Mathlib.Data.List.Induction

/-!
# Last writer wins

`ORDER BY key DESC LIMIT 1` over rows that were appended in the order of their keys, a register that a history of events
writes, and a ledger of one register for each key.
-/

namespace Relational
variable {α β ρ σ κ : Type}

section Latest
variable [LinearOrder κ] (key : α → κ)

def orderByDesc (rows : List α) : List α := orderBy (fun row => OrderDual.toDual (key row)) rows

/-- `ORDER BY key DESC LIMIT 1` over the rows that a condition keeps. -/
def latest? (keep : α → Bool) (rows : List α) : Option α := (orderByDesc key (rows.filter keep)).head?

variable {key}

theorem orderByDesc_of_sorted {rows : List α} (sorted : rows.Pairwise fun a b => key a < key b) :
    orderByDesc key rows = rows.reverse :=
  orderBy_of_perm _ rows.reverse_perm.symm (List.pairwise_reverse.mpr sorted)

theorem latest?_of_sorted {rows : List α} (sorted : rows.Pairwise fun a b => key a < key b) (keep : α → Bool) :
    latest? key keep rows = (rows.filter keep).getLast? := by
  unfold latest?
  rw [orderByDesc_of_sorted (sorted.filter keep), List.head?_reverse]

end Latest

section Register
variable (step : σ → α → σ) (read : σ → ρ) (write : α → Option ρ)

theorem foldl_register (writes : ∀ state event, read (step state event) = (write event).getD (read state))
    (events : List α) (initial : σ) :
    read (events.foldl step initial) = ((events.filterMap write).getLast?).getD (read initial) := by
  induction events using List.reverseRecOn with
  | nil => rfl
  | append_singleton past event ih =>
      rw [List.foldl_append, List.foldl_cons, List.foldl_nil, writes, ih, List.filterMap_append]
      cases written : write event with
      | none => simp [written]
      | some value => simp [written]

theorem exists_last_writer [LinearOrder κ] {key : α → κ} {events : List α}
    (sorted : events.Pairwise fun a b => key a < key b) {value : ρ}
    (last : (events.filterMap write).getLast? = some value) :
    ∃ event ∈ events, write event = some value ∧ ∀ other ∈ events, (write other).isSome → key other ≤ key event := by
  induction events using List.reverseRecOn with
  | nil => cases last
  | append_singleton past event ih =>
      obtain ⟨pastSorted, -, before⟩ := List.pairwise_append.mp sorted
      rw [List.filterMap_append] at last
      cases written : write event with
      | none =>
          rw [List.filterMap_cons_none written, List.filterMap_nil, List.append_nil] at last
          obtain ⟨writer, member, wrote, latest⟩ := ih pastSorted last
          refine ⟨writer, List.mem_append_left _ member, wrote, fun other inEvents writes => ?_⟩
          rcases List.mem_append.mp inEvents with old | new
          · exact latest other old writes
          · rw [List.mem_singleton.mp new, written] at writes
            cases writes
      | some found =>
          rw [List.filterMap_cons_some written, List.getLast?_append] at last
          cases last
          refine ⟨event, List.mem_append_right _ (List.mem_singleton_self _), written, fun other inEvents _ => ?_⟩
          rcases List.mem_append.mp inEvents with old | new
          · exact (before other old event (List.mem_singleton_self _)).le
          · rw [List.mem_singleton.mp new]

end Register

theorem getLast?_filterMap_map (f : α → Option β) (g : β → ρ) (events : List α) :
    (events.filterMap fun event => (f event).map g).getLast? = ((events.filterMap f).getLast?).map g := by
  rw [← List.map_filterMap, List.getLast?_map]

section Keyed
variable [DecidableEq κ] (key : α → κ)

theorem mem_distinctOn {rows : List α} {row : α} :
    row ∈ distinctOn key rows ↔ (rows.filter (key · = key row)).head? = some row := by
  induction rows with
  | nil => simp [distinctOn]
  | cons first rest ih =>
      rw [distinctOn, List.mem_cons, List.mem_filter, ih]
      by_cases same : key first = key row
      · rw [List.filter_cons_of_pos (by simp [same])]
        simp [same, eq_comm]
      · have other : row ≠ first := fun equal => same (equal ▸ rfl)
        rw [List.filter_cons_of_neg (by simp [same])]
        simp [other, Ne.symm same]

theorem distinctOn_of_oneKey {rows : List α} {k : κ} (one : ∀ row ∈ rows, key row = k) :
    distinctOn key rows = rows.head?.toList := by
  cases rows with
  | nil => rfl
  | cons first rest =>
      have others : (distinctOn key rest).filter (fun other => key other ≠ key first) = [] := by
        refine List.filter_eq_nil_iff.mpr fun other member => ?_
        have listed := (distinctOn_sublist key rest).subset member
        simp [one other (List.mem_cons_of_mem _ listed), one first List.mem_cons_self]
      rw [distinctOn, others]
      rfl

theorem distinctOn_orderBy_perm {ι : Type} [LinearOrder κ] [LinearOrder ι] {place : α → ι} {rows : List α}
    (sorted : rows.Pairwise fun a b => place a < place b) :
    (distinctOn key (orderBy (fun row => toLex (key row, OrderDual.toDual (place row))) rows)).Perm
      (distinctOn key rows.reverse) := by
  have nodup : ∀ rows : List α, (distinctOn key rows).Nodup := fun rows =>
    (distinctOn_pairwise key rows).imp fun differ equal => differ (congrArg key equal)
  refine (List.perm_ext_iff_of_nodup (nodup _) (nodup _)).mpr fun row => ?_
  have ordered : orderBy (fun row => toLex (key row, OrderDual.toDual (place row))) (rows.filter (key · = key row)) =
      (rows.filter (key · = key row)).reverse := by
    refine orderBy_of_perm _ (List.reverse_perm _).symm (List.pairwise_reverse.mpr ?_)
    refine (sorted.filter _).imp_of_mem fun {a b} inA inB before => ?_
    have keyA := of_decide_eq_true (List.mem_filter.mp inA).2
    have keyB := of_decide_eq_true (List.mem_filter.mp inB).2
    refine Prod.Lex.toLex_lt_toLex.mpr (Or.inr ⟨keyB.trans keyA.symm, before⟩)
  rw [mem_distinctOn, mem_distinctOn, filter_orderBy, ordered, List.filter_reverse]

end Keyed

/-- What was written last under each key, and how much it weighs altogether. -/
structure Ledger (κ α M : Type) where
  held : κ → Option α
  total : M

namespace Ledger
variable {M : Type} [AddCommGroup M] [DecidableEq κ] (key : α → κ) (weight : α → M)

def empty : Ledger κ α M := ⟨fun _ => none, 0⟩

def write (ledger : Ledger κ α M) (value : α) : Ledger κ α M where
  held := Function.update ledger.held (key value) (some value)
  total := ledger.total - (ledger.held (key value)).elim 0 weight + weight value

def ofHistory (history : List α) : Ledger κ α M := history.foldl (write key weight) empty

theorem ofHistory_concat (past : List α) (value : α) :
    ofHistory key weight (past ++ [value]) = (ofHistory key weight past).write key weight value := by
  unfold ofHistory
  rw [List.foldl_append]
  rfl

theorem held_ofHistory (history : List α) (k : κ) :
    (ofHistory key weight history).held k = (history.filter (key · = k)).getLast? := by
  induction history using List.reverseRecOn with
  | nil => rfl
  | append_singleton past value ih =>
      rw [ofHistory_concat, List.filter_append]
      unfold write
      by_cases same : key value = k
      · subst same
        simp
      · simp [Function.update_of_ne (Ne.symm same), same, ih]

theorem total_ofHistory (history : List α) :
    (ofHistory key weight history).total = ((distinctOn key history.reverse).map weight).sum := by
  induction history using List.reverseRecOn with
  | nil => rfl
  | append_singleton past value ih =>
      have before : ((distinctOn key past.reverse).map weight).sum =
          ((ofHistory key weight past).held (key value)).elim 0 weight +
            (((distinctOn key past.reverse).filter fun other => key other ≠ key value).map weight).sum := by
        have own : (distinctOn key past.reverse).filter (fun other => key other = key value) =
            ((ofHistory key weight past).held (key value)).toList := by
          rw [filter_distinctOn key (fun a b same => by rw [same]), held_ofHistory,
            distinctOn_of_oneKey key (k := key value) (fun row member => of_decide_eq_true (List.mem_filter.mp member).2),
            List.filter_reverse, List.head?_reverse]
        have split := List.sum_map_filter_add_sum_map_filter_not (fun other => key other = key value)
          weight (distinctOn key past.reverse)
        rw [own] at split
        rw [← split]
        cases (ofHistory key weight past).held (key value) <;> simp
      rw [ofHistory_concat, List.reverse_append, List.reverse_singleton, List.singleton_append, distinctOn, List.map_cons,
        List.sum_cons]
      change (ofHistory key weight past).total - _ + weight value = _
      rw [ih, before, add_sub_cancel_left, add_comm]

end Ledger

end Relational
