import FpvIndexer.Relational.Query
import Mathlib.Data.List.GetD
import Mathlib.Data.Prod.Lex

namespace Relational
variable {α β κ : Type}

section Gate
variable (passes : α → β → Bool) (anchorOf : β → α)

def gated : α → List β → List β
  | _, [] => []
  | anchor, item :: rest =>
      if passes anchor item then item :: gated (anchorOf item) rest else gated anchor rest

def lastAnchor (anchor : α) (kept : List β) : α := (kept.getLast?.map anchorOf).getD anchor

@[simp] theorem lastAnchor_cons (anchor : α) (item : β) (kept : List β) :
    lastAnchor anchorOf anchor (item :: kept) = lastAnchor anchorOf (anchorOf item) kept := by
  cases kept with
  | nil => rfl
  | cons next rest =>
      unfold lastAnchor
      rw [List.getLast?_cons_cons, List.getLast?_eq_some_getLast (List.cons_ne_nil next rest)]
      rfl

variable {passes anchorOf}

theorem gated_append (anchor : α) (front back : List β) :
    gated passes anchorOf anchor (front ++ back) = gated passes anchorOf anchor front ++
      gated passes anchorOf (lastAnchor anchorOf anchor (gated passes anchorOf anchor front)) back := by
  induction front generalizing anchor with
  | nil => rfl
  | cons item front ih =>
      by_cases h : passes anchor item
      · simp [gated, h, ih]
      · simp [gated, h, ih]

theorem gated_sublist (anchor : α) (items : List β) : (gated passes anchorOf anchor items).Sublist items := by
  induction items generalizing anchor with
  | nil => exact List.Sublist.slnil
  | cons item rest ih =>
      by_cases h : passes anchor item
      · simpa [gated, h] using ih (anchorOf item)
      · simpa [gated, h] using (ih anchor).cons item

theorem passes_of_gated {anchor : α} {items front back : List β} {item : β}
    (kept : gated passes anchorOf anchor items = front ++ item :: back) :
    passes (lastAnchor anchorOf anchor front) item := by
  induction items generalizing anchor front with
  | nil => simp [gated] at kept
  | cons first rest ih =>
      by_cases h : passes anchor first
      · rw [gated, if_pos h] at kept
        cases front with
        | nil =>
            cases kept
            exact h
        | cons head front =>
            obtain ⟨rfl, others⟩ := List.cons.inj kept
            rw [lastAnchor_cons]
            exact ih others
      · rw [gated, if_neg h] at kept
        exact ih kept

theorem mem_gated_iff {anchor : α} {front back : List β} {item : β} (nodup : (front ++ item :: back).Nodup) :
    item ∈ gated passes anchorOf anchor (front ++ item :: back) ↔
      passes (lastAnchor anchorOf anchor (gated passes anchorOf anchor front)) item := by
  have fresh := List.nodup_append.mp nodup
  have inFront : ∀ anchor, item ∉ gated passes anchorOf anchor front := fun anchor member =>
    fresh.2.2 item ((gated_sublist anchor front).subset member) item List.mem_cons_self rfl
  have inBack : ∀ anchor, item ∉ gated passes anchorOf anchor back := fun anchor member =>
    (List.nodup_cons.mp fresh.2.1).1 ((gated_sublist anchor back).subset member)
  rw [gated_append, List.mem_append]
  by_cases h : passes (lastAnchor anchorOf anchor (gated passes anchorOf anchor front)) item
  · simp [gated, h]
  · simp [gated, h, inFront, inBack]

theorem filter_gated {before : β → β → Prop} {anchor : α} {front back : List β} {item : β} (p : β → Bool)
    (sorted : (front ++ item :: back).Pairwise before) (earlier : ∀ other, before other item → p other)
    (itself : ¬ p item) (later : ∀ other, before item other → ¬ p other) :
    (gated passes anchorOf anchor (front ++ item :: back)).filter p = gated passes anchorOf anchor front := by
  obtain ⟨-, sortedBack, across⟩ := List.pairwise_append.mp sorted
  have keep : (gated passes anchorOf anchor front).filter p = gated passes anchorOf anchor front := by
    apply List.filter_eq_self.mpr
    intro other member
    exact earlier other (across other ((gated_sublist anchor front).subset member) item List.mem_cons_self)
  have drop : ∀ anchor, (gated passes anchorOf anchor (item :: back)).filter p = [] := by
    intro anchor
    apply List.filter_eq_nil_iff.mpr
    intro other member
    rcases List.mem_cons.mp ((gated_sublist anchor _).subset member) with rfl | inBack
    · exact itself
    · exact later other ((List.pairwise_cons.mp sortedBack).1 other inBack)
  rw [gated_append, List.filter_append, keep, drop, List.append_nil]

end Gate

section Run
variable {σ : Type} {items : List α} {start : σ}

theorem foldl_congr_of_states (f g : σ → α → σ)
    (same : ∀ past item rest, items = past ++ item :: rest → f (past.foldl f start) item = g (past.foldl f start) item) :
    items.foldl f start = items.foldl g start := by
  suffices general : ∀ rest past, items = past ++ rest → past.foldl f start = past.foldl g start →
      rest.foldl f (past.foldl f start) = rest.foldl g (past.foldl g start) from general items [] rfl rfl
  intro rest
  induction rest with
  | nil => exact fun past _ agree => agree
  | cons item rest ih =>
      intro past split agree
      have stepped : (past ++ [item]).foldl f start = (past ++ [item]).foldl g start := by
        simp only [List.foldl_append, List.foldl_cons, List.foldl_nil]
        rw [same past item rest split, agree]
      have onward := ih (past ++ [item]) (by simp [split]) stepped
      simpa using onward

end Run

section Rank
variable [LinearOrder κ] (key : α → κ)

theorem countP_le_of_sorted {front back : List α} {row : α}
    (sorted : (front ++ row :: back).Pairwise fun a b => key a < key b) :
    (front ++ row :: back).countP (fun other => key other ≤ key row) = front.length + 1 := by
  obtain ⟨-, sortedBack, across⟩ := List.pairwise_append.mp sorted
  have before : front.countP (fun other => key other ≤ key row) = front.length := by
    rw [List.countP_eq_length]
    intro other member
    exact decide_eq_true (across other member row List.mem_cons_self).le
  have after : back.countP (fun other => key other ≤ key row) = 0 := by
    rw [List.countP_eq_zero]
    intro other member
    simpa using (List.pairwise_cons.mp sortedBack).1 other member
  simp [before, after]

theorem orderBy_strict {rows : List α} (distinct : rows.Pairwise fun a b => key a ≠ key b) :
    (orderBy key rows).Pairwise fun a b => key a < key b := by
  have differ : (orderBy key rows).Pairwise fun a b => key a ≠ key b :=
    ((orderBy_perm key rows).pairwise_iff fun h => h.symm).mpr distinct
  exact (orderBy_sorted key rows).imp₂ (fun a b le ne => lt_of_le_of_ne le ne) differ

theorem orderBy_of_perm {rows sorted : List α} (perm : rows.Perm sorted)
    (strict : sorted.Pairwise fun a b => key a < key b) : orderBy key rows = sorted := by
  have distinct : rows.Pairwise fun a b => key a ≠ key b :=
    (perm.pairwise_iff fun h => h.symm).mpr (strict.imp fun lt => lt.ne)
  apply List.Perm.eq_of_pairwise _ (orderBy_strict key distinct) strict ((orderBy_perm key rows).trans perm)
  intro a b _ _ before after
  exact absurd before (lt_asymm after)

theorem filter_rank {rows : List α} (distinct : rows.Pairwise fun a b => key a ≠ key b) {front back : List α}
    {row : α} (ordered : orderBy key rows = front ++ row :: back) :
    rows.filter (fun other => rows.countP (fun r => key r ≤ key other) = front.length + 1) = [row] := by
  have sorted := orderBy_strict key distinct
  have rank : ∀ before other after, orderBy key rows = before ++ other :: after →
      rows.countP (fun r => key r ≤ key other) = before.length + 1 := by
    intro before other after split
    rw [← (orderBy_perm key rows).countP_eq, split]
    exact countP_le_of_sorted key (split ▸ sorted)
  have perm := (orderBy_perm key rows).filter fun other =>
    decide (rows.countP (fun r => key r ≤ key other) = front.length + 1)
  apply List.perm_singleton.mp
  apply perm.symm.trans
  rw [ordered, List.filter_append, List.filter_cons_of_pos (by simpa using rank front row back ordered)]
  have early : front.filter (fun other => rows.countP (fun r => key r ≤ key other) = front.length + 1) = [] := by
    apply List.filter_eq_nil_iff.mpr
    intro other member same
    obtain ⟨before, after, rfl⟩ := List.append_of_mem member
    have := rank before other (after ++ row :: back) (by simpa using ordered)
    simp [this] at same
  have late : back.filter (fun other => rows.countP (fun r => key r ≤ key other) = front.length + 1) = [] := by
    apply List.filter_eq_nil_iff.mpr
    intro other member same
    obtain ⟨before, after, rfl⟩ := List.append_of_mem member
    have := rank (front ++ row :: before) other after (by simpa using ordered)
    simp [this] at same
  rw [early, late]
  exact List.Perm.refl _

theorem filter_rank_length_le {rows : List α} (distinct : rows.Pairwise fun a b => key a ≠ key b) (n : Nat) :
    (rows.filter fun other => rows.countP (fun r => key r ≤ key other) = n).length ≤ 1 := by
  cases found : rows.filter fun other => rows.countP (fun r => key r ≤ key other) = n with
  | nil => exact Nat.zero_le 1
  | cons row rest =>
      have member : row ∈ rows.filter fun other => rows.countP (fun r => key r ≤ key other) = n :=
        found ▸ List.mem_cons_self
      obtain ⟨inRows, rank⟩ := List.mem_filter.mp member
      obtain ⟨front, back, ordered⟩ := List.append_of_mem ((mem_orderBy key).mpr inRows)
      have only := filter_rank key distinct ordered
      have own : row ∈ rows.filter fun other => rows.countP (fun r => key r ≤ key other) = front.length + 1 :=
        only ▸ List.mem_singleton_self row
      have same : front.length + 1 = n :=
        (of_decide_eq_true (List.mem_filter.mp own).2).symm.trans (of_decide_eq_true rank)
      rw [← found, ← same, only, List.length_singleton]

theorem ranks_perm {rows : List α} (distinct : rows.Pairwise fun a b => key a ≠ key b) :
    (rows.map fun row => rows.countP fun other => key other ≤ key row).Perm (List.range' 1 rows.length) := by
  have perm := orderBy_perm key rows
  have numbered : (orderBy key rows).map (fun row => rows.countP fun other => key other ≤ key row) =
      List.range' 1 rows.length := by
    apply List.ext_getElem
    · simp [perm.length_eq]
    · intro place inOrder inRange
      rw [List.length_map] at inOrder
      have split : orderBy key rows = (orderBy key rows).take place ++ (orderBy key rows)[place] ::
          (orderBy key rows).drop (place + 1) := by
        rw [← List.drop_eq_getElem_cons inOrder, List.take_append_drop]
      have rank := countP_le_of_sorted key (split ▸ orderBy_strict key distinct)
      rw [← split, perm.countP_eq, List.length_take_of_le inOrder.le] at rank
      rw [List.getElem_map, rank, List.getElem_range']
      omega
  exact numbered ▸ (perm.map _).symm

theorem countP_lt_countP {p q : α → Bool} {rows : List α} (within : ∀ row, p row → q row) {row : α}
    (member : row ∈ rows) (counted : q row) (uncounted : ¬ p row) : rows.countP p < rows.countP q := by
  obtain ⟨front, back, rfl⟩ := List.append_of_mem member
  have before := List.countP_mono_left (l := front) fun other _ => within other
  have after := List.countP_mono_left (l := back) fun other _ => within other
  rw [List.countP_append, List.countP_append, List.countP_cons_of_neg uncounted, List.countP_cons_of_pos counted]
  omega

theorem rank_lt_rank_iff {rows : List α} (a : α) {b : α} (member : b ∈ rows) :
    rows.countP (fun other => key other ≤ key a) < rows.countP (fun other => key other ≤ key b) ↔ key a < key b := by
  constructor
  · intro fewer
    by_contra notBefore
    apply fewer.not_ge
    exact List.countP_mono_left fun other _ le =>
      decide_eq_true ((of_decide_eq_true le).trans (not_lt.mp notBefore))
  · intro before
    refine countP_lt_countP (fun other le => ?_) member (decide_eq_true le_rfl) (by simpa using before)
    exact decide_eq_true ((of_decide_eq_true le).trans before.le)

theorem le_countP_of_rank {rows : List α} {row : α} (member : row ∈ rows) {n : Nat}
    (rank : rows.countP (fun other => key other ≤ key row) = n) :
    rows.length + 1 ≤ n + rows.countP fun other => key row ≤ key other := by
  have fewer := countP_lt_countP (p := fun other => key other < key row) (q := fun other => key other ≤ key row)
    (fun other lt => decide_eq_true (of_decide_eq_true lt).le) member (decide_eq_true le_rfl) (by simp)
  have split := List.length_eq_countP_add_countP (fun other => decide (key other < key row)) (l := rows)
  simp only [Bool.not_eq_true, decide_eq_false_iff_not, not_lt] at split
  rw [rank] at fewer
  omega

def IsMedian (values : List κ) (m : κ) : Prop :=
  m ∈ values ∧ values.length ≤ 2 * values.countP (· ≤ m) ∧ values.length ≤ 2 * values.countP (m ≤ ·)

end Rank

end Relational
