import Mathlib.Data.List.Forall2
import Mathlib.Data.List.Basic

namespace Relational
variable {ε σ α β γ : Type}

theorem bind_eq_ok {x : Except ε α} {f : α → Except ε β} {b : β} :
    (x >>= f) = .ok b ↔ ∃ a, x = .ok a ∧ f a = .ok b := by
  cases x with
  | error failure => simp [bind, Except.bind]
  | ok a => simp [bind, Except.bind]

@[simp] theorem ok_bind (a : α) (f : α → Except ε β) : (.ok a >>= f : Except ε β) = f a := rfl

@[simp] theorem error_bind (failure : ε) (f : α → Except ε β) : (.error failure >>= f : Except ε β) = .error failure := rfl

@[simp] theorem pure_eq_ok {a b : α} : (pure a : Except ε α) = .ok b ↔ a = b := by
  simp [pure, Except.pure]

theorem bind_eq_error {x : Except ε α} {f : α → Except ε β} {failure : ε} :
    x >>= f = .error failure ↔ x = .error failure ∨ ∃ a, x = .ok a ∧ f a = .error failure := by
  cases x <;> simp

theorem exists_of_map_eq_ok {x : Except ε α} {f : α → β} {b : β} (mapped : x.map f = .ok b) :
    ∃ a, x = .ok a ∧ f a = b := by
  cases x with
  | error failure => cases mapped
  | ok a =>
      cases mapped
      exact ⟨a, rfl, rfl⟩

theorem exists_of_isOk {x : Except ε α} (ok : x.isOk = true) : ∃ a, x = .ok a := by
  cases x with
  | error failure => cases ok
  | ok a => exact ⟨a, rfl⟩

section Fold
variable {step : σ → α → Except ε σ}

/-- The invariant of a run may speak of the items already handled. -/
theorem foldlM_induction {items : List α} {start final : σ} (run : items.foldlM step start = .ok final)
    (Inv : List α → σ → Prop) (initial : Inv [] start)
    (keeps : ∀ past item rest s t, items = past ++ item :: rest → Inv past s → step s item = .ok t →
      Inv (past ++ [item]) t) : Inv items final := by
  suffices general : ∀ rest past s, items = past ++ rest → Inv past s → rest.foldlM step s = .ok final →
      Inv items final from general items [] start rfl initial run
  intro rest
  induction rest with
  | nil =>
      intro past s whole holds last
      rw [List.foldlM_nil, pure_eq_ok] at last
      rw [List.append_nil] at whole
      rwa [whole, ← last]
  | cons item rest ih =>
      intro past s whole holds last
      rw [List.foldlM_cons, bind_eq_ok] at last
      obtain ⟨t, stepped, onward⟩ := last
      exact ih (past ++ [item]) t (by simp [whole]) (keeps past item rest s t whole holds stepped) onward

theorem foldlM_append_eq_ok {front back : List α} {s t : σ} :
    (front ++ back).foldlM step s = .ok t ↔
      ∃ mid, front.foldlM step s = .ok mid ∧ back.foldlM step mid = .ok t := by
  rw [List.foldlM_append, bind_eq_ok]

@[simp] theorem foldlM_singleton (step : σ → α → Except ε σ) (s : σ) (item : α) : [item].foldlM step s = step s item := by
  simp

theorem exists_foldlM_of_forall (items : List α) (Inv : List α → σ → Prop) (start : σ) (initial : Inv [] start)
    (proceeds : ∀ past item rest s, items = past ++ item :: rest → past.foldlM step start = .ok s →
      Inv past s → ∃ t, step s item = .ok t ∧ Inv (past ++ [item]) t) :
    ∃ final, items.foldlM step start = .ok final ∧ Inv items final := by
  suffices general : ∀ rest past s, items = past ++ rest → past.foldlM step start = .ok s → Inv past s →
      ∃ final, rest.foldlM step s = .ok final ∧ Inv items final from general items [] start rfl rfl initial
  intro rest
  induction rest with
  | nil =>
      intro past s whole _ holds
      rw [List.append_nil] at whole
      exact ⟨s, rfl, whole ▸ holds⟩
  | cons item rest ih =>
      intro past s whole reached holds
      obtain ⟨t, stepped, kept⟩ := proceeds past item rest s whole reached holds
      have further : (past ++ [item]).foldlM step start = .ok t :=
        foldlM_append_eq_ok.mpr ⟨s, reached, by rw [List.foldlM_cons, stepped]; rfl⟩
      obtain ⟨final, run, done⟩ := ih (past ++ [item]) t (by simp [whole]) further kept
      refine ⟨final, ?_, done⟩
      rw [List.foldlM_cons, stepped]
      exact run

theorem foldlM_congr {other : σ → α → Except ε σ} {items : List α}
    (same : ∀ item ∈ items, ∀ s, step s item = other s item) (start : σ) :
    items.foldlM step start = items.foldlM other start := by
  induction items generalizing start with
  | nil => rfl
  | cons item rest ih =>
      obtain ⟨here, later⟩ := List.forall_mem_cons.mp same
      rw [List.foldlM_cons, List.foldlM_cons, here]
      congr
      funext s
      exact ih later s

theorem foldlM_imp {other : σ → α → Except ε σ} {items : List α} {start final : σ}
    (run : items.foldlM step start = .ok final)
    (imp : ∀ s item next, step s item = .ok next → other s item = .ok next) : items.foldlM other start = .ok final := by
  induction items generalizing start with
  | nil => exact run
  | cons item rest ih =>
      rw [List.foldlM_cons, bind_eq_ok] at run
      obtain ⟨next, stepped, onward⟩ := run
      rw [List.foldlM_cons, imp start item next stepped]
      exact ih onward

end Fold

theorem mapM_eq_ok {f : α → Except ε β} {items : List α} {results : List β} :
    items.mapM f = .ok results ↔ List.Forall₂ (fun item result => f item = .ok result) items results := by
  induction items generalizing results with
  | nil =>
      rw [List.mapM_nil, pure_eq_ok, List.forall₂_nil_left_iff]
      exact ⟨Eq.symm, Eq.symm⟩
  | cons item rest ih =>
      rw [List.mapM_cons, List.forall₂_cons_left_iff]
      constructor
      · intro mapped
        obtain ⟨first, here, mapped⟩ := bind_eq_ok.mp mapped
        obtain ⟨others, later, mapped⟩ := bind_eq_ok.mp mapped
        exact ⟨first, others, here, ih.mp later, (pure_eq_ok.mp mapped).symm⟩
      · rintro ⟨first, others, here, later, rfl⟩
        exact bind_eq_ok.mpr ⟨first, here, bind_eq_ok.mpr ⟨others, ih.mpr later, rfl⟩⟩

theorem mapM_guarded {p : α → Prop} [DecidablePred p] {f : α → Except ε β} {g : α → β} {failure : ε}
    (guarded : ∀ item, f item = if p item then .ok (g item) else .error failure) (items : List α) :
    items.mapM f = if ∀ item ∈ items, p item then .ok (items.map g) else .error failure := by
  induction items with
  | nil => simp [pure, Except.pure]
  | cons item rest ih =>
      rw [List.mapM_cons, guarded, ih]
      by_cases here : p item
      · by_cases later : ∀ other ∈ rest, p other
        · rw [if_pos here, if_pos later, if_pos (List.forall_mem_cons.mpr ⟨here, later⟩)]
          rfl
        · rw [if_pos here, if_neg later, if_neg fun all => later (List.forall_mem_cons.mp all).2]
          rfl
      · rw [if_neg here, if_neg fun all => here (List.forall_mem_cons.mp all).1]
        rfl

theorem mapM_congr {f g : α → Except ε β} {items : List α} (same : ∀ item ∈ items, f item = g item) :
    items.mapM f = items.mapM g := by
  induction items with
  | nil => rfl
  | cons item rest ih =>
      obtain ⟨here, later⟩ := List.forall_mem_cons.mp same
      rw [List.mapM_cons, List.mapM_cons, here, ih later]

theorem mapM_eq_ok_map {f : α → Except ε β} {g : α → β} {items : List α} (each : ∀ item ∈ items, f item = .ok (g item)) :
    items.mapM f = .ok (items.map g) := by
  rw [mapM_eq_ok, List.forall₂_map_right_iff, List.forall₂_same]
  exact each

theorem exists_mapM_ok {f : α → Except ε β} {items : List α} (each : ∀ item ∈ items, ∃ result, f item = .ok result) :
    ∃ results, items.mapM f = .ok results := by
  induction items with
  | nil => exact ⟨[], rfl⟩
  | cons item rest ih =>
      obtain ⟨here, later⟩ := List.forall_mem_cons.mp each
      obtain ⟨result, computed⟩ := here
      obtain ⟨results, mapped⟩ := ih later
      exact ⟨result :: results, by rw [List.mapM_cons, computed, mapped]; rfl⟩

theorem map_of_mapM {f : α → Except ε β} {u : β → γ} {v : α → γ} {items : List α} {results : List β}
    (mapped : items.mapM f = .ok results) (each : ∀ item result, f item = .ok result → u result = v item) :
    results.map u = items.map v := by
  have pairs := mapM_eq_ok.mp mapped
  clear mapped
  induction pairs with
  | nil => rfl
  | cons here _ ih => rw [List.map_cons, List.map_cons, each _ _ here, ih]

theorem exists_mapM_mapM_iff {f : α → Except ε β} {g : β → Except ε γ} {items : List α} {results : List γ} :
    (∃ between, items.mapM f = .ok between ∧ between.mapM g = .ok results) ↔
      items.mapM (fun item => f item >>= g) = .ok results := by
  simp only [mapM_eq_ok]
  constructor
  · rintro ⟨between, first, second⟩
    induction first generalizing results with
    | nil =>
        cases second
        exact List.Forall₂.nil
    | cons here _ ih =>
        obtain ⟨result, rest, there, later, rfl⟩ := List.forall₂_cons_left_iff.mp second
        exact List.Forall₂.cons (bind_eq_ok.mpr ⟨_, here, there⟩) (ih later)
  · intro both
    induction both with
    | nil => exact ⟨[], List.Forall₂.nil, List.Forall₂.nil⟩
    | cons here _ ih =>
        obtain ⟨between, first, second⟩ := bind_eq_ok.mp here
        obtain ⟨rest, firsts, seconds⟩ := ih
        exact ⟨between :: rest, List.Forall₂.cons first firsts, List.Forall₂.cons second seconds⟩

theorem exists_result_of_mem_mapM {f : α → Except ε β} {items : List α} {results : List β}
    (mapped : items.mapM f = .ok results) {item : α} (member : item ∈ items) : ∃ result ∈ results, f item = .ok result := by
  have pairs := mapM_eq_ok.mp mapped
  clear mapped
  induction pairs with
  | nil => cases member
  | cons here _ ih =>
      rcases List.mem_cons.mp member with rfl | later
      · exact ⟨_, List.mem_cons_self, here⟩
      · obtain ⟨result, found, computed⟩ := ih later
        exact ⟨result, List.mem_cons_of_mem _ found, computed⟩

theorem exists_mapM_iff {f : α → Except ε β} {items : List α} :
    (∃ results, items.mapM f = .ok results) ↔ ∀ item ∈ items, ∃ result, f item = .ok result := by
  constructor
  · rintro ⟨results, mapped⟩ item member
    obtain ⟨result, -, computed⟩ := exists_result_of_mem_mapM mapped member
    exact ⟨result, computed⟩
  · exact exists_mapM_ok

theorem exists_item_of_mem_mapM {f : α → Except ε β} {items : List α} {results : List β}
    (mapped : items.mapM f = .ok results) {result : β} (member : result ∈ results) :
    ∃ item ∈ items, f item = .ok result := by
  have pairs := mapM_eq_ok.mp mapped
  clear mapped
  induction pairs with
  | nil => cases member
  | cons here _ ih =>
      rcases List.mem_cons.mp member with rfl | later
      · exact ⟨_, List.mem_cons_self, here⟩
      · obtain ⟨item, found, computed⟩ := ih later
        exact ⟨item, List.mem_cons_of_mem _ found, computed⟩

theorem exists_item_of_mapM_error {f : α → Except ε β} {items : List α} {failure : ε}
    (failed : items.mapM f = .error failure) : ∃ item ∈ items, f item = .error failure := by
  induction items with
  | nil => cases failed
  | cons item rest ih =>
      rw [List.mapM_cons] at failed
      rcases bind_eq_error.mp failed with here | ⟨result, -, failed⟩
      · exact ⟨item, List.mem_cons_self, here⟩
      · rcases bind_eq_error.mp failed with later | ⟨results, -, failed⟩
        · obtain ⟨other, member, there⟩ := ih later
          exact ⟨other, List.mem_cons_of_mem _ member, there⟩
        · cases failed

theorem mapM_append_eq_ok {f : α → Except ε β} {front back : List α} {first second : List β}
    (mapped : front.mapM f = .ok first) (onward : back.mapM f = .ok second) :
    (front ++ back).mapM f = .ok (first ++ second) := by
  rw [List.mapM_append, mapped, ok_bind, onward]
  rfl

theorem map_of_filterMap_mapM {f : α → Option (Except ε β)} {see : β → γ} {shown : α → Option γ} {items : List α}
    {results : List β} (mapped : (items.filterMap f).mapM id = .ok results)
    (skipped : ∀ item, f item = none → shown item = none)
    (built : ∀ item result, f item = some (.ok result) → shown item = some (see result)) :
    results.map see = items.filterMap shown := by
  induction items generalizing results with
  | nil =>
      obtain rfl := pure_eq_ok.mp mapped
      rfl
  | cons item rest ih =>
      cases made : f item with
      | none =>
          rw [List.filterMap_cons_none made] at mapped
          rw [List.filterMap_cons_none (skipped item made)]
          exact ih mapped
      | some outcome =>
          rw [List.filterMap_cons_some made, List.mapM_cons] at mapped
          obtain ⟨result, here, mapped⟩ := bind_eq_ok.mp mapped
          obtain ⟨others, later, mapped⟩ := bind_eq_ok.mp mapped
          obtain rfl := pure_eq_ok.mp mapped
          obtain rfl : outcome = .ok result := here
          rw [List.filterMap_cons_some (built item result made), List.map_cons, ih later]

end Relational
