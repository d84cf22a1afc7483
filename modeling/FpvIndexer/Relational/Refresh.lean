import Mathlib.Logic.Function.Basic
import Mathlib.Data.List.Nodup
import Mathlib.Data.List.FinRange

/-!
# A view under a lock

Transactions insert rows, one a statement, and each statement refreshes a view of all rows. A refresh reads what is
committed when it starts and then waits for the lock, which its transaction holds until it commits.
-/

namespace Relational.Refresh
variable {ι ρ ν : Type}

inductive Statement (ρ : Type)
  | idle
  | inserted
  | refreshing (snapshot : List ρ)
deriving DecidableEq

structure Tx (ρ ν : Type) where
  pending : List ρ
  own : List ρ
  statement : Statement ρ
  view : Option ν
  committed : Bool

structure State (ι ρ ν : Type) where
  rows : List ρ
  view : ν
  lock : Option ι
  txs : ι → Tx ρ ν

def State.start (rows : List ρ) (view : ν) (inserts : ι → List ρ) : State ι ρ ν where
  rows := rows
  view := view
  lock := none
  txs := fun i => ⟨inserts i, [], .idle, none, false⟩

inductive Event (ι : Type)
  | insert (i : ι)
  | snapshot (i : ι)
  | evaluate (i : ι)
  | commit (i : ι)

section Steps
variable [DecidableEq ι] (eval : List ρ → Option ν) (s : State ι ρ ν)

def State.set (i : ι) (tx : Tx ρ ν) : State ι ρ ν := { s with txs := Function.update s.txs i tx }

def step : Event ι → Option (State ι ρ ν)
  | .insert i =>
      match (s.txs i).statement, (s.txs i).pending with
      | .idle, row :: rest =>
          some (s.set i { s.txs i with pending := rest, own := (s.txs i).own ++ [row], statement := .inserted })
      | _, _ => none
  | .snapshot i =>
      match (s.txs i).statement with
      | .inserted => some (s.set i { s.txs i with statement := .refreshing (s.rows ++ (s.txs i).own) })
      | _ => none
  | .evaluate i =>
      match (s.txs i).statement with
      | .refreshing snapshot =>
          if s.lock = none ∨ s.lock = some i then
            (eval snapshot).map fun view =>
              { s.set i { s.txs i with statement := .idle, view := some view } with lock := some i }
          else none
      | _ => none
  | .commit i =>
      match (s.txs i).statement, (s.txs i).pending, (s.txs i).committed with
      | .idle, [], false => some
          { s.set i { s.txs i with committed := true } with
            rows := s.rows ++ (s.txs i).own
            view := (s.txs i).view.getD s.view
            lock := if s.lock = some i then none else s.lock }
      | _, _, _ => none

/-- Where the last refresh of a transaction had to wait, nothing was committed since it started. -/
def Current : Event ι → Prop
  | .evaluate i => (s.txs i).pending = [] → s.lock ≠ some i →
      (s.txs i).statement = .refreshing (s.rows ++ (s.txs i).own)
  | _ => True

inductive Reached (allowed : State ι ρ ν → Event ι → Prop) (start : State ι ρ ν) : State ι ρ ν → Prop
  | here : Reached allowed start start
  | after {s next : State ι ρ ν} (event : Event ι) (reached : Reached allowed start s) (allows : allowed s event)
      (stepped : step eval s event = some next) : Reached allowed start next

variable {eval s} {next : State ι ρ ν} {i : ι}

theorem insert_spec (stepped : step eval s (.insert i) = some next) : ∃ row rest,
    (s.txs i).statement = .idle ∧ (s.txs i).pending = row :: rest ∧
      next = s.set i { s.txs i with pending := rest, own := (s.txs i).own ++ [row], statement := .inserted } := by
  unfold step at stepped
  dsimp only at stepped
  split at stepped
  · rename_i row rest idle pending
    exact ⟨row, rest, idle, pending, (Option.some.inj stepped).symm⟩
  · cases stepped

theorem snapshot_spec (stepped : step eval s (.snapshot i) = some next) : (s.txs i).statement = .inserted ∧
    next = s.set i { s.txs i with statement := .refreshing (s.rows ++ (s.txs i).own) } := by
  unfold step at stepped
  dsimp only at stepped
  split at stepped
  · rename_i inserted
    exact ⟨inserted, (Option.some.inj stepped).symm⟩
  · cases stepped

theorem evaluate_spec (stepped : step eval s (.evaluate i) = some next) : ∃ snapshot view,
    (s.txs i).statement = .refreshing snapshot ∧ (s.lock = none ∨ s.lock = some i) ∧ eval snapshot = some view ∧
      next = { s.set i { s.txs i with statement := .idle, view := some view } with lock := some i } := by
  unfold step at stepped
  dsimp only at stepped
  split at stepped
  · rename_i snapshot refreshing
    split at stepped
    · rename_i free
      obtain ⟨view, evaluated, rfl⟩ := Option.map_eq_some_iff.mp stepped
      exact ⟨snapshot, view, refreshing, free, evaluated, rfl⟩
    · cases stepped
  · cases stepped

theorem commit_spec (stepped : step eval s (.commit i) = some next) :
    (s.txs i).statement = .idle ∧ (s.txs i).pending = [] ∧ (s.txs i).committed = false ∧
      next = { s.set i { s.txs i with committed := true } with
        rows := s.rows ++ (s.txs i).own
        view := (s.txs i).view.getD s.view
        lock := if s.lock = some i then none else s.lock } := by
  unfold step at stepped
  dsimp only at stepped
  split at stepped
  · rename_i idle pending uncommitted
    exact ⟨idle, pending, uncommitted, (Option.some.inj stepped).symm⟩
  · cases stepped

end Steps

section Guarded
variable [DecidableEq ι] (eval : List ρ → Option ν) (allowed : State ι ρ ν → Event ι → Prop)
  [∀ s event, Decidable (allowed s event)]

instance [DecidableEq ρ] (s : State ι ρ ν) : ∀ event, Decidable (Current s event)
  | .insert _ => isTrue trivial
  | .snapshot _ => isTrue trivial
  | .evaluate i => inferInstanceAs (Decidable ((s.txs i).pending = [] → s.lock ≠ some i →
      (s.txs i).statement = .refreshing (s.rows ++ (s.txs i).own)))
  | .commit _ => isTrue trivial

def guarded (s : State ι ρ ν) (event : Event ι) : Option (State ι ρ ν) :=
  if allowed s event then step eval s event else none

variable {eval allowed}

theorem reached_of_guarded {start s final : State ι ρ ν} {events : List (Event ι)} (reached : Reached eval allowed start s)
    (run : events.foldlM (guarded eval allowed) s = some final) : Reached eval allowed start final := by
  induction events generalizing s with
  | nil =>
      cases run
      exact reached
  | cons event rest ih =>
      rw [List.foldlM_cons] at run
      obtain ⟨next, stepped, onward⟩ := Option.bind_eq_some_iff.mp run
      unfold guarded at stepped
      split at stepped
      · rename_i allows
        exact ih (reached.after event allows stepped) onward
      · cases stepped

end Guarded

section Locking
variable {eval : List ρ → Option ν} {rows : List ρ} {locked : Prop} {tx : Tx ρ ν}

/-- Only a transaction that holds the lock has a view of its own, and nothing is committed meanwhile. -/
structure Holds (eval : List ρ → Option ν) (rows : List ρ) (locked : Prop) (tx : Tx ρ ν) : Prop where
  closed : tx.committed → ¬ locked ∧ tx.statement = .idle ∧ tx.pending = []
  waiting : tx.committed = false → ¬ locked → tx.view = none ∧ (tx.statement = .idle → tx.own = [])
  current : ∀ snapshot, locked → tx.statement = .refreshing snapshot → snapshot = rows ++ tx.own
  evaluated : locked → tx.statement = .idle → tx.pending = [] →
    ∃ view, tx.view = some view ∧ eval (rows ++ tx.own) = some view

theorem Holds.unlocked (holds : Holds eval rows locked tx) (unlocked : ¬ locked) {later : List ρ} {stillNot : Prop}
    (none : ¬ stillNot) : Holds eval later stillNot tx where
  closed := fun committed => ⟨none, (holds.closed committed).2⟩
  waiting := fun uncommitted _ => holds.waiting uncommitted unlocked
  current := fun _ held => absurd held none
  evaluated := fun held => absurd held none

theorem Holds.uncommitted (holds : Holds eval rows locked tx) (busy : tx.statement ≠ .idle) : tx.committed = false := by
  cases committed : tx.committed with
  | false => rfl
  | true => exact absurd (holds.closed committed).2.1 busy

theorem Holds.insert (holds : Holds eval rows locked tx) {row : ρ} {rest : List ρ} (pending : tx.pending = row :: rest) :
    Holds eval rows locked { tx with pending := rest, own := tx.own ++ [row], statement := .inserted } where
  closed := by
    intro committed
    have empty := (holds.closed committed).2.2
    rw [pending] at empty
    cases empty
  waiting := by
    intro uncommitted unlocked
    refine ⟨(holds.waiting uncommitted unlocked).1, ?_⟩
    intro idle
    cases idle
  current := by
    intro snapshot _ refreshing
    cases refreshing
  evaluated := by
    intro _ idle
    cases idle

theorem Holds.snapshot (holds : Holds eval rows locked tx) (inserted : tx.statement = .inserted) :
    Holds eval rows locked { tx with statement := .refreshing (rows ++ tx.own) } where
  closed := by
    intro committed
    have open' := holds.uncommitted (by simp [inserted])
    rw [open'] at committed
    cases committed
  waiting := by
    intro uncommitted unlocked
    refine ⟨(holds.waiting uncommitted unlocked).1, ?_⟩
    intro idle
    cases idle
  current := by
    intro snapshot _ refreshing
    cases refreshing
    rfl
  evaluated := by
    intro _ idle
    cases idle

theorem Holds.evaluate (holds : Holds eval rows locked tx) {snapshot : List ρ} {view : ν}
    (refreshing : tx.statement = .refreshing snapshot) (evaluated : eval snapshot = some view)
    (current : tx.pending = [] → ¬ locked → tx.statement = .refreshing (rows ++ tx.own)) :
    Holds eval rows True { tx with statement := .idle, view := some view } where
  closed := by
    intro committed
    have open' := holds.uncommitted (by simp [refreshing])
    rw [open'] at committed
    cases committed
  waiting := fun _ unlocked => absurd trivial unlocked
  current := by
    intro _ _ idle
    cases idle
  evaluated := by
    intro _ _ none
    refine ⟨view, rfl, ?_⟩
    by_cases held : locked
    · exact holds.current snapshot held refreshing ▸ evaluated
    · have waited := current none held
      rw [refreshing] at waited
      cases waited
      exact evaluated

theorem Holds.commit (idle : tx.statement = .idle) (pending : tx.pending = []) {later : List ρ} :
    Holds eval later False { tx with committed := true } where
  closed := fun _ => ⟨id, idle, pending⟩
  waiting := by
    intro uncommitted
    cases uncommitted
  current := fun _ held => held.elim
  evaluated := fun held => held.elim

end Locking

section Fresh
variable [DecidableEq ι] {eval : List ρ → Option ν} {s next : State ι ρ ν} {event : Event ι}

structure Invariant (eval : List ρ → Option ν) (s : State ι ρ ν) : Prop where
  fresh : eval s.rows = some s.view
  txs : ∀ i, Holds eval s.rows (s.lock = some i) (s.txs i)

omit [DecidableEq ι] in
theorem invariant_start {rows : List ρ} {view : ν} (fresh : eval rows = some view) (inserts : ι → List ρ) :
    Invariant eval (State.start rows view inserts) where
  fresh := fresh
  txs := fun i =>
    { closed := fun committed => by cases committed
      waiting := fun _ _ => ⟨rfl, fun _ => rfl⟩
      current := fun _ lock => by cases lock
      evaluated := fun lock => by cases lock }

theorem Invariant.step (holds : Invariant eval s) (current : Current s event)
    (stepped : Refresh.step eval s event = some next) : Invariant eval next := by
  cases event with
  | insert i =>
      obtain ⟨row, rest, -, pending, rfl⟩ := insert_spec stepped
      refine ⟨holds.fresh, ?_⟩
      apply (Function.forall_update_iff s.txs fun j tx => Holds eval s.rows (s.lock = some j) tx).mpr
      exact ⟨(holds.txs i).insert pending, fun j _ => holds.txs j⟩
  | snapshot i =>
      obtain ⟨inserted, rfl⟩ := snapshot_spec stepped
      refine ⟨holds.fresh, ?_⟩
      apply (Function.forall_update_iff s.txs fun j tx => Holds eval s.rows (s.lock = some j) tx).mpr
      exact ⟨(holds.txs i).snapshot inserted, fun j _ => holds.txs j⟩
  | evaluate i =>
      obtain ⟨snapshot, view, refreshing, free, evaluated, rfl⟩ := evaluate_spec stepped
      refine ⟨holds.fresh, ?_⟩
      apply (Function.forall_update_iff s.txs fun j tx => Holds eval s.rows (some i = some j) tx).mpr
      constructor
      · have own := (holds.txs i).evaluate refreshing evaluated current
        simpa using own
      · intro j other
        apply (holds.txs j).unlocked
        · rcases free with none | held
          · simp [none]
          · simpa [held] using Ne.symm other
        · simpa using Ne.symm other
  | commit i =>
      obtain ⟨idle, pending, uncommitted, rfl⟩ := commit_spec stepped
      by_cases held : s.lock = some i
      · obtain ⟨view, own, evaluated⟩ := (holds.txs i).evaluated held idle pending
        refine ⟨?_, ?_⟩
        · change eval (s.rows ++ (s.txs i).own) = some ((s.txs i).view.getD s.view)
          rw [own]
          exact evaluated
        · apply (Function.forall_update_iff s.txs fun j tx => Holds eval (s.rows ++ (s.txs i).own)
            ((if s.lock = some i then none else s.lock) = some j) tx).mpr
          rw [if_pos held]
          constructor
          · simpa using Holds.commit idle pending
          · intro j other
            exact (holds.txs j).unlocked (by simpa [held] using Ne.symm other) (by simp)
      · obtain ⟨unseen, nothing⟩ := (holds.txs i).waiting uncommitted held
        have empty := nothing idle
        refine ⟨?_, ?_⟩
        · change eval (s.rows ++ (s.txs i).own) = some ((s.txs i).view.getD s.view)
          rw [empty, List.append_nil, unseen]
          exact holds.fresh
        · apply (Function.forall_update_iff s.txs fun j tx => Holds eval (s.rows ++ (s.txs i).own)
            ((if s.lock = some i then none else s.lock) = some j) tx).mpr
          rw [if_neg held, empty, List.append_nil]
          constructor
          · simpa [held] using Holds.commit idle pending
          · intro j _
            exact holds.txs j

theorem invariant_of_reached {start : State ι ρ ν} (initial : Invariant eval start)
    (reached : Reached eval Current start s) : Invariant eval s := by
  induction reached with
  | here => exact initial
  | after event _ current stepped ih => exact ih.step current stepped

end Fresh

section Rows
variable [DecidableEq ι] {eval : List ρ → Option ν} {s next : State ι ρ ν} {event : Event ι} {base : List ρ}
  {inserts : ι → List ρ} {order : List ι}

structure Committed (base : List ρ) (inserts : ι → List ρ) (order : List ι) (s : State ι ρ ν) : Prop where
  nodup : order.Nodup
  member : ∀ i, (s.txs i).committed ↔ i ∈ order
  rows : s.rows = base ++ order.flatMap inserts
  inserts : ∀ i, (s.txs i).own ++ (s.txs i).pending = inserts i

theorem Committed.step (holds : Committed base inserts order s) (stepped : Refresh.step eval s event = some next) :
    ∃ later, Committed base inserts later next := by
  -- a transaction that is not about to commit keeps its rows and its state
  have keeps : ∀ i tx, tx.committed = (s.txs i).committed →
      tx.own ++ tx.pending = (s.txs i).own ++ (s.txs i).pending → ∀ lock,
        Committed base inserts order { s.set i tx with lock := lock } := by
    intro i tx committed rows lock
    refine ⟨holds.nodup, ?_, holds.rows, ?_⟩
    · apply (Function.forall_update_iff s.txs fun j tx => tx.committed ↔ j ∈ order).mpr
      exact ⟨by rw [committed]; exact holds.member i, fun j _ => holds.member j⟩
    · apply (Function.forall_update_iff s.txs fun j tx => tx.own ++ tx.pending = inserts j).mpr
      exact ⟨rows.trans (holds.inserts i), fun j _ => holds.inserts j⟩
  cases event with
  | insert i =>
      obtain ⟨row, rest, -, pending, rfl⟩ := insert_spec stepped
      refine ⟨order, keeps i ⟨rest, (s.txs i).own ++ [row], .inserted, (s.txs i).view, (s.txs i).committed⟩ rfl ?_ s.lock⟩
      rw [pending, List.append_assoc, List.singleton_append]
  | snapshot i =>
      obtain ⟨-, rfl⟩ := snapshot_spec stepped
      exact ⟨order, keeps i { s.txs i with statement := .refreshing (s.rows ++ (s.txs i).own) } rfl rfl s.lock⟩
  | evaluate i =>
      obtain ⟨snapshot, view, -, -, -, rfl⟩ := evaluate_spec stepped
      exact ⟨order, keeps i { s.txs i with statement := .idle, view := some view } rfl rfl (some i)⟩
  | commit i =>
      obtain ⟨-, pending, uncommitted, rfl⟩ := commit_spec stepped
      have fresh : i ∉ order := by
        rw [← holds.member i, uncommitted]
        exact Bool.false_ne_true
      have own : (s.txs i).own = inserts i := by
        rw [← holds.inserts i, pending, List.append_nil]
      refine ⟨order ++ [i], ?_, ?_, ?_, ?_⟩
      · rw [← List.concat_eq_append]
        exact holds.nodup.concat fresh
      · apply (Function.forall_update_iff s.txs fun j tx => tx.committed ↔ j ∈ order ++ [i]).mpr
        refine ⟨by simp, fun j other => ?_⟩
        simpa [other] using holds.member j
      · change s.rows ++ (s.txs i).own = _
        rw [holds.rows, own, List.flatMap_append, List.flatMap_singleton, List.append_assoc]
      · apply (Function.forall_update_iff s.txs fun j tx => tx.own ++ tx.pending = inserts j).mpr
        exact ⟨holds.inserts i, fun j _ => holds.inserts j⟩

theorem committed_of_reached {view : ν} {allowed : State ι ρ ν → Event ι → Prop}
    (reached : Reached eval allowed (State.start base view inserts) s) : ∃ order, Committed base inserts order s := by
  induction reached with
  | here =>
      refine ⟨[], List.nodup_nil, ?_, ?_, fun i => rfl⟩
      · simp [State.start]
      · simp [State.start]
  | after event _ _ stepped ih =>
      obtain ⟨order, holds⟩ := ih
      exact holds.step stepped

end Rows

theorem rows_perm {n : Nat} {base : List ρ} {inserts : Fin n → List ρ} {order : List (Fin n)} {s : State (Fin n) ρ ν}
    (holds : Committed base inserts order s) (done : ∀ i, (s.txs i).committed) :
    s.rows.Perm (base ++ (List.finRange n).flatMap inserts) := by
  have all : order.Perm (List.finRange n) := by
    apply (List.perm_ext_iff_of_nodup holds.nodup (List.nodup_finRange n)).mpr
    intro i
    simpa using (holds.member i).mp (done i)
  rw [holds.rows]
  exact (all.flatMap_right inserts).append_left base

end Relational.Refresh
