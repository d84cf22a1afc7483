import FpvIndexer.Services.IndexerScheduling

namespace FpvIndexer
open Relational

namespace Orchestrator

def retries (orchestrator : Orchestrator) : List Timeout :=
  orchestrator.timeouts.rows.filter (·.name = retryTimeoutName)

end Orchestrator

namespace Proof.SingleFlight
open Orchestrator
variable {orchestrator next : Orchestrator}

structure OneInFlight (orchestrator : Orchestrator) : Prop where
  one_execution : orchestrator.executing ≤ 1
  running_iff : orchestrator.isRunning = true ↔ orchestrator.executing = 1
  one_timer : orchestrator.retries.length ≤ 1
  -- the registry throws at an `addTimeout` of a name it has, and at a `deleteTimeout` of one it has not
  never_throws : orchestrator.thrown = []
  retry : orchestrator.executing = 0 → orchestrator.lastExecution = some .failed →
    ∃ timeout ∈ orchestrator.retries, timeout.timer ∈ orchestrator.pending

inductive Phase (orchestrator : Orchestrator) : Prop
  | idle (stopped : orchestrator.isRunning = false) (none : orchestrator.executing = 0)
      (unfailed : orchestrator.lastExecution ≠ some .failed) (unregistered : orchestrator.timeouts.rows = [])
  | indexing (running : orchestrator.isRunning = true) (one : orchestrator.executing = 1)
      (unregistered : orchestrator.timeouts.rows = [])
  | waiting (timer : Nat) (stopped : orchestrator.isRunning = false) (none : orchestrator.executing = 0)
      (registered : orchestrator.timeouts.rows = [⟨retryTimeoutName, timer⟩]) (due : timer ∈ orchestrator.pending)

structure Steady (orchestrator : Orchestrator) : Prop where
  phase : Phase orchestrator
  calm : orchestrator.thrown = []

theorem started_steady : Steady started where
  phase := .idle rfl rfl (by decide) rfl
  calm := rfl

section Registry

theorem doesExist_of_empty (unregistered : orchestrator.timeouts.rows = []) (name : String) :
    orchestrator.doesExist name = false := by
  simp [doesExist, Table.lookup?, unregistered]

theorem lookup_of_single {timer : Nat} (registered : orchestrator.timeouts.rows = [⟨retryTimeoutName, timer⟩]) :
    orchestrator.timeouts.lookup? retryTimeoutName = some ⟨retryTimeoutName, timer⟩ := by
  simp [Table.lookup?, registered]

theorem addTimeout_of_empty (unregistered : orchestrator.timeouts.rows = []) (name : String) (timer : Nat) :
    ∃ timeouts, orchestrator.addTimeout name timer = .ok { orchestrator with timeouts } ∧
      timeouts.rows = [⟨name, timer⟩] := by
  obtain ⟨timeouts, inserted, rows⟩ := orchestrator.timeouts.exists_insert? ⟨name, timer⟩ (by simp [unregistered])
  refine ⟨timeouts, ?_, by rw [rows, unregistered]; rfl⟩
  unfold addTimeout
  rw [inserted]

theorem deleteTimeout_of_single {timer : Nat} (registered : orchestrator.timeouts.rows = [⟨retryTimeoutName, timer⟩]) :
    ∃ timeouts, orchestrator.deleteTimeout retryTimeoutName =
      .ok { orchestrator.clearTimeout timer with timeouts } ∧ timeouts.rows = [] := by
  refine ⟨orchestrator.timeouts.delete (·.name = retryTimeoutName), ?_, by simp [registered]⟩
  unfold deleteTimeout
  rw [lookup_of_single registered]
  rfl

end Registry

section Index

theorem index_of_running (running : orchestrator.isRunning = true) : orchestrator.index = orchestrator := if_pos running

theorem index_starts (orchestrator : Orchestrator) (stopped : orchestrator.isRunning = false)
    (none : orchestrator.executing = 0) (calm : orchestrator.thrown = [])
    (atMost : orchestrator.timeouts.rows = [] ∨ ∃ timer, orchestrator.timeouts.rows = [⟨retryTimeoutName, timer⟩]) :
    Steady orchestrator.index := by
  unfold Orchestrator.index
  rw [if_neg (by simp [stopped])]
  rcases atMost with unregistered | ⟨timer, registered⟩
  · rw [doesExist_of_empty unregistered]
    exact ⟨.indexing rfl (congrArg (· + 1) none) unregistered, calm⟩
  · obtain ⟨timeouts, deleted, rows⟩ := deleteTimeout_of_single registered
    have registers : orchestrator.doesExist retryTimeoutName = true := by
      rw [doesExist, lookup_of_single registered]
      rfl
    rw [registers, if_pos rfl, deleted]
    exact ⟨.indexing rfl (congrArg (· + 1) none) rows, calm⟩

theorem index_steady (steady : Steady orchestrator) : Steady orchestrator.index := by
  cases steady.phase with
  | idle stopped none _ unregistered => exact index_starts _ stopped none steady.calm (.inl unregistered)
  | indexing running _ _ =>
      rw [index_of_running running]
      exact steady
  | waiting timer stopped none registered _ => exact index_starts _ stopped none steady.calm (.inr ⟨timer, registered⟩)

theorem retry_steady (steady : Steady orchestrator) (timer : Nat) : Steady (orchestrator.clearTimeout timer).index := by
  cases steady.phase with
  | idle stopped none _ unregistered => exact index_starts _ stopped none steady.calm (.inl unregistered)
  | indexing running one unregistered =>
      rw [index_of_running (show (orchestrator.clearTimeout timer).isRunning = true from running)]
      exact ⟨.indexing running one unregistered, steady.calm⟩
  -- the timer that fires is still in the registry
  | waiting other stopped none registered _ => exact index_starts _ stopped none steady.calm (.inr ⟨other, registered⟩)

theorem indexed_failed (unregistered : orchestrator.timeouts.rows = []) :
    ∃ timeouts, timeouts.rows = [⟨retryTimeoutName, orchestrator.timersSet⟩] ∧
      orchestrator.indexed .failed = { orchestrator with
        isRunning := false
        timeouts
        pending := orchestrator.pending ++ [orchestrator.timersSet]
        timersSet := orchestrator.timersSet + 1
        executing := orchestrator.executing - 1
        lastExecution := some .failed } := by
  let ended := { orchestrator with executing := orchestrator.executing - 1, lastExecution := some .failed }
  obtain ⟨timeouts, added, rows⟩ := addTimeout_of_empty (show ended.setTimeout.2.timeouts.rows = [] from unregistered)
    retryTimeoutName orchestrator.timersSet
  refine ⟨timeouts, rows, ?_⟩
  have caught : ended.setTimeout.2.addTimeout retryTimeoutName ended.setTimeout.1 =
    .ok { ended.setTimeout.2 with timeouts } := added
  unfold indexed
  simp only [ended] at caught
  simp only [caught]
  rfl

theorem indexed_steady (steady : Steady orchestrator) (started : 0 < orchestrator.executing) (outcome : Outcome) :
    Steady (orchestrator.indexed outcome) := by
  cases steady.phase with
  | idle _ none _ _ => omega
  | waiting _ _ none _ _ => omega
  | indexing _ one unregistered =>
      have none : orchestrator.executing - 1 = 0 := by omega
      cases outcome with
      | succeeded => exact ⟨.idle rfl none (fun failed => by cases failed) unregistered, steady.calm⟩
      | failed =>
          obtain ⟨timeouts, registered, ended⟩ := indexed_failed unregistered
          rw [ended]
          exact ⟨.waiting orchestrator.timersSet rfl none registered (by simp), steady.calm⟩

end Index

section Runs

theorem step_cases {event : Event} (stepped : orchestrator.step event = some next) :
    next = orchestrator.index ∨ (∃ timer ∈ orchestrator.pending, next = (orchestrator.clearTimeout timer).index) ∨
      ∃ outcome, 0 < orchestrator.executing ∧ next = orchestrator.indexed outcome := by
  cases event with
  | bootstrap => exact .inl (Option.some.inj stepped).symm
  | cronTick => exact .inl (Option.some.inj stepped).symm
  | retryFires timer =>
      obtain ⟨due, fired⟩ := Option.ite_none_right_eq_some.mp stepped
      exact .inr (.inl ⟨timer, due, (Option.some.inj fired).symm⟩)
  | executed outcome =>
      obtain ⟨started, ended⟩ := Option.ite_none_right_eq_some.mp stepped
      exact .inr (.inr ⟨outcome, started, (Option.some.inj ended).symm⟩)

theorem step_steady (steady : Steady orchestrator) {event : Event} (stepped : orchestrator.step event = some next) :
    Steady next := by
  rcases step_cases stepped with rfl | ⟨timer, -, rfl⟩ | ⟨outcome, started, rfl⟩
  · exact index_steady steady
  · exact retry_steady steady timer
  · exact indexed_steady steady started outcome

theorem run_steady (events : List Event) (steady : Steady orchestrator) (ran : orchestrator.run events = some next) :
    Steady next := by
  induction events generalizing orchestrator with
  | nil =>
      cases ran
      exact steady
  | cons event rest ih =>
      unfold Orchestrator.run at ran
      rw [List.foldlM_cons] at ran
      obtain ⟨between, stepped, later⟩ := Option.bind_eq_some_iff.mp ran
      exact ih (step_steady steady stepped) later

theorem Steady.singleFlight (steady : Steady orchestrator) : OneInFlight orchestrator := by
  have calm := steady.calm
  cases steady.phase with
  | idle stopped none unfailed unregistered =>
      exact ⟨by omega, by simp [stopped, none], by simp [retries, unregistered], calm,
        fun _ failed => absurd failed unfailed⟩
  | indexing running one unregistered =>
      exact ⟨by omega, by simp [running, one], by simp [retries, unregistered], calm, fun none => by omega⟩
  | waiting timer stopped none registered due =>
      refine ⟨by omega, by simp [stopped, none], by simp [retries, registered], calm, fun _ _ => ?_⟩
      exact ⟨⟨retryTimeoutName, timer⟩, by simp [retries, registered], due⟩

end Runs

theorem singleFlight_of_run (events : List Event) (orchestrator : Orchestrator)
    (ran : started.run events = some orchestrator) : OneInFlight orchestrator :=
  (run_steady events started_steady ran).singleFlight

def tickBeforeRetry : List Event :=
  [.bootstrap, .executed .failed, .cronTick, .cronTick, .executed .failed, .retryFires 1, .executed .succeeded]

theorem singleFlight_of_run_tickBeforeRetry :
    ∃ orchestrator, started.run tickBeforeRetry = some orchestrator ∧ OneInFlight orchestrator :=
  ⟨_, rfl, singleFlight_of_run tickBeforeRetry _ rfl⟩

end Proof.SingleFlight
end FpvIndexer
