import FpvIndexer.Relational.Table

/-!
# The scheduling of the orchestrator

`IndexerOrchestratorService.index` and what calls it. A callback runs without interruption up to its `await`, so
`index` is two steps: the one that starts `execute`, and the one in which `execute` has ended.
-/

namespace FpvIndexer
open Relational

structure Timeout where
  name : String
  timer : Nat
deriving DecidableEq

inductive SchedulerError
  | duplicateScheduler (name : String)
  | noSchedulerFound (name : String)
deriving DecidableEq

inductive Outcome
  | succeeded
  | failed
deriving DecidableEq

structure Orchestrator where
  isRunning : Bool
  timeouts : Table Timeout Timeout.name
  -- the timers that have neither fired nor been cleared, and how many were ever set
  pending : List Nat
  timersSet : Nat
  executing : Nat
  lastExecution : Option Outcome
  thrown : List SchedulerError
deriving DecidableEq

namespace Orchestrator

def started : Orchestrator where
  isRunning := false
  timeouts := .empty
  pending := []
  timersSet := 0
  executing := 0
  lastExecution := none
  thrown := []

def retryTimeoutName : String := "indexer_orchestrator_retry_timeout"

variable (orchestrator : Orchestrator)

def setTimeout : Nat × Orchestrator :=
  (orchestrator.timersSet, { orchestrator with
    pending := orchestrator.pending ++ [orchestrator.timersSet]
    timersSet := orchestrator.timersSet + 1 })

def clearTimeout (timer : Nat) : Orchestrator :=
  { orchestrator with pending := orchestrator.pending.filter (· ≠ timer) }

def doesExist (name : String) : Bool := (orchestrator.timeouts.lookup? name).isSome

def addTimeout (name : String) (timer : Nat) : Except SchedulerError Orchestrator :=
  match orchestrator.timeouts.insert? ⟨name, timer⟩ with
  | none => .error (.duplicateScheduler name)
  | some timeouts => .ok { orchestrator with timeouts }

def deleteTimeout (name : String) : Except SchedulerError Orchestrator :=
  match orchestrator.timeouts.lookup? name with
  | none => .error (.noSchedulerFound name)
  | some timeout =>
      let cleared := orchestrator.clearTimeout timeout.timer
      .ok { cleared with timeouts := cleared.timeouts.delete (·.name = name) }

def throwing (error : SchedulerError) : Orchestrator :=
  { orchestrator with thrown := orchestrator.thrown ++ [error] }

def index : Orchestrator :=
  if orchestrator.isRunning then orchestrator
  else
    let cleared :=
      if orchestrator.doesExist retryTimeoutName then orchestrator.deleteTimeout retryTimeoutName
      else .ok orchestrator
    match cleared with
    | .error error => orchestrator.throwing error
    | .ok cleared => { cleared with isRunning := true, executing := cleared.executing + 1 }

def indexed (outcome : Outcome) : Orchestrator :=
  let ended := { orchestrator with executing := orchestrator.executing - 1, lastExecution := some outcome }
  let caught :=
    match outcome with
    | .succeeded => ended
    | .failed =>
        let (timeout, retrying) := ended.setTimeout
        match retrying.addTimeout retryTimeoutName timeout with
        | .error error => retrying.throwing error
        | .ok registered => registered
  { caught with isRunning := false }

inductive Event
  | bootstrap
  | cronTick
  | retryFires (timer : Nat)
  | executed (outcome : Outcome)
deriving DecidableEq

/-- A timer that was cleared does not fire, and one that fires stays in the registry. -/
def step : Event → Option Orchestrator
  | .bootstrap => some orchestrator.index
  | .cronTick => some orchestrator.index
  | .retryFires timer =>
      if timer ∈ orchestrator.pending then some (orchestrator.clearTimeout timer).index else none
  | .executed outcome => if 0 < orchestrator.executing then some (orchestrator.indexed outcome) else none

def run (events : List Event) : Option Orchestrator := events.foldlM step orchestrator

end Orchestrator
end FpvIndexer
