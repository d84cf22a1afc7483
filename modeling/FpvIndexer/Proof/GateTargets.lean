import FpvIndexer.Services.GateCheck
import FpvIndexer.Relational.Numeric
import Mathlib.Data.Nat.Cast.Field
import FpvIndexer.Proof.Removals

namespace FpvIndexer
open Relational

structure Gate where
  baseAttoUsd : Nat
  stepRatio : Nat
  steps : Nat
  lastCheckEpoch : Option Int
deriving DecidableEq, Repr

namespace Gate

def initial : Gate := ⟨3500 * 10 ^ 18, 27 * 10 ^ 17, 0, none⟩

def handle (gate : Gate) (log : StreamWeightActorLog) : Gate :=
  match log.event with
  | .gateParamsSet base stepRatio _ => { gate with baseAttoUsd := base, stepRatio }
  | .quarterlyGateCheckResult _ _ steps => { gate with steps, lastCheckEpoch := some log.blockNumber }

variable (gate : Gate)

def target : ℚ := if 8 ≤ gate.steps then 0 else gate.baseAttoUsd * (gate.stepRatio / (10 ^ 18 : Nat)) ^ gate.steps

/-- The powers that the service takes are no larger than the engine allows. -/
def PowersFit (fits : Int → Nat → Bool) : Prop :=
  fits (10 ^ 18) gate.steps ∧ (gate.steps < 8 → fits gate.stepRatio gate.steps)

def Answers (fits : Int → Nat → Bool) (atEpoch : Option Int) : Except Failure GateTarget → Prop
  | .ok answer => answer.atEpoch = atEpoch ∧ answer.lastCheckEpoch = gate.lastCheckEpoch ∧
      (answer.capReached ↔ 8 ≤ gate.steps) ∧ (answer.targetAttoUsd : ℚ) = gate.target
  | .error failure =>
      failure = .rejected "Non-exact gate target" ∧ gate.target.den ≠ 1 ∨
        failure = .rejected "Maximum BigInt size exceeded" ∧ ¬ gate.PowersFit fits

end Gate

namespace Chain
variable (chain : Chain)

def gateLogs (store : Store) : List StreamWeightActorLog :=
  chain.upTo .streamWeightActor store chain.streamWeightActorAddress.toLowerCase

def gateLogsUpTo (epoch : Int) : List StreamWeightActorLog :=
  (chain.logs .streamWeightActor chain.streamWeightActorAddress.toLowerCase).logs.filter
    fun log : StreamWeightActorLog => log.blockNumber ≤ epoch

def gateAsOf (epoch : Int) : Gate := (chain.gateLogsUpTo epoch).foldl Gate.handle .initial

end Chain

namespace Proof.GateTargets
open Schedules Commits Handlers GateCheckService

section Target
variable {fits : Int → Nat → Bool} {gate : Gate} {store : Store} {atEpoch : Option Int}

theorem bigIntPower_natCast (base : Int) (exponent : Nat) : bigIntPower fits base exponent =
    if fits base exponent then .ok (base ^ exponent) else .error (.rejected "Maximum BigInt size exceeded") := by
  unfold bigIntPower
  rw [if_neg (by omega), Int.toNat_natCast]

theorem bigint_eq_ok {value stored : Int} (fits : bigint value = .ok stored) : stored = value := by
  unfold bigint at fits
  split at fits
  · cases fits
    rfl
  · cases fits

theorem den_target_eq_one_iff (below : gate.steps < 8) :
    gate.target.den = 1 ↔ (10 ^ 18) ^ gate.steps ∣ gate.baseAttoUsd * gate.stepRatio ^ gate.steps := by
  unfold Gate.target
  rw [if_neg (by omega)]
  exact den_eq_one_iff (by decide) _

theorem target_eq_quotient (below : gate.steps < 8)
    (exact : (10 ^ 18) ^ gate.steps ∣ gate.baseAttoUsd * gate.stepRatio ^ gate.steps) :
    gate.target = (gate.baseAttoUsd * gate.stepRatio ^ gate.steps / (10 ^ 18) ^ gate.steps : Nat) := by
  unfold Gate.target
  rw [if_neg (by omega), Nat.cast_div exact (by positivity)]
  push_cast
  rw [div_pow, mul_div_assoc]

structure Holds (store : Store) (atEpoch : Option Int) (gate : Gate) : Prop where
  baseAttoUsd : ((params store atEpoch).elim initialBaseAttoUsd fun p => (p.baseAttoUsd : Int)) = gate.baseAttoUsd
  stepRatio : ((params store atEpoch).elim initialStepRatio fun p => (p.stepRatio : Int)) = gate.stepRatio
  steps : ((lastGateCheckResult store atEpoch).elim 0 fun c => c.stepsAfter) = gate.steps
  lastCheckEpoch : ((lastGateCheckResult store atEpoch).map fun c => c.epoch) = gate.lastCheckEpoch

theorem calculateGateTarget_eq (holds : Holds store atEpoch gate) :
    calculateGateTarget fits store atEpoch =
      if ¬ fits (10 ^ 18) gate.steps then .error (.rejected "Maximum BigInt size exceeded")
      else if 8 ≤ gate.steps then .ok ⟨atEpoch, gate.lastCheckEpoch, true, 0⟩
      else if ¬ fits gate.stepRatio gate.steps then .error (.rejected "Maximum BigInt size exceeded")
      else if (10 ^ 18) ^ gate.steps ∣ gate.baseAttoUsd * gate.stepRatio ^ gate.steps then
        .ok ⟨atEpoch, gate.lastCheckEpoch, false,
          (gate.baseAttoUsd * gate.stepRatio ^ gate.steps / (10 ^ 18) ^ gate.steps : Nat)⟩
      else .error (.rejected "Non-exact gate target") := by
  unfold calculateGateTarget
  dsimp only
  rw [holds.baseAttoUsd, holds.stepRatio, holds.steps, holds.lastCheckEpoch, bigIntPower_natCast]
  have scale : ((10 : Int) ^ 18) ^ gate.steps = ((10 ^ 18) ^ gate.steps : Nat) := by push_cast; rfl
  have positive : ((10 : Int) ^ 18) ^ gate.steps ≠ 0 := by positivity
  have numerator : (gate.baseAttoUsd : Int) * gate.stepRatio ^ gate.steps =
      (gate.baseAttoUsd * gate.stepRatio ^ gate.steps : Nat) := by push_cast; rfl
  by_cases scaleFits : fits (10 ^ 18) gate.steps
  · rw [if_pos scaleFits, if_neg (not_not.mpr scaleFits), ok_bind]
    by_cases capped : 8 ≤ gate.steps
    · rw [if_pos (Or.inl (by exact_mod_cast capped)), if_pos capped]
      have reached : decide ((8 : Int) ≤ gate.steps) = true := decide_eq_true (by exact_mod_cast capped)
      rw [reached]
      rfl
    · rw [if_neg (by simp only [positive, or_false]; omega), if_neg capped, bigIntPower_natCast]
      by_cases ratioFits : fits gate.stepRatio gate.steps
      · rw [if_pos ratioFits, if_neg (not_not.mpr ratioFits), ok_bind, numerator, scale]
        by_cases exact : (10 ^ 18) ^ gate.steps ∣ gate.baseAttoUsd * gate.stepRatio ^ gate.steps
        · have none : ((gate.baseAttoUsd * gate.stepRatio ^ gate.steps : Nat) : Int).tmod
              ((10 ^ 18) ^ gate.steps : Nat) = 0 := Int.tmod_eq_zero_of_dvd (Int.natCast_dvd_natCast.mpr exact)
          rw [if_neg (not_not.mpr none), if_pos exact]
          rfl
        · rw [if_neg exact, if_pos]
          exact fun none => exact (Int.natCast_dvd_natCast.mp (Int.dvd_of_tmod_eq_zero none))
      · rw [if_neg ratioFits, if_pos ratioFits]
        rfl
  · rw [if_neg scaleFits, if_pos scaleFits]
    rfl

theorem calculateGateTarget_fails_iff (holds : Holds store atEpoch gate) :
    (∃ failure, calculateGateTarget fits store atEpoch = .error failure) ↔
      ¬ gate.PowersFit fits ∨
        gate.steps < 8 ∧ ¬ reducedScale (10 ^ 18) gate.stepRatio ^ gate.steps ∣ gate.baseAttoUsd := by
  rw [calculateGateTarget_eq holds, ← pow_dvd_mul_pow_iff (by decide)]
  split
  · rename_i tooLarge
    exact iff_of_true ⟨_, rfl⟩ (Or.inl fun powers => tooLarge powers.1)
  · rename_i scaleFits
    split
    · rename_i capped
      refine iff_of_false (fun ⟨_, failed⟩ => nomatch failed) ?_
      rintro (tooLarge | ⟨below, -⟩)
      · exact tooLarge ⟨not_not.mp scaleFits, fun below => absurd below (not_lt.mpr capped)⟩
      · exact absurd below (not_lt.mpr capped)
    · rename_i below
      split
      · rename_i tooLarge
        exact iff_of_true ⟨_, rfl⟩ (Or.inl fun powers => tooLarge (powers.2 (not_le.mp below)))
      · rename_i ratioFits
        split
        · rename_i exact
          refine iff_of_false (fun ⟨_, failed⟩ => nomatch failed) ?_
          rintro (tooLarge | ⟨-, inexact⟩)
          · exact tooLarge ⟨not_not.mp scaleFits, fun _ => not_not.mp ratioFits⟩
          · exact inexact exact
        · rename_i inexact
          exact iff_of_true ⟨_, rfl⟩ (Or.inr ⟨not_le.mp below, inexact⟩)

theorem answers_of_holds (holds : Holds store atEpoch gate) :
    gate.Answers fits atEpoch (calculateGateTarget fits store atEpoch) := by
  rw [calculateGateTarget_eq holds]
  split
  · rename_i tooLarge
    exact Or.inr ⟨rfl, fun powers => tooLarge powers.1⟩
  · split
    · rename_i capped
      refine ⟨rfl, rfl, iff_of_true rfl capped, ?_⟩
      unfold Gate.target
      rw [if_pos capped]
      rfl
    · rename_i below
      split
      · rename_i tooLarge
        exact Or.inr ⟨rfl, fun powers => tooLarge (powers.2 (not_le.mp below))⟩
      · split
        · rename_i exact
          refine ⟨rfl, rfl, iff_of_false Bool.false_ne_true below, ?_⟩
          rw [target_eq_quotient (by omega) exact]
          rfl
        · rename_i inexact
          exact Or.inl ⟨rfl, fun whole => inexact ((den_target_eq_one_iff (by omega)).mp whole)⟩

end Target

section Synced
variable {cfg : Deployment} {chain : Chain} {store next : Store}

structure GateSynced (chain : Chain) (store : Store) : Prop where
  parameters : ((chain.gateLogs store).filterMap gateParams).mapM id = .ok store.streamWeightActorParameters.rows
  checks : ((chain.gateLogs store).filterMap gateCheck).mapM id = .ok store.quarterlyGateCheck.rows

theorem streamWeightActor_spec {logs : List StreamWeightActorLog}
    (updated : StreamWeightActorIndexer.updateDb store logs = .ok next) :
    ∃ parameters checks, (logs.filterMap gateParams).mapM id = .ok parameters ∧
      (logs.filterMap gateCheck).mapM id = .ok checks ∧
      next.streamWeightActorParameters.rows = store.streamWeightActorParameters.rows ++ parameters ∧
      next.quarterlyGateCheck.rows = store.quarterlyGateCheck.rows ++ checks := by
  obtain ⟨parameters, built, updated⟩ := bind_eq_ok.mp updated
  obtain ⟨_, insertedParameters, updated⟩ := bind_eq_ok.mp updated
  obtain ⟨checks, builtToo, updated⟩ := bind_eq_ok.mp updated
  obtain ⟨_, insertedChecks, updated⟩ := bind_eq_ok.mp updated
  rw [← pure_eq_ok.mp updated]
  exact ⟨parameters, checks, built, builtToo, Table.insertAll?_rows (insertAll_ok insertedParameters),
    Table.insertAll?_rows (insertAll_ok insertedChecks)⟩

theorem batch_gate {batch : Batch} (updated : store.updateDb (.batch cfg batch) = .ok next) :
    next.streamWeightActorParameters = store.streamWeightActorParameters ∧
      next.quarterlyGateCheck = store.quarterlyGateCheck := by
  obtain ⟨db, -, same⟩ := bind_eq_ok.mp updated
  rw [← pure_eq_ok.mp same]
  exact ⟨rfl, rfl⟩

theorem other_gate {services : chain.Services} {indexer : Indexer} {logs : List indexer.Log}
    (other : indexer ≠ .streamWeightActor) (updated : chain.updateDb cfg services store indexer logs = .ok next) :
    next.streamWeightActorParameters = store.streamWeightActorParameters ∧
      next.quarterlyGateCheck = store.quarterlyGateCheck := by
  cases indexer with
  | streamWeightActor => exact absurd rfl other
  | serviceRewardsActor => exact batch_gate updated
  | filecoinPayV1 => exact batch_gate updated
  | auctionableToken => exact batch_gate updated

variable {indexer : Indexer} {packageMajorVersion : Nat} {parameters : IndexerRunParameters} {range : BlockRange}
  {contracts : List Address}

theorem GateSynced.streamWeightActor (gate : GateSynced chain store) (synced : ActorSynced cfg chain store)
    (committed : Committed cfg chain store .streamWeightActor packageMajorVersion parameters range contracts next) :
    GateSynced chain next := by
  obtain ⟨updated, applied, stored⟩ := committed.stored
  have upTo := committed.upTo (committed.continues rfl) (synced.started _)
  rw [committed.planned.gate rfl] at upTo applied
  obtain ⟨served, logs, applied⟩ : ∃ served : List StreamWeightActorLog,
      chain.gateLogs next = chain.gateLogs store ++ served ∧ StreamWeightActorIndexer.updateDb store served = .ok updated :=
    ⟨_, upTo, applied⟩
  obtain ⟨parameters, checks, built, builtToo, parameterRows, checkRows⟩ := streamWeightActor_spec applied
  constructor
  · rw [logs, List.filterMap_append, stored]
    exact (mapM_append_eq_ok gate.parameters built).trans (congrArg _ parameterRows.symm)
  · rw [logs, List.filterMap_append, stored]
    exact (mapM_append_eq_ok gate.checks builtToo).trans (congrArg _ checkRows.symm)

theorem GateSynced.other (gate : GateSynced chain store)
    (committed : Committed cfg chain store indexer packageMajorVersion parameters range contracts next)
    (other : indexer ≠ .streamWeightActor) : GateSynced chain next := by
  obtain ⟨updated, applied, stored⟩ := committed.stored
  obtain ⟨parameters, checks⟩ := other_gate other applied
  have logs : chain.gateLogs next = chain.gateLogs store := by
    refine upTo_of_lastRun (committed.others _ fun same => other ?_)
    rw [← committed.planned.kind, ← same, chain.streamWeightActor_indexer]
  constructor
  · rw [logs, gate.parameters, ← parameters, stored]
    rfl
  · rw [logs, gate.checks, ← checks, stored]
    rfl

theorem gateSynced_of_reached {allowed : Execution → chain.Event → Prop} {s : Execution}
    (reached : chain.Reached cfg allowed s) : GateSynced chain s.store := by
  refine commit_induction (p := fun store _ => GateSynced chain store) ⟨rfl, rfl⟩ ?_ reached
  intro s i answers indexer parameters awaited range contracts logs next before _ _ _ committed gate
  by_cases actor : indexer = .streamWeightActor
  · subst actor
    exact gate.streamWeightActor (consistent_of_reached before).synced committed
  · exact gate.other committed actor

end Synced

section AsOf
variable {chain : Chain} {store : Store}

def placed {ρ : Type} (write : StreamWeightActorLog → Option ρ) (log : StreamWeightActorLog) : Option ((Int × Nat) × ρ) :=
  (write log).map fun value => ((log.blockNumber, log.logIndex), value)

def paramsWrite (log : StreamWeightActorLog) : Option (Nat × Nat) :=
  match log.event with
  | .gateParamsSet base stepRatio _ => some (base, stepRatio)
  | _ => none

def stepsWrite (log : StreamWeightActorLog) : Option Int :=
  match log.event with
  | .quarterlyGateCheckResult _ _ steps => some steps
  | _ => none

theorem pairwise_of_placed {α ρ : Type} {pkey : α → Int × Nat} {see : α → ρ} {write : StreamWeightActorLog → Option ρ}
    {rows : List α} {logs : List StreamWeightActorLog}
    (shown : rows.map (fun row => (pkey row, see row)) = logs.filterMap (placed write))
    (ordered : logs.Pairwise fun a b => toLex (a.blockNumber, a.logIndex) < toLex (b.blockNumber, b.logIndex)) :
    rows.Pairwise fun a b => toLex (pkey a) < toLex (pkey b) := by
  have views : (rows.map fun row => (pkey row, see row)).Pairwise fun a b => toLex a.1 < toLex b.1 := by
    rw [shown, List.pairwise_filterMap]
    refine ordered.imp ?_
    intro a b before x inA y inB
    obtain ⟨_, -, rfl⟩ := Option.map_eq_some_iff.mp inA
    obtain ⟨_, -, rfl⟩ := Option.map_eq_some_iff.mp inB
    exact before
  rw [List.pairwise_map] at views
  exact views

theorem latest_of_logs {α ρ : Type} {pkey : α → Int × Nat} {see : α → ρ} {write : StreamWeightActorLog → Option ρ}
    {rows : List α} {logs : List StreamWeightActorLog}
    (shown : rows.map (fun row => (pkey row, see row)) = logs.filterMap (placed write))
    (ordered : logs.Pairwise fun a b => toLex (a.blockNumber, a.logIndex) < toLex (b.blockNumber, b.logIndex))
    (keep : Int → Bool) :
    (latest? (fun row => toLex (pkey row)) (fun row => keep (pkey row).1) rows).map (fun row => (pkey row, see row)) =
      ((logs.filter fun log => keep log.blockNumber).filterMap (placed write)).getLast? := by
  have kept : (rows.filter fun row => keep (pkey row).1).map (fun row => (pkey row, see row)) =
      (logs.filter fun log => keep log.blockNumber).filterMap (placed write) := by
    have seen : (rows.filter fun row => keep (pkey row).1).map (fun row => (pkey row, see row)) =
        (rows.map fun row => (pkey row, see row)).filter fun view => keep view.1.1 := by
      rw [List.filter_map]
      rfl
    rw [seen, shown, List.filter_filterMap, List.filterMap_filter]
    refine List.filterMap_congr fun log _ => ?_
    unfold placed
    cases write log with
    | none => simp
    | some value => cases kept : keep log.blockNumber <;> simp [Option.filter, kept]
  rw [latest?_of_sorted (pairwise_of_placed shown ordered), ← List.getLast?_map, kept]

theorem params_shown (synced : GateSynced chain store) :
    store.streamWeightActorParameters.rows.map (fun p => (p.pkey, (p.baseAttoUsd, p.stepRatio))) =
      (chain.gateLogs store).filterMap (placed paramsWrite) := by
  refine map_of_filterMap_mapM synced.parameters ?_ ?_
  · intro log skipped
    unfold gateParams at skipped
    unfold placed paramsWrite
    cases event : log.event with
    | gateParamsSet => simp [event] at skipped
    | quarterlyGateCheckResult => rfl
  · intro log row built
    unfold gateParams at built
    unfold placed paramsWrite
    cases event : log.event with
    | quarterlyGateCheckResult => simp [event] at built
    | gateParamsSet base stepRatio steps =>
        rw [event] at built
        obtain ⟨_, fits, built⟩ := bind_eq_ok.mp (Option.some.inj built)
        obtain ⟨_, fitsToo, built⟩ := bind_eq_ok.mp built
        obtain ⟨_, -, built⟩ := bind_eq_ok.mp built
        obtain rfl := pure_eq_ok.mp built
        rw [decimal_eq_ok fits, decimal_eq_ok fitsToo]
        rfl

theorem checks_shown (synced : GateSynced chain store) :
    store.quarterlyGateCheck.rows.map (fun c => (c.pkey, c.stepsAfter)) =
      (chain.gateLogs store).filterMap (placed stepsWrite) := by
  refine map_of_filterMap_mapM synced.checks ?_ ?_
  · intro log skipped
    unfold gateCheck at skipped
    unfold placed stepsWrite
    cases event : log.event with
    | quarterlyGateCheckResult => simp [event] at skipped
    | gateParamsSet => rfl
  · intro log row built
    unfold gateCheck at built
    unfold placed stepsWrite
    cases event : log.event with
    | gateParamsSet => simp [event] at built
    | quarterlyGateCheckResult quarter passed steps =>
        rw [event] at built
        obtain ⟨_, -, built⟩ := bind_eq_ok.mp (Option.some.inj built)
        obtain ⟨_, fits, built⟩ := bind_eq_ok.mp built
        obtain ⟨_, -, built⟩ := bind_eq_ok.mp built
        obtain rfl := pure_eq_ok.mp built
        rw [bigint_eq_ok fits]
        rfl

theorem gateLogs_ordered (chain : Chain) (store : Store) : (chain.gateLogs store).Pairwise fun a b =>
    toLex (a.blockNumber, a.logIndex) < toLex (b.blockNumber, b.logIndex) := by
  unfold Chain.gateLogs Chain.upTo ChainLogs.upTo
  cases store.lastRun chain.streamWeightActorAddress.toLowerCase with
  | none => exact List.Pairwise.nil
  | some endBlock =>
      exact (chain.numbered .streamWeightActor chain.streamWeightActorAddress.toLowerCase).filter _

theorem gateLogs_upTo {endBlock : Int} {atEpoch : Option Int}
    (last : store.lastRun chain.streamWeightActorAddress.toLowerCase = some endBlock)
    (within : ∀ epoch ∈ atEpoch, epoch ≤ endBlock) :
    ((chain.gateLogs store).filter fun log => atEpoch.all (log.blockNumber ≤ ·)) =
      chain.gateLogsUpTo (atEpoch.getD endBlock) := by
  unfold Chain.gateLogs Chain.upTo ChainLogs.upTo Chain.gateLogsUpTo
  rw [last]
  refine (List.filter_filter ..).trans (List.filter_congr fun log member => ?_)
  have started : _ ≤ StreamWeightActorLog.blockNumber log := chain.deployed .streamWeightActor _ log member
  refine Bool.eq_iff_iff.mpr (Bool.and_eq_true_iff.trans ((and_congr_right fun _ =>
    @within_epoch .streamWeightActor _ log _ _).trans ?_))
  change _ ∧ _ ≤ StreamWeightActorLog.blockNumber log ∧ StreamWeightActorLog.blockNumber log ≤ endBlock ↔ _
  cases atEpoch with
  | none => simp [started]
  | some epoch =>
      have le := within epoch rfl
      simp only [Option.all_some, decide_eq_true_iff, Option.getD_some]
      omega

theorem gateAsOf_params (chain : Chain) (epoch : Int) :
    ((chain.gateAsOf epoch).baseAttoUsd, (chain.gateAsOf epoch).stepRatio) =
      (((chain.gateLogsUpTo epoch).filterMap paramsWrite).getLast?).getD (Gate.initial.baseAttoUsd, Gate.initial.stepRatio) := by
  refine foldl_register Gate.handle (fun gate => (gate.baseAttoUsd, gate.stepRatio)) paramsWrite ?_ _ _
  intro gate log
  unfold Gate.handle paramsWrite
  cases log.event with
  | gateParamsSet => rfl
  | quarterlyGateCheckResult => rfl

theorem gateAsOf_checks (chain : Chain) (epoch : Int) :
    (((chain.gateAsOf epoch).steps : Int), (chain.gateAsOf epoch).lastCheckEpoch) =
      (((chain.gateLogsUpTo epoch).filterMap fun log => (stepsWrite log).map fun steps => (steps, some log.blockNumber)
        ).getLast?).getD (0, none) := by
  refine foldl_register Gate.handle (fun gate => ((gate.steps : Int), gate.lastCheckEpoch))
    (fun log => (stepsWrite log).map fun steps => (steps, some log.blockNumber)) ?_ _ _
  intro gate log
  unfold Gate.handle stepsWrite
  cases log.event with
  | gateParamsSet => rfl
  | quarterlyGateCheckResult => rfl

theorem holds_of_synced {epoch : Int} {atEpoch : Option Int} (synced : GateSynced chain store)
    (upTo : ((chain.gateLogs store).filter fun log => atEpoch.all (log.blockNumber ≤ ·)) = chain.gateLogsUpTo epoch) :
    Holds store atEpoch (chain.gateAsOf epoch) := by
  have ordered := gateLogs_ordered chain store
  have written := latest_of_logs (params_shown synced) ordered fun epoch => atEpoch.all (epoch ≤ ·)
  have checked := latest_of_logs (checks_shown synced) ordered fun epoch => atEpoch.all (epoch ≤ ·)
  rw [upTo] at written checked
  have paramsAre : (params store atEpoch).map (fun p => (p.baseAttoUsd, p.stepRatio)) =
      ((chain.gateLogsUpTo epoch).filterMap paramsWrite).getLast? := by
    have values := congrArg (Option.map (·.2)) written
    rw [Option.map_map, ← getLast?_filterMap_map] at values
    refine values.trans (congrArg _ (List.filterMap_congr fun log _ => ?_))
    unfold placed
    rw [Option.map_map]
    exact Option.map_id'
  have checksAre : (lastGateCheckResult store atEpoch).map (fun c => (c.stepsAfter, some c.epoch)) =
      ((chain.gateLogsUpTo epoch).filterMap fun log =>
        (stepsWrite log).map fun steps => (steps, some log.blockNumber)).getLast? := by
    have values := congrArg (Option.map fun view => (view.2, some view.1.1)) checked
    rw [Option.map_map, ← getLast?_filterMap_map] at values
    refine values.trans (congrArg _ (List.filterMap_congr fun log _ => ?_))
    unfold placed
    rw [Option.map_map]
    rfl
  have paramsHold := gateAsOf_params chain epoch
  have checksHold := gateAsOf_checks chain epoch
  rw [← paramsAre] at paramsHold
  rw [← checksAre] at checksHold
  obtain ⟨base, ratio⟩ := Prod.mk.inj paramsHold
  obtain ⟨steps, lastCheck⟩ := Prod.mk.inj checksHold
  constructor
  · rw [base]
    cases params store atEpoch <;> rfl
  · rw [ratio]
    cases params store atEpoch <;> rfl
  · rw [steps]
    cases lastGateCheckResult store atEpoch <;> rfl
  · rw [lastCheck]
    cases lastGateCheckResult store atEpoch <;> rfl

end AsOf

section Answers
variable (cfg : Deployment) (chain : Chain) (fits : Int → Nat → Bool) (allowed : Execution → chain.Event → Prop)
  (s : Execution) (reached : chain.Reached cfg allowed s) (atEpoch : Option Int) (endBlock : Int)
  (last : s.store.lastRun chain.streamWeightActorAddress.toLowerCase = some endBlock)
  (within : ∀ epoch ∈ atEpoch, epoch ≤ endBlock)

include reached last within

/-- The answer for an epoch that is indexed is that of the gate which the logs up to it leave. -/
theorem gateTarget_of_reached :
    (chain.gateAsOf (atEpoch.getD endBlock)).Answers fits atEpoch (calculateGateTarget fits s.store atEpoch) :=
  answers_of_holds (holds_of_synced (gateSynced_of_reached reached) (gateLogs_upTo last within))

/-- The service fails where a power is too large, and for a gate below its cap whose base does not make up for the
denominator of its ratio. -/
theorem gateTarget_fails_iff : (∃ failure, calculateGateTarget fits s.store atEpoch = .error failure) ↔
    ¬ (chain.gateAsOf (atEpoch.getD endBlock)).PowersFit fits ∨
      (chain.gateAsOf (atEpoch.getD endBlock)).steps < 8 ∧
        ¬ reducedScale (10 ^ 18) (chain.gateAsOf (atEpoch.getD endBlock)).stepRatio ^
          (chain.gateAsOf (atEpoch.getD endBlock)).steps ∣ (chain.gateAsOf (atEpoch.getD endBlock)).baseAttoUsd :=
  calculateGateTarget_fails_iff (holds_of_synced (gateSynced_of_reached reached) (gateLogs_upTo last within))

/-- Parameters whose target is exact at the seventh step never make the service fail where the powers are not too large;
the initial ones are such. -/
theorem gateTarget_neverFails (powers : (chain.gateAsOf (atEpoch.getD endBlock)).PowersFit fits)
    (announced : ∀ log ∈ chain.gateLogsUpTo (atEpoch.getD endBlock), ∀ base stepRatio steps,
      log.event = .gateParamsSet base stepRatio steps → reducedScale (10 ^ 18) stepRatio ^ 7 ∣ base) :
    ∃ answer, calculateGateTarget fits s.store atEpoch = .ok answer := by
  have exact : reducedScale (10 ^ 18) (chain.gateAsOf (atEpoch.getD endBlock)).stepRatio ^ 7 ∣
      (chain.gateAsOf (atEpoch.getD endBlock)).baseAttoUsd := by
    unfold Chain.gateAsOf
    refine List.foldlRecOn (motive := fun gate : Gate => reducedScale (10 ^ 18) gate.stepRatio ^ 7 ∣ gate.baseAttoUsd) _ _
      (by decide +kernel) ?_
    intro gate holds log member
    unfold Gate.handle
    cases event : log.event with
    | gateParamsSet base stepRatio steps => exact announced log member _ _ _ event
    | quarterlyGateCheckResult => exact holds
  cases answered : calculateGateTarget fits s.store atEpoch with
  | ok answer => exact ⟨answer, rfl⟩
  | error failure =>
      have holds := holds_of_synced (gateSynced_of_reached reached) (gateLogs_upTo last within)
      rcases (calculateGateTarget_fails_iff holds).mp ⟨failure, answered⟩ with tooLarge | ⟨below, inexact⟩
      · exact absurd powers tooLarge
      · exact absurd ((pow_dvd_pow _ (by omega)).trans exact) inexact

end Answers

section Samples
open Removals

section Chains
variable (actorLogs : List ServiceRewardsActorLog) (gateLogs : List StreamWeightActorLog)
  (payLogs : List FilecoinPayV1Log)

def logsOf : (indexer : Indexer) → List indexer.Log
  | .serviceRewardsActor => actorLogs
  | .streamWeightActor => gateLogs
  | .filecoinPayV1 => payLogs
  | .auctionableToken => []

def chainOf (numbered : ∀ indexer, (logsOf actorLogs gateLogs payLogs indexer).Pairwise fun a b =>
      indexer.position a < indexer.position b)
    (deployed : ∀ indexer, ∀ log ∈ logsOf actorLogs gateLogs payLogs indexer, 0 ≤ (indexer.position log).epoch)
    (emitted : ∀ log ∈ payLogs, log.address.toLowerCase = "0xf")
    (announced : ∀ log ∈ actorLogs, ∀ contract ∈ announcedContracts log, contract ∈ ["0xe", "0xf"]) : Chain where
  __ := sampleChain [] [] [] (fun _ => ⟨none, "", 0⟩) (fun _ => .error (.rejected "no data"))
    (by intro indexer; cases indexer <;> exact List.Pairwise.nil) (by intro indexer; cases indexer <;> nofun) nofun nofun
  logs indexer := logsAt indexer (home indexer) (logsOf actorLogs gateLogs payLogs indexer) (numbered indexer)
  numbered := fun indexer address => logsAt_numbered indexer _ _ (numbered indexer) address
  deployed := fun indexer _ log member => deployed indexer log (mem_logsAt member).2
  emitted := by
    intro address log member
    obtain ⟨rfl, listed⟩ := mem_logsAt member
    exact emitted log listed
  announced_isAddress := fun _ _ _ _ _ => rfl
  announced_indexer := by
    intro address log member contract isAnnounced
    have known := announced log (mem_logsAt member).2 contract isAnnounced
    simp only [List.mem_cons, List.not_mem_nil, or_false] at known
    rcases known with rfl | rfl <;> decide +kernel

end Chains

def quietChain : Chain :=
  chainOf
    [⟨50, 0, "0x1", .admittedListsUpdated ["0xd"] ["0xf"]⟩, ⟨50, 1, "0x1", .orchestratorAdmitted "0xc" "0xc"⟩,
      ⟨210, 0, "0x2", .volumePosted 1 "0xc" 5⟩, ⟨215, 3, "0x3", .volumeCorrected 1 "0xC" 7⟩]
    [⟨60, 0, "0x4", .quarterlyGateCheckResult 1 true 1⟩, ⟨70, 0, "0x5", .gateParamsSet 1000 (15 * 10 ^ 17) 8⟩,
      ⟨80, 0, "0x6", .quarterlyGateCheckResult 2 true 5⟩]
    [⟨"0xf", 60, 0, "0x7", .railCreated 1 "0x1" "0x3" "0xd" "0x2" "0x4"⟩]
    (by intro indexer; cases indexer <;> decide) (by intro indexer; cases indexer <;> decide) (by decide +kernel)
    (by decide +kernel)

def quietSchedule (heads : List Int) : Option Execution :=
  schedule hundredEpochs quietChain isApart (heads.map fun head _ => head)

theorem apart_of_quietSchedule {heads : List Int} {s : Execution} (run : quietSchedule heads = some s) :
    quietChain.Reached hundredEpochs (fun s _ => s.Apart) s :=
  reached_of_schedule apart_of_check run

theorem reached_of_quietSchedule {heads : List Int} {s : Execution} (run : quietSchedule heads = some s) :
    quietChain.Reached hundredEpochs (fun _ _ => True) s :=
  reached_of_schedule (fun _ _ _ => trivial) run

def engine (base : Int) (exponent : Nat) : Bool := exponent * (base.natAbs.log2 + 1) ≤ 2 ^ 30

theorem quiet_ends : (quietSchedule [100, 300]).map (fun s => (s.store.lastRun "0xa", s.store.lastRun "0xb")) =
    some (some 300, some 300) := by
  decide +kernel

theorem quiet_toLowerCase : quietChain.serviceRewardsActorAddress.toLowerCase = "0xa" ∧
    quietChain.streamWeightActorAddress.toLowerCase = "0xb" := by
  decide +kernel

theorem exists_quiet : ∃ s, quietChain.Reached hundredEpochs (fun _ _ => True) s ∧
    s.store.lastRun quietChain.serviceRewardsActorAddress.toLowerCase = some 300 ∧
    s.store.lastRun quietChain.streamWeightActorAddress.toLowerCase = some 300 := by
  obtain ⟨s, run, ended⟩ := Option.map_eq_some_iff.mp quiet_ends
  obtain ⟨actor, gate⟩ := Prod.mk.inj ended
  rw [quiet_toLowerCase.1, quiet_toLowerCase.2]
  exact ⟨s, reached_of_quietSchedule run, actor, gate⟩

theorem gateTarget_of_reached_quiet : ∃ s : Execution,
    (quietChain.gateAsOf 65).Answers engine (some 65) (calculateGateTarget engine s.store (some 65)) ∧
      (quietChain.gateAsOf 65).target = 9450 * 10 ^ 18 := by
  obtain ⟨s, reached, -, last⟩ := exists_quiet
  refine ⟨s, gateTarget_of_reached _ _ engine _ s reached (some 65) 300 last ?_, by decide +kernel⟩
  intro epoch same
  cases same
  decide

theorem gateTarget_fails_quiet : ∃ s failure, quietChain.Reached hundredEpochs (fun _ _ => True) s ∧
    calculateGateTarget engine s.store none = .error failure := by
  obtain ⟨s, reached, -, last⟩ := exists_quiet
  obtain ⟨failure, failed⟩ :=
    (gateTarget_fails_iff _ _ engine _ s reached none 300 last nofun).mpr (Or.inr (by decide +kernel))
  exact ⟨s, failure, reached, failed⟩

theorem gateTarget_neverFails_quiet : ∃ s answer, quietChain.Reached hundredEpochs (fun _ _ => True) s ∧
    calculateGateTarget engine s.store (some 65) = .ok answer := by
  obtain ⟨s, reached, -, last⟩ := exists_quiet
  have within : ∀ epoch ∈ (some 65 : Option Int), epoch ≤ 300 := by decide
  have none : ∀ log ∈ quietChain.gateLogsUpTo 65, paramsWrite log = none := by decide +kernel
  have powers : (quietChain.gateAsOf 65).PowersFit engine := by
    unfold Gate.PowersFit
    decide +kernel
  obtain ⟨answer, answered⟩ := gateTarget_neverFails _ _ engine _ s reached (some 65) 300 last within powers (by
    intro log member base stepRatio steps event
    have silent := none log member
    unfold paramsWrite at silent
    rw [event] at silent
    cases silent)
  exact ⟨s, answer, reached, answered⟩

end Samples

end Proof.GateTargets
end FpvIndexer
