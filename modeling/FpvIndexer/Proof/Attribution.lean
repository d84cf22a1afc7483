import FpvIndexer.Proof.Bindings
import FpvIndexer.Proof.Volume
import FpvIndexer.Services.Payments

namespace FpvIndexer
open Relational Proof

theorem ServicePair.covers_iff {sp : ServicePair} (together : FilledTogether sp.toEpoch sp.toLogIndex)
    (position : Position) : sp.covers position = true ↔ sp.span.Covers position :=
  inForce_iff together position

namespace Proof.Attribution
open Bindings Volume

section Run
variable {cfg : Deployment}

theorem updateDb_single {db next : DB} {log : ServiceRewardsActorLog} {tokens : TokenServices}
    (updated : ServiceRewardsActorIndexer.updateDb cfg tokens db [log] = .ok next) :
    ∃ tokensMap, ServiceRewardsActorIndexer.handleLog cfg tokensMap db log = .ok next := by
  unfold ServiceRewardsActorIndexer.updateDb at updated
  obtain ⟨tokensMap, -, run⟩ := bind_eq_ok.mp updated
  rw [List.foldlM_cons] at run
  obtain ⟨mid, handled, done⟩ := bind_eq_ok.mp run
  rw [List.foldlM_nil, pure_eq_ok] at done
  exact ⟨tokensMap, done ▸ handled⟩

theorem handleLogs_invariant (cfg : Deployment) (services : ServiceRewardsActorLog → TokenServices)
    (logs past : List ServiceRewardsActorLog) (db : DB)
    (ordered : ChainOrdered (past ++ logs)) (holds : Invariant past db.servicePair.rows) :
    ∃ handled, Invariant handled (handleLogs cfg services db logs).servicePair.rows := by
  induction logs generalizing past db with
  | nil => exact ⟨past, holds⟩
  | cons log rest ih =>
      unfold handleLogs
      cases updated : ServiceRewardsActorIndexer.updateDb cfg (services log) db [log] with
      | error failure => exact ⟨past, holds⟩
      | ok next =>
          obtain ⟨tokensMap, handled⟩ := updateDb_single updated
          have later : ∀ earlier ∈ past, earlier.position < log.position := fun earlier before =>
            (List.pairwise_append.mp ordered).2.2 earlier before log List.mem_cons_self
          exact ih (past ++ [log]) next (by simpa using ordered) (holds.step later (handleLog_change handled))

end Run

section Single
variable {db : DB} {past : List ServiceRewardsActorLog}

theorem one_active (holds : Invariant past db.servicePair.rows) (payer operator : Address) :
    (db.servicePair.rows.filter (·.isActive payer operator)).length ≤ 1 := by
  refine holds.apart.filter_length_le_one _ ?_ ?_
  · intro a b activeA activeB
    rw [(ServicePair.isActive_iff.mp activeA).1, (ServicePair.isActive_iff.mp activeB).1]
  · intro a b activeA activeB apart
    refine apart.not_both_open ⟨?_, ?_⟩
    · rw [ServicePair.span, (ServicePair.isActive_iff.mp activeA).2, stopPosition_none]
    · rw [ServicePair.span, (ServicePair.isActive_iff.mp activeB).2, stopPosition_none]

theorem one_covering (holds : Invariant past db.servicePair.rows) (payer operator : Address) (position : Position) :
    (db.servicePair.rows.filter fun sp =>
      payer = sp.payer ∧ operator = sp.operator ∧ sp.covers position).length ≤ 1 := by
  have spans : (db.servicePair.rows.filter fun sp => payer = sp.payer ∧ operator = sp.operator ∧ sp.covers position) =
      db.servicePair.rows.filter fun sp =>
        payer = sp.payer ∧ operator = sp.operator ∧ sp.span.Covers position := by
    refine List.filter_congr fun sp member => ?_
    simp only [ServicePair.covers_iff (holds.together sp member)]
  rw [spans]
  refine holds.apart.filter_length_le_one _ ?_ ?_
  · intro a b coversA coversB
    obtain ⟨payerA, operatorA, -⟩ := of_decide_eq_true coversA
    obtain ⟨payerB, operatorB, -⟩ := of_decide_eq_true coversB
    rw [ServicePair.pair, ServicePair.pair, ← payerA, ← payerB, ← operatorA, ← operatorB]
  · intro a b coversA coversB apart
    exact apart.disjoint position (of_decide_eq_true coversA).2.2 (of_decide_eq_true coversB).2.2

theorem one_binding (holds : Invariant past db.servicePair.rows) (rp : RailPayment) :
    (db.servicePair.rows.filter (·.bindsRail rp)).length ≤ 1 :=
  one_covering holds rp.rail.payer rp.rail.operator rp.payment.position

theorem binding_unique (holds : Invariant past db.servicePair.rows) {rp : RailPayment} {a b : ServicePair}
    (ha : a ∈ db.servicePair.rows) (hb : b ∈ db.servicePair.rows) (bindsA : a.bindsRail rp) (bindsB : b.bindsRail rp) :
    a = b := by
  obtain ⟨payerA, operatorA, coversA⟩ := of_decide_eq_true bindsA
  obtain ⟨payerB, operatorB, coversB⟩ := of_decide_eq_true bindsB
  by_contra differ
  refine (holds.apart.apart_of_ne ha hb differ ?_).disjoint rp.payment.position
    ((ServicePair.covers_iff (holds.together a ha) _).mp coversA)
    ((ServicePair.covers_iff (holds.together b hb) _).mp coversB)
  rw [ServicePair.pair, ServicePair.pair, ← payerA, ← payerB, ← operatorA, ← operatorB]

end Single

section Volumes
variable {db : DB} {past : List ServiceRewardsActorLog} {orchestrators : List String}

/-- The orchestrators of a list are told apart, none is left out, and none stands for no filter at all. -/
structure AllOrchestrators (db : DB) (orchestrators : List String) : Prop where
  distinct : (orchestrators.map String.toLower).Nodup
  named : "" ∉ orchestrators
  complete : ∀ sp ∈ db.servicePair.rows, sp.serviceOrchestratorId ∈ orchestrators.map String.toLower

theorem matchesOrchestrator_some {orchestrator : String} (named : orchestrator ≠ "") (id : Address) :
    matchesOrchestrator (some orchestrator) id = true ↔ orchestrator.toLower = id := by
  unfold matchesOrchestrator
  rw [decide_eq_true_eq, or_iff_right named]
  exact eq_comm

theorem orchestrators_share (holds : Invariant past db.servicePair.rows) (all : AllOrchestrators db orchestrators)
    (rp : RailPayment) (value : ℚ) :
    (orchestrators.map fun o => if isBound db (some o) rp then value else 0).sum =
      if isBound db none rp then value else 0 := by
  by_cases bound : isBound db none rp
  · obtain ⟨sp, member, binds⟩ := List.any_eq_true.mp bound
    rw [Bool.and_eq_true] at binds
    rw [if_pos bound]
    have owner : ∀ o ∈ orchestrators, (isBound db (some o) rp = true) = (o.toLower = sp.serviceOrchestratorId) := by
      intro o listed
      have named : o ≠ "" := fun empty => all.named (empty ▸ listed)
      refine propext ⟨fun covered => ?_, fun same => ?_⟩
      · obtain ⟨other, inRows, bindsToo⟩ := List.any_eq_true.mp covered
        rw [Bool.and_eq_true] at bindsToo
        rw [binding_unique holds member inRows binds.1 bindsToo.1]
        exact (matchesOrchestrator_some named _).mp bindsToo.2
      · exact List.any_eq_true.mpr ⟨sp, member, by
          rw [binds.1, (matchesOrchestrator_some named _).mpr same, Bool.and_self]⟩
    have renamed : (orchestrators.map fun o => if isBound db (some o) rp then value else 0) =
        (orchestrators.map String.toLower).map fun id => if id = sp.serviceOrchestratorId then value else 0 := by
      rw [List.map_map]
      refine List.map_congr_left fun o listed => ?_
      simp only [owner o listed, Function.comp_apply]
    rw [renamed]
    exact sum_ite_eq_of_mem all.distinct (all.complete sp member) value
  · rw [if_neg bound]
    refine List.sum_eq_zero fun share member => ?_
    obtain ⟨o, -, rfl⟩ := List.mem_map.mp member
    refine if_neg fun covered => bound ?_
    obtain ⟨sp, inRows, binds⟩ := List.any_eq_true.mp covered
    rw [Bool.and_eq_true] at binds
    exact List.any_eq_true.mpr ⟨sp, inRows, by rw [binds.1]; rfl⟩

theorem stablecoinVolume_shares (holds : Invariant past db.servicePair.rows)
    (all : AllOrchestrators db orchestrators) (admittedContracts admittedStablecoins : List Address)
    (startEpoch endEpoch : Int) :
    (orchestrators.map fun o => stablecoinVolume db admittedContracts admittedStablecoins startEpoch endEpoch
        (some o)).sum =
      stablecoinVolume db admittedContracts admittedStablecoins startEpoch endEpoch none := by
  simp only [stablecoinVolume_eq]
  rw [sum_map_comm]
  refine congrArg List.sum (List.map_congr_left fun rp _ => ?_)
  cases isListed admittedContracts admittedStablecoins startEpoch endEpoch rp with
  | true => simpa using orchestrators_share holds all rp (tokenValue db rp)
  | false => simp

variable {cfg : Deployment} {numericDiv : ℚ → ℚ → ℚ} {blockNumber : Int} {q : QuarterNumber}
  {parameters : QuarterParameters}

def exactVolume (cfg : Deployment) (db : DB) (q : QuarterNumber) (parameters : QuarterParameters)
    (serviceOrchestrator : Option String) : ℚ :=
  stablecoinVolume db parameters.admittedFilecoinPayContractAddresses parameters.admittedStablecoins
    (cfg.quarterStartEpoch q.intValue) (cfg.quarterEndEpoch q.intValue) serviceOrchestrator

/-- What rounding leaves of the volumes of the orchestrators is rounded away in their sum, too. -/
def RestsCancel (cfg : Deployment) (db : DB) : Prop :=
  ∀ q parameters orchestrators, AllOrchestrators db orchestrators → getQuarterParameters cfg db q = .ok parameters →
    Answerable db q parameters →
      -(1 / 2) ≤ (orchestrators.map fun o => roundingRest (exactVolume cfg db q parameters (some o))).sum ∧
        (orchestrators.map fun o => roundingRest (exactVolume cfg db q parameters (some o))).sum < 1 / 2

def VolumesAddUp (cfg : Deployment) (numericDiv : ℚ → ℚ → ℚ) (blockNumber : Int) (db : DB) : Prop :=
  ∀ q orchestrators volumes total, AllOrchestrators db orchestrators →
    List.Forall₂ (fun o volume => getQuarterlyVolume cfg numericDiv blockNumber db (some o) q = .ok volume)
      orchestrators volumes →
    getQuarterlyVolume cfg numericDiv blockNumber db none q = .ok total →
    (volumes.map (·.stablecoinVolumeAttoUsd)).sum = total.stablecoinVolumeAttoUsd

theorem volumes_rounded (rounds : cfg.RoundsHalfUp) (set : getQuarterParameters cfg db q = .ok parameters)
    {volumes : List QuarterlyVolume} (reported : List.Forall₂ (fun o volume =>
      getQuarterlyVolume cfg numericDiv blockNumber db (some o) q = .ok volume) orchestrators volumes) :
    volumes.map (·.stablecoinVolumeAttoUsd) =
      (orchestrators.map fun o => exactVolume cfg db q parameters (some o)).map roundHalfAway := by
  induction reported with
  | nil => rfl
  | cons answered _ ih =>
      rw [List.map_cons, List.map_cons, List.map_cons, ih, getQuarterlyVolume_rounded rounds set answered]
      rfl

theorem volumes_share_iff (rounds : cfg.RoundsHalfUp) (holds : Invariant past db.servicePair.rows)
    (all : AllOrchestrators db orchestrators) (set : getQuarterParameters cfg db q = .ok parameters)
    {volumes : List QuarterlyVolume} {total : QuarterlyVolume}
    (reported : List.Forall₂ (fun o volume =>
      getQuarterlyVolume cfg numericDiv blockNumber db (some o) q = .ok volume) orchestrators volumes)
    (unfiltered : getQuarterlyVolume cfg numericDiv blockNumber db none q = .ok total) :
    (volumes.map (·.stablecoinVolumeAttoUsd)).sum = total.stablecoinVolumeAttoUsd ↔
      -(1 / 2) ≤ (orchestrators.map fun o => roundingRest (exactVolume cfg db q parameters (some o))).sum ∧
        (orchestrators.map fun o => roundingRest (exactVolume cfg db q parameters (some o))).sum < 1 / 2 := by
  have nonneg : ∀ value ∈ orchestrators.map fun o => exactVolume cfg db q parameters (some o), 0 ≤ value := by
    intro value member
    obtain ⟨o, -, rfl⟩ := List.mem_map.mp member
    exact stablecoinVolume_nonneg _ _ _ _ _ _
  have sum : (orchestrators.map fun o => exactVolume cfg db q parameters (some o)).sum =
      exactVolume cfg db q parameters none := stablecoinVolume_shares holds all _ _ _ _
  have iff := sum_roundHalfAway_eq_iff nonneg
  rw [sum] at iff
  rw [volumes_rounded rounds set reported, getQuarterlyVolume_rounded rounds set unfiltered]
  exact iff.trans (by rw [List.map_map]; rfl)

theorem volumesAddUp_iff (rounds : cfg.RoundsHalfUp) (holds : Invariant past db.servicePair.rows) :
    VolumesAddUp cfg numericDiv blockNumber db ↔ RestsCancel cfg db := by
  constructor
  · intro addUp q parameters orchestrators all set answerable
    have answers := fun serviceOrchestrator =>
      (answerable_iff serviceOrchestrator rounds numericDiv blockNumber set).mpr answerable
    obtain ⟨total, unfiltered⟩ := answers none
    obtain ⟨volumes, each⟩ := exists_mapM_ok fun o (_ : o ∈ orchestrators) => answers (some o)
    have reported := mapM_eq_ok.mp each
    exact (volumes_share_iff rounds holds all set reported unfiltered).mp
      (addUp q orchestrators volumes total all reported unfiltered)
  · intro cancel q orchestrators volumes total all reported unfiltered
    obtain ⟨parameters, set, -⟩ := getQuarterlyVolume_cases unfiltered
    have answerable := (answerable_iff none rounds numericDiv blockNumber set).mp ⟨total, unfiltered⟩
    exact (volumes_share_iff rounds holds all set reported unfiltered).mpr
      (cancel q parameters orchestrators all set answerable)

theorem restsCancel_of_decimals_le (coarse : ∀ t ∈ db.whitelistedToken.rows, t.tokenDecimals ≤ 18) :
    RestsCancel cfg db := by
  intro q parameters orchestrators _ _ _
  have none : ∀ rest ∈ orchestrators.map fun o => roundingRest (exactVolume cfg db q parameters (some o)), rest = 0 := by
    intro rest member
    obtain ⟨o, -, rfl⟩ := List.mem_map.mp member
    obtain ⟨n, whole⟩ := whole_stablecoinVolume coarse parameters.admittedFilecoinPayContractAddresses
      parameters.admittedStablecoins (cfg.quarterStartEpoch q.intValue) (cfg.quarterEndEpoch q.intValue) (some o)
    rw [exactVolume, ← whole, roundingRest_intCast]
  rw [List.sum_eq_zero none]
  norm_num

end Volumes

section List
variable {cfg : Deployment} {db : DB} {past : List ServiceRewardsActorLog}

theorem joinServicePairs_single (holds : Invariant past db.servicePair.rows) (rp : RailPayment) :
    ∃ owner, joinServicePairs db rp = [owner] := by
  have single := one_binding holds rp
  unfold joinServicePairs
  cases bindings : db.servicePair.rows.filter (·.bindsRail rp) with
  | nil => exact ⟨none, rfl⟩
  | cons sp rest =>
      rw [bindings, List.length_cons] at single
      obtain rfl : rest = [] := List.eq_nil_of_length_eq_zero (by omega)
      exact ⟨some sp.serviceOrchestratorId, rfl⟩

theorem basePayments_railPayments (cfg : Deployment) (holds : Invariant past db.servicePair.rows) :
    (basePayments cfg db).map (·.toRailPayment) = railPayments db := by
  unfold basePayments
  rw [List.map_flatMap]
  have single : ∀ rp, (paymentRows cfg db rp).map (·.toRailPayment) = [rp] := by
    intro rp
    obtain ⟨owner, joined⟩ := joinServicePairs_single holds rp
    rw [paymentRows, joined]
    rfl
  rw [List.flatMap_congr fun rp _ => single rp]
  exact List.flatMap_singleton' _

theorem basePayments_nodup (cfg : Deployment) (holds : Invariant past db.servicePair.rows) :
    ((basePayments cfg db).map (·.payment.id)).Nodup := by
  have same : (basePayments cfg db).map (·.payment.id) = (railPayments db).map (·.payment.id) := by
    rw [← basePayments_railPayments cfg holds, List.map_map]
    rfl
  rw [same]
  exact ids_nodup railPayments_nodup fun _ member => member

end List

structure BoundOnce (cfg : Deployment) (db : DB) : Prop where
  one_active : ∀ payer operator,
    (db.servicePair.rows.filter fun sp => payer = sp.payer ∧ operator = sp.operator ∧ sp.toEpoch = none).length ≤ 1
  one_covering : ∀ payer operator position, (db.servicePair.rows.filter fun sp =>
    payer = sp.payer ∧ operator = sp.operator ∧ sp.covers position).length ≤ 1
  payments_once : ((basePayments cfg db).map (·.payment.id)).Nodup

structure AttributesOnce (cfg : Deployment) (numericDiv : ℚ → ℚ → ℚ) (blockNumber : Int) (db : DB) : Prop
    extends BoundOnce cfg db where
  volumes_add_up : VolumesAddUp cfg numericDiv blockNumber db

theorem boundOnce_of_invariant (cfg : Deployment) {db : DB} {past : List ServiceRewardsActorLog}
    (holds : Invariant past db.servicePair.rows) : BoundOnce cfg db := by
  refine ⟨fun payer operator => ?_, one_covering holds, basePayments_nodup cfg holds⟩
  have same : (fun sp : ServicePair => decide (payer = sp.payer ∧ operator = sp.operator ∧ sp.toEpoch = none)) =
      fun sp => sp.isActive payer operator := by
    funext sp
    rw [ServicePair.isActive, decide_eq_decide]
    constructor
    · rintro ⟨rfl, rfl, isOpen⟩
      exact ⟨rfl, rfl, isOpen⟩
    · rintro ⟨rfl, rfl, isOpen⟩
      exact ⟨rfl, rfl, isOpen⟩
  rw [same]
  exact one_active holds payer operator

/-- The bindings attribute every payment once, and the volumes add up as far as rounding lets them. -/
theorem handleLogs_attributesOnce_iff (cfg : Deployment) (rounds : cfg.RoundsHalfUp) (numericDiv : ℚ → ℚ → ℚ)
    (blockNumber : Int) (services : ServiceRewardsActorLog → TokenServices) (db : DB) (empty : db.servicePair.rows = [])
    (logs : List ServiceRewardsActorLog) (ordered : ChainOrdered logs) :
    BoundOnce cfg (handleLogs cfg services db logs) ∧
      (AttributesOnce cfg numericDiv blockNumber (handleLogs cfg services db logs) ↔
        RestsCancel cfg (handleLogs cfg services db logs)) := by
  obtain ⟨past, holds⟩ := handleLogs_invariant cfg services logs [] db ordered (empty ▸ invariant_nil)
  have bound := boundOnce_of_invariant cfg holds
  refine ⟨bound, ?_⟩
  rw [← volumesAddUp_iff rounds holds]
  exact ⟨AttributesOnce.volumes_add_up, fun addUp => ⟨bound, addUp⟩⟩

def handedOver : List ServiceRewardsActorLog :=
  [⟨10, 0, "0x1", .orchestratorAdmitted "0xA" "0xA"⟩, ⟨10, 1, "0x1", .orchestratorAdmitted "0xB" "0xB"⟩,
    ⟨20, 0, "0x2", .bindingDeclared "0xP" "0xO" "0xA"⟩, ⟨150, 4, "0x3", .bindingReassigned "0xP" "0xO" "0xB" true⟩,
    ⟨250, 4, "0x4", .bindingReassigned "0xP" "0xO" "0xA" false⟩, ⟨260, 0, "0x5", .orchestratorRemoved "0xA"⟩]

theorem handleLogs_attributesOnce_iff_handedOver : AttributesOnce hundredEpochs (· / ·) 300
    (handleLogs hundredEpochs (fun _ => .offline) (DB.seeded hundredEpochs) handedOver) :=
  (handleLogs_attributesOnce_iff hundredEpochs hundredEpochs_rounds (· / ·) 300 (fun _ => .offline)
    (DB.seeded hundredEpochs) rfl handedOver (by unfold ChainOrdered; decide)).2.mpr
      (restsCancel_of_decimals_le (by decide +kernel))

def halves : DB :=
  { DB.seeded hundredEpochs with
    filecoinPayRail := ⟨[⟨"0xf", "0x7", 0, 1, "0xp", "0xe", "0xo", "0xv", "0xd"⟩,
      ⟨"0xf", "0x7", 1, 2, "0xq", "0xe", "0xo", "0xv", "0xd"⟩], by decide⟩
    filecoinPayPayment := ⟨[⟨⟨"0xf", "0x8", 9, 1, 5, 5, 0, 0, 140, false⟩, 1⟩,
      ⟨⟨"0xf", "0x8", 10, 2, 5, 5, 0, 0, 140, false⟩, 2⟩], by decide⟩ }

def nineteenDecimals : TokenServices where
  getERC20Metadata _ := .ok ⟨19, "USD"⟩
  isValidERC20 _ := .ok true
  getTokenDecimals _ := .ok 19
  getTokenSymbol _ := .ok "USD"

def twoOrchestrators : List ServiceRewardsActorLog :=
  [⟨50, 0, "0x1", .pricingParamsUpdated 10 1 1 1000 5⟩, ⟨50, 1, "0x1", .admittedListsUpdated ["0xd"] ["0xf"]⟩,
    ⟨50, 2, "0x1", .orchestratorAdmitted "0xa" "0xa"⟩, ⟨50, 3, "0x1", .orchestratorAdmitted "0xb" "0xb"⟩,
    ⟨50, 4, "0x1", .bindingDeclared "0xp" "0xo" "0xa"⟩, ⟨50, 5, "0x1", .bindingDeclared "0xq" "0xo" "0xb"⟩]

def halvesIndexed : DB := handleLogs hundredEpochs (fun _ => nineteenDecimals) halves twoOrchestrators

theorem halves_volume (serviceOrchestrator : Option String) (member : serviceOrchestrator ∈ [none, some "0xa", some "0xb"]) :
    ∃ volume, getQuarterlyVolume hundredEpochs (· / ·) 300 halvesIndexed serviceOrchestrator ⟨1, le_rfl⟩ = .ok volume ∧
      volume.stablecoinVolumeAttoUsd = 1 := by
  simp only [List.mem_cons, List.not_mem_nil, or_false] at member
  rcases member with rfl | rfl | rfl
  · exact exists_of_map_eq_ok (by decide +kernel)
  · exact exists_of_map_eq_ok (by decide +kernel)
  · exact exists_of_map_eq_ok (by decide +kernel)

theorem halves_not_attributed : ChainOrdered twoOrchestrators ∧ halves.servicePair.rows = [] ∧
    ¬ AttributesOnce hundredEpochs (· / ·) 300 halvesIndexed := by
  refine ⟨by unfold ChainOrdered; decide, rfl, fun attributes => ?_⟩
  obtain ⟨total, unfiltered, one⟩ := halves_volume none (by simp)
  obtain ⟨first, firstReported, firstOne⟩ := halves_volume (some "0xa") (by simp)
  obtain ⟨second, secondReported, secondOne⟩ := halves_volume (some "0xb") (by simp)
  have all : AllOrchestrators halvesIndexed ["0xa", "0xb"] :=
    ⟨by decide +kernel, by decide +kernel, by decide +kernel⟩
  have sum := attributes.volumes_add_up _ _ [first, second] total all
    (.cons firstReported (.cons secondReported .nil)) unfiltered
  rw [one, List.map_cons, List.map_cons, firstOne, secondOne] at sum
  exact absurd sum (by decide)

end Proof.Attribution
end FpvIndexer
