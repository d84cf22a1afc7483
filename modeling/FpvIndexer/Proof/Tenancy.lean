import FpvIndexer.Relational.Tenure
import FpvIndexer.Relational.LastWriter
import FpvIndexer.Proof.BackCover
import FpvIndexer.Proof.Postings
import FpvIndexer.Proof.Storage

namespace FpvIndexer
open Relational

/-- What the logs of the actor say of the pairs, and the registration cutoffs that they announced. -/
structure Registry where
  tenure : Address × Address → Tenure Position Address
  cutoffs : List (Int × Nat)

namespace Registry

def empty : Registry := ⟨fun _ => .vacant, []⟩

variable (cfg : Deployment) (registry : Registry)

def cutoff (quarterStartEpoch : Int) : Option Nat :=
  ((registry.cutoffs.filter (·.1 < quarterStartEpoch)).getLast?).map (·.2)

def isLate (epoch : Int) : Bool :=
  1 ≤ cfg.quarterNum epoch && (registry.cutoff (cfg.quarterStartEpoch (cfg.quarterNum epoch))).any fun cutoff : Nat =>
    cfg.quarterEndEpoch (cfg.quarterNum epoch) - cutoff < epoch

/-- A late declaration waits for the next quarter. Another one reaches back to the last release of its quarter, or to
the start of it. -/
def start (epoch : Int) (released : Option Position) : Position :=
  if registry.isLate cfg epoch then ⟨cfg.quarterStartEpoch (cfg.quarterNum epoch + 1), 0⟩
  else
    match released.filter fun r => cfg.quarterNum r.epoch = cfg.quarterNum epoch with
    | none => ⟨cfg.quarterStartEpoch (max (cfg.quarterNum epoch) 1), 0⟩
    | some r => r.next

def set (pair : Address × Address) (t : Tenure Position Address) : Registry :=
  { registry with tenure := Function.update registry.tenure pair t }

def handle (log : ServiceRewardsActorLog) : Registry :=
  match log.event with
  | .bindingDeclared payer operator orchestrator =>
      let t := registry.tenure (payer.toLowerCase, operator.toLowerCase)
      registry.set (payer.toLowerCase, operator.toLowerCase)
        (t.take orchestrator.toLowerCase (registry.start cfg log.blockNumber t.released))
  | .bindingReassigned payer operator orchestrator inherit =>
      let t := registry.tenure (payer.toLowerCase, operator.toLowerCase)
      let quarterStartEpoch := cfg.quarterStartEpoch (max (cfg.quarterNum log.blockNumber) 1)
      registry.set (payer.toLowerCase, operator.toLowerCase)
        (if inherit && t.current.any (quarterStartEpoch ≤ ·.2.epoch) then t.pass orchestrator.toLowerCase
          else (t.close log.position).take orchestrator.toLowerCase log.position.next)
  | .bindingCanceled payer operator orchestrator =>
      let t := registry.tenure (payer.toLowerCase, operator.toLowerCase)
      registry.set (payer.toLowerCase, operator.toLowerCase)
        (t.leaveIf (· = orchestrator.toLowerCase) log.position)
  | .orchestratorRemoved orch =>
      { registry with tenure := fun pair =>
          (registry.tenure pair).leaveIf (· = orch.toLowerCase) log.position }
  | .pricingParamsUpdated _ _ _ _ registrationCutoff =>
      { registry with cutoffs := registry.cutoffs ++ [(log.blockNumber, registrationCutoff)] }
  | _ => registry

end Registry

namespace Chain
variable (chain : Chain)

def registry (cfg : Deployment) (store : Store) : Registry := (chain.actorLogs store).foldl (Registry.handle cfg) .empty

end Chain

namespace Proof.Tenancy
open Handlers Bindings Owners BackCover Replay Schedules Commits

def pairTable : Temporal ServicePair (Address × Address) Position Address :=
  ⟨ServicePair.pair, ServicePair.span, ServicePair.serviceOrchestratorId⟩

section Rows
variable {rows : List ServicePair} {past : List ServiceRewardsActorLog} {log : ServiceRewardsActorLog}

theorem stop_of_open {sp : ServicePair} (isOpen : sp.toEpoch = none) : (pairTable.span sp).stop = none := by
  change stopPosition sp.toEpoch sp.toLogIndex = none
  rw [isOpen, stopPosition_none]

theorem stop_iff (holds : Invariant past rows) {sp : ServicePair} (member : sp ∈ rows) :
    (pairTable.span sp).stop = none ↔ sp.toEpoch = none :=
  stopPosition_eq_none (holds.together sp member)

theorem heldBy_iff (holds : Invariant past rows) (pair : Address × Address) (x : Position) (orchestrator : Address) :
    pairTable.HeldBy rows pair x orchestrator ↔ Attributed rows pair x orchestrator :=
  exists_congr fun sp => and_congr_right fun member => and_congr_right fun _ => and_congr_left fun _ =>
    (ServicePair.covers_iff (holds.together sp member) x).symm

theorem dated_of_invariant (holds : Invariant past rows) (later : ∀ earlier ∈ past, earlier.position < log.position) :
    pairTable.Dated log.position rows where
  apart := holds.apart
  before := by
    intro sp member stop ended
    obtain ⟨earlier, before, rfl⟩ := holds.ended sp member stop ended
    exact later earlier before

theorem release_closes (log : ServiceRewardsActorLog) : pairTable.Closes log.position (ServicePair.release log) where
  key := fun _ => rfl
  span := by
    intro sp isOpen
    change (⟨_, some log.position⟩ : Lifespan Position) = sp.span.closeAt log.position
    rw [Lifespan.closeAt, show sp.span.stop = none from isOpen]
    rfl
  holder := fun _ => rfl

theorem reassign_handsOn (orchestrator : Address) : pairTable.HandsOn (ServicePair.reassign orchestrator) orchestrator :=
  ⟨fun _ => rfl, fun _ => rfl, fun _ => rfl⟩

end Rows

section Registries
variable {cfg : Deployment} {db next : DB} {past : List ServiceRewardsActorLog} {log : ServiceRewardsActorLog}
  {registry : Registry}

def cutoffRows (db : DB) : List ServiceRewardsActorParameter :=
  db.serviceRewardsActorParameter.rows.filter (·.parameterType = .registrationCutoffEpochs)

structure Kept (past : List ServiceRewardsActorLog) (db : DB) (registry : Registry) : Prop where
  bindings : Invariant past db.servicePair.rows
  tenants : ∀ pair, pairTable.Tells db.servicePair.rows pair (registry.tenure pair)
  cutoffs : (cutoffRows db).map (fun p => (p.updateEpoch, p.parameterValue)) =
    registry.cutoffs.map fun cutoff => (cutoff.1, (cutoff.2 : ℚ))
  ordered : (cutoffRows db).Pairwise fun a b => a.position < b.position
  placed : ∀ p ∈ cutoffRows db, ∃ earlier ∈ past, earlier.position = p.position

theorem attributed_iff {registry : Registry} (kept : Kept past db registry) (pair : Address × Address) (x : Position)
    (orchestrator : Address) :
    Attributed db.servicePair.rows pair x orchestrator ↔ (registry.tenure pair).holder x = some orchestrator :=
  (heldBy_iff kept.bindings pair x orchestrator).symm.trans ((kept.tenants pair).holder x orchestrator)

theorem kept_seeded (cfg : Deployment) : Kept [] (DB.seeded cfg) .empty where
  bindings := invariant_nil
  tenants := fun _ => Temporal.tells_nil
  cutoffs := rfl
  ordered := List.Pairwise.nil
  placed := fun _ member => absurd member List.not_mem_nil

theorem registrationCutoff_eq (kept : Kept past db registry) (quarterStartEpoch : Int) :
    registrationCutoff db quarterStartEpoch = (registry.cutoff quarterStartEpoch).map fun cutoff : Nat => (cutoff : ℚ) := by
  have isLatest : registrationCutoff db quarterStartEpoch = (latest? ServiceRewardsActorParameter.position
      (·.updateEpoch < quarterStartEpoch) (cutoffRows db)).map (·.parameterValue) := by
    unfold registrationCutoff latest? orderByDesc cutoffRows
    rw [List.filter_filter]
    simp only [Bool.decide_and, Bool.and_comm]
  have ofTable : ((cutoffRows db).filter (·.updateEpoch < quarterStartEpoch)).getLast?.map (·.parameterValue) =
      (((cutoffRows db).map fun p => (p.updateEpoch, p.parameterValue)).filter
        (·.1 < quarterStartEpoch)).getLast?.map (·.2) := by
    rw [List.filter_map, List.getLast?_map, Option.map_map]
    rfl
  have ofRegistry : (registry.cutoff quarterStartEpoch).map (fun cutoff : Nat => (cutoff : ℚ)) =
      ((registry.cutoffs.map fun cutoff => (cutoff.1, (cutoff.2 : ℚ))).filter
        (·.1 < quarterStartEpoch)).getLast?.map (·.2) := by
    unfold Registry.cutoff
    rw [List.filter_map, List.getLast?_map, Option.map_map, Option.map_map]
    rfl
  rw [isLatest, latest?_of_sorted kept.ordered, ofTable, ofRegistry, kept.cutoffs]

theorem inCutoff_eq (kept : Kept past db registry) (epoch : Int) : inCutoff cfg db epoch = registry.isLate cfg epoch := by
  unfold inCutoff Registry.isLate
  rw [registrationCutoff_eq kept]
  cases registry.cutoff (cfg.quarterStartEpoch (cfg.quarterNum epoch)) with
  | none => rfl
  | some cutoff =>
      have converted : cfg.toBigInt (cutoff : ℚ) = some (cutoff : Int) := cfg.toBigInt_of_whole (by norm_cast)
      rw [Option.map_some, Option.bind_some, converted, Option.any_some, Option.any_some]

theorem start_eq (kept : Kept past db registry) {payer operator : Address} {pairTupleString : String} {cutoffStart : Int}
    (cutoff : cutoffStartEpoch cfg db pairTupleString log.blockNumber = .ok cutoffStart) :
    (⟨(bindingStart cfg log.blockNumber cutoffStart (previousBinding db payer operator)).1,
        (bindingStart cfg log.blockNumber cutoffStart (previousBinding db payer operator)).2⟩ : Position) =
      registry.start cfg log.blockNumber (registry.tenure (payer, operator)).released := by
  obtain ⟨release, -, starts, latest, stopped⟩ :=
    exists_startAfter cfg kept.bindings payer operator log.blockNumber cutoffStart
  have greatest : ∀ r, release = some r ↔ IsGreatest (pairTable.stops db.servicePair.rows (payer, operator)) r := by
    intro r
    constructor
    · rintro rfl
      refine ⟨stopped r rfl, ?_⟩
      rintro stop ⟨sp, member, own, ended⟩
      obtain ⟨_, ⟨⟩, le⟩ := latest sp member own stop ended
      exact le
    · rintro ⟨⟨sp, member, own, ended⟩, upper⟩
      obtain ⟨last, isLast, le⟩ := latest sp member own r ended
      rw [Option.mem_def] at isLast
      rw [isLast, le_antisymm le (upper (stopped last isLast))]
  have released : release = (registry.tenure (payer, operator)).released :=
    Option.ext fun r => (greatest r).trans ((kept.tenants (payer, operator)).released r).symm
  rw [starts, released]
  unfold startAfter Registry.start
  rw [← inCutoff_eq kept, logQuarterStartEpoch_eq]
  by_cases late : inCutoff cfg db log.blockNumber
  · have fromQ1 := of_decide_eq_true (Bool.and_eq_true_iff.mp late).1
    rw [if_pos late, if_pos ((cutoffStart_le_iff cutoff).mpr late), logQuarterEndEpoch_eq, max_eq_left fromQ1,
      cfg.quarterStartEpoch_succ]
  · refine (if_neg fun le => late ((cutoffStart_le_iff cutoff).mp le)).trans (Eq.trans ?_ (if_neg late).symm)
    cases (registry.tenure (payer, operator)).released.filter fun r =>
        cfg.quarterNum r.epoch = cfg.quarterNum log.blockNumber with
    | none => rfl
    | some r => rfl

section Steps
variable (kept : Kept past db registry)

include kept

theorem Kept.of_pairs {tenure : Address × Address → Tenure Position Address}
    (later : ∀ earlier ∈ past, earlier.position < log.position) (change : Change cfg db log next.servicePair.rows)
    (parameters : next.serviceRewardsActorParameter = db.serviceRewardsActorParameter)
    (tenants : ∀ pair, pairTable.Tells next.servicePair.rows pair (tenure pair)) :
    Kept (past ++ [log]) next ⟨tenure, registry.cutoffs⟩ := by
  have rows : cutoffRows next = cutoffRows db := by
    unfold cutoffRows
    rw [parameters]
  refine ⟨kept.bindings.step later change, tenants, ?_, ?_, ?_⟩
  · rw [rows]
    exact kept.cutoffs
  · rw [rows]
    exact kept.ordered
  · rw [rows]
    intro p member
    obtain ⟨earlier, before, same⟩ := kept.placed p member
    exact ⟨earlier, List.mem_append_left _ before, same⟩

theorem tenants_set {rows : List ServicePair} {pair : Address × Address} {t : Tenure Position Address}
    (own : pairTable.Tells rows pair t)
    (others : ∀ sp, sp.pair ≠ pair → (sp ∈ rows ↔ sp ∈ db.servicePair.rows)) (other : Address × Address) :
    pairTable.Tells rows other ((registry.set pair t).tenure other) := by
  unfold Registry.set
  by_cases same : other = pair
  · subst same
    dsimp only
    rw [Function.update_self]
    exact own
  · dsimp only
    rw [Function.update_of_ne same]
    exact (kept.tenants other).of_same fun sp isOther => others sp fun isOwn => same (isOther.symm.trans isOwn)

section Pairs
variable (later : ∀ earlier ∈ past, earlier.position < log.position)

include later

theorem Kept.set {pair : Address × Address} {t : Tenure Position Address}
    (change : Change cfg db log next.servicePair.rows)
    (parameters : next.serviceRewardsActorParameter = db.serviceRewardsActorParameter)
    (own : pairTable.Tells next.servicePair.rows pair t)
    (others : ∀ sp, sp.pair ≠ pair → (sp ∈ next.servicePair.rows ↔ sp ∈ db.servicePair.rows)) :
    Kept (past ++ [log]) next (registry.set pair t) :=
  kept.of_pairs later change parameters (tenants_set kept own others)

theorem kept_of_declared {payer operator orchestrator : Address}
    (event : log.event = .bindingDeclared payer operator orchestrator)
    (created : createBinding cfg db log payer operator orchestrator = .ok next) :
    Kept (past ++ [log]) next (registry.handle cfg log) := by
  obtain ⟨unbound, pairTupleString, cutoffStart, cutoff, rows⟩ := createBinding_spec created
  obtain ⟨pairs, rfl⟩ := createBinding_frame created
  have change := createBinding_rows created
  have tenants := kept.tenants (payer.toLowerCase, operator.toLowerCase)
  have closed : ∀ sp ∈ db.servicePair.rows, sp.pair = (payer.toLowerCase, operator.toLowerCase) → sp.span.stop ≠ none := by
    intro sp member own isOpen
    exact unbound sp member (ServicePair.isActive_iff.mpr ⟨own, (stop_iff kept.bindings member).mp isOpen⟩)
  unfold Registry.handle
  rw [event]
  refine kept.set later change rfl ?_ ?_
  · rw [rows]
    have taken := tenants.take (declaration log payer.toLowerCase operator.toLowerCase orchestrator.toLowerCase
      (bindingStart cfg log.blockNumber cutoffStart (previousBinding db payer.toLowerCase operator.toLowerCase)))
      rfl rfl (tenants.vacant_iff.mpr closed) ?_
    · rw [← start_eq kept cutoff]
      exact taken
    · rintro x owner ⟨sp, member, own, covers, -⟩
      obtain ⟨stop, ended⟩ := Option.ne_none_iff_exists'.mp (closed sp member own)
      exact (covers.2 stop ended).trans_lt (ended_before_start kept.bindings later member own ended)
  · intro sp other
    rw [rows, List.mem_append, List.mem_singleton]
    exact or_iff_left fun same => other (same ▸ rfl)

theorem kept_of_reassigned {payer operator orchestrator : Address} {inherit : Bool}
    (event : log.event = .bindingReassigned payer operator orchestrator inherit)
    (reassigned : reassignBinding cfg db log payer operator orchestrator inherit = .ok next) :
    Kept (past ++ [log]) next (registry.handle cfg log) := by
  have outcome := reassignBinding_spec reassigned
  have change := reassignBinding_rows reassigned
  obtain ⟨pairs, rfl⟩ := reassignBinding_frame reassigned
  have tenants := kept.tenants (payer.toLowerCase, operator.toLowerCase)
  have dated := dated_of_invariant kept.bindings later
  have active : ∀ sp ∈ db.servicePair.rows, sp.pair = (payer.toLowerCase, operator.toLowerCase) →
      (sp.isActive payer.toLowerCase operator.toLowerCase ↔ sp.span.stop = none) := by
    intro sp member own
    rw [ServicePair.isActive_iff]
    exact (and_iff_right own).trans (stop_iff kept.bindings member).symm
  have held : ∀ sp : ServicePair, sp.isActive payer.toLowerCase operator.toLowerCase → sp.span.stop = none := by
    intro sp isHeld
    exact stop_of_open (ServicePair.isActive_iff.mp isHeld).2
  have inactive : ∀ sp : ServicePair, sp.pair ≠ (payer.toLowerCase, operator.toLowerCase) → ∀ row ∈ db.servicePair.rows,
      row.pair = sp.pair → row.isActive payer.toLowerCase operator.toLowerCase = false := by
    intro sp other row _ same
    rw [← Bool.not_eq_true, ServicePair.isActive_iff]
    exact fun isHeld => other (same.symm.trans isHeld.1)
  unfold Registry.handle
  rw [event]
  rw [← logQuarterStartEpoch_eq]
  rcases outcome with ⟨⟨sp, member, isHeld, startsLate⟩, rows, rfl⟩ | ⟨settled, rows⟩
  · obtain ⟨own, isOpen⟩ := ServicePair.isActive_iff.mp isHeld
    have movable : decide (logQuarterStartEpoch cfg log.blockNumber ≤ (sp.serviceOrchestratorId, sp.span.start).2.epoch) =
        true := decide_eq_true startsLate
    have claimed : (registry.tenure (payer.toLowerCase, operator.toLowerCase)).current =
        some (sp.serviceOrchestratorId, sp.span.start) := tenants.current_of_open member own (stop_of_open isOpen)
    refine kept.set later change rfl ?_ ?_
    · rw [rows, claimed, Option.any_some, Bool.true_and, if_pos movable]
      refine tenants.pass (reassign_handsOn orchestrator.toLowerCase) dated fun row inRows isOwn => ?_
      rw [Bool.and_eq_true, active row inRows isOwn]
      refine and_iff_left_of_imp fun rowOpen => ?_
      rw [dated.one_open inRows member (isOwn.trans own.symm) rowOpen (stop_of_open isOpen)]
      exact decide_eq_true startsLate
    · intro row other
      rw [rows]
      refine Temporal.mem_map_other (reassign_handsOn orchestrator.toLowerCase).key fun earlier inRows same => ?_
      rw [inactive row other earlier inRows same, Bool.false_and]
  · have early : (inherit && (registry.tenure (payer.toLowerCase, operator.toLowerCase)).current.any fun claim =>
        (logQuarterStartEpoch cfg log.blockNumber ≤ claim.2.epoch : Bool)) = false := by
      rw [← Bool.not_eq_true, Bool.and_eq_true, Option.any_eq_true]
      rintro ⟨inherits, ⟨holder, start⟩, claimed, late⟩
      obtain ⟨sp, member, own, isOpen, -, rfl⟩ := (tenants.current holder start).mp claimed
      exact absurd (settled inherits sp member ((active sp member own).mpr isOpen)) (not_lt.mpr (of_decide_eq_true late))
    refine kept.set later change rfl ?_ ?_
    · rw [early, if_neg Bool.false_ne_true, rows]
      have closed := tenants.close (release_closes log) dated held fun row inRows isOwn => (active row inRows isOwn).mpr
      refine closed.take (registration log payer.toLowerCase operator.toLowerCase orchestrator.toLowerCase) rfl rfl rfl ?_
      intro x owner attributed
      have upTo := (closed.holder x owner).mp attributed
      unfold Tenure.close at upTo
      dsimp only at upTo
      split at upTo
      · cases upTo
      · rename_i before
        exact (not_lt.mp before).trans_lt log.position.lt_next
    · intro row other
      have isOther : row ≠ registration log payer.toLowerCase operator.toLowerCase orchestrator.toLowerCase := fun same =>
        other (same ▸ rfl)
      rw [rows, List.mem_append, List.mem_singleton, or_iff_left isOther]
      exact Temporal.mem_map_other (release_closes log).key (inactive row other)

theorem kept_of_canceled {payer operator orchestrator : Address}
    (event : log.event = .bindingCanceled payer operator orchestrator) :
    Kept (past ++ [log]) (cancelBinding db log payer operator orchestrator) (registry.handle cfg log) := by
  have change : Change cfg db log _ := cancelBinding_rows payer operator orchestrator
  unfold Registry.handle
  rw [event]
  refine kept.set later change rfl ?_ ?_
  · refine (kept.tenants (payer.toLowerCase, operator.toLowerCase)).leaveIf (release_closes log)
      (dated_of_invariant kept.bindings later) ?_ ?_ fun sp _ => startsAfter_iff
    · intro sp isHeld
      rw [Bool.and_eq_true, ServicePair.isActive_iff] at isHeld
      exact stop_of_open isHeld.1.2
    · intro sp member own isOpen
      rw [Bool.and_eq_true, ServicePair.isActive_iff]
      exact and_iff_right ⟨own, (stop_iff kept.bindings member).mp isOpen⟩
  · intro sp other
    refine Temporal.mem_closeRows_other (release_closes log) fun row _ same => ?_
    rw [← Bool.not_eq_true, Bool.and_eq_true, ServicePair.isActive_iff]
    exact fun isHeld => other (same.symm.trans isHeld.1.1)

theorem kept_of_removed {orch : Address} (event : log.event = .orchestratorRemoved orch) :
    Kept (past ++ [log]) (removeOrchestrator db log orch) (registry.handle cfg log) := by
  have change : Change cfg db log _ := removeOrchestrator_rows orch
  unfold Registry.handle
  rw [event]
  refine kept.of_pairs later change rfl fun pair => ?_
  refine (kept.tenants pair).leaveIf (release_closes log) (dated_of_invariant kept.bindings later) ?_ ?_
    fun sp _ => startsAfter_iff
  · intro sp isHeld
    rw [Bool.and_eq_true, decide_eq_true_eq, decide_eq_true_eq] at isHeld
    exact stop_of_open isHeld.2
  · intro sp member _ isOpen
    rw [Bool.and_eq_true]
    exact and_iff_left (decide_eq_true ((stop_iff kept.bindings member).mp isOpen))

theorem kept_of_parameters {minLotFloor minLotAlphaNum minLotAlphaDen priceBand registrationCutoff : Nat}
    (event : log.event =
      .pricingParamsUpdated minLotFloor minLotAlphaNum minLotAlphaDen priceBand registrationCutoff)
    (updated : updatePricingParams db log minLotFloor minLotAlphaNum minLotAlphaDen priceBand registrationCutoff =
      .ok next) : Kept (past ++ [log]) next (registry.handle cfg log) := by
  unfold updatePricingParams at updated
  obtain ⟨rows, built, updated⟩ := bind_eq_ok.mp updated
  obtain ⟨parameters, added, refreshed⟩ := bind_eq_ok.mp updated
  obtain ⟨mv, rfl, -⟩ := refresh_eq_ok refreshed
  obtain rfl := Storage.parameterRows_of_mapM built
  let row : ServiceRewardsActorParameter :=
    ⟨.registrationCutoffEpochs, registrationCutoff, log.blockNumber, log.logIndex, log.transactionHash.toLower⟩
  have announced : cutoffRows { db with serviceRewardsActorParameter := parameters, qualifiedPricePeriodsMv := mv } =
      cutoffRows db ++ [row] := by
    unfold cutoffRows
    rw [Table.insertAll?_rows (insertAll_ok added), List.filter_append]
    rfl
  unfold Registry.handle
  rw [event]
  refine ⟨kept.bindings.weaken, kept.tenants, ?_, ?_, ?_⟩
  · rw [announced, List.map_append, kept.cutoffs, List.map_append]
    rfl
  · rw [announced, List.pairwise_append]
    refine ⟨kept.ordered, List.pairwise_singleton _ _, ?_⟩
    intro p member new isNew
    obtain ⟨earlier, before, same⟩ := kept.placed p member
    rw [List.mem_singleton.mp isNew, ← same]
    exact later earlier before
  · rw [announced]
    intro p member
    rcases List.mem_append.mp member with old | new
    · obtain ⟨earlier, before, same⟩ := kept.placed p old
      exact ⟨earlier, List.mem_append_left _ before, same⟩
    · exact ⟨log, List.mem_append_right _ (List.mem_singleton_self _), by rw [List.mem_singleton.mp new]; rfl⟩

theorem kept_of_handleLog {tokensMap : List (Address × ERC20Metadata)}
    (handled : ServiceRewardsActorIndexer.handleLog cfg tokensMap db log = .ok next) :
    Kept (past ++ [log]) next (registry.handle cfg log) := by
  unfold ServiceRewardsActorIndexer.handleLog at handled
  have frame : registry.handle cfg log = registry → next.servicePair = db.servicePair →
      next.serviceRewardsActorParameter = db.serviceRewardsActorParameter →
        Kept (past ++ [log]) next (registry.handle cfg log) := by
    intro same pairs parameters
    have change : Change cfg db log next.servicePair.rows := by
      rw [pairs]
      exact Change.keep
    rw [same]
    refine kept.of_pairs later change parameters ?_
    rw [pairs]
    exact kept.tenants
  cases event : log.event with
  | bindingDeclared payer operator orchestrator =>
      rw [event] at handled
      exact kept_of_declared kept later event handled
  | bindingReassigned payer operator orchestrator inherit =>
      rw [event] at handled
      exact kept_of_reassigned kept later event handled
  | bindingCanceled payer operator orchestrator =>
      rw [event] at handled
      cases handled
      exact kept_of_canceled kept later event
  | orchestratorRemoved orch =>
      rw [event] at handled
      cases handled
      exact kept_of_removed kept later event
  | pricingParamsUpdated minLotFloor minLotAlphaNum minLotAlphaDen priceBand registrationCutoff =>
      rw [event] at handled
      exact kept_of_parameters kept later event handled
  | orchestratorAdmitted orch wallet =>
      rw [event] at handled
      obtain ⟨_, _, rfl⟩ := admitOrchestrator_spec handled
      exact frame (by simp only [Registry.handle, event]) rfl rfl
  | orchestratorWalletReplaced oldOrch newWallet =>
      rw [event] at handled
      cases handled
      exact frame (by simp only [Registry.handle, event]) rfl rfl
  | admittedListsUpdated stablecoins filecoinPayContracts =>
      rw [event] at handled
      obtain ⟨_, _, _, rfl, -⟩ := updatedAdmittedLists_spec handled
      exact frame (by simp only [Registry.handle, event]) rfl rfl
  | volumePosted q orchestrator volume =>
      rw [event] at handled
      obtain ⟨_, rfl⟩ := postVolume_spec handled
      exact frame (by simp only [Registry.handle, event]) rfl rfl
  | volumeCorrected q orchestrator volume =>
      rw [event] at handled
      obtain ⟨_, rfl⟩ := postVolume_spec handled
      exact frame (by simp only [Registry.handle, event]) rfl rfl
  | sharesSubmitted q recipientCount totalUsd =>
      rw [event] at handled
      obtain ⟨_, _, rfl, -⟩ := submitShares_spec handled
      exact frame (by simp only [Registry.handle, event]) rfl rfl

end Pairs

end Steps

theorem kept_of_run {services : TokenServices} {logs : List ServiceRewardsActorLog}
    (run : logs.foldlM (handleOne cfg services) (DB.seeded cfg) = .ok db)
    (ordered : logs.Pairwise fun a b => a.position < b.position) :
    Kept logs db (logs.foldl (Registry.handle cfg) .empty) := by
  refine foldlM_induction run (fun past db => Kept past db (past.foldl (Registry.handle cfg) .empty))
    (kept_seeded cfg) ?_
  intro past log rest before after whole kept handled
  obtain ⟨tokensMap, -, handled⟩ := handleOne_iff.mp handled
  have later : ∀ earlier ∈ past, earlier.position < log.position := by
    rw [whole, List.pairwise_append] at ordered
    exact fun earlier member => ordered.2.2 earlier member log List.mem_cons_self
  rw [List.foldl_append]
  exact kept_of_handleLog kept later handled

end Registries

section Reached
variable (cfg : Deployment) (chain : Chain) (allowed : Execution → chain.Event → Prop) (s : Execution)
  (reached : chain.Reached cfg allowed s)

include reached

theorem kept_of_reached : Kept (chain.actorLogs s.store) s.store.toDB.actor (chain.registry cfg s.store) :=
  kept_of_run (consistent_of_reached reached).synced.actor (Postings.actorLogs_ordered chain s.store)

/-- The rows of `service_pair` attribute every position as the indexed logs say, and bind the pairs that are claimed. -/
theorem attributed_of_reached (pair : Address × Address) :
    (∀ x orchestrator, Attributed s.store.servicePair.rows pair x orchestrator ↔
      ((chain.registry cfg s.store).tenure pair).holder x = some orchestrator) ∧
    (s.store.toDB.binds pair ↔ ((chain.registry cfg s.store).tenure pair).current.isSome) := by
  have kept := kept_of_reached cfg chain allowed s reached
  refine ⟨attributed_iff kept pair, ?_⟩
  · rw [binds_iff, (kept.tenants pair).claimed_iff]
    exact exists_congr fun sp => and_congr_right fun member => and_congr_right fun _ =>
      (stop_iff kept.bindings member).symm

end Reached

section Samples
open Removals GateTargets

def leasedChain : Chain :=
  chainOf
    [⟨50, 0, "0x1", .pricingParamsUpdated 10 1 1 1000 5⟩, ⟨50, 1, "0x1", .admittedListsUpdated ["0xd"] ["0xf"]⟩,
      ⟨50, 2, "0x1", .orchestratorAdmitted "0xc" "0xc"⟩, ⟨50, 3, "0x1", .orchestratorAdmitted "0xe" "0xe"⟩,
      ⟨90, 0, "0x2", .bindingDeclared "0x1" "0x2" "0xc"⟩, ⟨130, 0, "0x3", .bindingReassigned "0x1" "0x2" "0xe" false⟩,
      ⟨150, 0, "0x4", .bindingCanceled "0x1" "0x2" "0xE"⟩, ⟨170, 0, "0x5", .bindingDeclared "0x1" "0x2" "0xC"⟩]
    []
    [⟨"0xf", 60, 0, "0x7", .railCreated 1 "0x1" "0x3" "0xd" "0x2" "0x4"⟩,
      ⟨"0xf", 120, 1, "0x8", .railSettled 1 5 5 0 0⟩, ⟨"0xf", 140, 1, "0x9", .railSettled 1 7 7 0 0⟩,
      ⟨"0xf", 160, 1, "0x10", .railSettled 1 11 11 0 0⟩]
    (by intro indexer; cases indexer <;> decide) (by intro indexer; cases indexer <;> decide) (by decide +kernel)
    (by decide +kernel)

def leasedSchedule (heads : List Int) : Option Execution :=
  schedule hundredEpochs leasedChain isApart (heads.map fun head _ => head)

theorem leased_ends : (leasedSchedule [100, 300]).map (fun s => (s.store.lastRun "0xa", s.store.toDB.binds ("0x1", "0x2"))) =
    some (some 300, true) := by decide +kernel

theorem exists_leased : ∃ s, leasedChain.Reached hundredEpochs (fun s _ => s.Apart) s ∧ s.store.lastRun "0xa" = some 300 ∧
    s.store.toDB.binds ("0x1", "0x2") := by
  obtain ⟨s, run, ended⟩ := Option.map_eq_some_iff.mp leased_ends
  obtain ⟨last, binds⟩ := Prod.mk.inj ended
  exact ⟨s, reached_of_schedule apart_of_check run, last, binds⟩

theorem attributed_of_reached_leased : ∃ s : Execution, s.store.toDB.binds ("0x1", "0x2") ∧
    ((leasedChain.registry hundredEpochs s.store).tenure ("0x1", "0x2")).current.isSome := by
  obtain ⟨s, reached, -, binds⟩ := exists_leased
  exact ⟨s, binds, (attributed_of_reached _ _ _ s reached ("0x1", "0x2")).2.mp binds⟩

end Samples

end Proof.Tenancy
end FpvIndexer
