import FpvIndexer.Proof.Rosters
import FpvIndexer.Proof.Agreement

namespace FpvIndexer
open Relational Proof

structure PricingUpdate where
  minLotFloor : Nat
  minLotAlphaNum : Nat
  minLotAlphaDen : Nat
  priceBand : Nat
deriving DecidableEq, Repr

namespace ServiceRewardsActorLog
variable (log : ServiceRewardsActorLog)

def pricingUpdate? : Option PricingUpdate :=
  match log.event with
  | .pricingParamsUpdated minLotFloor minLotAlphaNum minLotAlphaDen priceBand _ =>
      some ⟨minLotFloor, minLotAlphaNum, minLotAlphaDen, priceBand⟩
  | _ => none

def listsUpdate? : Option (List Address × List Address) :=
  match log.event with
  | .admittedListsUpdated stablecoins filecoinPayContracts =>
      some (stablecoins.map (·.toLowerCase), filecoinPayContracts.map (·.toLowerCase))
  | _ => none

def submission? : Option (Nat × Nat) :=
  match log.event with
  | .sharesSubmitted q _ totalUsd => some (q, totalUsd)
  | _ => none

end ServiceRewardsActorLog

namespace Chain
variable (cfg : Deployment) (chain : Chain) (store : Store) (quarterNum : Int)

def logsBefore : List ServiceRewardsActorLog :=
  (chain.actorLogs store).filter fun log => cfg.quarterNum log.blockNumber < quarterNum

def pricing : Option PricingUpdate := ((chain.logsBefore cfg store quarterNum).filterMap (·.pricingUpdate?)).getLast?

def admittedLists : List Address × List Address :=
  (((chain.logsBefore cfg store quarterNum).filterMap (·.listsUpdate?)).getLast?).getD ([], [])

def submittedVolume : Nat :=
  (((chain.actorLogs store).filterMap (·.submission?)).find? fun v => (v.1 : Int) = quarterNum).elim 0 (·.2)

/-- The parameters of a quarter, of which only the number of price periods is not announced. -/
def announcedParameters (update : PricingUpdate) (q : QuarterNumber) : QuarterParameters :=
  let volume := chain.submittedVolume store (q.intValue - 1)
  let count := store.toDB.qualifiedPricePeriodsMv.rows.countP fun qp => qp.quarterNum = (q.intValue : Int) - 1
  let lists := chain.admittedLists cfg store q.intValue
  { previousQuarterBoundVolumeAttoUsd := volume
    previousQuarterPricePeriodsCount := count
    minLotFloorAttoUsd := update.minLotFloor
    minLotAlphaNumerator := update.minLotAlphaNum
    minLotAlphaDenominator := update.minLotAlphaDen
    -- a quotient by zero is zero
    minLotAttoUsd := max update.minLotFloor (update.minLotAlphaNum * volume / (update.minLotAlphaDen * count) : Nat)
    priceBandBps := update.priceBand
    admittedStablecoins := inOrder (lists.1.filter fun token => (Replay.metadata? chain.tokenServices token).isSome)
    admittedFilecoinPayContractAddresses := inOrder lists.2 }

end Chain

namespace Proof.Announcements
open Handlers Replay Storage Commits Schedules Rosters Agreement PriceBand

def addedParameters (log : ServiceRewardsActorLog) : List ServiceRewardsActorParameter :=
  match log.event with
  | .pricingParamsUpdated minLotFloor minLotAlphaNum minLotAlphaDen priceBand registrationCutoff =>
      parameterRows log [(.minLotFloor, minLotFloor), (.minLotAlphaNumerator, minLotAlphaNum),
        (.minLotAlphaDenominator, minLotAlphaDen), (.priceBandBps, priceBand),
        (.registrationCutoffEpochs, registrationCutoff)]
  | _ => []

def addedVolume (log : ServiceRewardsActorLog) : Option QuarterBoundVolume :=
  log.submission?.map fun v => ⟨v.1, v.2, log.blockNumber, log.transactionHash.toLower⟩

section Steps
variable {cfg : Deployment} {db next : DB} {past : List ServiceRewardsActorLog} {log : ServiceRewardsActorLog}

structure Announced (past : List ServiceRewardsActorLog) (db : DB) : Prop where
  parameters : db.serviceRewardsActorParameter.rows = past.flatMap addedParameters
  volumes : db.quarterBoundVolume.rows = past.filterMap addedVolume

theorem Announced.step (announced : Announced past db)
    (parameters : next.serviceRewardsActorParameter.rows = db.serviceRewardsActorParameter.rows ++ addedParameters log)
    (volumes : next.quarterBoundVolume.rows = db.quarterBoundVolume.rows ++ [log].filterMap addedVolume) :
    Announced (past ++ [log]) next where
  parameters := by
    rw [parameters, announced.parameters, List.flatMap_append, List.flatMap_singleton]
  volumes := by
    rw [volumes, announced.volumes, List.filterMap_append]

theorem announced_of_handleLog {tokensMap : List (Address × ERC20Metadata)} (announced : Announced past db)
    (handled : ServiceRewardsActorIndexer.handleLog cfg tokensMap db log = .ok next) : Announced (past ++ [log]) next := by
  have frame : addedParameters log = [] ∧ addedVolume log = none →
      next.serviceRewardsActorParameter = db.serviceRewardsActorParameter →
      next.quarterBoundVolume = db.quarterBoundVolume → Announced (past ++ [log]) next := by
    rintro ⟨noParameters, noVolume⟩ parameters volumes
    refine announced.step ?_ ?_
    · rw [parameters, noParameters, List.append_nil]
    · rw [volumes, List.filterMap_cons_none noVolume, List.filterMap_nil, List.append_nil]
  unfold ServiceRewardsActorIndexer.handleLog at handled
  cases event : log.event with
  | pricingParamsUpdated minLotFloor minLotAlphaNum minLotAlphaDen priceBand registrationCutoff =>
      rw [event] at handled
      unfold updatePricingParams at handled
      obtain ⟨rows, built, handled⟩ := bind_eq_ok.mp handled
      obtain ⟨parameters, added, refreshed⟩ := bind_eq_ok.mp handled
      obtain ⟨mv, rfl, -⟩ := refresh_eq_ok refreshed
      obtain rfl := parameterRows_of_mapM built
      refine announced.step ?_ ?_
      · unfold addedParameters
        rw [event]
        exact Table.insertAll?_rows (insertAll_ok added)
      · simp [addedVolume, ServiceRewardsActorLog.submission?, event]
  | sharesSubmitted q recipientCount totalUsd =>
      rw [event] at handled
      obtain ⟨volumes, mv, rfl, rows, -⟩ := submitShares_spec handled
      refine announced.step ?_ ?_
      · simp [addedParameters, event]
      · simp [addedVolume, ServiceRewardsActorLog.submission?, event, rows]
  | admittedListsUpdated stablecoins filecoinPayContracts =>
      rw [event] at handled
      obtain ⟨_, _, _, rfl, -⟩ := updatedAdmittedLists_spec handled
      exact frame (by simp [addedParameters, addedVolume, ServiceRewardsActorLog.submission?, event]) rfl rfl
  | orchestratorAdmitted orch wallet =>
      rw [event] at handled
      obtain ⟨_, _, rfl⟩ := admitOrchestrator_spec handled
      exact frame (by simp [addedParameters, addedVolume, ServiceRewardsActorLog.submission?, event]) rfl rfl
  | orchestratorRemoved orch =>
      rw [event] at handled
      cases handled
      exact frame (by simp [addedParameters, addedVolume, ServiceRewardsActorLog.submission?, event]) rfl rfl
  | orchestratorWalletReplaced oldOrch newWallet =>
      rw [event] at handled
      cases handled
      exact frame (by simp [addedParameters, addedVolume, ServiceRewardsActorLog.submission?, event]) rfl rfl
  | bindingDeclared payer operator orchestrator =>
      rw [event] at handled
      obtain ⟨_, rfl⟩ := createBinding_frame handled
      exact frame (by simp [addedParameters, addedVolume, ServiceRewardsActorLog.submission?, event]) rfl rfl
  | bindingReassigned payer operator orchestrator inherit =>
      rw [event] at handled
      obtain ⟨_, rfl⟩ := reassignBinding_frame handled
      exact frame (by simp [addedParameters, addedVolume, ServiceRewardsActorLog.submission?, event]) rfl rfl
  | bindingCanceled payer operator orchestrator =>
      rw [event] at handled
      cases handled
      exact frame (by simp [addedParameters, addedVolume, ServiceRewardsActorLog.submission?, event]) rfl rfl
  | volumePosted q orchestrator volume =>
      rw [event] at handled
      obtain ⟨_, rfl⟩ := postVolume_spec handled
      exact frame (by simp [addedParameters, addedVolume, ServiceRewardsActorLog.submission?, event]) rfl rfl
  | volumeCorrected q orchestrator volume =>
      rw [event] at handled
      obtain ⟨_, rfl⟩ := postVolume_spec handled
      exact frame (by simp [addedParameters, addedVolume, ServiceRewardsActorLog.submission?, event]) rfl rfl

theorem announced_of_run {services : TokenServices} {logs : List ServiceRewardsActorLog}
    (run : logs.foldlM (handleOne cfg services) (DB.seeded cfg) = .ok db) : Announced logs db := by
  refine foldlM_induction run Announced ⟨rfl, rfl⟩ ?_
  intro past log rest before after _ announced handled
  obtain ⟨tokensMap, -, handled⟩ := handleOne_iff.mp handled
  exact announced_of_handleLog announced handled

end Steps

section Pricing
variable {cfg : Deployment} {db : DB} {logs : List ServiceRewardsActorLog} {log : ServiceRewardsActorLog}

def judgedValue (update : PricingUpdate) : ServiceRewardsActorParameterType → Nat
  | .minLotFloor => update.minLotFloor
  | .minLotAlphaNumerator => update.minLotAlphaNum
  | .minLotAlphaDenominator => update.minLotAlphaDen
  | .priceBandBps => update.priceBand
  | .registrationCutoffEpochs => 0

theorem update_of_added {p : ServiceRewardsActorParameter} (added : p ∈ addedParameters log)
    (judged : p.parameterType ≠ .registrationCutoffEpochs) : ∃ update, log.pricingUpdate? = some update ∧
      p.parameterValue = judgedValue update p.parameterType ∧ p.position = log.position := by
  unfold addedParameters at added
  split at added
  · rename_i minLotFloor minLotAlphaNum minLotAlphaDen priceBand registrationCutoff event
    refine ⟨⟨minLotFloor, minLotAlphaNum, minLotAlphaDen, priceBand⟩, by simp [ServiceRewardsActorLog.pricingUpdate?, event], ?_⟩
    obtain ⟨pair, listed, rfl⟩ := List.mem_map.mp added
    refine ⟨?_, rfl⟩
    simp only [List.mem_cons, List.not_mem_nil, or_false] at listed
    rcases listed with rfl | rfl | rfl | rfl | rfl
    all_goals first | rfl | exact absurd rfl judged
  · cases added

theorem added_of_update {update : PricingUpdate} (announces : log.pricingUpdate? = some update)
    {parameterType : ServiceRewardsActorParameterType} (judged : parameterType ≠ .registrationCutoffEpochs) :
    ∃ p ∈ addedParameters log, p.parameterType = parameterType ∧
      p.parameterValue = judgedValue update parameterType ∧ p.position = log.position := by
  unfold ServiceRewardsActorLog.pricingUpdate? at announces
  unfold addedParameters
  split at announces
  · cases announces
    refine ⟨⟨parameterType, (judgedValue _ parameterType : Nat), log.blockNumber, log.logIndex,
      log.transactionHash.toLower⟩, List.mem_map.mpr ⟨(parameterType, judgedValue _ parameterType), ?_, rfl⟩, rfl, rfl, rfl⟩
    cases parameterType with
    | registrationCutoffEpochs => exact absurd rfl judged
    | _ => simp [judgedValue]
  · cases announces

variable (cfg) in
theorem picks_announced (announced : Announced logs db)
    (ordered : logs.Pairwise fun a b => a.position < b.position) {parameterType : ServiceRewardsActorParameterType}
    (judged : parameterType ≠ .registrationCutoffEpochs) (quarterNum : Int) :
    Picks cfg db parameterType quarterNum
      ((((logs.filter fun log => cfg.quarterNum log.blockNumber < quarterNum).filterMap (·.pricingUpdate?)).getLast?).map
        fun update => (judgedValue update parameterType : ℚ)) := by
  have ofRow : ∀ p ∈ db.serviceRewardsActorParameter.rows, p.parameterType = parameterType →
      cfg.quarterNum p.updateEpoch < quarterNum →
      ∃ log ∈ logs.filter (fun log => cfg.quarterNum log.blockNumber < quarterNum), log.pricingUpdate?.isSome ∧
        p.position = log.position := by
    intro p member type earlier
    rw [announced.parameters] at member
    obtain ⟨log, inLogs, added⟩ := List.mem_flatMap.mp member
    obtain ⟨update, announces, -, place⟩ := update_of_added added (type ▸ judged)
    have epoch : p.updateEpoch = log.blockNumber := congrArg Position.epoch place
    exact ⟨log, List.mem_filter.mpr ⟨inLogs, decide_eq_true (epoch ▸ earlier)⟩, announces ▸ rfl, place⟩
  constructor
  · intro value found
    obtain ⟨update, last, rfl⟩ := Option.map_eq_some_iff.mp found
    obtain ⟨log, kept, announces, latest⟩ := exists_last_writer _ (ordered.filter _) last
    obtain ⟨inLogs, earlier⟩ := List.mem_filter.mp kept
    obtain ⟨p, added, type, set, place⟩ := added_of_update announces judged
    have epoch : p.updateEpoch = log.blockNumber := congrArg Position.epoch place
    refine ⟨p, ?_, type, set, ?_, ?_⟩
    · rw [announced.parameters]
      exact List.mem_flatMap.mpr ⟨log, inLogs, added⟩
    · rw [epoch]
      exact of_decide_eq_true earlier
    · intro other member typeToo earlierToo
      obtain ⟨writer, keptToo, announcesToo, placeToo⟩ := ofRow other member typeToo earlierToo
      rw [place, placeToo]
      exact latest writer keptToo announcesToo
  · intro none p member type earlier
    obtain ⟨log, kept, announces, -⟩ := ofRow p member type earlier
    obtain ⟨update, announces⟩ := Option.isSome_iff_exists.mp announces
    have empty := List.getLast?_eq_none_iff.mp (Option.map_eq_none_iff.mp none)
    have listed := List.mem_filterMap.mpr ⟨log, kept, announces⟩
    rw [empty] at listed
    cases listed

theorem requireParameter_of_picks {parameterType : ServiceRewardsActorParameterType} {quarterNum : Int} {value : Option Nat}
    (picks : Picks cfg db parameterType quarterNum (value.map fun v : Nat => (v : ℚ))) (missing invalid : Failure) :
    requireParameter cfg (quarterParameters cfg db quarterNum) parameterType missing invalid =
      value.elim (.error missing) fun v => .ok (v : Int) := by
  have reads := picks_quarterParameter.unique picks
  unfold quarterParameter at reads
  unfold requireParameter
  cases found : (quarterParameters cfg db quarterNum).find? (·.parameterType = parameterType) with
  | none =>
      rw [found] at reads
      rw [Option.map_eq_none_iff.mp reads.symm]
      rfl
  | some p =>
      rw [found, Option.map_some] at reads
      obtain ⟨v, rfl, same⟩ := Option.map_eq_some_iff.mp reads.symm
      have whole : cfg.toBigInt p.parameterValue = some (v : Int) :=
        cfg.toBigInt_of_whole ((Int.cast_natCast v).trans same)
      dsimp only
      rw [whole]
      rfl

variable (cfg) in
theorem boundVolume_of_announced (announced : Announced logs db) (quarterNum : Int) :
    (match db.quarterBoundVolume.rows.find? fun v => (v.quarterNum : Int) = quarterNum with
      | some v => cfg.numericToBigInt v.volumeAttoUsd
      | none => pure 0) =
    .ok ((((logs.filterMap (·.submission?)).find? fun v => (v.1 : Int) = quarterNum).elim 0 (·.2) : Nat) : Int) := by
  have pairs : db.quarterBoundVolume.rows.map (fun v => (v.quarterNum, v.volumeAttoUsd)) =
      (logs.filterMap (·.submission?)).map fun v => (v.1, (v.2 : ℚ)) := by
    rw [announced.volumes, List.map_filterMap, List.map_filterMap]
    refine List.filterMap_congr fun log _ => ?_
    unfold addedVolume
    rw [Option.map_map]
    rfl
  have found := congrArg (List.find? fun pair : Nat × ℚ => (pair.1 : Int) = quarterNum) pairs
  rw [List.find?_map, List.find?_map] at found
  change Option.map _ (db.quarterBoundVolume.rows.find? fun v => (v.quarterNum : Int) = quarterNum) =
    Option.map _ ((logs.filterMap (·.submission?)).find? fun v => (v.1 : Int) = quarterNum) at found
  cases submitted : (logs.filterMap (·.submission?)).find? fun v => (v.1 : Int) = quarterNum with
  | none =>
      rw [submitted, Option.map_none] at found
      rw [Option.map_eq_none_iff.mp found]
      rfl
  | some v =>
      rw [submitted, Option.map_some] at found
      obtain ⟨row, isRow, same⟩ := Option.map_eq_some_iff.mp found
      rw [isRow]
      exact cfg.numericToBigInt_of_whole ((Int.cast_natCast v.2).trans (congrArg Prod.snd same).symm)

end Pricing

/-- The code's guarded quotient is the quotient of naturals, which is zero by zero. -/
theorem minLot_eq (floor numerator denominator volume count : Nat) :
    (let unbound : Int := if (denominator : Int) ≠ 0 ∧ count ≠ 0 then
        ((numerator : Int) * volume).tdiv ((denominator : Int) * count) else 0
      if (floor : Int) ≤ unbound then unbound else floor) =
    max (floor : Int) ((numerator * volume / (denominator * count) : Nat) : Int) := by
  have unbound : (if (denominator : Int) ≠ 0 ∧ count ≠ 0 then
      ((numerator : Int) * volume).tdiv ((denominator : Int) * count) else 0) =
        ((numerator * volume / (denominator * count) : Nat) : Int) := by
    split
    · rw [Int.ofNat_tdiv, Nat.cast_mul, Nat.cast_mul]
    · rename_i degenerate
      have zero : denominator * count = 0 := by
        rw [Nat.mul_eq_zero]
        omega
      rw [zero, Nat.div_zero, Nat.cast_zero]
  dsimp only
  rw [unbound]
  exact (max_def _ _).symm

section Lists
variable {services : TokenServices} {logs : List ServiceRewardsActorLog} {a : Address} {β : Type}
  {read : Roster → Tenure Position β} {pick : List Address × List Address → List Address} {value : Option β}

def listing? (pick : List Address × List Address → List Address) (a : Address) (log : ServiceRewardsActorLog) :
    Option (Position × Bool) :=
  log.listsUpdate?.map fun lists => (log.position, decide (a ∈ pick lists))

def listingsOf (pick : List Address × List Address → List Address) (a : Address) (logs : List ServiceRewardsActorLog) :
    List (Position × Bool) :=
  logs.filterMap (listing? pick a)

theorem relists_of_roster (empty : read .empty = .vacant)
    (handles : ∀ (roster : Roster) (log : ServiceRewardsActorLog), read (roster.handle services log) =
      log.listsUpdate?.elim (read roster) fun lists => (read roster).relist log.position (a ∈ pick lists) value)
    (logs : List ServiceRewardsActorLog) :
    read (logs.foldl (Roster.handle services) .empty) = Tenure.vacant.relists value (listingsOf pick a logs) := by
  induction logs using List.reverseRecOn with
  | nil => exact empty
  | append_singleton past log ih =>
      unfold listingsOf at ih ⊢
      rw [List.foldl_append, List.foldl_cons, List.foldl_nil, handles, ih, List.filterMap_append]
      cases update : log.listsUpdate? with
      | none =>
          have silent : listing? pick a log = none := by
            unfold listing?
            rw [update]
            rfl
          rw [List.filterMap_cons_none silent, List.filterMap_nil, List.append_nil]
          rfl
      | some lists =>
          have announces : listing? pick a log = some (log.position, decide (a ∈ pick lists)) := by
            unfold listing?
            rw [update]
            rfl
          rw [List.filterMap_cons_some announces, List.filterMap_nil, Tenure.relists_concat]
          rfl

theorem tokens_handle (services : TokenServices) (token : Address) (roster : Roster) (log : ServiceRewardsActorLog) :
    (roster.handle services log).tokens token = log.listsUpdate?.elim (roster.tokens token) fun lists =>
      (roster.tokens token).relist log.position (token ∈ lists.1) (metadata? services token) := by
  unfold Roster.handle ServiceRewardsActorLog.listsUpdate?
  cases log.event <;> rfl

theorem contracts_handle (services : TokenServices) (contract : Address) (roster : Roster)
    (log : ServiceRewardsActorLog) :
    (roster.handle services log).contracts contract = log.listsUpdate?.elim (roster.contracts contract) fun lists =>
      (roster.contracts contract).relist log.position (contract ∈ lists.2) (some ()) := by
  unfold Roster.handle ServiceRewardsActorLog.listsUpdate?
  cases log.event <;> rfl

theorem listingsOf_sorted (ordered : logs.Pairwise fun a b => a.position < b.position) :
    (listingsOf pick a logs).Pairwise fun a b => a.1 < b.1 := by
  refine List.pairwise_filterMap.mpr (ordered.imp fun {early late} lt => ?_)
  rintro _ first _ second
  obtain ⟨-, -, rfl⟩ := Option.map_eq_some_iff.mp first
  obtain ⟨-, -, rfl⟩ := Option.map_eq_some_iff.mp second
  exact lt

theorem holder_of_roster (nothing : pick ([], []) = [])
    (relisted : read (logs.foldl (Roster.handle services) .empty) = Tenure.vacant.relists value (listingsOf pick a logs))
    (ordered : logs.Pairwise fun a b => a.position < b.position) {x : Position}
    (apart : ∀ log ∈ logs, log.position ≠ x) :
    ((read (logs.foldl (Roster.handle services) .empty)).holder x).isSome ↔
      a ∈ pick ((((logs.filter (·.position < x)).filterMap (·.listsUpdate?)).getLast?).getD ([], [])) ∧ value.isSome := by
  have placed : ∀ update ∈ listingsOf pick a logs, ∃ log ∈ logs, update.1 = log.position := by
    intro update member
    obtain ⟨log, inLogs, announces⟩ := List.mem_filterMap.mp member
    obtain ⟨_, -, rfl⟩ := Option.map_eq_some_iff.mp announces
    exact ⟨log, inLogs, rfl⟩
  have apartToo : ∀ update ∈ listingsOf pick a logs, update.1 ≠ x := by
    intro update member
    obtain ⟨log, inLogs, same⟩ := placed update member
    exact same ▸ apart log inLogs
  have before : (listingsOf pick a logs).filter (fun update => update.1 < x) =
      listingsOf pick a (logs.filter (·.position < x)) := by
    unfold listingsOf
    rw [List.filter_filterMap, List.filterMap_filter]
    refine List.filterMap_congr fun log _ => ?_
    unfold listing?
    cases log.listsUpdate? with
    | none => simp
    | some lists => by_cases early : log.position < x <;> simp [Option.filter, early]
  have last : (listingsOf pick a (logs.filter (·.position < x))).getLast?.any (·.2) =
      decide (a ∈ pick ((((logs.filter (·.position < x)).filterMap (·.listsUpdate?)).getLast?).getD ([], []))) := by
    have picked : (listingsOf pick a (logs.filter (·.position < x))).getLast?.map (·.2) =
        (((logs.filter (·.position < x)).filterMap (·.listsUpdate?)).getLast?).map fun lists => decide (a ∈ pick lists) := by
      rw [← List.getLast?_map, ← getLast?_filterMap_map]
      unfold listingsOf listing?
      rw [List.map_filterMap]
      simp only [Option.map_map, Function.comp_def]
    have any : ∀ found : Option (Position × Bool), found.any (·.2) = (found.map (·.2)).getD false := by
      intro found
      cases found <;> rfl
    rw [any, picked]
    cases ((logs.filter (·.position < x)).filterMap (·.listsUpdate?)).getLast? with
    | none => simp [nothing]
    | some lists => rfl
  rw [relisted, Tenure.relists_holder (listingsOf_sorted ordered) apartToo, before, last, decide_eq_true_eq]

end Lists

section Standing
variable {cfg : Deployment} {logs : List ServiceRewardsActorLog} {quarterNum : Int} {top : Nat}

def lastPlace (cfg : Deployment) (quarterNum : Int) (top : Nat) : Position := ⟨cfg.quarterStartEpoch quarterNum - 1, top⟩

theorem exists_top (logs : List ServiceRewardsActorLog) : ∃ top, ∀ log ∈ logs, log.logIndex < top := by
  induction logs with
  | nil => exact ⟨0, nofun⟩
  | cons log rest ih =>
      obtain ⟨top, below⟩ := ih
      refine ⟨max (log.logIndex + 1) top, List.forall_mem_cons.mpr ⟨?_, fun other member => ?_⟩⟩
      · exact lt_max_of_lt_left (Nat.lt_succ_self _)
      · exact lt_max_of_lt_right (below other member)

variable (cfg) in
theorem lt_lastPlace_iff (q1 : 1 ≤ quarterNum) {log : ServiceRewardsActorLog} (below : log.logIndex < top) :
    log.position < lastPlace cfg quarterNum top ↔ cfg.quarterNum log.blockNumber < quarterNum := by
  rw [cfg.quarterNum_lt_iff q1, Position.lt_iff]
  change log.blockNumber < cfg.quarterStartEpoch quarterNum - 1 ∨
    log.blockNumber = cfg.quarterStartEpoch quarterNum - 1 ∧ log.logIndex < top ↔ _
  omega

theorem standsFor_iff (q1 : 1 ≤ quarterNum) (below : ∀ log ∈ logs, log.logIndex < top) {listings : List Listing}
    (inv : Lists.Invariant logs listings) {l : Listing} (member : l ∈ listings) :
    StandsFor cfg l quarterNum ↔ l.span.Covers (lastPlace cfg quarterNum top) := by
  obtain ⟨admission, inLogs, started⟩ := inv.started l member
  have epoch : l.start.epoch = admission.blockNumber := congrArg Position.epoch started
  have apart : admission.position ≠ lastPlace cfg quarterNum top :=
    fun same => (below admission inLogs).ne (congrArg Position.logIndex same)
  have admitted : cfg.quarterNum l.start.epoch < quarterNum ↔ l.span.start ≤ lastPlace cfg quarterNum top := by
    change _ ↔ l.start ≤ _
    rw [epoch, started, le_iff_lt_or_eq, or_iff_left apart, lt_lastPlace_iff cfg q1 (below admission inLogs)]
  have kept : (l.removalEpoch.map cfg.quarterNum).all (quarterNum ≤ ·) ↔
      ∀ stop ∈ l.span.stop, lastPlace cfg quarterNum top ≤ stop := by
    change _ ↔ ∀ stop ∈ stopPosition l.removalEpoch l.removalLogIndex, _
    have ended := inv.ended l member
    change ∀ stop ∈ stopPosition l.removalEpoch l.removalLogIndex, _ at ended
    rcases (inv.together l member).cases with ⟨removal, logIndex⟩ | ⟨stop, removal, logIndex⟩
    · rw [removal, logIndex]
      exact iff_of_true rfl nofun
    · rw [removal, logIndex] at ended ⊢
      obtain ⟨removed, inLogsToo, same⟩ := ended stop rfl
      have behind := lt_lastPlace_iff cfg q1 (below removed inLogsToo)
      rw [Option.map_some, Option.all_some, decide_eq_true_eq, ← not_lt, congrArg Position.epoch same]
      refine (not_congr behind).symm.trans ?_
      rw [not_lt, ← same]
      exact ⟨fun le _ isStop => Option.some.inj isStop ▸ le, fun le => le stop rfl⟩
  unfold StandsFor admittedFor
  rw [decide_eq_true_eq]
  exact and_congr admitted kept

variable (cfg) in
theorem standing_iff {α β : Type} {table : Temporal α Address Position β} {rows : List α} {listing : α → Listing}
    {a : Address} {t : Tenure Position β} (tells : table.Tells rows a t)
    (reads : ∀ row, table.key row = (listing row).address ∧ table.span row = (listing row).span) (q1 : 1 ≤ quarterNum)
    (below : ∀ log ∈ logs, log.logIndex < top) (inv : Lists.Invariant logs (rows.map listing)) :
    (∃ row ∈ rows, (listing row).address = a ∧ StandsFor cfg (listing row) quarterNum) ↔
      (t.holder (lastPlace cfg quarterNum top)).isSome := by
  rw [Option.isSome_iff_exists]
  simp only [← tells.holder]
  constructor
  · rintro ⟨row, member, own, stands⟩
    refine ⟨table.holder row, row, member, (reads row).1.trans own, ?_, rfl⟩
    rw [(reads row).2]
    exact (standsFor_iff q1 below inv (List.mem_map_of_mem member)).mp stands
  · rintro ⟨holder, row, member, own, covers, -⟩
    rw [(reads row).2] at covers
    exact ⟨row, member, (reads row).1.symm.trans own,
      (standsFor_iff q1 below inv (List.mem_map_of_mem member)).mpr covers⟩

variable (cfg) in
theorem announced_iff {services : TokenServices} {β : Type} (read : Roster → Tenure Position β)
    (pick : List Address × List Address → List Address) {value : Option β} {a : Address}
    (nothing : pick ([], []) = []) (empty : read .empty = .vacant)
    (handles : ∀ (roster : Roster) (log : ServiceRewardsActorLog), read (roster.handle services log) =
      log.listsUpdate?.elim (read roster) fun lists => (read roster).relist log.position (a ∈ pick lists) value)
    (ordered : logs.Pairwise fun a b => a.position < b.position) (q1 : 1 ≤ quarterNum)
    (below : ∀ log ∈ logs, log.logIndex < top) :
    ((read (logs.foldl (Roster.handle services) .empty)).holder (lastPlace cfg quarterNum top)).isSome ↔
      a ∈ pick ((((logs.filter fun log => cfg.quarterNum log.blockNumber < quarterNum).filterMap
        (·.listsUpdate?)).getLast?).getD ([], [])) ∧ value.isSome := by
  have apart : ∀ log ∈ logs, log.position ≠ lastPlace cfg quarterNum top :=
    fun log member same => (below log member).ne (congrArg Position.logIndex same)
  have before : logs.filter (fun log => log.position < lastPlace cfg quarterNum top) =
      logs.filter fun log => cfg.quarterNum log.blockNumber < quarterNum :=
    List.filter_congr fun log member => decide_eq_decide.mpr (lt_lastPlace_iff cfg q1 (below log member))
  rw [holder_of_roster nothing (relists_of_roster empty handles logs) ordered apart, before]

end Standing

section Reached
variable (cfg : Deployment) (chain : Chain) (allowed : Execution → chain.Event → Prop) (s : Execution)
  (reached : chain.Reached cfg allowed s)

include reached

theorem admittedStablecoins_of_reached (q : QuarterNumber) :
    (quarterTokens cfg s.store.toDB q.intValue).map (·.tokenAddress) =
      inOrder ((chain.admittedLists cfg s.store q.intValue).1.filter fun token =>
        (metadata? chain.tokenServices token).isSome) := by
  have q1 : 1 ≤ (q.intValue : Int) := by exact_mod_cast q.positive
  obtain ⟨top, below⟩ := exists_top (chain.actorLogs s.store)
  refine eq_inOrder (distinctOn_orderBy_keys _ _ _) fun token => ?_
  have standing := standing_iff cfg ((rostered_of_reached reached).tokens token) (fun _ => ⟨rfl, rfl⟩) q1 below
    (listed_of_reached reached).tokens
  have listed := announced_iff cfg (·.tokens token) Prod.fst rfl rfl (tokens_handle chain.tokenServices token)
    (Postings.actorLogs_ordered chain s.store) q1 below
  rw [List.mem_filter]
  exact mem_quarterTokens.trans (standing.trans listed)

theorem admittedContracts_of_reached (q : QuarterNumber) :
    (quarterFilecoinPayContracts cfg s.store.toDB q.intValue).map (·.contractAddress) =
      inOrder (chain.admittedLists cfg s.store q.intValue).2 := by
  have q1 : 1 ≤ (q.intValue : Int) := by exact_mod_cast q.positive
  obtain ⟨top, below⟩ := exists_top (chain.actorLogs s.store)
  refine eq_inOrder (distinctOn_orderBy_keys _ _ _) fun contract => ?_
  have standing := standing_iff cfg ((rostered_of_reached reached).contracts contract) (fun _ => ⟨rfl, rfl⟩) q1 below
    (listed_of_reached reached).contracts
  have listed := announced_iff cfg (·.contracts contract) Prod.snd rfl rfl (contracts_handle chain.tokenServices contract)
    (Postings.actorLogs_ordered chain s.store) q1 below
  exact mem_quarterFilecoinPayContracts.trans (standing.trans (listed.trans (and_iff_left rfl)))

end Reached

section Samples
open Tenancy AdmittedVolume Removals

theorem leased_parameters : (leasedSchedule [100, 300]).map (fun s =>
    getQuarterParameters hundredEpochs s.store.toDB firstQuarter) = some (.ok firstQuarterParameters) := by decide +kernel

end Samples

end Proof.Announcements
end FpvIndexer
