import FpvIndexer.Proof.VolumeAsOf
import FpvIndexer.Proof.Rollover

namespace FpvIndexer
open Relational Proof

def Step.After (cfg : Deployment) (q : Int) : Step → Prop
  | actor _ log => q < cfg.quarterNum log.blockNumber ∧
      ∀ n recipientCount totalUsd, log.event = .sharesSubmitted n recipientCount totalUsd → q ≤ n
  | rail _ => True
  | payment input => q < cfg.quarterNum input.settledAtEpoch
  | transfer _ log => q < cfg.quarterNum log.blockNumber

/-- Logs that come after the end of a quarter, with no shares for an earlier one. -/
def Batch.After (cfg : Deployment) (q : QuarterNumber) : Batch → Prop
  | serviceRewardsActor _ logs => ∀ log ∈ logs, cfg.quarterEndEpoch q.intValue < log.blockNumber ∧
      ∀ n recipientCount totalUsd, log.event = .sharesSubmitted n recipientCount totalUsd → q.intValue ≤ n
  | filecoinPayV1 logs => ∀ log ∈ logs, cfg.quarterEndEpoch q.intValue < log.blockNumber
  | auctionableToken _ logs => ∀ log ∈ logs, cfg.quarterEndEpoch q.intValue < log.blockNumber

def DB.sources (db : DB) : DB := { db with qualifiedPricePeriodsMv := .empty }

namespace Proof.ClosedQuarters
open AsOf InForce Reachable Effects Handlers Bindings

section Unknown
variable {cfg : Config} {q : Int}

theorem unknown_of_lt {epoch : Int} (later : q < cfg.quarterNum epoch) : cfg.knownBy q epoch = false :=
  decide_eq_false (not_le.mpr later)

theorem unknown_mono {a b : Int} (unknown : cfg.knownBy q a = false) (le : a ≤ b) : cfg.knownBy q b = false := by
  have later := of_decide_eq_false unknown
  have := cfg.quarterNum_mono le
  exact decide_eq_false (by omega)

theorem endAsOf_unknown {epoch : Int} (unknown : cfg.knownBy q epoch = false) : cfg.endAsOf q (some epoch) = none := by
  unfold Config.endAsOf
  rw [Option.filter_some, unknown]
  rfl

end Unknown

section Bindings
variable {cfg : Deployment} {q : Int} {db : DB} {log : ServiceRewardsActorLog}

theorem logQuarterStartEpoch_unknown {blockNumber : Int} (later : q < cfg.quarterNum blockNumber) :
    cfg.knownBy q (logQuarterStartEpoch cfg blockNumber) = false := by
  apply unknown_of_lt
  rw [logQuarterStartEpoch_eq]
  by_cases active : 1 ≤ cfg.quarterNum blockNumber
  · rw [max_eq_left active]
    exact later.trans_le ((cfg.le_quarterNum_iff active _).mpr le_rfl)
  · have first := (cfg.le_quarterNum_iff le_rfl (cfg.quarterStartEpoch 1)).mpr le_rfl
    rw [max_eq_right (by omega)]
    omega

theorem bindingStart_unknown (cutoffStart : Int) (previous : Option ServicePair)
    (later : q < cfg.quarterNum log.blockNumber) :
    cfg.knownBy q (bindingStart cfg log.blockNumber cutoffStart previous).1 = false := by
  have start := logQuarterStartEpoch_unknown later
  have here := unknown_of_lt later
  unfold bindingStart
  split
  · exact unknown_mono here ((le_logQuarterEndEpoch log.blockNumber).trans (Int.le_add_one le_rfl))
  · split
    · exact start
    · rename_i releaseEpoch _
      split
      · exact start
      · rename_i same
        rw [not_not, cfg.getQuarterForEpoch_eq, cfg.getQuarterForEpoch_eq] at same
        exact unknown_of_lt (same ▸ later)

theorem release_asOf (later : q < cfg.quarterNum log.blockNumber) {sp : ServicePair} (isOpen : sp.toEpoch = none) :
    (sp.release log).asOf cfg q = sp.asOf cfg q := by
  unfold ServicePair.release ServicePair.asOf
  rw [isOpen]
  dsimp only
  rw [endAsOf_unknown (unknown_of_lt later)]
  rfl

theorem pairs_asOf {pairs : Table ServicePair ServicePair.pkey} (change : Change cfg db log pairs.rows)
    (later : q < cfg.quarterNum log.blockNumber) :
    (pairs.rows.filter fun sp => cfg.knownBy q sp.fromEpoch).map (·.asOf cfg q) =
      (db.servicePair.rows.filter fun sp => cfg.knownBy q sp.fromEpoch).map (·.asOf cfg q) := by
  have here := unknown_of_lt later
  generalize pairs.rows = rows at change
  cases change with
  | keep => rfl
  | declare payer operator orchestrator cutoffStart unbound cutoff =>
      have fresh := bindingStart_unknown cutoffStart (previousBinding db payer operator) later
      apply Table.filter_append_view
      simpa [declaration] using fresh
  | move payer operator orchestrator moved =>
      apply Table.filter_map_view
      intro sp _
      split
      · rename_i movable
        have start := of_decide_eq_true (Bool.and_eq_true_iff.mp movable).2
        have unknown := unknown_mono (logQuarterStartEpoch_unknown later) start
        refine ⟨rfl, fun known => ?_⟩
        rw [unknown] at known
        cases known
      · exact ⟨rfl, fun _ => rfl⟩
  | handOver payer operator orchestrator inherit settled =>
      rw [Table.filter_append_view _ _ (by simpa [registration] using here)]
      apply Table.filter_map_view
      intro sp _
      split
      · rename_i active
        exact ⟨rfl, fun _ => release_asOf later (ServicePair.isActive_iff.mp active).2⟩
      · exact ⟨rfl, fun _ => rfl⟩
  | release isHeld held =>
      rw [Table.filter_map_view (fun sp : ServicePair => cfg.knownBy q sp.fromEpoch) (·.asOf cfg q)]
      rotate_left
      · intro sp _
        split
        · rename_i isHeld
          exact ⟨rfl, fun _ => release_asOf later (held sp isHeld)⟩
        · exact ⟨rfl, fun _ => rfl⟩
      apply Table.filter_filter_view
      intro sp known
      -- a binding that starts after the log is not known yet
      by_contra deleted
      rw [Bool.not_eq_true, Bool.not_eq_false', Bool.and_eq_true] at deleted
      have starts := of_decide_eq_true deleted.2
      rw [unknown_mono here (by omega)] at known
      cases known

end Bindings

section Lists
variable {cfg : Config} {q : Int} {db : DB} {log : ServiceRewardsActorLog}

theorem removedToken_asOf (later : q < cfg.quarterNum log.blockNumber) (removed : List Address) (t : WhitelistedToken) :
    (removedToken log removed t).asOf cfg q = t.asOf cfg q := by
  unfold removedToken
  split
  · rename_i dropped
    unfold WhitelistedToken.remove WhitelistedToken.asOf
    rw [dropped.2]
    dsimp only
    rw [endAsOf_unknown (unknown_of_lt later)]
    rfl
  · rfl

theorem removedContract_asOf (later : q < cfg.quarterNum log.blockNumber) (removed : List Address)
    (c : FilecoinPayContract) : (removedContract log removed c).asOf cfg q = c.asOf cfg q := by
  unfold removedContract
  split
  · rename_i dropped
    unfold FilecoinPayContract.remove FilecoinPayContract.asOf
    rw [dropped.2]
    dsimp only
    rw [endAsOf_unknown (unknown_of_lt later)]
    rfl
  · rfl

theorem tokens_step_asOf (later : q < cfg.quarterNum log.blockNumber) (removed added : List Address)
    (tokensMap : List (Address × ERC20Metadata)) {tokens : Table WhitelistedToken WhitelistedToken.pkey}
    (rows : tokens.rows = db.whitelistedToken.rows.map (removedToken log removed) ++ addedTokenRows tokensMap log added) :
    (tokens.rows.filter fun t => cfg.knownBy q t.admittanceEpoch).map (·.asOf cfg q) =
      (db.whitelistedToken.rows.filter fun t => cfg.knownBy q t.admittanceEpoch).map (·.asOf cfg q) := by
  have unseen : ∀ t ∈ addedTokenRows tokensMap log added, ¬ cfg.knownBy q t.admittanceEpoch := by
    intro t member
    obtain ⟨a, -, found⟩ := List.mem_filterMap.mp member
    obtain ⟨metadata, -, rfl⟩ := Option.map_eq_some_iff.mp found
    simpa [admittedToken] using unknown_of_lt later
  rw [rows, Table.filter_append_view _ _ unseen]
  apply Table.filter_map_view
  intro t _
  have same := removedToken_asOf later removed t
  have known : (removedToken log removed t).admittanceEpoch = t.admittanceEpoch :=
    show ((removedToken log removed t).asOf cfg q).admittanceEpoch = (t.asOf cfg q).admittanceEpoch by rw [same]
  exact ⟨by rw [known], fun _ => same⟩

theorem contracts_step_asOf (later : q < cfg.quarterNum log.blockNumber) (removed added : List Address)
    {contracts : Table FilecoinPayContract FilecoinPayContract.pkey}
    (rows : contracts.rows = db.filecoinPayContract.rows.map (removedContract log removed) ++
      added.map (admittedContract log)) :
    (contracts.rows.filter fun c => cfg.knownBy q c.admittanceEpoch).map (·.asOf cfg q) =
      (db.filecoinPayContract.rows.filter fun c => cfg.knownBy q c.admittanceEpoch).map (·.asOf cfg q) := by
  have unseen : ∀ c ∈ added.map (admittedContract log), ¬ cfg.knownBy q c.admittanceEpoch := by
    intro c member
    obtain ⟨a, -, rfl⟩ := List.mem_map.mp member
    simpa [admittedContract] using unknown_of_lt later
  rw [rows, Table.filter_append_view _ _ unseen]
  apply Table.filter_map_view
  intro c _
  have same := removedContract_asOf later removed c
  have known : (removedContract log removed c).admittanceEpoch = c.admittanceEpoch :=
    show ((removedContract log removed c).asOf cfg q).admittanceEpoch = (c.asOf cfg q).admittanceEpoch by rw [same]
  exact ⟨by rw [known], fun _ => same⟩

end Lists

section Steps
variable {cfg : Deployment} {q : Int} {db next : DB}

theorem usesRail_of_fresh (rails : RailsStored db) {row : FilecoinPayRail}
    (fresh : row.pkey ∉ db.filecoinPayRail.rows.map (·.pkey)) : db.usesRail cfg q row = false := by
  by_contra used
  obtain ⟨p, member, settled⟩ := List.any_eq_true.mp (Bool.not_eq_false _ ▸ used)
  obtain ⟨rail, contract⟩ := of_decide_eq_true (Bool.and_eq_true_iff.mp settled).2
  obtain ⟨r, inRails, sameRail, sameContract⟩ := rails p member
  apply fresh
  apply List.mem_map.mpr
  refine ⟨r, inRails, ?_⟩
  unfold FilecoinPayRail.pkey
  rw [← sameRail, ← sameContract, rail, contract]

theorem effect_asOf {step : Step} (effect : Effect cfg db step next) (after : step.After cfg q) (rails : RailsStored db) :
    next.sources.asOf cfg q = db.sources.asOf cfg q := by
  cases effect with
  | bindings tokensMap log orchestrators admissions pairs change =>
      have same : pairs.view (fun sp => cfg.knownBy q sp.fromEpoch) (·.asOf cfg q) (ServicePair.asOf_pkey cfg q) =
          db.servicePair.view (fun sp => cfg.knownBy q sp.fromEpoch) (·.asOf cfg q) (ServicePair.asOf_pkey cfg q) :=
        Table.ext (pairs_asOf change after.1)
      exact congrArg (fun pairs => ({ db.sources.asOf cfg q with servicePair := pairs } : DB)) same
  | postings => rfl
  | lists tokensMap log stablecoins filecoinPayContracts contracts tokens mv contractRows tokenRows synced =>
      have sameContracts : contracts.view (fun c => cfg.knownBy q c.admittanceEpoch) (·.asOf cfg q)
          (FilecoinPayContract.asOf_pkey cfg q) = db.filecoinPayContract.view (fun c => cfg.knownBy q c.admittanceEpoch)
            (·.asOf cfg q) (FilecoinPayContract.asOf_pkey cfg q) :=
        Table.ext (contracts_step_asOf after.1 _ _ contractRows)
      have sameTokens : tokens.view (fun t => cfg.knownBy q t.admittanceEpoch) (·.asOf cfg q)
          (WhitelistedToken.asOf_pkey cfg q) = db.whitelistedToken.view (fun t => cfg.knownBy q t.admittanceEpoch)
            (·.asOf cfg q) (WhitelistedToken.asOf_pkey cfg q) :=
        Table.ext (tokens_step_asOf after.1 _ _ tokensMap tokenRows)
      exact congrArg₂ (fun contracts tokens =>
        ({ db.sources.asOf cfg q with filecoinPayContract := contracts, whitelistedToken := tokens } : DB))
        sameContracts sameTokens
  | parameters tokensMap log parameters mv added rows fresh synced =>
      have same := Table.view_append (fun p => cfg.knownBy q p.updateEpoch) id (fun _ => rfl) rows (by
          intro row member
          have epoch : row.updateEpoch = log.blockNumber := congrArg Position.epoch (fresh row member).1
          rw [epoch, unknown_of_lt after.1]
          exact Bool.false_ne_true)
      exact congrArg (fun parameters => ({ db.sources.asOf cfg q with serviceRewardsActorParameter := parameters } : DB))
        same
  | shares tokensMap log n recipientCount totalUsd event volumes mv rows synced =>
      have late := after.2 n recipientCount totalUsd event
      have same := Table.view_append_singleton (fun v => (v.quarterNum : Int) < q) id (fun _ => rfl) rows
        (decide_eq_false (not_lt.mpr late))
      exact congrArg (fun volumes => ({ db.sources.asOf cfg q with quarterBoundVolume := volumes } : DB)) same
  | rail row stored rows =>
      have fresh : row.pkey ∉ db.filecoinPayRail.rows.map (·.pkey) := by
        have keys := stored.nodup
        rw [rows, List.map_append, List.map_singleton] at keys
        intro member
        exact (List.nodup_append.mp keys).2.2 _ member _ (List.mem_singleton_self _) rfl
      have same := Table.view_append_singleton (db.usesRail cfg q) id (fun _ => rfl) rows
        (usesRail_of_fresh rails fresh)
      exact congrArg (fun rails => ({ db.sources.asOf cfg q with filecoinPayRail := rails } : DB)) same
  | payment input payments payment rows same rail =>
      have unknown : cfg.knownBy q payment.settledAtEpoch = false := by
        rw [same]
        exact unknown_of_lt after
      have samePayments :=
        Table.view_append_singleton (fun p : FilecoinPayPayment => cfg.knownBy q p.settledAtEpoch) id (fun _ => rfl) rows
          unknown
      have sameUses : ({ db with filecoinPayPayment := payments } : DB).usesRail cfg q = db.usesRail cfg q := by
        funext r
        unfold DB.usesRail
        rw [rows, List.any_append]
        simp [unknown]
      have sameRails : db.filecoinPayRail.view (({ db with filecoinPayPayment := payments } : DB).usesRail cfg q) id
          (fun _ => rfl) = db.filecoinPayRail.view (db.usesRail cfg q) id fun _ => rfl := by
        rw [sameUses]
      exact congrArg₂ (fun payments rails =>
        ({ db.sources.asOf cfg q with filecoinPayPayment := payments, filecoinPayRail := rails } : DB))
        samePayments sameRails
  | auction services transfer chainTx token auctions mv auction rows same synced =>
      have unknown : cfg.knownBy q auction.auctionedAtEpoch = false := by
        rw [same]
        exact unknown_of_lt after
      have sameAuctions :=
        Table.view_append_singleton (fun a : FilecoinPayFeeAuction => cfg.knownBy q a.auctionedAtEpoch) id (fun _ => rfl)
          rows unknown
      exact congrArg (fun auctions => ({ db.sources.asOf cfg q with filecoinPayFeeAuction := auctions } : DB))
        sameAuctions
  | nothing => rfl

theorem run_asOf {steps : List Step} (run : steps.foldlM (Step.apply cfg) db = .ok next)
    (after : ∀ step ∈ steps, step.After cfg q) (rails : RailsStored db) :
    next.sources.asOf cfg q = db.sources.asOf cfg q := by
  have kept := foldlM_induction run
    (fun _ db' => RailsStored db' ∧ db'.sources.asOf cfg q = db.sources.asOf cfg q) ⟨rails, rfl⟩ (by
      intro past step rest before later whole holds applied
      have effect := apply_effect applied
      refine ⟨holds.1.step effect, ?_⟩
      exact (effect_asOf effect (after step (by simp [whole])) holds.1).trans holds.2)
  exact kept.2

end Steps

section Closed
variable {cfg : Deployment} {q : QuarterNumber}

theorem lt_quarterNum {epoch : Int} (later : cfg.quarterEndEpoch q.intValue < epoch) :
    (q.intValue : Int) < cfg.quarterNum epoch := by
  rw [← not_le, cfg.quarterNum_le_iff (Int.natCast_nonneg _), not_le]
  exact later

theorem steps_after {batch : Batch} {steps : List Step} (listed : batch.steps = .ok steps) (after : batch.After cfg q) :
    ∀ step ∈ steps, step.After cfg q.intValue := by
  intro step member
  cases batch with
  | serviceRewardsActor services logs =>
      obtain ⟨tokensMap, -, mapped⟩ := bind_eq_ok.mp listed
      rw [← pure_eq_ok.mp mapped] at member
      obtain ⟨log, inLogs, rfl⟩ := List.mem_map.mp member
      obtain ⟨late, shares⟩ := after log inLogs
      refine ⟨lt_quarterNum late, ?_⟩
      intro n recipientCount totalUsd event
      exact_mod_cast shares n recipientCount totalUsd event
  | filecoinPayV1 logs =>
      cases listed
      rcases List.mem_append.mp member with rail | payment
      · obtain ⟨row, -, rfl⟩ := List.mem_map.mp rail
        trivial
      · obtain ⟨input, built, rfl⟩ := List.mem_map.mp payment
        obtain ⟨log, inLogs, computed⟩ := List.mem_filterMap.mp built
        change (q.intValue : Int) < cfg.quarterNum input.settledAtEpoch
        rw [(paymentInput_spec computed).2.1]
        exact lt_quarterNum (after log inLogs)
  | auctionableToken services logs =>
      cases listed
      obtain ⟨log, inLogs, rfl⟩ := List.mem_map.mp member
      exact lt_quarterNum (after log inLogs)

theorem indexAll_asOf {db next : DB} {further : List Batch} (indexed : indexAll cfg db further = .ok next)
    (after : ∀ batch ∈ further, batch.After cfg q) (rails : RailsStored db) :
    next.sources.asOf cfg q.intValue = db.sources.asOf cfg q.intValue := by
  obtain ⟨stepss, matched, run⟩ := indexAll_steps indexed
  apply run_asOf run _ rails
  intro step member
  obtain ⟨steps, inStepss, inSteps⟩ := List.mem_flatten.mp member
  obtain ⟨batch, inFurther, listed⟩ := exists_item_of_mem_mapM (mapM_eq_ok.mpr matched) inStepss
  exact steps_after listed (after batch inFurther) step inSteps

theorem asOf_eq_of_sources {db next : DB} (configured : db.applicationConfig = some cfg.toConfig)
    (same : next.sources.asOf cfg q.intValue = db.sources.asOf cfg q.intValue)
    (synced : db.qualifiedPricePeriodsMv.rows = getQualifyingPricePeriods db)
    (syncedToo : next.qualifiedPricePeriodsMv.rows = getQualifyingPricePeriods next) :
    next.asOf cfg q.intValue = db.asOf cfg q.intValue := by
  have configuredToo : next.applicationConfig = some cfg.toConfig :=
    (congrArg DB.applicationConfig same).trans configured
  have periods : next.qualifiedPricePeriodsMv.view (·.quarterNum ≤ q.intValue) id (fun _ => rfl) =
      db.qualifiedPricePeriodsMv.view (·.quarterNum ≤ q.intValue) id fun _ => rfl := by
    apply Table.ext
    rw [Table.view_rows, Table.view_rows, List.map_id, List.map_id, synced, syncedToo,
      ← getQualifyingPricePeriods_asOf configured, ← getQualifyingPricePeriods_asOf configuredToo]
    change getQualifyingPricePeriods (next.sources.asOf cfg q.intValue) =
      getQualifyingPricePeriods (db.sources.asOf cfg q.intValue)
    rw [same]
  exact congrArg₂ (fun sources mv => ({ sources with qualifiedPricePeriodsMv := mv } : DB)) same periods

/-- What is logged after a quarter changes none of its figures. -/
theorem closedQuarter_immutable (cfg : Deployment) (numericDiv : ℚ → ℚ → ℚ) (history : History) (db : DB)
    (reached : history.Reaches cfg db) (q : QuarterNumber) (further : List Batch)
    (after : ∀ batch ∈ further, batch.After cfg q) (next : DB) (indexed : indexAll cfg db further = .ok next)
    (synced : db.qualifiedPricePeriodsMv.rows = getQualifyingPricePeriods db)
    (syncedToo : next.qualifiedPricePeriodsMv.rows = getQualifyingPricePeriods next) (blockNumber blockNumber' : Int)
    (serviceOrchestrator : Option String) :
    (getQuarterlyVolume cfg numericDiv blockNumber' next serviceOrchestrator q).map figures =
      (getQuarterlyVolume cfg numericDiv blockNumber db serviceOrchestrator q).map figures := by
  have invariants := invariants_reached reached
  have same := indexAll_asOf indexed after invariants.rails
  have configuredToo : next.applicationConfig = some cfg.toConfig :=
    (congrArg DB.applicationConfig same).trans invariants.configured
  have numbered : Numbered cfg db := by
    intro qp stored
    rw [synced] at stored
    exact (supported_of_mem invariants.configured stored).quarter
  have numberedToo : Numbered cfg next := by
    intro qp stored
    rw [syncedToo] at stored
    exact (supported_of_mem configuredToo stored).quarter
  rw [figures_blockNumber numericDiv blockNumber' blockNumber, ← getQuarterlyVolume_asOf numberedToo,
    asOf_eq_of_sources invariants.configured same synced syncedToo, getQuarterlyVolume_asOf numbered]

end Closed

section Later
open AdmittedVolume Rollover

def pricedFirstQuarter : History where
  batches := [.serviceRewardsActor dollars (bootstrap ++ [⟨60, 0, "0x1", .admittedListsUpdated ["0xd"] ["0xe", "0xf"]⟩]),
    settlements "0xd" [(140, 5)],
    .filecoinPayV1 [⟨"0xf", 61, 0, "0x7", .railCreated 2 "0xp" "0xe" zeroAddress "0xo" "0xv"⟩,
      ⟨"0xf", 116, 9, "0x8", .railSettled 2 7 7 0 0⟩],
    .auctionableToken burns [withdrawal 110 100, withdrawal 111 90, withdrawal 112 110, withdrawal 113 80,
      withdrawal 114 120, withdrawal 120 105]]
  ordered := by unfold ChainOrdered; decide

def secondQuarterLogs : List Batch :=
  [.serviceRewardsActor dollars [⟨250, 0, "0x3", .admittedListsUpdated ["0xc"] ["0xb"]⟩,
      ⟨260, 0, "0x3", .orchestratorAdmitted "0xb" "0xb"⟩, ⟨261, 0, "0x3", .bindingReassigned "0xp" "0xo" "0xb" true⟩,
      ⟨270, 0, "0x3", .pricingParamsUpdated 99 2 1 1 5⟩, ⟨280, 0, "0x3", .sharesSubmitted 1 1 1000⟩],
    .filecoinPayV1 [⟨"0xf", 255, 9, "0x8", .railSettled 1 9 9 0 0⟩],
    .auctionableToken burns [withdrawal 275 500]]

theorem pricedFirstQuarter_reached :
    pricedFirstQuarter.Reaches hundredEpochs (pricedFirstQuarter.database hundredEpochs) :=
  History.reaches_database (by decide +kernel)

theorem secondQuarterLogs_after : ∀ batch ∈ secondQuarterLogs, batch.After hundredEpochs firstQuarter := by
  intro batch member
  simp only [secondQuarterLogs, List.mem_cons, List.not_mem_nil, or_false] at member
  rcases member with rfl | rfl | rfl
  · simp [Batch.After, hundredEpochs, everyHundredEpochs, firstQuarter, Config.quarterEndEpoch, Config.quarterStartEpoch]
  · simp [Batch.After, hundredEpochs, everyHundredEpochs, firstQuarter, Config.quarterEndEpoch, Config.quarterStartEpoch]
  · simp [Batch.After, hundredEpochs, everyHundredEpochs, firstQuarter, Config.quarterEndEpoch, Config.quarterStartEpoch, withdrawal]

theorem secondQuarterLogs_indexed : ∃ next,
    indexAll hundredEpochs (pricedFirstQuarter.database hundredEpochs) secondQuarterLogs = .ok next ∧
      decide (next.qualifiedPricePeriodsMv.rows = getQualifyingPricePeriods next) = true :=
  exists_of_map_eq_ok (by decide +kernel)

theorem closedQuarter_immutable_secondQuarterLogs : ∃ next,
    indexAll hundredEpochs (pricedFirstQuarter.database hundredEpochs) secondQuarterLogs = .ok next ∧
      (getQuarterlyVolume hundredEpochs (· / ·) 300 next (some "0xa") firstQuarter).map figures =
        (getQuarterlyVolume hundredEpochs (· / ·) 200 (pricedFirstQuarter.database hundredEpochs) (some "0xa")
          firstQuarter).map figures := by
  obtain ⟨next, indexed, synced⟩ := secondQuarterLogs_indexed
  exact ⟨next, indexed, closedQuarter_immutable hundredEpochs (· / ·) pricedFirstQuarter _ pricedFirstQuarter_reached
    firstQuarter secondQuarterLogs secondQuarterLogs_after next indexed (by decide +kernel) (of_decide_eq_true synced)
    200 300 (some "0xa")⟩

example : ((getQuarterlyVolume hundredEpochs (· / ·) 200 (pricedFirstQuarter.database hundredEpochs) (some "0xa")
    firstQuarter).map figures).map (fun f => (f.1, f.2.1)) = .ok (5, 735) := by decide +kernel

end Later

end Proof.ClosedQuarters
end FpvIndexer
