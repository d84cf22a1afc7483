import FpvIndexer.Proof.ClosedQuarters
import FpvIndexer.Services.IndexerOrchestrator

namespace FpvIndexer
namespace Proof.Freshness
open Relational PriceBand Handlers AsOf ClosedQuarters

def Fresh (db : DB) : Prop := db.qualifiedPricePeriodsMv.rows = getQualifyingPricePeriods db

section Reads
variable {db next : DB}

theorem fresh_of_refresh (refreshed : db.refreshQualifiedPricePeriodsMv = .ok next) : Fresh next := by
  obtain ⟨mv, rfl, synced⟩ := refresh_eq_ok refreshed
  exact synced

end Reads

section Contracts
variable {cfg : Config} {db : DB} {contracts : Table FilecoinPayContract FilecoinPayContract.pkey}
  {address : Address} {quarterNum : Int}

def withContracts (db : DB) (contracts : Table FilecoinPayContract FilecoinPayContract.pkey) : DB :=
  { db with filecoinPayContract := contracts }

theorem contractExists_of_listings {db next : DB}
    (same : next.filecoinPayContract.rows.filter (·.contractAddress = address) =
      db.filecoinPayContract.rows.filter (·.contractAddress = address)) :
    contractExists cfg next address quarterNum = contractExists cfg db address quarterNum := by
  let key := fun c : ContractByQuarter => (c.contractAddress, c.admittanceQuarterNum)
  let ours := fun c : ContractByQuarter => decide (c.contractAddress = address)
  have listings : ∀ db : DB, (contracts cfg db).filter ours = distinctOn key (orderBy (fun c => toLex (c.contractAddress,
      toLex (c.admittanceQuarterNum, OrderDual.toDual (⟨c.admittanceEpoch, c.admittanceLogIndex⟩ : Position))))
      (((db.filecoinPayContract.rows.filter (·.contractAddress = address)).map fun c =>
        ⟨c, cfg.quarterNum c.admittanceEpoch, c.removalEpoch.map cfg.quarterNum⟩).filter fun c =>
          c.removalQuarterNum.all (c.admittanceQuarterNum < ·))) := by
    intro db
    unfold contracts contractsByQuarter
    rw [filter_distinctOn, filter_orderBy, List.filter_comm, List.filter_map]
    · rfl
    · intro a b sameKey
      dsimp only [ours]
      rw [(Prod.mk.inj sameKey).1]
  have within : ∀ db : DB, contractExists cfg db address quarterNum = ((contracts cfg db).filter ours).any fun c =>
      decide (address = c.contractAddress ∧ c.admittanceQuarterNum < quarterNum ∧
        c.removalQuarterNum.all (quarterNum ≤ ·)) := by
    intro db
    rw [List.any_filter]
    unfold contractExists
    congr 1
    funext c
    by_cases own : c.contractAddress = address
    · simp [ours, own]
    · simp [ours, own, Ne.symm own]
  rw [within, within, listings, listings, same]

theorem contractExists_change {log : ServiceRewardsActorLog} {removed added : List Address}
    (rows : contracts.rows =
      db.filecoinPayContract.rows.map (removedContract log removed) ++ added.map (admittedContract log))
    (apart : cfg.quarterNum log.blockNumber < quarterNum → address ∉ removed ++ added) :
    contractExists cfg (withContracts db contracts) address quarterNum = contractExists cfg db address quarterNum := by
  rcases le_or_gt quarterNum (cfg.quarterNum log.blockNumber) with closed | later
  · have before : cfg.quarterNum log.blockNumber - 1 < cfg.quarterNum log.blockNumber := by omega
    have same := contracts_step_asOf before removed added rows
    have known : quarterNum ≤ cfg.quarterNum log.blockNumber - 1 + 1 := by omega
    refine (contractExists_asOf known address).symm.trans (Eq.trans ?_ (contractExists_asOf known address))
    apply contractExists_of_listings
    rw [DB.asOf_contracts, DB.asOf_contracts]
    exact congrArg _ same
  · obtain ⟨kept, unlisted⟩ := not_or.mp (List.mem_append.not.mp (apart later))
    apply contractExists_of_listings
    change contracts.rows.filter _ = _
    have none : (added.map (admittedContract log)).filter (·.contractAddress = address) = [] := by
      apply List.filter_eq_nil_iff.mpr
      intro c member
      obtain ⟨new, inAdded, rfl⟩ := List.mem_map.mp member
      intro own
      rw [decide_eq_true_eq] at own
      exact unlisted (own ▸ inAdded)
    have unchanged : (db.filecoinPayContract.rows.map (removedContract log removed)).filter (·.contractAddress = address) =
        db.filecoinPayContract.rows.filter (·.contractAddress = address) := by
      have same : ∀ c ∈ db.filecoinPayContract.rows,
          decide ((removedContract log removed c).contractAddress = address) = decide (c.contractAddress = address) ∧
            (decide (c.contractAddress = address) → id (removedContract log removed c) = id c) := by
        intro c _
        unfold removedContract
        split
        · rename_i dropped
          refine ⟨rfl, fun own => ?_⟩
          rw [decide_eq_true_eq] at own
          exact absurd dropped.1 (own ▸ kept)
        · exact ⟨rfl, fun _ => rfl⟩
      have view := Table.filter_map_view (fun c : FilecoinPayContract => decide (c.contractAddress = address)) id same
      rwa [List.map_id, List.map_id] at view
    rw [rows, List.filter_append, none, List.append_nil, unchanged]

theorem getQualifyingPricePeriods_withContracts (db : DB)
    (contracts : Table FilecoinPayContract FilecoinPayContract.pkey) (same : ∀ cfg, db.applicationConfig = some cfg →
      ∀ a ∈ db.filecoinPayFeeAuction.rows, contractExists cfg (withContracts db contracts) a.filecoinPayContractAddress
        (cfg.quarterNum a.auctionedAtEpoch) =
          contractExists cfg db a.filecoinPayContractAddress (cfg.quarterNum a.auctionedAtEpoch)) :
    getQualifyingPricePeriods (withContracts db contracts) = getQualifyingPricePeriods db := by
  have config : (withContracts db contracts).applicationConfig = db.applicationConfig := rfl
  unfold getQualifyingPricePeriods
  rw [config]
  cases configured : db.applicationConfig with
  | none => rfl
  | some cfg =>
      have auctions : whitelistedAuctions cfg (withContracts db contracts) = whitelistedAuctions cfg db := by
        apply List.filterMap_congr
        intro a member
        unfold whitelistedAuction
        dsimp only
        rw [same cfg configured a member]
        rfl
      have substantial : ∀ count,
          substantialAuctions cfg (withContracts db contracts) count = substantialAuctions cfg db count := by
        intro count
        unfold substantialAuctions
        rw [auctions]
        rfl
      have flagged : ∀ s qIndex,
          flaggedAuctions cfg (withContracts db contracts) s qIndex = flaggedAuctions cfg db s qIndex := by
        intro s qIndex
        unfold flaggedAuctions medians seedAuctionsRanked seedAuctions quarterAuctions
        rw [substantial]
        rfl
      have iterations : iteration cfg (withContracts db contracts) = iteration cfg db := by
        funext s qIndex
        unfold iteration quarterResults
        rw [flagged]
      dsimp only
      rw [iterations]
      rfl

end Contracts

section Lists
variable (tokensMap : List (Address × ERC20Metadata)) (db : DB)

def removedContracts (filecoinPayContracts : List Address) : List Address :=
  db.whitelistedContractsAddresses.filter (· ∉ filecoinPayContracts.map (·.toLowerCase))

def addedContracts (filecoinPayContracts : List Address) : List Address :=
  (filecoinPayContracts.map (·.toLowerCase)).filter (· ∉ db.whitelistedContractsAddresses)

def removedTokens (stablecoins : List Address) : List Address :=
  db.whitelistedTokensAddresses.filter (· ∉ stablecoins.map (·.toLowerCase))

def addedTokens (stablecoins : List Address) : List Address :=
  (stablecoins.map (·.toLowerCase)).filter (· ∉ db.whitelistedTokensAddresses)

def changedContracts (log : ServiceRewardsActorLog) : List Address :=
  match log.event with
  | .admittedListsUpdated _ filecoinPayContracts =>
      removedContracts db filecoinPayContracts ++ addedContracts db filecoinPayContracts
  | _ => []

/-- A statement on a table with a trigger follows what the log changes. -/
def Refreshes (log : ServiceRewardsActorLog) : Prop :=
  match log.event with
  | .pricingParamsUpdated .. => True
  | .sharesSubmitted .. => True
  | .admittedListsUpdated stablecoins filecoinPayContracts =>
      (∃ token ∈ addedTokens db stablecoins, (tokensMap.lookup token).isSome) ∨
        removedTokens db stablecoins ≠ [] ∧ addedContracts db filecoinPayContracts = []
  | _ => False

/-- No auction of a later quarter was held on the contracts that the log changes. -/
def Unauctioned (log : ServiceRewardsActorLog) : Prop :=
  ∀ cfg, db.applicationConfig = some cfg → ∀ a ∈ db.filecoinPayFeeAuction.rows,
    cfg.quarterNum log.blockNumber < cfg.quarterNum a.auctionedAtEpoch →
      a.filecoinPayContractAddress ∉ changedContracts db log

variable {tokensMap db} {next : DB} {log : ServiceRewardsActorLog} {stablecoins filecoinPayContracts : List Address}

theorem removeTokens_fresh {removed : List Address} (some : removed ≠ []) (done : db.removeTokens log removed = .ok next) :
    Fresh next := by
  unfold DB.removeTokens at done
  rw [if_neg some] at done
  exact fresh_of_refresh done

theorem addTokens_fresh {added : List Address} (known : ∃ token ∈ added, (tokensMap.lookup token).isSome)
    (done : added.foldlM (DB.addToken tokensMap log) db = .ok next) : Fresh next := by
  obtain ⟨tokens, mv, rfl, rows, ⟨rfl, rfl⟩ | synced⟩ := addTokens_spec done
  · obtain ⟨token, member, isSome⟩ := known
    obtain ⟨metadata, found⟩ := Option.isSome_iff_exists.mp isSome
    have new : admittedToken log token metadata ∈ addedTokenRows tokensMap log added :=
      List.mem_filterMap.mpr ⟨token, member, by rw [found]; rfl⟩
    rw [List.append_right_eq_self.mp rows.symm] at new
    cases new
  · exact synced

theorem addTokens_keeps {added : List Address} (fresh : Fresh db)
    (done : added.foldlM (DB.addToken tokensMap log) db = .ok next) : Fresh next := by
  obtain ⟨tokens, mv, rfl, -, ⟨rfl, rfl⟩ | synced⟩ := addTokens_spec done
  · exact fresh
  · exact synced

theorem updatedAdmittedLists_of_refreshes (event : log.event = .admittedListsUpdated stablecoins filecoinPayContracts)
    (updated : updatedAdmittedLists tokensMap db log stablecoins filecoinPayContracts = .ok next)
    (refreshes : Refreshes tokensMap db log) : Fresh next := by
  unfold Refreshes at refreshes
  rw [event] at refreshes
  unfold updatedAdmittedLists at updated
  obtain ⟨afterTokens, tokensDone, updated⟩ := bind_eq_ok.mp updated
  obtain ⟨afterContracts, contractsDone, updated⟩ := bind_eq_ok.mp updated
  rcases refreshes with known | ⟨some, none⟩
  · exact addTokens_fresh known updated
  · have fresh := removeTokens_fresh some tokensDone
    obtain ⟨contracts, rfl, rows⟩ := addContracts_spec contractsDone
    have same : contracts = afterTokens.filecoinPayContract := by
      unfold addedContracts at none
      apply Table.ext
      rw [rows, none, List.map_nil, List.append_nil]
    rw [same] at updated
    exact addTokens_keeps fresh updated

theorem updatedAdmittedLists_of_unauctioned (event : log.event = .admittedListsUpdated stablecoins filecoinPayContracts)
    (updated : updatedAdmittedLists tokensMap db log stablecoins filecoinPayContracts = .ok next) (fresh : Fresh db)
    (unauctioned : Unauctioned db log) : Fresh next := by
  unfold Unauctioned changedContracts at unauctioned
  rw [event] at unauctioned
  unfold updatedAdmittedLists at updated
  obtain ⟨removed, removedEq, removedRows⟩ := removeContracts_spec db log (removedContracts db filecoinPayContracts)
  obtain ⟨afterTokens, tokensDone, updated⟩ := bind_eq_ok.mp updated
  obtain ⟨afterContracts, contractsDone, updated⟩ := bind_eq_ok.mp updated
  apply addTokens_keeps _ updated
  obtain ⟨tokens, mv, rfl, -, synced⟩ := removeTokens_spec tokensDone
  obtain ⟨contracts, rfl, rows⟩ := addContracts_spec contractsDone
  unfold removedContracts at removedEq
  rw [removedEq] at rows synced ⊢
  rcases synced with ⟨rfl, rfl⟩ | synced
  · rw [removedRows] at rows
    have same := getQualifyingPricePeriods_withContracts db contracts
      fun cfg configured a member => contractExists_change rows (unauctioned cfg configured a member)
    exact fresh.trans same.symm
  · -- the tokens are refreshed between the removed contracts and the added ones
    let mid : DB := { db with filecoinPayContract := removed, whitelistedToken := tokens, qualifiedPricePeriodsMv := mv }
    have onlyAdded : contracts.rows = mid.filecoinPayContract.rows.map (removedContract log []) ++
        (addedContracts db filecoinPayContracts).map (admittedContract log) := by
      rw [removedContract_nil, List.map_id]
      exact rows
    have same := getQualifyingPricePeriods_withContracts mid contracts
      fun cfg configured a member => contractExists_change onlyAdded fun later =>
        fun listed => unauctioned cfg configured a member later (List.mem_append_right _ listed)
    exact synced.trans same.symm

end Lists

section Handler
variable {cfg : Deployment} {db next : DB} {tokensMap : List (Address × ERC20Metadata)} {log : ServiceRewardsActorLog}

theorem handleLog_fresh (handled : ServiceRewardsActorIndexer.handleLog cfg tokensMap db log = .ok next)
    (fresh : Refreshes tokensMap db log ∨ Fresh db ∧ Unauctioned db log) : Fresh next := by
  unfold ServiceRewardsActorIndexer.handleLog at handled
  split at handled
  · rename_i event
    obtain ⟨_, _, rfl⟩ := admitOrchestrator_spec handled
    exact (fresh.resolve_left (by simp [Refreshes, event])).1
  · rename_i event
    cases handled
    exact (fresh.resolve_left (by simp [Refreshes, event])).1
  · rename_i event
    cases handled
    exact (fresh.resolve_left (by simp [Refreshes, event])).1
  · rename_i event
    obtain ⟨_, rfl⟩ := createBinding_frame handled
    exact (fresh.resolve_left (by simp [Refreshes, event])).1
  · rename_i event
    obtain ⟨_, rfl⟩ := reassignBinding_frame handled
    exact (fresh.resolve_left (by simp [Refreshes, event])).1
  · rename_i event
    cases handled
    exact (fresh.resolve_left (by simp [Refreshes, event])).1
  · rename_i event
    rcases fresh with refreshes | ⟨held, unauctioned⟩
    · exact updatedAdmittedLists_of_refreshes event handled refreshes
    · exact updatedAdmittedLists_of_unauctioned event handled held unauctioned
  · obtain ⟨_, _, _, rfl, -, -, synced⟩ := updatePricingParams_spec handled
    exact synced
  · rename_i event
    obtain ⟨_, rfl⟩ := postVolume_spec handled
    exact (fresh.resolve_left (by simp [Refreshes, event])).1
  · rename_i event
    obtain ⟨_, rfl⟩ := postVolume_spec handled
    exact (fresh.resolve_left (by simp [Refreshes, event])).1
  · obtain ⟨_, _, rfl, -, synced⟩ := submitShares_spec handled
    exact synced

end Handler

section Batches
variable (cfg : Deployment) (tokensMap : List (Address × ERC20Metadata))

def RefreshesLater : DB → List ServiceRewardsActorLog → Prop
  | _, [] => False
  | db, log :: rest => Refreshes tokensMap db log ∨
      ∃ next, ServiceRewardsActorIndexer.handleLog cfg tokensMap db log = .ok next ∧ RefreshesLater next rest

/-- Each log that changes the contracts of later auctions is followed by a refresh in its batch. -/
def Covered : DB → List ServiceRewardsActorLog → Prop
  | _, [] => True
  | db, log :: rest => (Unauctioned db log ∨ RefreshesLater cfg tokensMap db (log :: rest)) ∧
      ∀ next, ServiceRewardsActorIndexer.handleLog cfg tokensMap db log = .ok next → Covered next rest

variable {cfg tokensMap} {db final : DB} {logs : List ServiceRewardsActorLog}

theorem handleLogs_fresh (run : logs.foldlM (ServiceRewardsActorIndexer.handleLog cfg tokensMap) db = .ok final)
    (covered : Covered cfg tokensMap db logs) (fresh : Fresh db ∨ RefreshesLater cfg tokensMap db logs) :
    Fresh final := by
  induction logs generalizing db with
  | nil =>
      rw [List.foldlM_nil, pure_eq_ok] at run
      exact run ▸ fresh.resolve_right id
  | cons log rest ih =>
      obtain ⟨here, later⟩ := covered
      rw [List.foldlM_cons, bind_eq_ok] at run
      obtain ⟨next, handled, onward⟩ := run
      apply ih onward (later next handled)
      have refreshed : RefreshesLater cfg tokensMap db (log :: rest) → Fresh next ∨ RefreshesLater cfg tokensMap next rest := by
        rintro (refreshes | ⟨next', handled', refreshes⟩)
        · exact Or.inl (handleLog_fresh handled (Or.inl refreshes))
        · rw [handled] at handled'
          cases handled'
          exact Or.inr refreshes
      rcases here with unauctioned | refreshes
      · rcases fresh with held | refreshes
        · exact Or.inl (handleLog_fresh handled (Or.inr ⟨held, unauctioned⟩))
        · exact refreshed refreshes
      · exact refreshed refreshes

theorem payments_fresh {logs : List FilecoinPayV1Log} (run : FilecoinPayV1Indexer.updateDb db logs = .ok final)
    (fresh : Fresh db) : Fresh final := by
  unfold FilecoinPayV1Indexer.updateDb at run
  obtain ⟨mid, rails, payments⟩ := bind_eq_ok.mp run
  have afterRails : Fresh mid := by
    refine foldlM_induction rails (fun _ db => Fresh db) fresh ?_
    intro past row rest db next whole held inserted
    obtain ⟨_, rfl, -⟩ := insertRail_spec inserted
    exact held
  refine foldlM_induction payments (fun _ db => Fresh db) afterRails ?_
  intro past input rest db next whole held inserted
  obtain ⟨_, _, rfl, -⟩ := insertPayment_spec inserted
  exact held

theorem transfers_fresh {services : AuctionServices} {logs : List TransferLog}
    (run : AuctionableTokenIndexer.updateDb services db logs = .ok final) (fresh : Fresh db) : Fresh final := by
  refine foldlM_induction run (fun _ db => Fresh db) fresh ?_
  intro past transfer rest db next whole held handled
  rcases transfer_spec handled with rfl | ⟨chainTx, token, inserted⟩
  · exact held
  · obtain ⟨_, _, _, rfl, -, -, -, synced⟩ := insertAuction_spec inserted
    exact synced

end Batches

section Transactions
variable {store next : Store}

def Refreshing (store : Store) : DbTransaction → Prop
  | .run _ _ _ (.batch cfg (.serviceRewardsActor services logs)) => ∀ tokensMap,
      fetchTokensMap services logs = .ok tokensMap → Covered cfg tokensMap store.toDB logs
  | _ => True

theorem refreshed_fresh (refreshed : store.refreshed = .ok next) : Fresh next.toDB := by
  unfold Store.refreshed at refreshed
  obtain ⟨db, synced, refreshed⟩ := bind_eq_ok.mp refreshed
  obtain rfl := pure_eq_ok.mp refreshed
  exact fresh_of_refresh synced

theorem cleanup_fresh (cleaned : cleanup store = .ok next) : Fresh next.toDB := by
  unfold cleanup at cleaned
  obtain ⟨_, -, cleaned⟩ := bind_eq_ok.mp cleaned
  obtain ⟨_, -, cleaned⟩ := bind_eq_ok.mp cleaned
  obtain ⟨_, -, cleaned⟩ := bind_eq_ok.mp cleaned
  obtain ⟨_, -, cleaned⟩ := bind_eq_ok.mp cleaned
  obtain ⟨_, -, cleaned⟩ := bind_eq_ok.mp cleaned
  -- what is deleted after the parameters is not read
  obtain ⟨last, deleted, cleaned⟩ := bind_eq_ok.mp cleaned
  have fresh := refreshed_fresh deleted
  obtain rfl := pure_eq_ok.mp cleaned
  exact fresh

theorem updateDb_fresh {logs : Logs} {contractAddress : Address} {toBlock : Int} {packageMajorVersion : Nat}
    (updated : store.updateDb logs = .ok next) (fresh : Fresh store.toDB)
    (refreshing : Refreshing store (.run contractAddress toBlock packageMajorVersion logs)) : Fresh next.toDB := by
  cases logs with
  | streamWeightActor logs =>
      obtain ⟨_, -, updated⟩ := bind_eq_ok.mp updated
      obtain ⟨_, -, updated⟩ := bind_eq_ok.mp updated
      obtain ⟨_, -, updated⟩ := bind_eq_ok.mp updated
      obtain ⟨_, -, updated⟩ := bind_eq_ok.mp updated
      obtain rfl := pure_eq_ok.mp updated
      exact fresh
  | batch cfg batch =>
      obtain ⟨db, indexed, updated⟩ := bind_eq_ok.mp updated
      obtain rfl := pure_eq_ok.mp updated
      cases batch with
      | serviceRewardsActor services logs =>
          obtain ⟨tokensMap, fetched, run⟩ := bind_eq_ok.mp indexed
          exact handleLogs_fresh run (refreshing tokensMap fetched) (Or.inl fresh)
      | filecoinPayV1 logs => exact payments_fresh indexed fresh
      | auctionableToken services logs => exact transfers_fresh indexed fresh

theorem commit_fresh {tx : DbTransaction} (committed : store.commit tx = .ok next) (fresh : Fresh store.toDB)
    (refreshing : Refreshing store tx) : Fresh next.toDB := by
  cases tx with
  | run contractAddress toBlock packageMajorVersion logs =>
      obtain ⟨updated, applied, committed⟩ := bind_eq_ok.mp committed
      have kept := updateDb_fresh applied fresh refreshing
      obtain rfl := pure_eq_ok.mp committed
      exact kept
  | seedConfig values => exact refreshed_fresh committed
  | cleanup packageMajorVersion =>
      unfold Store.commit cleanupIfNeeded at committed
      dsimp only at committed
      split at committed
      · exact cleanup_fresh committed
      · cases committed
        exact fresh

/-- After every commit the view holds what the function returns. -/
theorem fresh_of_reached (store : Store) (reached : store.Reached Refreshing) : Fresh store.toDB := by
  induction reached with
  | migrated => rfl
  | commit tx _ allowed committed ih => exact commit_fresh committed ih allowed

end Transactions

section Lagging
open AdmittedVolume Rollover

def listedLogs : List ServiceRewardsActorLog :=
  [⟨50, 0, "0x1", .admittedListsUpdated ["0xd"] ["0xe"]⟩, ⟨50, 1, "0x1", .pricingParamsUpdated 10 1 1 1000 5⟩]

def sixPrices : List DbTransaction :=
  [.seedConfig hundredEpochs,
    .run "0xd" 130 1 (.batch hundredEpochs (.auctionableToken burns [withdrawal 110 100, withdrawal 111 90,
      withdrawal 112 110, withdrawal 113 80, withdrawal 114 120, withdrawal 120 105]))]

def listing : DbTransaction := .run "0xa" 70 1 (.batch hundredEpochs (.serviceRewardsActor dollars listedLogs))

theorem fresh_of_reached_sixPrices : ∃ store, (listing :: sixPrices).foldlM Store.commit (.migrated none) = .ok store ∧
    Fresh store.toDB ∧ store.qualifiedPricePeriodsMv.rows.map (·.epoch) = [120] := by
  obtain ⟨store, run, view⟩ := exists_of_map_eq_ok (f := fun s : Store => s.qualifiedPricePeriodsMv.rows.map (·.epoch))
    (b := [120]) (x := (listing :: sixPrices).foldlM Store.commit (.migrated none)) (by decide +kernel)
  refine ⟨store, run, ?_, view⟩
  rw [List.foldlM_cons, bind_eq_ok] at run
  obtain ⟨listed, first, onward⟩ := run
  have covered : Refreshing (.migrated none) listing := by
    intro tokensMap fetched
    have answers : fetchTokensMap dollars listedLogs = .ok [("0xd", ⟨18, "USD"⟩)] := by decide +kernel
    rw [answers] at fetched
    cases fetched
    exact ⟨Or.inr (Or.inl (Or.inl (by decide +kernel))), fun next handled => ⟨Or.inr (Or.inl trivial), fun _ _ => trivial⟩⟩
  apply fresh_of_reached
  apply (Store.Reached.migrated.commit listing covered first).run onward
  intro tx member store
  simp only [sixPrices, List.mem_cons, List.not_mem_nil, or_false] at member
  rcases member with rfl | rfl
  · trivial
  · trivial

def lateRemoval : DbTransaction :=
  .run "0xa" 130 1 (.batch hundredEpochs (.serviceRewardsActor dollars
    [⟨80, 0, "0x1", .admittedListsUpdated ["0xd"] ["0xf"]⟩]))

theorem lateRemoval_stale : ¬ ∀ store : Store, store.Reached (fun _ _ => True) → Fresh store.toDB := by
  intro always
  obtain ⟨store, run, stale⟩ := exists_of_map_eq_ok
    (f := fun s : Store => (s.qualifiedPricePeriodsMv.rows.map (·.epoch), (getQualifyingPricePeriods s.toDB).map (·.epoch)))
    (b := ([120], [])) (x := (listing :: sixPrices ++ [lateRemoval]).foldlM Store.commit (.migrated none))
    (by decide +kernel)
  obtain ⟨view, none⟩ := Prod.mk.inj stale
  have fresh := always store (Store.Reached.migrated.run run fun _ _ _ => trivial)
  rw [fresh, none] at view
  cases view

end Lagging

end Proof.Freshness
end FpvIndexer
