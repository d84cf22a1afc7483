import FpvIndexer.Proof.Effects
import FpvIndexer.Proof.Lists

namespace FpvIndexer
open Relational Proof

theorem removedToken_listing (log : ServiceRewardsActorLog) (removed : List Address) (t : WhitelistedToken) :
    (Handlers.removedToken log removed t).listing = t.listing.remove log removed := by
  unfold Handlers.removedToken Listing.remove
  by_cases h : t.tokenAddress ∈ removed ∧ t.removalEpoch = none
  · rw [if_pos h, if_pos (show t.listing.address ∈ removed ∧ t.listing.removalEpoch = none from h)]
    rfl
  · rw [if_neg h, if_neg (show ¬ (t.listing.address ∈ removed ∧ t.listing.removalEpoch = none) from h)]

theorem removedContract_listing (log : ServiceRewardsActorLog) (removed : List Address) (c : FilecoinPayContract) :
    (Handlers.removedContract log removed c).listing = c.listing.remove log removed := by
  unfold Handlers.removedContract Listing.remove
  by_cases h : c.contractAddress ∈ removed ∧ c.removalEpoch = none
  · rw [if_pos h, if_pos (show c.listing.address ∈ removed ∧ c.listing.removalEpoch = none from h)]
    rfl
  · rw [if_neg h, if_neg (show ¬ (c.listing.address ∈ removed ∧ c.listing.removalEpoch = none) from h)]

namespace Proof.Reachable
open Handlers Effects

def RailsStored (db : DB) : Prop :=
  ∀ p ∈ db.filecoinPayPayment.rows, ∃ r ∈ db.filecoinPayRail.rows,
    p.railId = r.railId ∧ p.filecoinPayContractAddress = r.filecoinPayContractAddress

structure Invariants (cfg : Deployment) (past : List ServiceRewardsActorLog) (db : DB) : Prop where
  configured : db.applicationConfig = some cfg.toConfig
  bindings : Bindings.Invariant past db.servicePair.rows
  contracts : Lists.Invariant past (db.filecoinPayContract.rows.map (·.listing))
  tokens : Lists.Invariant past (db.whitelistedToken.rows.map (·.listing))
  parameters : ∀ p ∈ db.serviceRewardsActorParameter.rows, ∃ n : Nat, p.parameterValue = n
  volumes : ∀ v ∈ db.quarterBoundVolume.rows, ∃ n : Nat, v.volumeAttoUsd = n
  rails : RailsStored db
  -- the lists of contracts have no trigger, so the view may be computed from an earlier one
  priced : ∃ listed, db.qualifiedPricePeriodsMv.rows =
    getQualifyingPricePeriods { db with filecoinPayContract := listed }

variable {cfg : Deployment} {past : List ServiceRewardsActorLog} {db next : DB}

theorem invariants_seeded (cfg : Deployment) : Invariants cfg [] (DB.seeded cfg) where
  configured := rfl
  bindings := Bindings.invariant_nil
  contracts := Lists.invariant_nil
  tokens := Lists.invariant_nil
  parameters := by simp [DB.seeded]
  volumes := by simp [DB.seeded]
  rails := by simp [RailsStored, DB.seeded]
  priced := ⟨.empty, rfl⟩

theorem Invariants.weaken {log : ServiceRewardsActorLog} (inv : Invariants cfg past db) :
    Invariants cfg (past ++ [log]) db :=
  { inv with
    bindings := inv.bindings.weaken
    contracts := inv.contracts.weaken
    tokens := inv.tokens.weaken }

theorem free_of_announced {listings : List Listing} (holds : Lists.Invariant past listings)
    {announced whitelisted : List Address}
    (covers : ∀ l ∈ listings, l.removalEpoch = none → l.address.toLowerCase ∈ whitelisted) {l : Listing}
    (member : l ∈ listings) (isOpen : l.removalEpoch = none) :
    l.address ∉ (announced.map (·.toLowerCase)).filter (· ∉ whitelisted) := by
  intro added
  have inList := covers l member isOpen
  rw [holds.lower l member] at inList
  exact of_decide_eq_true (List.mem_filter.mp added).2 inList

theorem lower_of_announced {announced whitelisted : List Address} :
    ∀ a ∈ (announced.map (·.toLowerCase)).filter (· ∉ whitelisted), a.toLowerCase = a := by
  intro a member
  obtain ⟨b, -, rfl⟩ := List.mem_map.mp (List.mem_of_mem_filter member)
  exact Address.toLowerCase_toLowerCase b

section Listings
variable {α : Type} {key : α → Address × Int × Nat} {listing : α → Listing} {log : ServiceRewardsActorLog}

theorem keys_eq {rows : List α}
    (keyed : ∀ row, key row = ((listing row).address, (listing row).start.epoch, (listing row).start.logIndex))
    (here : ∀ row ∈ rows, (listing row).start = log.position) :
    rows.map key = (rows.map fun row => (listing row).address).map fun a => (a, log.blockNumber, log.logIndex) := by
  rw [List.map_map]
  apply List.map_congr_left
  intro row member
  rw [keyed, here row member]
  rfl

theorem listings_step {leave : α → α} {before new : List α} {removed announced whitelisted : List Address}
    (inv : Lists.Invariant past (before.map listing)) (later : ∀ earlier ∈ past, earlier.position < log.position)
    (keyed : ∀ row, key row = ((listing row).address, (listing row).start.epoch, (listing row).start.logIndex))
    (nodup : ((before.map leave ++ new).map key).Nodup)
    (leaves : ∀ row, listing (leave row) = (listing row).remove log removed)
    (covers : ∀ row ∈ before, (listing row).removalEpoch = none → (listing row).address.toLowerCase ∈ whitelisted)
    (admitted : ∀ row ∈ new, listing row = Listing.admitted log (listing row).address)
    (fresh : ∀ row ∈ new, (listing row).address ∈ (announced.map (·.toLowerCase)).filter (· ∉ whitelisted)) :
    Lists.Invariant (past ++ [log]) ((before.map leave ++ new).map listing) := by
  have listings : (before.map leave ++ new).map listing = (before.map listing).map (Listing.remove log removed) ++
      (new.map fun row => (listing row).address).map (Listing.admitted log) := by
    rw [List.map_append, List.map_map, List.map_map, List.map_map]
    congr 1
    · exact List.map_congr_left fun row _ => leaves row
    · exact List.map_congr_left admitted
  rw [listings]
  apply inv.admit later
  · intro a member
    obtain ⟨row, inNew, rfl⟩ := List.mem_map.mp member
    exact lower_of_announced _ (fresh row inNew)
  · rw [List.map_append] at nodup
    have distinct := (List.nodup_append.mp nodup).2.1
    rw [keys_eq keyed fun row inNew => congrArg Listing.start (admitted row inNew)] at distinct
    exact distinct.of_map _
  · intro l member isOpen inAdded
    obtain ⟨row, inNew, same⟩ := List.mem_map.mp inAdded
    refine free_of_announced inv ?_ member isOpen (same ▸ fresh row inNew)
    intro l member isOpen
    obtain ⟨old, inRows, rfl⟩ := List.mem_map.mp member
    exact covers old inRows isOpen

end Listings

theorem contracts_step (inv : Lists.Invariant past (db.filecoinPayContract.rows.map (·.listing))) {log : ServiceRewardsActorLog}
    (later : ∀ earlier ∈ past, earlier.position < log.position) {filecoinPayContracts : List Address}
    {contracts : Table FilecoinPayContract FilecoinPayContract.pkey} {removed : List Address}
    (rows : contracts.rows = db.filecoinPayContract.rows.map (removedContract log removed) ++
      ((filecoinPayContracts.map (·.toLowerCase)).filter (· ∉ db.whitelistedContractsAddresses)).map
        (admittedContract log)) :
    Lists.Invariant (past ++ [log]) (contracts.rows.map (·.listing)) := by
  have nodup := contracts.nodup
  rw [rows] at nodup ⊢
  apply listings_step inv later (fun c => rfl) nodup (removedContract_listing log removed)
  · intro c member isOpen
    exact List.mem_map.mpr ⟨c, List.mem_filter.mpr ⟨member, decide_eq_true isOpen⟩, rfl⟩
  · intro c member
    obtain ⟨a, -, rfl⟩ := List.mem_map.mp member
    rfl
  · intro c member
    obtain ⟨a, added, rfl⟩ := List.mem_map.mp member
    exact added

theorem tokens_step (inv : Lists.Invariant past (db.whitelistedToken.rows.map (·.listing))) {log : ServiceRewardsActorLog}
    (later : ∀ earlier ∈ past, earlier.position < log.position) {stablecoins : List Address}
    {tokensMap : List (Address × ERC20Metadata)} {tokens : Table WhitelistedToken WhitelistedToken.pkey}
    {removed : List Address}
    (rows : tokens.rows = db.whitelistedToken.rows.map (removedToken log removed) ++
      addedTokenRows tokensMap log
        ((stablecoins.map (·.toLowerCase)).filter (· ∉ db.whitelistedTokensAddresses))) :
    Lists.Invariant (past ++ [log]) (tokens.rows.map (·.listing)) := by
  have nodup := tokens.nodup
  rw [rows] at nodup ⊢
  apply listings_step inv later (fun t => rfl) nodup (removedToken_listing log removed)
  · intro t member isOpen
    exact List.mem_map.mpr ⟨t, List.mem_filter.mpr ⟨member, decide_eq_true isOpen⟩, rfl⟩
  · intro t member
    obtain ⟨a, -, found⟩ := List.mem_filterMap.mp member
    obtain ⟨metadata, -, rfl⟩ := Option.map_eq_some_iff.mp found
    rfl
  · intro t member
    obtain ⟨a, added, found⟩ := List.mem_filterMap.mp member
    obtain ⟨metadata, -, rfl⟩ := Option.map_eq_some_iff.mp found
    exact added

theorem Invariants.actor (inv : Invariants cfg past db) {log : ServiceRewardsActorLog}
    (later : ∀ earlier ∈ past, earlier.position < log.position) {tokensMap : List (Address × ERC20Metadata)}
    (effect : Effect cfg db (.actor tokensMap log) next) : Invariants cfg (past ++ [log]) next := by
  have weak : Invariants cfg (past ++ [log]) db := inv.weaken
  cases effect with
  | bindings _ _ orchestrators admissions pairs change => exact { weak with bindings := inv.bindings.step later change }
  | postings _ _ volumes => exact { weak with }
  | lists _ _ stablecoins filecoinPayContracts contracts tokens mv contractRows tokenRows synced =>
      refine { weak with contracts := contracts_step inv.contracts later contractRows,
                         tokens := tokens_step inv.tokens later tokenRows,
                         priced := ?_ }
      rcases synced with ⟨rfl, rfl⟩ | ⟨listed, synced⟩
      · exact inv.priced
      · exact ⟨listed, synced⟩
  | parameters _ _ parameters mv added rows fresh synced =>
      refine { weak with parameters := ?_, priced := ⟨db.filecoinPayContract, synced⟩ }
      intro p member
      change p ∈ parameters.rows at member
      rw [rows, List.mem_append] at member
      exact member.elim (inv.parameters p) fun new => (fresh p new).2
  | shares _ _ q recipientCount totalUsd event volumes mv rows synced =>
      refine { weak with volumes := ?_, priced := ⟨db.filecoinPayContract, synced⟩ }
      intro v member
      change v ∈ volumes.rows at member
      rw [rows, List.mem_append, List.mem_singleton] at member
      rcases member with before | rfl
      · exact inv.volumes v before
      · exact ⟨totalUsd, rfl⟩

theorem RailsStored.step (rails : RailsStored db) {step : Step} (effect : Effect cfg db step next) :
    RailsStored next := by
  cases effect with
  | bindings => exact rails
  | postings => exact rails
  | lists => exact rails
  | parameters => exact rails
  | shares => exact rails
  | rail row stored rows =>
      intro p member
      obtain ⟨r, inRails, same⟩ := rails p member
      exact ⟨r, by rw [rows]; exact List.mem_append_left _ inRails, same⟩
  | payment input payments payment rows same rail =>
      intro p member
      change p ∈ payments.rows at member
      rw [rows, List.mem_append, List.mem_singleton] at member
      rcases member with before | rfl
      · exact rails p before
      · obtain ⟨r, inRails, key⟩ := List.mem_map.mp (of_decide_eq_true rail)
        have keys := Prod.mk.inj key
        rw [← same] at keys
        exact ⟨r, inRails, keys.2.symm, keys.1.symm⟩
  | auction => exact rails
  | nothing => exact rails

theorem Invariants.other (inv : Invariants cfg past db) {step : Step} (other : step.serviceRewardsActorLog? = none)
    (effect : Effect cfg db step next) : Invariants cfg past next := by
  have rails := inv.rails.step effect
  cases effect with
  | bindings => cases other
  | postings => cases other
  | lists => cases other
  | parameters => cases other
  | shares => cases other
  | rail => exact { inv with rails }
  | payment => exact { inv with rails }
  | auction _ transfer chainTx token auctions mv auction rows same synced =>
      exact { inv with priced := ⟨db.filecoinPayContract, synced⟩ }
  | nothing => exact inv

theorem invariants_reached {history : History} (reached : history.Reaches cfg db) :
    Invariants cfg (history.batches.flatMap Batch.serviceRewardsActorLogs) db := by
  obtain ⟨stepss, matched, run⟩ := indexAll_steps reached
  have ordered := history.ordered
  rw [← stepss_logs matched] at ordered ⊢
  apply run_invariant run ordered (Invariants cfg) (invariants_seeded cfg)
  · intro past tokensMap log before after _ later inv handled
    exact inv.actor later (handleLog_effect handled)
  · intro past step before after _ other inv applied
    exact inv.other other (apply_effect applied)

section Decimals
variable {decimalsOf : Address → Int}

theorem fetchTokensMap_decimals {services : TokenServices} (answers : services.Answers decimalsOf)
    {logs : List ServiceRewardsActorLog} {tokensMap : List (Address × ERC20Metadata)}
    (fetched : fetchTokensMap services logs = .ok tokensMap) {token : Address} {metadata : ERC20Metadata}
    (found : tokensMap.lookup token = some metadata) : metadata.decimals = decimalsOf token := by
  obtain ⟨pairs, mapped, kept⟩ := bind_eq_ok.mp fetched
  obtain rfl := pure_eq_ok.mp kept
  obtain ⟨front, back, split, -⟩ := List.lookup_eq_some_iff.mp found
  have member : (token, metadata) ∈ pairs.filterMap id := by
    rw [split]
    simp
  obtain ⟨entry, inPairs, same⟩ := List.mem_filterMap.mp member
  cases same
  obtain ⟨asked, -, answered⟩ := exists_item_of_mem_mapM mapped inPairs
  unfold maybeMetadataPair at answered
  split at answered
  · rename_i answer got
    cases answered
    exact answers.metadata token metadata got
  · obtain ⟨isERC20, -, answered⟩ := bind_eq_ok.mp answered
    split at answered
    · obtain ⟨decimals, got, answered⟩ := bind_eq_ok.mp answered
      obtain ⟨symbol, -, answered⟩ := bind_eq_ok.mp answered
      cases answered
      exact answers.decimals token decimals got
    · cases answered

theorem decimals_reached {history : History} (reached : history.Reaches cfg db)
    (answers : ∀ services logs, Batch.serviceRewardsActor services logs ∈ history.batches → services.Answers decimalsOf) :
    ∀ t ∈ db.whitelistedToken.rows, t.tokenDecimals = decimalsOf t.tokenAddress := by
  obtain ⟨stepss, matched, run⟩ := indexAll_steps reached
  have fetched : ∀ tokensMap log, Step.actor tokensMap log ∈ stepss.flatten → ∀ token metadata,
      tokensMap.lookup token = some metadata → metadata.decimals = decimalsOf token := by
    intro tokensMap log member token metadata found
    obtain ⟨steps, inStepss, inSteps⟩ := List.mem_flatten.mp member
    obtain ⟨batch, inBatches, listed⟩ := exists_item_of_mem_mapM (mapM_eq_ok.mpr matched) inStepss
    obtain ⟨services, logs, rfl, got⟩ := mem_steps_actor listed inSteps
    exact fetchTokensMap_decimals (answers services logs inBatches) got found
  apply foldlM_induction run fun _ db => ∀ t ∈ db.whitelistedToken.rows, t.tokenDecimals = decimalsOf t.tokenAddress
  · simp [DB.seeded]
  · intro past step rest before after whole holds applied
    cases apply_effect applied with
    | lists tokensMap log stablecoins filecoinPayContracts contracts tokens mv contractRows tokenRows synced =>
        intro t member
        change t ∈ tokens.rows at member
        rw [tokenRows, List.mem_append] at member
        rcases member with listed | new
        · obtain ⟨row, inRows, rfl⟩ := List.mem_map.mp listed
          unfold removedToken
          split
          · exact holds row inRows
          · exact holds row inRows
        · obtain ⟨token, -, found⟩ := List.mem_filterMap.mp new
          obtain ⟨metadata, got, rfl⟩ := Option.map_eq_some_iff.mp found
          exact fetched tokensMap log (by simp [whole]) token metadata got
    | bindings => exact holds
    | postings => exact holds
    | parameters => exact holds
    | shares => exact holds
    | rail => exact holds
    | payment => exact holds
    | auction => exact holds
    | nothing => exact holds

end Decimals

end Proof.Reachable
end FpvIndexer
