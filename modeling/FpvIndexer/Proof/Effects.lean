import FpvIndexer.Proof.Bindings

namespace FpvIndexer
namespace Proof.Effects
open Relational Handlers Bindings

inductive Effect (cfg : Deployment) (db : DB) : Step → DB → Prop
  | bindings (tokensMap : List (Address × ERC20Metadata)) (log : ServiceRewardsActorLog)
      (orchestrators : Table ServiceOrchestrator ServiceOrchestrator.id)
      (admissions : Table ServiceOrchestratorAdmission ServiceOrchestratorAdmission.pkey)
      (pairs : Table ServicePair ServicePair.pkey) (change : Change cfg db log pairs.rows) :
      Effect cfg db (.actor tokensMap log)
        { db with
          serviceOrchestrator := orchestrators
          serviceOrchestratorAdmission := admissions
          servicePair := pairs }
  | postings (tokensMap : List (Address × ERC20Metadata)) (log : ServiceRewardsActorLog)
      (volumes : Table ServiceOrchestratorQuarterlyVolume ServiceOrchestratorQuarterlyVolume.pkey) :
      Effect cfg db (.actor tokensMap log) { db with serviceOrchestratorQuarterlyVolume := volumes }
  | lists (tokensMap : List (Address × ERC20Metadata)) (log : ServiceRewardsActorLog)
      (stablecoins filecoinPayContracts : List Address)
      (contracts : Table FilecoinPayContract FilecoinPayContract.pkey)
      (tokens : Table WhitelistedToken WhitelistedToken.pkey) (mv : Table PricePeriod PricePeriod.ukey)
      (contractRows : contracts.rows = db.filecoinPayContract.rows.map (removedContract log
          (db.whitelistedContractsAddresses.filter (· ∉ filecoinPayContracts.map (·.toLowerCase)))) ++
        ((filecoinPayContracts.map (·.toLowerCase)).filter (· ∉ db.whitelistedContractsAddresses)).map
          (admittedContract log))
      (tokenRows : tokens.rows = db.whitelistedToken.rows.map (removedToken log
          (db.whitelistedTokensAddresses.filter (· ∉ stablecoins.map (·.toLowerCase)))) ++
        addedTokenRows tokensMap log
          ((stablecoins.map (·.toLowerCase)).filter (· ∉ db.whitelistedTokensAddresses)))
      (synced : tokens = db.whitelistedToken ∧ mv = db.qualifiedPricePeriodsMv ∨
        ∃ listed, mv.rows = getQualifyingPricePeriods
          { db with filecoinPayContract := listed, whitelistedToken := tokens }) :
      Effect cfg db (.actor tokensMap log)
        { db with filecoinPayContract := contracts, whitelistedToken := tokens, qualifiedPricePeriodsMv := mv }
  | parameters (tokensMap : List (Address × ERC20Metadata)) (log : ServiceRewardsActorLog)
      (parameters : Table ServiceRewardsActorParameter ServiceRewardsActorParameter.pkey)
      (mv : Table PricePeriod PricePeriod.ukey) (added : List ServiceRewardsActorParameter)
      (rows : parameters.rows = db.serviceRewardsActorParameter.rows ++ added)
      (fresh : ∀ row ∈ added, row.position = log.position ∧ ∃ n : Nat, row.parameterValue = n)
      (synced : mv.rows = getQualifyingPricePeriods { db with serviceRewardsActorParameter := parameters }) :
      Effect cfg db (.actor tokensMap log)
        { db with serviceRewardsActorParameter := parameters, qualifiedPricePeriodsMv := mv }
  | shares (tokensMap : List (Address × ERC20Metadata)) (log : ServiceRewardsActorLog)
      (q recipientCount totalUsd : Nat) (event : log.event = .sharesSubmitted q recipientCount totalUsd)
      (volumes : Table QuarterBoundVolume QuarterBoundVolume.quarterNum) (mv : Table PricePeriod PricePeriod.ukey)
      (rows : volumes.rows = db.quarterBoundVolume.rows ++
        [⟨q, totalUsd, log.blockNumber, log.transactionHash.toLower⟩])
      (synced : mv.rows = getQualifyingPricePeriods { db with quarterBoundVolume := volumes }) :
      Effect cfg db (.actor tokensMap log) { db with quarterBoundVolume := volumes, qualifiedPricePeriodsMv := mv }
  | rail (row : FilecoinPayRail) (rails : Table FilecoinPayRail FilecoinPayRail.pkey)
      (rows : rails.rows = db.filecoinPayRail.rows ++ [row]) :
      Effect cfg db (.rail row) { db with filecoinPayRail := rails }
  | payment (input : FilecoinPayPaymentInput) (payments : Table FilecoinPayPayment FilecoinPayPayment.id)
      (payment : FilecoinPayPayment) (rows : payments.rows = db.filecoinPayPayment.rows ++ [payment])
      (same : payment.toFilecoinPayPaymentInput = input) (rail : db.hasRail input) :
      Effect cfg db (.payment input) { db with filecoinPayPayment := payments }
  | auction (services : AuctionServices) (transfer : TransferLog) (chainTx : Transaction) (token : Address)
      (auctions : Table FilecoinPayFeeAuction FilecoinPayFeeAuction.id) (mv : Table PricePeriod PricePeriod.ukey)
      (auction : FilecoinPayFeeAuction) (rows : auctions.rows = db.filecoinPayFeeAuction.rows ++ [auction])
      (same : auction.toFilecoinPayFeeAuctionInput = auctionInput transfer chainTx token)
      (synced : mv.rows = getQualifyingPricePeriods { db with filecoinPayFeeAuction := auctions }) :
      Effect cfg db (.transfer services transfer)
        { db with filecoinPayFeeAuction := auctions, qualifiedPricePeriodsMv := mv }
  | nothing (services : AuctionServices) (transfer : TransferLog) : Effect cfg db (.transfer services transfer) db

variable {cfg : Deployment} {db next : DB}

theorem handleLog_effect {tokensMap : List (Address × ERC20Metadata)} {log : ServiceRewardsActorLog}
    (handled : ServiceRewardsActorIndexer.handleLog cfg tokensMap db log = .ok next) :
    Effect cfg db (.actor tokensMap log) next := by
  have change := handleLog_change handled
  unfold ServiceRewardsActorIndexer.handleLog at handled
  split at handled
  · obtain ⟨_, _, rfl⟩ := admitOrchestrator_spec handled
    exact Effect.bindings _ _ _ _ _ change
  · cases handled
    exact Effect.bindings _ _ _ _ _ change
  · cases handled
    exact Effect.bindings _ _ _ _ _ change
  · obtain ⟨_, rfl⟩ := createBinding_frame handled
    exact Effect.bindings _ _ _ _ _ change
  · obtain ⟨_, rfl⟩ := reassignBinding_frame handled
    exact Effect.bindings _ _ _ _ _ change
  · cases handled
    exact Effect.bindings _ _ _ _ _ change
  · obtain ⟨contracts, tokens, mv, rfl, contractRows, tokenRows, synced⟩ := updatedAdmittedLists_spec handled
    exact Effect.lists _ _ _ _ contracts tokens mv contractRows tokenRows synced
  · obtain ⟨parameters, mv, added, rfl, rows, fresh, synced⟩ := updatePricingParams_spec handled
    exact Effect.parameters _ _ parameters mv added rows fresh synced
  · obtain ⟨volumes, rfl⟩ := postVolume_spec handled
    exact Effect.postings _ _ volumes
  · obtain ⟨volumes, rfl⟩ := postVolume_spec handled
    exact Effect.postings _ _ volumes
  · rename_i event
    obtain ⟨volumes, mv, rfl, rows, synced⟩ := submitShares_spec handled
    exact Effect.shares _ _ _ _ _ event volumes mv rows synced

theorem handleLog_lists {tokensMap : List (Address × ERC20Metadata)} {log : ServiceRewardsActorLog}
    (handled : ServiceRewardsActorIndexer.handleLog cfg tokensMap db log = .ok next) :
    (∃ stablecoins filecoinPayContracts, log.event = .admittedListsUpdated stablecoins filecoinPayContracts ∧
      updatedAdmittedLists tokensMap db log stablecoins filecoinPayContracts = .ok next) ∨
    (∀ stablecoins filecoinPayContracts, log.event ≠ .admittedListsUpdated stablecoins filecoinPayContracts) ∧
      next.filecoinPayContract = db.filecoinPayContract ∧ next.whitelistedToken = db.whitelistedToken := by
  unfold ServiceRewardsActorIndexer.handleLog at handled
  split at handled
  case h_7 stablecoins filecoinPayContracts event => exact Or.inl ⟨stablecoins, filecoinPayContracts, event, handled⟩
  all_goals
    rename_i event
    refine Or.inr ⟨fun _ _ same => (nomatch event.symm.trans same), ?_⟩
  · obtain ⟨_, _, rfl⟩ := admitOrchestrator_spec handled
    exact ⟨rfl, rfl⟩
  · cases handled
    exact ⟨rfl, rfl⟩
  · cases handled
    exact ⟨rfl, rfl⟩
  · obtain ⟨_, rfl⟩ := createBinding_frame handled
    exact ⟨rfl, rfl⟩
  · obtain ⟨_, rfl⟩ := reassignBinding_frame handled
    exact ⟨rfl, rfl⟩
  · cases handled
    exact ⟨rfl, rfl⟩
  · obtain ⟨_, _, _, rfl, -⟩ := updatePricingParams_spec handled
    exact ⟨rfl, rfl⟩
  · obtain ⟨_, rfl⟩ := postVolume_spec handled
    exact ⟨rfl, rfl⟩
  · obtain ⟨_, rfl⟩ := postVolume_spec handled
    exact ⟨rfl, rfl⟩
  · obtain ⟨_, _, rfl, -⟩ := submitShares_spec handled
    exact ⟨rfl, rfl⟩

theorem apply_effect {step : Step} (applied : step.apply cfg db = .ok next) : Effect cfg db step next := by
  cases step with
  | actor tokensMap log => exact handleLog_effect applied
  | rail row =>
      obtain ⟨rails, rfl, rows⟩ := insertRail_spec applied
      exact Effect.rail row rails rows
  | payment input =>
      obtain ⟨payments, payment, rfl, rows, same, rail⟩ := insertPayment_spec applied
      exact Effect.payment input payments payment rows same rail
  | transfer services transfer =>
      rcases transfer_spec applied with rfl | ⟨chainTx, token, inserted⟩
      · exact Effect.nothing services transfer
      · obtain ⟨auctions, mv, auction, rfl, rows, -, same, synced⟩ := insertAuction_spec inserted
        exact Effect.auction services transfer chainTx token auctions mv auction rows same synced

end Proof.Effects
end FpvIndexer
