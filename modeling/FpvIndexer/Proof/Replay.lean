import FpvIndexer.Proof.Effects

namespace FpvIndexer
open Relational

def DB.actor (db : DB) : DB :=
  { db with
    filecoinPayRail := .empty
    filecoinPayPayment := .empty
    filecoinPayFeeAuction := .empty
    qualifiedPricePeriodsMv := .empty }

namespace Proof.Replay
open Handlers Effects

section Handlers
variable {cfg : Deployment} {db next : DB} {log : ServiceRewardsActorLog}

theorem getQualifyingPricePeriods_actor (db : DB) : getQualifyingPricePeriods db.actor = [] := by
  unfold getQualifyingPricePeriods
  split
  · rfl
  · rfl

theorem refresh_actor (refreshed : db.refreshQualifiedPricePeriodsMv = .ok next) :
    db.actor.refreshQualifiedPricePeriodsMv = .ok next.actor := by
  obtain ⟨mv, rfl, -⟩ := refresh_eq_ok refreshed
  unfold DB.refreshQualifiedPricePeriodsMv
  rw [getQualifyingPricePeriods_actor]
  rfl

theorem insertPair_actor (row : ServicePair) : db.actor.insertPair row = (db.insertPair row).map DB.actor := by
  unfold DB.insertPair
  change (insert "service_pair_pkey" db.servicePair row >>= fun _ => if db.hasOrchestrator _ then _ else _) = _
  cases insert "service_pair_pkey" db.servicePair row with
  | error failure => rfl
  | ok pairs =>
      rw [ok_bind, ok_bind, apply_ite (Except.map DB.actor)]
      rfl

theorem createBinding_actor (payer operator orchestrator : Address) :
    createBinding cfg db.actor log payer operator orchestrator =
      (createBinding cfg db log payer operator orchestrator).map DB.actor := by
  unfold createBinding
  dsimp only
  rw [apply_ite (Except.map DB.actor), apply_ite (Except.map DB.actor)]
  change (if _ then _ else if _ then _ else cutoffStartEpoch cfg db _ _ >>= fun _ => db.actor.insertPair _) = _
  simp only [insertPair_actor]
  cases cutoffStartEpoch cfg db s!"(operator: {operator}, payer: {payer})" log.blockNumber with
  | error failure => rfl
  | ok cutoffStart => rfl

theorem reassignPairs_actor (orchestrator : Address) (p : ServicePair → Bool) :
    db.actor.reassignPairs orchestrator p = (db.reassignPairs orchestrator p).map DB.actor := by
  unfold DB.reassignPairs
  rw [apply_ite (Except.map DB.actor)]
  rfl

theorem reassignBinding_actor (payer operator orchestrator : Address) (inherit : Bool) :
    reassignBinding cfg db.actor log payer operator orchestrator inherit =
      (reassignBinding cfg db log payer operator orchestrator inherit).map DB.actor := by
  unfold reassignBinding
  dsimp only
  rw [apply_ite (Except.map DB.actor), apply_ite (Except.map DB.actor), ← insertPair_actor, ← insertPair_actor,
    ← reassignPairs_actor]
  rfl

theorem admitOrchestrator_actor (orch wallet : Address) :
    admitOrchestrator db.actor log orch wallet = (admitOrchestrator db log orch wallet).map DB.actor := by
  unfold admitOrchestrator
  dsimp only
  change (insert "service_orchestrator_admission_pkey" db.serviceOrchestratorAdmission _ >>= fun _ =>
    if db.serviceOrchestratorAdmission.rows.any _ then _ else _) = _
  cases insert "service_orchestrator_admission_pkey" db.serviceOrchestratorAdmission
      (admission log orch.toLowerCase wallet.toLowerCase) with
  | error failure => rfl
  | ok admissions =>
      rw [ok_bind, ok_bind, apply_ite (Except.map DB.actor)]
      rfl

theorem postVolume_actor (q : Nat) (orchestrator : Address) (volume : Nat) (isCorrection : Bool) :
    postVolume db.actor log q orchestrator volume isCorrection =
      (postVolume db log q orchestrator volume isCorrection).map DB.actor := by
  unfold postVolume
  cases integer q with
  | error failure => rfl
  | ok quarterNum =>
      cases decimal 65 30 volume with
      | error failure => rfl
      | ok volumeAttoUsd =>
          simp only [ok_bind]
          change (insert "service_orchestrator_quarterly_volume_pkey" db.serviceOrchestratorQuarterlyVolume _ >>= _) = _
          cases insert "service_orchestrator_quarterly_volume_pkey" db.serviceOrchestratorQuarterlyVolume
              ⟨orchestrator.toLowerCase, quarterNum, volumeAttoUsd, isCorrection, log.blockNumber, log.logIndex,
                log.transactionHash⟩ with
          | error failure => rfl
          | ok volumes => rfl

theorem submitShares_actor {q totalUsd : Nat} (submitted : submitShares db log q totalUsd = .ok next) :
    submitShares db.actor log q totalUsd = .ok next.actor := by
  unfold submitShares at submitted ⊢
  obtain ⟨quarterNum, fits, submitted⟩ := bind_eq_ok.mp submitted
  obtain ⟨volumeAttoUsd, fitsToo, submitted⟩ := bind_eq_ok.mp submitted
  obtain ⟨volumes, inserted, refreshed⟩ := bind_eq_ok.mp submitted
  rw [fits, ok_bind, fitsToo, ok_bind]
  exact bind_eq_ok.mpr ⟨volumes, inserted, refresh_actor refreshed⟩

theorem updatePricingParams_actor {minLotFloor minLotAlphaNum minLotAlphaDen priceBand registrationCutoff : Nat}
    (updated : updatePricingParams db log minLotFloor minLotAlphaNum minLotAlphaDen priceBand registrationCutoff =
      .ok next) :
    updatePricingParams db.actor log minLotFloor minLotAlphaNum minLotAlphaDen priceBand registrationCutoff =
      .ok next.actor := by
  unfold updatePricingParams at updated ⊢
  obtain ⟨rows, fit, updated⟩ := bind_eq_ok.mp updated
  obtain ⟨parameters, inserted, refreshed⟩ := bind_eq_ok.mp updated
  rw [fit, ok_bind]
  exact bind_eq_ok.mpr ⟨parameters, inserted, refresh_actor refreshed⟩

theorem removeContracts_actor (removed : List Address) :
    db.actor.removeContracts log removed = (db.removeContracts log removed).actor := by
  unfold DB.removeContracts
  rw [apply_ite DB.actor]
  rfl

theorem removeTokens_actor {removed : List Address} (done : db.removeTokens log removed = .ok next) :
    db.actor.removeTokens log removed = .ok next.actor := by
  unfold DB.removeTokens at done ⊢
  split at done
  · rename_i none
    cases done
    exact if_pos none
  · rename_i some
    rw [if_neg some]
    exact refresh_actor done

theorem addContracts_actor {added : List Address} (done : db.addContracts log added = .ok next) :
    db.actor.addContracts log added = .ok next.actor := by
  obtain ⟨contracts, inserted, same⟩ := bind_eq_ok.mp done
  cases same
  exact bind_eq_ok.mpr ⟨contracts, inserted, rfl⟩

theorem addToken_actor {tokensMap : List (Address × ERC20Metadata)} {tokenAddress : Address}
    (added : DB.addToken tokensMap log db tokenAddress = .ok next) :
    DB.addToken tokensMap log db.actor tokenAddress = .ok next.actor := by
  unfold DB.addToken at added ⊢
  cases found : tokensMap.lookup tokenAddress with
  | none =>
      rw [found] at added
      cases added
      rfl
  | some metadata =>
      rw [found] at added
      obtain ⟨tokens, inserted, refreshed⟩ := bind_eq_ok.mp added
      exact bind_eq_ok.mpr ⟨tokens, inserted, refresh_actor refreshed⟩

theorem foldlM_actor {ι : Type} {step : DB → ι → Except Failure DB} {items : List ι}
    (actor : ∀ {db next item}, step db item = .ok next → step db.actor item = .ok next.actor)
    (run : items.foldlM step db = .ok next) : items.foldlM step db.actor = .ok next.actor := by
  induction items generalizing db with
  | nil =>
      cases run
      rfl
  | cons item rest ih =>
      rw [List.foldlM_cons, bind_eq_ok] at run ⊢
      obtain ⟨mid, stepped, onward⟩ := run
      exact ⟨mid.actor, actor stepped, ih onward⟩

theorem updatedAdmittedLists_actor {tokensMap : List (Address × ERC20Metadata)}
    {stablecoins filecoinPayContracts : List Address}
    (updated : updatedAdmittedLists tokensMap db log stablecoins filecoinPayContracts = .ok next) :
    updatedAdmittedLists tokensMap db.actor log stablecoins filecoinPayContracts = .ok next.actor := by
  unfold updatedAdmittedLists at updated ⊢
  dsimp only at updated ⊢
  obtain ⟨afterTokens, tokensDone, updated⟩ := bind_eq_ok.mp updated
  obtain ⟨afterContracts, contractsDone, updated⟩ := bind_eq_ok.mp updated
  rw [removeContracts_actor]
  exact bind_eq_ok.mpr ⟨afterTokens.actor, removeTokens_actor tokensDone,
    bind_eq_ok.mpr ⟨afterContracts.actor, addContracts_actor contractsDone, foldlM_actor addToken_actor updated⟩⟩

theorem handleLog_actor {tokensMap : List (Address × ERC20Metadata)}
    (handled : ServiceRewardsActorIndexer.handleLog cfg tokensMap db log = .ok next) :
    ServiceRewardsActorIndexer.handleLog cfg tokensMap db.actor log = .ok next.actor := by
  have mapped : ∀ {x y : Except Failure DB}, y = x.map DB.actor → x = .ok next → y = .ok next.actor := by
    intro x y same ok
    rw [same, ok]
    rfl
  unfold ServiceRewardsActorIndexer.handleLog at handled ⊢
  cases event : log.event with
  | orchestratorAdmitted orch wallet =>
      rw [event] at handled
      exact mapped (admitOrchestrator_actor orch wallet) handled
  | orchestratorRemoved orch =>
      rw [event] at handled
      cases handled
      rfl
  | orchestratorWalletReplaced oldOrch newWallet =>
      rw [event] at handled
      cases handled
      rfl
  | bindingDeclared payer operator orchestrator =>
      rw [event] at handled
      exact mapped (createBinding_actor payer operator orchestrator) handled
  | bindingReassigned payer operator orchestrator inherit =>
      rw [event] at handled
      exact mapped (reassignBinding_actor payer operator orchestrator inherit) handled
  | bindingCanceled payer operator orchestrator =>
      rw [event] at handled
      cases handled
      rfl
  | admittedListsUpdated stablecoins filecoinPayContracts =>
      rw [event] at handled
      exact updatedAdmittedLists_actor handled
  | pricingParamsUpdated minLotFloor minLotAlphaNum minLotAlphaDen priceBand registrationCutoff =>
      rw [event] at handled
      exact updatePricingParams_actor handled
  | volumePosted q orchestrator volume =>
      rw [event] at handled
      exact mapped (postVolume_actor q orchestrator volume false) handled
  | volumeCorrected q orchestrator volume =>
      rw [event] at handled
      exact mapped (postVolume_actor q orchestrator volume true) handled
  | sharesSubmitted q recipientCount totalUsd =>
      rw [event] at handled
      exact submitShares_actor handled

end Handlers
section Tokens
variable {services : TokenServices} {tokensMap : List (Address × ERC20Metadata)}

def metadata? (services : TokenServices) (tokenAddress : Address) : Option ERC20Metadata :=
  match maybeMetadataPair services tokenAddress with
  | .ok (some pair) => some pair.2
  | _ => none

theorem maybeMetadataPair_spec {token : Address} {pair : Option (Address × ERC20Metadata)}
    (found : maybeMetadataPair services token = .ok pair) :
    pair = (metadata? services token).map fun metadata => (token, metadata) := by
  unfold metadata?
  rw [found]
  cases pair with
  | none => rfl
  | some pair =>
      have named : pair.1 = token := by
        unfold maybeMetadataPair at found
        split at found
        · cases found
          rfl
        · obtain ⟨isERC20, -, found⟩ := bind_eq_ok.mp found
          split at found
          · obtain ⟨decimals, -, found⟩ := bind_eq_ok.mp found
            obtain ⟨symbol, -, found⟩ := bind_eq_ok.mp found
            cases found
            rfl
          · cases found
      rw [← named]
      rfl

def metadataOf (services : TokenServices) (token : Address) : Option (Address × ERC20Metadata) :=
  (metadata? services token).map fun metadata => (token, metadata)

theorem fetchTokensMap_iff {logs : List ServiceRewardsActorLog} : fetchTokensMap services logs = .ok tokensMap ↔
    tokensMap = (distinctOn id (announcedTokens logs)).filterMap (metadataOf services) ∧
      ∀ token ∈ announcedTokens logs, maybeMetadataPair services token = .ok (metadataOf services token) := by
  unfold fetchTokensMap
  rw [bind_eq_ok]
  constructor
  · rintro ⟨pairs, fetched, mapped⟩
    have each : ∀ token ∈ distinctOn id (announcedTokens logs),
        maybeMetadataPair services token = .ok (metadataOf services token) := by
      intro token member
      obtain ⟨pair, -, found⟩ := exists_result_of_mem_mapM fetched member
      rw [found, maybeMetadataPair_spec found]
      rfl
    rw [mapM_eq_ok_map each, Except.ok.injEq] at fetched
    rw [pure_eq_ok, ← fetched, List.filterMap_map] at mapped
    exact ⟨mapped.symm, fun token member => each token (mem_distinctOn_id.mpr member)⟩
  · rintro ⟨rfl, each⟩
    refine ⟨_, mapM_eq_ok_map fun token member => each token (mem_distinctOn_id.mp member), ?_⟩
    rw [List.filterMap_map]
    rfl

theorem lookup_metadataOf (tokens : List Address) {token : Address} :
    (tokens.filterMap (metadataOf services)).lookup token = if token ∈ tokens then metadata? services token else none := by
  induction tokens with
  | nil => rfl
  | cons head rest ih =>
      cases found : metadata? services head with
      | none =>
          rw [List.filterMap_cons_none (by rw [metadataOf, found]; rfl), ih]
          by_cases same : token = head
          · simp [same, found]
          · simp [same]
      | some metadata =>
          rw [List.filterMap_cons_some (by rw [metadataOf, found]; rfl), List.lookup_cons]
          by_cases same : token = head
          · simp [same, found]
          · rw [beq_false_of_ne same, ih]
            simp [same]

end Tokens

section Replay
variable {cfg : Deployment} {services : TokenServices} {tokensMap other : List (Address × ERC20Metadata)} {db next : DB}
  {log : ServiceRewardsActorLog}

theorem handleLog_tokensMap (same : ∀ token ∈ announcedTokens [log], tokensMap.lookup token = other.lookup token) :
    ServiceRewardsActorIndexer.handleLog cfg tokensMap db log =
      ServiceRewardsActorIndexer.handleLog cfg other db log := by
  unfold ServiceRewardsActorIndexer.handleLog
  split
  case h_7 stablecoins filecoinPayContracts event =>
      have announced : announcedTokens [log] = stablecoins.map (·.toLowerCase) := by
        simp [announcedTokens, event]
      unfold updatedAdmittedLists
      dsimp only
      congr
      funext afterTokens
      congr
      funext afterContracts
      apply foldlM_congr
      intro token member before
      unfold DB.addToken
      rw [same token (announced ▸ List.mem_of_mem_filter member)]
  all_goals rfl

def handleOne (cfg : Deployment) (services : TokenServices) (db : DB) (log : ServiceRewardsActorLog) : Except Failure DB :=
  ServiceRewardsActorIndexer.updateDb cfg services db [log]

theorem announcedTokens_of_mem {logs : List ServiceRewardsActorLog} (member : log ∈ logs) {token : Address}
    (announced : token ∈ announcedTokens [log]) : token ∈ announcedTokens logs := by
  unfold announcedTokens at announced ⊢
  rw [List.flatMap_singleton] at announced
  exact List.mem_flatMap.mpr ⟨log, member, announced⟩

theorem handleLog_eq_handleOne {logs : List ServiceRewardsActorLog} (fetched : fetchTokensMap services logs = .ok tokensMap)
    (member : log ∈ logs) (db : DB) :
    ServiceRewardsActorIndexer.handleLog cfg tokensMap db log = handleOne cfg services db log := by
  obtain ⟨rfl, each⟩ := fetchTokensMap_iff.mp fetched
  have one : fetchTokensMap services [log] =
      .ok ((distinctOn id (announcedTokens [log])).filterMap (metadataOf services)) :=
    fetchTokensMap_iff.mpr ⟨rfl, fun token announced => each token (announcedTokens_of_mem member announced)⟩
  unfold handleOne ServiceRewardsActorIndexer.updateDb
  rw [one, ok_bind, foldlM_singleton]
  apply handleLog_tokensMap
  intro token announced
  rw [lookup_metadataOf, lookup_metadataOf, if_pos (mem_distinctOn_id.mpr announced),
    if_pos (mem_distinctOn_id.mpr (announcedTokens_of_mem member announced))]

theorem handleOne_iff : handleOne cfg services db log = .ok next ↔ ∃ tokensMap,
    fetchTokensMap services [log] = .ok tokensMap ∧
      ServiceRewardsActorIndexer.handleLog cfg tokensMap db log = .ok next := by
  unfold handleOne ServiceRewardsActorIndexer.updateDb
  rw [bind_eq_ok]
  simp only [foldlM_singleton]

theorem updateDb_actor {logs : List ServiceRewardsActorLog}
    (updated : ServiceRewardsActorIndexer.updateDb cfg services db logs = .ok next) :
    logs.foldlM (handleOne cfg services) db.actor = .ok next.actor := by
  obtain ⟨tokensMap, fetched, run⟩ := bind_eq_ok.mp updated
  rw [← foldlM_congr fun log member db => handleLog_eq_handleOne fetched member db]
  exact foldlM_actor handleLog_actor run

theorem lower_of_announcedContracts {contract : Address} (announced : contract ∈ announcedContracts log) :
    contract.toLowerCase = contract := by
  unfold announcedContracts at announced
  split at announced
  · obtain ⟨spelled, -, rfl⟩ := List.mem_map.mp announced
    exact Address.toLowerCase_toLowerCase spelled
  · cases announced

theorem announced_of_replay {logs : List ServiceRewardsActorLog}
    (run : logs.foldlM (handleOne cfg services) (DB.seeded cfg) = .ok db) :
    ∀ c ∈ db.filecoinPayContract.rows, ∃ log ∈ logs,
      c.contractAddress ∈ announcedContracts log ∧ c.admittanceEpoch = log.blockNumber := by
  refine foldlM_induction run (fun past db => ∀ c ∈ db.filecoinPayContract.rows, ∃ log ∈ past,
    c.contractAddress ∈ announcedContracts log ∧ c.admittanceEpoch = log.blockNumber) ?_ ?_
  · intro c member
    cases member
  · intro past log rest before after whole announced handled c member
    obtain ⟨tokensMap, -, handled⟩ := handleOne_iff.mp handled
    have earlier : ∀ c ∈ before.filecoinPayContract.rows, ∃ log' ∈ past ++ [log],
        c.contractAddress ∈ announcedContracts log' ∧ c.admittanceEpoch = log'.blockNumber := by
      intro c member
      obtain ⟨log', inPast, facts⟩ := announced c member
      exact ⟨log', List.mem_append_left _ inPast, facts⟩
    rcases handleLog_lists handled with ⟨stablecoins, filecoinPayContracts, event, updated⟩ | ⟨-, same, -⟩
    · obtain ⟨contracts, tokens, mv, rfl, rows, -⟩ := updatedAdmittedLists_spec updated
      change c ∈ contracts.rows at member
      rw [rows, List.mem_append] at member
      rcases member with kept | added
      · obtain ⟨old, inRows, rfl⟩ := List.mem_map.mp kept
        obtain ⟨log', inPast, facts⟩ := earlier old inRows
        refine ⟨log', inPast, ?_⟩
        unfold removedContract
        split
        · exact facts
        · exact facts
      · obtain ⟨contract, isNew, rfl⟩ := List.mem_map.mp added
        refine ⟨log, List.mem_append_right _ (List.mem_singleton_self _), ?_, rfl⟩
        unfold announcedContracts
        rw [event]
        exact List.mem_of_mem_filter isNew
    · rw [same] at member
      exact earlier c member

end Replay

end Proof.Replay
end FpvIndexer
