import FpvIndexer.Indexers.Indexing

namespace FpvIndexer.Proof.Handlers
open Relational

variable {cfg : Deployment} {db next : DB} {log : ServiceRewardsActorLog}

theorem insertPair_spec {row : ServicePair} (inserted : db.insertPair row = .ok next) :
    ∃ pairs, next = { db with servicePair := pairs } ∧ pairs.rows = db.servicePair.rows ++ [row] := by
  unfold DB.insertPair at inserted
  obtain ⟨pairs, added, inserted⟩ := bind_eq_ok.mp inserted
  split at inserted
  · exact ⟨pairs, (pure_eq_ok.mp inserted).symm, Table.insert?_rows (insert_ok added)⟩
  · cases inserted

theorem createBinding_frame {payer operator orchestrator : Address}
    (created : createBinding cfg db log payer operator orchestrator = .ok next) :
    ∃ pairs, next = { db with servicePair := pairs } := by
  unfold createBinding at created
  dsimp only at created
  split at created
  · cases created
  · split at created
    · cases created
    · obtain ⟨_, -, inserted⟩ := bind_eq_ok.mp created
      obtain ⟨pairs, rfl, -⟩ := insertPair_spec inserted
      exact ⟨pairs, rfl⟩

theorem reassignBinding_frame {payer operator orchestrator : Address} {inherit : Bool}
    (reassigned : reassignBinding cfg db log payer operator orchestrator inherit = .ok next) :
    ∃ pairs, next = { db with servicePair := pairs } := by
  unfold reassignBinding at reassigned
  dsimp only at reassigned
  split at reassigned
  · split at reassigned
    · unfold DB.reassignPairs at reassigned
      split at reassigned
      · cases reassigned
        exact ⟨_, rfl⟩
      · cases reassigned
    · obtain ⟨pairs, rfl, -⟩ := insertPair_spec reassigned
      exact ⟨pairs, rfl⟩
  · obtain ⟨pairs, rfl, -⟩ := insertPair_spec reassigned
    exact ⟨pairs, rfl⟩

theorem admitOrchestrator_spec {orch wallet : Address} (admitted : admitOrchestrator db log orch wallet = .ok next) :
    ∃ orchestrators admissions, next =
        { db with serviceOrchestrator := orchestrators, serviceOrchestratorAdmission := admissions } := by
  unfold admitOrchestrator at admitted
  dsimp only at admitted
  obtain ⟨admissions, -, admitted⟩ := bind_eq_ok.mp admitted
  split at admitted
  · cases admitted
  · exact ⟨_, admissions, (pure_eq_ok.mp admitted).symm⟩

theorem postVolume_spec {q : Nat} {orchestrator : Address} {volume : Nat} {isCorrection : Bool}
    (posted : postVolume db log q orchestrator volume isCorrection = .ok next) :
    ∃ volumes, next = { db with serviceOrchestratorQuarterlyVolume := volumes } := by
  unfold postVolume at posted
  obtain ⟨_, -, posted⟩ := bind_eq_ok.mp posted
  obtain ⟨_, -, posted⟩ := bind_eq_ok.mp posted
  obtain ⟨volumes, -, posted⟩ := bind_eq_ok.mp posted
  exact ⟨volumes, (pure_eq_ok.mp posted).symm⟩

theorem decimal_eq_ok {precision scale value stored : Nat} (fits : decimal precision scale value = .ok stored) :
    stored = value := by
  unfold decimal at fits
  split at fits
  · cases fits
    rfl
  · cases fits

theorem integer_eq_ok {value stored : Nat} (fits : integer value = .ok stored) : stored = value := by
  unfold integer at fits
  split at fits
  · cases fits
    rfl
  · cases fits

theorem submitShares_spec {q totalUsd : Nat} (submitted : submitShares db log q totalUsd = .ok next) :
    ∃ volumes mv, next = { db with quarterBoundVolume := volumes, qualifiedPricePeriodsMv := mv } ∧
      volumes.rows = db.quarterBoundVolume.rows ++ [⟨q, totalUsd, log.blockNumber, log.transactionHash.toLower⟩] ∧
      mv.rows = getQualifyingPricePeriods { db with quarterBoundVolume := volumes } := by
  unfold submitShares at submitted
  obtain ⟨quarterNum, fits, submitted⟩ := bind_eq_ok.mp submitted
  obtain ⟨volume, small, submitted⟩ := bind_eq_ok.mp submitted
  obtain ⟨volumes, added, refreshed⟩ := bind_eq_ok.mp submitted
  obtain ⟨mv, rfl, synced⟩ := refresh_eq_ok refreshed
  rw [integer_eq_ok fits, decimal_eq_ok small] at added
  exact ⟨volumes, mv, rfl, Table.insert?_rows (insert_ok added), synced⟩

theorem parameterRow_spec {pair : ServiceRewardsActorParameterType × Nat} {row : ServiceRewardsActorParameter}
    (built : parameterRow log pair = .ok row) :
    row.parameterType = pair.1 ∧ row.parameterValue = pair.2 ∧ row.position = log.position := by
  unfold parameterRow at built
  obtain ⟨value, fits, built⟩ := bind_eq_ok.mp built
  rw [decimal_eq_ok fits] at built
  obtain rfl := pure_eq_ok.mp built
  exact ⟨rfl, rfl, rfl⟩

theorem updatePricingParams_spec {minLotFloor minLotAlphaNum minLotAlphaDen priceBand registrationCutoff : Nat}
    (updated : updatePricingParams db log minLotFloor minLotAlphaNum minLotAlphaDen priceBand registrationCutoff
      = .ok next) :
    ∃ parameters mv added, next = { db with serviceRewardsActorParameter := parameters, qualifiedPricePeriodsMv := mv } ∧
      parameters.rows = db.serviceRewardsActorParameter.rows ++ added ∧
      (∀ row ∈ added, row.position = log.position ∧ ∃ n : Nat, row.parameterValue = n) ∧
      mv.rows = getQualifyingPricePeriods { db with serviceRewardsActorParameter := parameters } := by
  unfold updatePricingParams at updated
  obtain ⟨rows, built, updated⟩ := bind_eq_ok.mp updated
  obtain ⟨parameters, added, refreshed⟩ := bind_eq_ok.mp updated
  obtain ⟨mv, rfl, synced⟩ := refresh_eq_ok refreshed
  refine ⟨parameters, mv, rows, rfl, Table.insertAll?_rows (insertAll_ok added), ?_, synced⟩
  intro row member
  obtain ⟨pair, -, computed⟩ := exists_item_of_mem_mapM built member
  obtain ⟨-, value, position⟩ := parameterRow_spec computed
  exact ⟨position, pair.2, value⟩

section Lists

/-- A row of an admitted list after an update: removed if it is open and its address no longer announced. -/
def removedContract (log : ServiceRewardsActorLog) (removed : List Address) (c : FilecoinPayContract) :
    FilecoinPayContract :=
  if c.contractAddress ∈ removed ∧ c.removalEpoch = none then c.remove log else c

def removedToken (log : ServiceRewardsActorLog) (removed : List Address) (t : WhitelistedToken) : WhitelistedToken :=
  if t.tokenAddress ∈ removed ∧ t.removalEpoch = none then t.remove log else t

theorem removedContract_nil (log : ServiceRewardsActorLog) : removedContract log [] = id := by
  funext c
  simp [removedContract]

theorem removedToken_nil (log : ServiceRewardsActorLog) : removedToken log [] = id := by
  funext t
  simp [removedToken]

theorem removeContracts_spec (db : DB) (log : ServiceRewardsActorLog) (removed : List Address) :
    ∃ contracts, db.removeContracts log removed = { db with filecoinPayContract := contracts } ∧
      contracts.rows = db.filecoinPayContract.rows.map (removedContract log removed) := by
  unfold DB.removeContracts
  split
  · rename_i none
    exact ⟨_, rfl, by rw [none, removedContract_nil, List.map_id]⟩
  · exact ⟨_, rfl, List.map_congr_left fun c _ => by simp [removedContract]⟩

theorem removeTokens_spec {removed : List Address} (done : db.removeTokens log removed = .ok next) :
    ∃ tokens mv, next = { db with whitelistedToken := tokens, qualifiedPricePeriodsMv := mv } ∧
      tokens.rows = db.whitelistedToken.rows.map (removedToken log removed) ∧
      (tokens = db.whitelistedToken ∧ mv = db.qualifiedPricePeriodsMv ∨
        mv.rows = getQualifyingPricePeriods { db with whitelistedToken := tokens }) := by
  unfold DB.removeTokens at done
  split at done
  · rename_i none
    cases done
    exact ⟨_, _, rfl, by rw [none, removedToken_nil, List.map_id], Or.inl ⟨rfl, rfl⟩⟩
  · obtain ⟨mv, rfl, synced⟩ := refresh_eq_ok done
    exact ⟨_, mv, rfl, List.map_congr_left fun t _ => by simp [removedToken], Or.inr synced⟩

theorem addContracts_spec {added : List Address} (done : db.addContracts log added = .ok next) :
    ∃ contracts, next = { db with filecoinPayContract := contracts } ∧
      contracts.rows = db.filecoinPayContract.rows ++ added.map (admittedContract log) := by
  unfold DB.addContracts at done
  obtain ⟨contracts, inserted, done⟩ := bind_eq_ok.mp done
  exact ⟨contracts, (pure_eq_ok.mp done).symm, Table.insertAll?_rows (insertAll_ok inserted)⟩

def addedTokenRows (tokensMap : List (Address × ERC20Metadata)) (log : ServiceRewardsActorLog)
    (added : List Address) : List WhitelistedToken :=
  added.filterMap fun tokenAddress => (tokensMap.lookup tokenAddress).map (admittedToken log tokenAddress)

def insertToken (db : DB) (t : WhitelistedToken) : Except Failure DB := do
  let whitelistedToken ← insert "whitelisted_token_pkey" db.whitelistedToken t
  { db with whitelistedToken : DB }.refreshQualifiedPricePeriodsMv

theorem insertToken_spec {t : WhitelistedToken} (inserted : insertToken db t = .ok next) :
    ∃ tokens mv, next = { db with whitelistedToken := tokens, qualifiedPricePeriodsMv := mv } ∧
      tokens.rows = db.whitelistedToken.rows ++ [t] ∧
      mv.rows = getQualifyingPricePeriods { db with whitelistedToken := tokens } := by
  obtain ⟨tokens, added, refreshed⟩ := bind_eq_ok.mp inserted
  obtain ⟨mv, rfl, synced⟩ := refresh_eq_ok refreshed
  exact ⟨tokens, mv, rfl, Table.insert?_rows (insert_ok added), synced⟩

theorem addTokens_eq (tokensMap : List (Address × ERC20Metadata)) (added : List Address) :
    added.foldlM (DB.addToken tokensMap log) db = (addedTokenRows tokensMap log added).foldlM insertToken db := by
  induction added generalizing db with
  | nil => rfl
  | cons tokenAddress rest ih =>
      unfold addedTokenRows at ih ⊢
      rw [List.foldlM_cons, DB.addToken]
      cases found : tokensMap.lookup tokenAddress with
      | none =>
          rw [List.filterMap_cons_none (by rw [found]; rfl), ← ih]
          rfl
      | some metadata =>
          rw [List.filterMap_cons_some (by rw [found]; rfl), List.foldlM_cons]
          exact congrArg _ (funext fun next => ih)

theorem addTokens_spec {tokensMap : List (Address × ERC20Metadata)} {added : List Address}
    (done : added.foldlM (DB.addToken tokensMap log) db = .ok next) :
    ∃ tokens mv, next = { db with whitelistedToken := tokens, qualifiedPricePeriodsMv := mv } ∧
      tokens.rows = db.whitelistedToken.rows ++ addedTokenRows tokensMap log added ∧
      (tokens = db.whitelistedToken ∧ mv = db.qualifiedPricePeriodsMv ∨
        mv.rows = getQualifyingPricePeriods { db with whitelistedToken := tokens }) := by
  rw [addTokens_eq] at done
  generalize addedTokenRows tokensMap log added = new at done ⊢
  induction new generalizing db with
  | nil =>
      cases done
      exact ⟨_, _, rfl, (List.append_nil _).symm, Or.inl ⟨rfl, rfl⟩⟩
  | cons t rest ih =>
      rw [List.foldlM_cons] at done
      obtain ⟨mid, first, later⟩ := bind_eq_ok.mp done
      obtain ⟨table, fresh, rfl, here, synced⟩ := insertToken_spec first
      obtain ⟨tokens, mv, rfl, rows, onward⟩ := ih later
      refine ⟨tokens, mv, rfl, ?_, Or.inr ?_⟩
      · rw [rows, here, List.append_assoc]
        rfl
      · rcases onward with ⟨rfl, rfl⟩ | onward
        · exact synced
        · exact onward

theorem updatedAdmittedLists_spec {tokensMap : List (Address × ERC20Metadata)}
    {stablecoins filecoinPayContracts : List Address}
    (updated : updatedAdmittedLists tokensMap db log stablecoins filecoinPayContracts = .ok next) :
    ∃ contracts tokens mv, next =
        { db with filecoinPayContract := contracts, whitelistedToken := tokens, qualifiedPricePeriodsMv := mv } ∧
      contracts.rows = db.filecoinPayContract.rows.map (removedContract log
          (db.whitelistedContractsAddresses.filter (· ∉ filecoinPayContracts.map (·.toLowerCase)))) ++
        ((filecoinPayContracts.map (·.toLowerCase)).filter (· ∉ db.whitelistedContractsAddresses)).map
          (admittedContract log) ∧
      tokens.rows = db.whitelistedToken.rows.map (removedToken log
          (db.whitelistedTokensAddresses.filter (· ∉ stablecoins.map (·.toLowerCase)))) ++
        addedTokenRows tokensMap log
          ((stablecoins.map (·.toLowerCase)).filter (· ∉ db.whitelistedTokensAddresses)) ∧
      (tokens = db.whitelistedToken ∧ mv = db.qualifiedPricePeriodsMv ∨
        ∃ listed, mv.rows = getQualifyingPricePeriods
          { db with filecoinPayContract := listed, whitelistedToken := tokens }) := by
  unfold updatedAdmittedLists at updated
  dsimp only at updated
  obtain ⟨removed, removedEq, removedRows⟩ := removeContracts_spec db log
    (db.whitelistedContractsAddresses.filter (· ∉ filecoinPayContracts.map (·.toLowerCase)))
  rw [removedEq] at updated
  obtain ⟨afterTokens, tokensDone, updated⟩ := bind_eq_ok.mp updated
  obtain ⟨tokens, mv, rfl, tokenRows, synced⟩ := removeTokens_spec tokensDone
  obtain ⟨afterContracts, contractsDone, updated⟩ := bind_eq_ok.mp updated
  obtain ⟨contracts, rfl, contractRows⟩ := addContracts_spec contractsDone
  obtain ⟨tokens', mv', rfl, tokenRows', synced'⟩ := addTokens_spec updated
  refine ⟨contracts, tokens', mv', rfl, ?_, ?_, ?_⟩
  · rw [contractRows, removedRows]
  · rw [tokenRows', tokenRows]
  · rcases synced' with ⟨rfl, rfl⟩ | fired
    · rcases synced with ⟨rfl, rfl⟩ | fired
      · exact Or.inl ⟨rfl, rfl⟩
      · exact Or.inr ⟨removed, fired⟩
    · exact Or.inr ⟨contracts, fired⟩

end Lists

section Payments

theorem insertRail_spec {row : FilecoinPayRail} (inserted : db.insertRail row = .ok next) :
    ∃ rails, next = { db with filecoinPayRail := rails } ∧ rails.rows = db.filecoinPayRail.rows ++ [row] := by
  unfold DB.insertRail at inserted
  obtain ⟨_, -, inserted⟩ := bind_eq_ok.mp inserted
  obtain ⟨rails, added, inserted⟩ := bind_eq_ok.mp inserted
  exact ⟨rails, (pure_eq_ok.mp inserted).symm, Table.insert?_rows (insert_ok added)⟩

theorem insertPayment_spec {input : FilecoinPayPaymentInput} (inserted : db.insertPayment input = .ok next) :
    ∃ payments payment, next = { db with filecoinPayPayment := payments } ∧
      payments.rows = db.filecoinPayPayment.rows ++ [payment] ∧
      payment.toFilecoinPayPaymentInput = input ∧ db.hasRail input := by
  unfold DB.insertPayment at inserted
  obtain ⟨_, -, inserted⟩ := bind_eq_ok.mp inserted
  obtain ⟨payments, added, inserted⟩ := bind_eq_ok.mp inserted
  split at inserted
  · rename_i rail
    exact ⟨payments, _, (pure_eq_ok.mp inserted).symm, Table.insert?_rows (insert_ok added), rfl, rail⟩
  · cases inserted

theorem insertAuction_spec {transfer : TransferLog} {chainTx : Transaction} {token : Address}
    (inserted : db.insertAuction transfer chainTx token = .ok next) :
    ∃ auctions mv auction, next = { db with filecoinPayFeeAuction := auctions, qualifiedPricePeriodsMv := mv } ∧
      auctions.rows = db.filecoinPayFeeAuction.rows ++ [auction] ∧ auction ∉ db.filecoinPayFeeAuction.rows ∧
      auction.toFilecoinPayFeeAuctionInput = auctionInput transfer chainTx token ∧
      mv.rows = getQualifyingPricePeriods { db with filecoinPayFeeAuction := auctions } := by
  unfold DB.insertAuction at inserted
  obtain ⟨_, -, inserted⟩ := bind_eq_ok.mp inserted
  obtain ⟨_, -, inserted⟩ := bind_eq_ok.mp inserted
  obtain ⟨auctions, added, refreshed⟩ := bind_eq_ok.mp inserted
  obtain ⟨mv, rfl, synced⟩ := refresh_eq_ok refreshed
  have fresh := Table.insert?_fresh (insert_ok added)
  exact ⟨auctions, mv, _, rfl, Table.insert?_rows (insert_ok added), fun member => fresh (List.mem_map_of_mem member),
    rfl, synced⟩

theorem paymentInput_spec {log : FilecoinPayV1Log} {input : FilecoinPayPaymentInput}
    (built : paymentInput log = some input) : input.filecoinPayContractAddress = log.address.toLowerCase ∧
      input.settledAtEpoch = log.blockNumber ∧ input.logIndex = log.logIndex := by
  unfold paymentInput at built
  split at built
  · cases built
  · cases built
    exact ⟨rfl, rfl, rfl⟩
  · cases built
    exact ⟨rfl, rfl, rfl⟩

theorem transfer_spec {services : AuctionServices} {transfer : TransferLog}
    (handled : AuctionableTokenIndexer.handleLog services db transfer = .ok next) :
    next = db ∨ ∃ chainTx token, db.insertAuction transfer chainTx token = .ok next := by
  unfold AuctionableTokenIndexer.handleLog at handled
  obtain ⟨chainTx, -, handled⟩ := bind_eq_ok.mp handled
  split at handled
  · exact Or.inr ⟨chainTx, _, handled⟩
  · exact Or.inl (pure_eq_ok.mp handled).symm

end Payments
end FpvIndexer.Proof.Handlers
