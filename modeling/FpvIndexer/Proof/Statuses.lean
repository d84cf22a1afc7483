import FpvIndexer.Services.IndexerStatus
import FpvIndexer.Proof.WholeCalls

namespace FpvIndexer
open Relational

/-- A run has indexed what it may index of the blocks up to this one. -/
def UpToDate (parameters : IndexerRunParameters) (lastRun : Option Int) (block : Int) : Prop :=
  (parameters.maxBlockNumber.any (· < nextBlock parameters lastRun)) ∨ block < nextBlock parameters lastRun

namespace Chain
variable (chain : Chain)

def OfVersion (version : Nat) (_ : Execution) : chain.Event → Prop
  | .resume _ answers => answers.packageMajorVersion = version
  | _ => True

end Chain

namespace Proof.Statuses
open Handlers Replay Runs Commits Schedules GateTargets Removals WholeCalls

/-- Everything that the contracts log up to a block is stored: a replay of the logs of the actor has come past it, the
gate of each epoch is known, and so are the rails and the payments of each contract, up to its removal. -/
structure Complete (cfg : Deployment) (chain : Chain) (fits : Int → Nat → Bool) (store : Store) (block : Int) : Prop where
  actor : ∃ base, ∃ later : List ServiceRewardsActorLog,
    (chain.actorLogsUpTo block).foldlM (handleOne cfg chain.tokenServices) (DB.seeded cfg) = .ok base ∧
    later.foldlM (handleOne cfg chain.tokenServices) base = .ok store.toDB.actor ∧ ∀ log ∈ later, block < log.blockNumber
  gate : ∀ epoch ≤ block,
    (chain.gateAsOf epoch).Answers fits (some epoch) (GateCheckService.calculateGateTarget fits store (some epoch))
  rails : ∀ address removalEpoch, (address, removalEpoch) ∈ filecoinPayContracts store.toDB →
    ∀ log ∈ chain.filecoinPayLogs address, log.blockNumber ≤ block → removalEpoch.all (log.blockNumber ≤ ·) →
      ∀ rail, railInput log = some rail → rail ∈ store.filecoinPayRail.rows
  payments : ∀ address removalEpoch, (address, removalEpoch) ∈ filecoinPayContracts store.toDB →
    ∀ log ∈ chain.filecoinPayLogs address, log.blockNumber ≤ block → removalEpoch.all (log.blockNumber ≤ ·) →
      ∀ input, paymentInput log = some input →
        store.filecoinPayPayment.rows.countP (·.toFilecoinPayPaymentInput = input) = 1

section Minimum

theorem minBigInt_le_iff {values : List Int} {least bound : Int} (minimum : minBigInt values = .ok least) :
    bound ≤ least ↔ ∀ value ∈ values, bound ≤ value := by
  cases values with
  | nil => cases minimum
  | cons first rest =>
      obtain rfl := Except.ok.inj minimum
      clear minimum
      induction rest generalizing first with
      | nil => simp
      | cons second rest ih =>
          have lower : bound ≤ (if second < first then second else first) ↔ bound ≤ first ∧ bound ≤ second := by
            split <;> omega
          rw [List.foldl_cons, ih, List.forall_mem_cons, lower, List.forall_mem_cons, List.forall_mem_cons, and_assoc]

end Minimum

section Cursors
variable {cfg : Deployment} {chain : Chain} {store : Store} {s : Execution} {version : Nat} {block : Int}

theorem versions_of_reached (reached : chain.Reached cfg (chain.OfVersion version) s) :
    ∀ row ∈ s.store.indexerState.rows, row.version = version := by
  refine commit_induction (p := fun store _ => ∀ row ∈ store.indexerState.rows, row.version = version) nofun ?_ reached
  intro s i answers indexer parameters awaited range contracts logs next _ allows _ _ committed all
  obtain ⟨updated, applied, stored⟩ := committed.stored
  have kept := chain.indexerState_updateDb applied
  intro row member
  rw [stored] at member
  rcases List.mem_append.mp member with old | new
  · exact all row (kept ▸ List.mem_of_mem_filter old)
  · obtain rfl := List.mem_singleton.mp new
    exact allows

theorem contractState_indexedUpTo (versions : ∀ row ∈ store.indexerState.rows, row.version = version)
    (contract : ContractMetadata) :
    (chain.contractState (store.indexerState.rows.filter (·.version = version)) contract).indexedUpTo =
      chain.firstLeft store contract.address - 1 := by
  have all : store.indexerState.rows.filter (·.version = version) = store.indexerState.rows :=
    List.filter_eq_self.mpr fun row member => decide_eq_true (versions row member)
  unfold Chain.contractState Chain.firstLeft Store.lastRun Table.lookup?
  rw [all]
  dsimp only
  cases store.indexerState.rows.find? (·.contractAddress = contract.address) with
  | none => rfl
  | some row => exact (Int.add_sub_cancel row.endBlock 1).symm

/-- A contract that is left out of the minimum: one that was removed and is indexed up to its removal. -/
def leftOut (chain : Chain) (store : Store) (address : Address) : Bool :=
  (filecoinPayContracts store.toDB).any fun contract =>
    chain.isAddress address && chain.isAddress contract.1 && isAddressEqual address contract.1 &&
      contract.2.any (· < chain.firstLeft store address)

theorem isRemovedAndSynced_eq (versions : ∀ row ∈ store.indexerState.rows, row.version = version)
    (contract : ContractMetadata) :
    chain.isRemovedAndSyncedFilecoinPayAddress (filecoinPayContracts store.toDB)
        (chain.contractState (store.indexerState.rows.filter (·.version = version)) contract) =
      leftOut chain store contract.address := by
  unfold Chain.isRemovedAndSyncedFilecoinPayAddress leftOut
  rw [contractState_indexedUpTo versions]
  simp only [Int.le_sub_one_iff]
  rfl

theorem mem_erc20 {services : chain.Services} {pairs : List (Address × Bool)}
    (checked : ((auctionableTokens store.toDB).mapM fun token => do
      let isErc20 ← services.tokens.isValidERC20 token
      return (token, isErc20)) = .ok pairs) {token : Address} :
    token ∈ (pairs.filter (·.2)).map (·.1) ↔ token ∈ auctionableTokens store.toDB ∧ chain.isERC20 token := by
  constructor
  · intro listed
    obtain ⟨⟨_, isErc20⟩, kept, rfl⟩ := List.mem_map.mp listed
    obtain ⟨inPairs, valid⟩ := List.mem_filter.mp kept
    obtain ⟨token, member, answered⟩ := exists_item_of_mem_mapM checked inPairs
    obtain ⟨_, answer, same⟩ := bind_eq_ok.mp answered
    cases same
    obtain rfl : isErc20 = true := valid
    exact ⟨member, (services.valid _ true answer).symm⟩
  · rintro ⟨member, valid⟩
    obtain ⟨pair, inPairs, answered⟩ := exists_result_of_mem_mapM checked member
    obtain ⟨isErc20, answer, same⟩ := bind_eq_ok.mp answered
    cases same
    have known : isErc20 = chain.isERC20 token := services.valid token isErc20 answer
    exact List.mem_map.mpr ⟨_, List.mem_filter.mpr ⟨inPairs, known.trans valid⟩, rfl⟩

theorem exists_listing {services : chain.Services} {packageSemver : Option PackageSemver} {chainId : Nat} {isRunning : Bool}
    {status : IndexerStatus}
    (versions : ∀ row ∈ store.indexerState.rows, row.version = packageMajorVersion packageSemver)
    (got : chain.getStatus services packageSemver chainId isRunning store = .ok status) :
    ∃ erc20, (∀ token, token ∈ erc20 ↔ token ∈ auctionableTokens store.toDB ∧ chain.isERC20 token) ∧
      ∀ block, block ≤ status.indexedUpTo ↔ ∀ contract ∈ chain.contractsMetadata store erc20,
        ¬ leftOut chain store contract.address → block < chain.firstLeft store contract.address := by
  unfold Chain.getStatus at got
  dsimp only at got
  obtain ⟨pairs, checked, got⟩ := bind_eq_ok.mp got
  obtain ⟨least, minimum, got⟩ := bind_eq_ok.mp got
  obtain rfl := pure_eq_ok.mp got
  refine ⟨_, fun token => mem_erc20 checked, fun block => ?_⟩
  rw [minBigInt_le_iff minimum]
  constructor
  · intro all contract member kept
    have le := all _ (List.mem_map_of_mem (List.mem_filter.mpr ⟨List.mem_map_of_mem member, ?_⟩))
    · rw [contractState_indexedUpTo versions] at le
      omega
    · rw [isRemovedAndSynced_eq versions]
      simpa using kept
  · intro all value listed
    obtain ⟨state, kept, rfl⟩ := List.mem_map.mp listed
    obtain ⟨inStates, kept⟩ := List.mem_filter.mp kept
    obtain ⟨contract, member, rfl⟩ := List.mem_map.mp inStates
    rw [isRemovedAndSynced_eq versions] at kept
    have lt := all contract member (by simpa using kept)
    rw [contractState_indexedUpTo versions]
    omega

end Cursors

section Listed
variable {cfg : Deployment} {chain : Chain} {allowed : Execution → chain.Event → Prop} {s : Execution} {block : Int}

theorem upToDate_iff {indexer : Indexer} {parameters : IndexerRunParameters}
    (planned : Planned chain indexer parameters) (store : Store) :
    UpToDate parameters (store.lastRun parameters.contractAddress) block ↔
      (parameters.maxBlockNumber.any (· < chain.firstLeft store parameters.contractAddress)) ∨
        block < chain.firstLeft store parameters.contractAddress := by
  unfold UpToDate nextBlock Chain.firstLeft
  rw [planned.deployment]

theorem planned_of_run {store : Store} (synced : ActorSynced cfg chain store) {indexer : Indexer}
    {parameters : IndexerRunParameters} (member : parameters ∈ chain.runsOf store indexer) :
    Planned chain indexer parameters := by
  obtain ⟨candidate, indexed⟩ := List.mem_filter.mp member
  exact synced.planned candidate indexed

theorem token_lower (reached : chain.Reached cfg allowed s) {token : Address}
    (member : token ∈ auctionableTokens s.store.toDB) : token.toLowerCase = token := by
  unfold auctionableTokens at member
  rw [mem_distinctOn_id] at member
  obtain ⟨rail, kept, rfl⟩ := List.mem_map.mp member
  have inRows := List.mem_of_mem_filter kept
  exact rail_token_lower (tables_of_reached reached) inRows

theorem token_run (reached : chain.Reached cfg allowed s) {token : Address}
    (member : token ∈ auctionableTokens s.store.toDB) (valid : chain.isERC20 token) :
    ∃ parameters ∈ chain.runsOf s.store .auctionableToken, parameters.contractAddress = token ∧
      parameters.maxBlockNumber = none := by
  have lower := token_lower reached member
  have address : (chain.runParameters token.toLowerCase none).contractAddress = token := by
    change token.toLowerCase.toLowerCase = token
    rw [lower, lower]
  have candidate : chain.runParameters token.toLowerCase none ∈ chain.candidates s.store .auctionableToken :=
    List.mem_map.mpr ⟨token, List.mem_filter.mpr ⟨member, lower.symm ▸ chain.token_isAddress token valid⟩, rfl⟩
  refine ⟨_, List.mem_filter.mpr ⟨candidate, ?_⟩, address, rfl⟩
  change chain.isERC20 _ = true
  rw [address]
  exact valid

theorem contract_run (reached : chain.Reached cfg allowed s) {contract : Address × Option Int}
    (listed : contract ∈ filecoinPayContracts s.store.toDB) : ∃ parameters ∈ chain.runsOf s.store .filecoinPayV1,
      parameters.contractAddress = contract.1 ∧ parameters.maxBlockNumber = contract.2 := by
  obtain ⟨c, inRows, address, -⟩ := mem_filecoinPayContracts listed
  obtain ⟨lower, isAddress, -⟩ := (consistent_of_reached reached).synced.listed c inRows
  rw [address] at lower isAddress
  refine ⟨chain.runParameters contract.1.toLowerCase contract.2, List.mem_filter.mpr
    ⟨List.mem_map.mpr ⟨contract, List.mem_filter.mpr ⟨listed, lower.symm ▸ isAddress⟩, rfl⟩, rfl⟩, ?_, rfl⟩
  change contract.1.toLowerCase.toLowerCase = contract.1
  rw [lower, lower]

theorem leftOut_iff (reached : chain.Reached cfg allowed s) {address : Address} (lower : address.toLowerCase = address) :
    leftOut chain s.store address ↔ ∃ removalEpoch, (address, removalEpoch) ∈ filecoinPayContracts s.store.toDB ∧
      removalEpoch.any (· < chain.firstLeft s.store address) := by
  unfold leftOut
  rw [List.any_eq_true]
  constructor
  · rintro ⟨contract, listed, conditions⟩
    obtain ⟨c, inRows, same, -⟩ := mem_filecoinPayContracts listed
    obtain ⟨lowerToo, -⟩ := (consistent_of_reached reached).synced.listed c inRows
    rw [same] at lowerToo
    obtain ⟨conditions, removed⟩ := Bool.and_eq_true_iff.mp conditions
    have equal : address.toLowerCase = contract.1.toLowerCase :=
      of_decide_eq_true (Bool.and_eq_true_iff.mp conditions).2
    rw [lower, lowerToo] at equal
    exact ⟨contract.2, equal ▸ listed, removed⟩
  · rintro ⟨removalEpoch, listed, removed⟩
    obtain ⟨c, inRows, same, -⟩ := mem_filecoinPayContracts listed
    obtain ⟨-, isAddress, -⟩ := (consistent_of_reached reached).synced.listed c inRows
    rw [same] at isAddress
    refine ⟨_, listed, ?_⟩
    simp [isAddress, removed, isAddressEqual]

theorem run_contract (reached : chain.Reached cfg allowed s) {parameters : IndexerRunParameters}
    (member : parameters ∈ chain.runsOf s.store .filecoinPayV1) :
    (parameters.contractAddress, parameters.maxBlockNumber) ∈ filecoinPayContracts s.store.toDB := by
  obtain ⟨contract, kept, rfl⟩ := List.mem_map.mp (List.mem_of_mem_filter member)
  have listed := List.mem_of_mem_filter kept
  obtain ⟨c, inRows, address, -⟩ := mem_filecoinPayContracts listed
  obtain ⟨lower, -⟩ := (consistent_of_reached reached).synced.listed c inRows
  rw [address] at lower
  change (contract.1.toLowerCase.toLowerCase, contract.2) ∈ _
  rw [lower, lower]
  exact listed

theorem removal_unique {db : DB} {address : Address} {removalEpoch other : Option Int}
    (listed : (address, removalEpoch) ∈ filecoinPayContracts db) (listedToo : (address, other) ∈ filecoinPayContracts db) :
    removalEpoch = other :=
  congrArg Prod.snd (distinctOn_inj _ listed listedToo rfl)

theorem exists_metadata (reached : chain.Reached cfg allowed s) {erc20 : List Address}
    (valid : ∀ token, token ∈ erc20 ↔ token ∈ auctionableTokens s.store.toDB ∧ chain.isERC20 token)
    {indexer : Indexer} {parameters : IndexerRunParameters} (member : parameters ∈ chain.runsOf s.store indexer) :
    ∃ contract ∈ chain.contractsMetadata s.store erc20, contract.address = parameters.contractAddress := by
  unfold Chain.contractsMetadata
  cases indexer with
  | serviceRewardsActor =>
      obtain rfl := List.mem_singleton.mp (List.mem_of_mem_filter member)
      exact ⟨_, List.mem_append_left _ (List.mem_append_left _ List.mem_cons_self), rfl⟩
  | streamWeightActor =>
      obtain rfl := List.mem_singleton.mp (List.mem_of_mem_filter member)
      exact ⟨_, List.mem_append_left _ (List.mem_append_left _ (List.mem_cons_of_mem _ List.mem_cons_self)), rfl⟩
  | filecoinPayV1 =>
      have listed := List.mem_map_of_mem (f := fun contract => (⟨.filecoinPayV1, contract.1⟩ : ContractMetadata))
        (run_contract reached member)
      exact ⟨_, List.mem_append_left _ (List.mem_append_right _ listed), rfl⟩
  | auctionableToken =>
      obtain ⟨candidate, isValid⟩ := List.mem_filter.mp member
      obtain ⟨token, kept, rfl⟩ := List.mem_map.mp candidate
      have inRails := List.mem_of_mem_filter kept
      have same : token.toLowerCase.toLowerCase = token := by rw [token_lower reached inRails, token_lower reached inRails]
      have isValid : chain.isERC20 token.toLowerCase.toLowerCase = true := isValid
      rw [same] at isValid
      have listed := List.mem_map_of_mem (f := fun tokenAddress => (⟨.erc20, tokenAddress⟩ : ContractMetadata))
        ((valid token).mpr ⟨inRails, isValid⟩)
      exact ⟨_, List.mem_append_right _ listed, same.symm⟩

theorem exists_run (reached : chain.Reached cfg allowed s) {erc20 : List Address}
    (valid : ∀ token, token ∈ erc20 ↔ token ∈ auctionableTokens s.store.toDB ∧ chain.isERC20 token)
    {contract : ContractMetadata} (member : contract ∈ chain.contractsMetadata s.store erc20) :
    ∃ indexer, ∃ parameters ∈ chain.runsOf s.store indexer, parameters.contractAddress = contract.address ∧
      (parameters.maxBlockNumber = none ∨
        (contract.address, parameters.maxBlockNumber) ∈ filecoinPayContracts s.store.toDB) := by
  unfold Chain.contractsMetadata at member
  rcases List.mem_append.mp member with others | tokens
  · rcases List.mem_append.mp others with actor | pays
    · rcases List.mem_cons.mp actor with rfl | actor
      · exact ⟨.serviceRewardsActor, _, List.mem_singleton_self _, rfl, Or.inl rfl⟩
      · obtain rfl := List.mem_singleton.mp actor
        exact ⟨.streamWeightActor, _, List.mem_singleton_self _, rfl, Or.inl rfl⟩
    · obtain ⟨listed, inList, rfl⟩ := List.mem_map.mp pays
      obtain ⟨parameters, run, address, removal⟩ := contract_run reached inList
      exact ⟨.filecoinPayV1, parameters, run, address, Or.inr (removal ▸ inList)⟩
  · obtain ⟨token, inList, rfl⟩ := List.mem_map.mp tokens
    obtain ⟨inRails, isValid⟩ := (valid token).mp inList
    obtain ⟨parameters, run, address, unbounded⟩ := token_run reached inRails isValid
    exact ⟨.auctionableToken, parameters, run, address, Or.inl unbounded⟩

end Listed

section Stored
variable {cfg : Deployment} {chain : Chain} {store : Store} {address : Address} {block : Int}

theorem upTo_inputs_nodup (chain : Chain) (store : Store) (address : Address) :
    (getPaymentsInputs (chain.upTo .filecoinPayV1 store address)).Nodup := by
  refine inputs_nodup ?_
  unfold Chain.upTo ChainLogs.upTo
  cases store.lastRun address with
  | none => exact List.Pairwise.nil
  | some endBlock => exact (chain.numbered .filecoinPayV1 address).filter _

variable (indexer : Indexer) in
theorem mem_upTo_of_past {log : indexer.Log} (logged : log ∈ (chain.logs indexer address).logs)
    (past : (indexer.position log).epoch < chain.firstLeft store address) : log ∈ chain.upTo indexer store address := by
  obtain ⟨endBlock, last, le⟩ := indexed_of_past indexer past logged le_rfl
  unfold Chain.upTo ChainLogs.upTo
  rw [last]
  exact mem_between.mpr ⟨logged, chain.deployed indexer address log logged, le⟩

theorem stored_of_past (synced : Synced cfg chain store) (kind : chain.indexerOf address = .filecoinPayV1)
    {log : FilecoinPayV1Log} (logged : log ∈ chain.filecoinPayLogs address)
    (past : log.blockNumber < chain.firstLeft store address) :
    (∀ rail, railInput log = some rail → rail ∈ store.filecoinPayRail.rows) ∧
      ∀ input, paymentInput log = some input →
        store.filecoinPayPayment.rows.countP (·.toFilecoinPayPaymentInput = input) = 1 := by
  have inRange := mem_upTo_of_past .filecoinPayV1 logged past
  have own := chain.emitted address log logged
  constructor
  · intro rail built
    have listed : rail ∈ getRailsInputs (chain.upTo .filecoinPayV1 store address) :=
      List.mem_filterMap.mpr ⟨log, inRange, built⟩
    rw [← synced.rails address kind] at listed
    exact List.mem_of_mem_filter listed
  · intro input built
    have listed : input ∈ getPaymentsInputs (chain.upTo .filecoinPayV1 store address) :=
      List.mem_filterMap.mpr ⟨log, inRange, built⟩
    have once := List.count_eq_one_of_mem (upTo_inputs_nodup chain store address) listed
    rw [← synced.payments address kind, count_inputs, List.countP_filter] at once
    rw [← once]
    congr 1
    funext p
    by_cases same : p.toFilecoinPayPaymentInput = input
    · simp [same, (paymentInput_spec built).1.trans own]
    · simp [same]

theorem gateLogs_past {epoch : Int}
    (past : epoch < chain.firstLeft store chain.streamWeightActorAddress.toLowerCase) :
    ((chain.gateLogs store).filter fun log => (some epoch).all (log.blockNumber ≤ ·)) = chain.gateLogsUpTo epoch := by
  cases last : store.lastRun chain.streamWeightActorAddress.toLowerCase with
  | some endBlock =>
      refine gateLogs_upTo last fun other same => ?_
      cases same
      unfold Chain.firstLeft at past
      rw [last] at past
      exact Int.le_of_lt_add_one past
  | none =>
      unfold Chain.firstLeft at past
      rw [last] at past
      have nothing : chain.gateLogs store = [] := by
        unfold Chain.gateLogs Chain.upTo
        rw [last]
        rfl
      rw [nothing]
      refine (List.filter_eq_nil_iff.mpr fun log logged before => ?_).symm
      have started : _ ≤ StreamWeightActorLog.blockNumber log := chain.deployed .streamWeightActor _ log logged
      exact absurd (started.trans (of_decide_eq_true before)) (not_le.mpr past)

end Stored

section Status
variable (cfg : Deployment) (chain : Chain) (services : chain.Services) (packageSemver : Option PackageSemver)
  (chainId : Nat) (isRunning : Bool) (s : Execution) (status : IndexerStatus)
  (reached : chain.Reached cfg (chain.OfVersion (packageMajorVersion packageSemver)) s)
  (got : chain.getStatus services packageSemver chainId isRunning s.store = .ok status) (block : Int)

include reached got

theorem upToDate_of_le (le : block ≤ status.indexedUpTo) {indexer : Indexer} {parameters : IndexerRunParameters}
    (member : parameters ∈ chain.runsOf s.store indexer) :
    UpToDate parameters (s.store.lastRun parameters.contractAddress) block := by
  obtain ⟨erc20, valid, least⟩ := exists_listing (versions_of_reached reached) got
  have synced := (consistent_of_reached reached).synced
  have planned := planned_of_run synced member
  obtain ⟨contract, listed, same⟩ := exists_metadata reached valid member
  rw [upToDate_iff planned, or_iff_not_imp_left]
  intro kept
  rw [← same]
  refine (least block).mp le contract listed fun left => kept ?_
  rw [same, leftOut_iff reached parameters.lowerCase] at left
  obtain ⟨removalEpoch, removed, past⟩ := left
  obtain ⟨c, inRows, address, -⟩ := mem_filecoinPayContracts removed
  have kind := (synced.listed c inRows).2.2
  rw [address, planned.kind] at kind
  subst kind
  rw [removal_unique (run_contract reached member) removed]
  exact past

/-- The status is past a block where every run that it lists is up to date with the block. -/
theorem indexedUpTo_iff : block ≤ status.indexedUpTo ↔
    ∀ indexer, ∀ parameters ∈ chain.runsOf s.store indexer,
      UpToDate parameters (s.store.lastRun parameters.contractAddress) block := by
  constructor
  · intro le indexer parameters member
    exact upToDate_of_le cfg chain services packageSemver chainId isRunning s status reached got block le member
  · intro all
    obtain ⟨erc20, valid, least⟩ := exists_listing (versions_of_reached reached) got
    have synced := (consistent_of_reached reached).synced
    rw [least]
    intro contract listed kept
    obtain ⟨indexer, parameters, member, same, removal⟩ := exists_run reached valid listed
    have lower : contract.address.toLowerCase = contract.address := same ▸ parameters.lowerCase
    rw [leftOut_iff reached lower] at kept
    have upToDate := (upToDate_iff (planned_of_run synced member) s.store).mp (all indexer parameters member)
    rw [same] at upToDate
    rcases upToDate with stopped | beyond
    · rcases removal with unbounded | removed
      · rw [unbounded] at stopped
        cases stopped
      · exact absurd ⟨_, removed, stopped⟩ kept
    · exact beyond

end Status

section Complete
variable (cfg : Deployment) (chain : Chain) (services : chain.Services) (packageSemver : Option PackageSemver) (chainId : Nat)
  (isRunning : Bool) (s : Execution) (status : IndexerStatus) (block : Int)

/-- What the status reports to be indexed is stored, where no two runs of one contract overlap. -/
theorem complete_of_status (fits : Int → Nat → Bool)
    (reached : chain.Reached cfg (fun s event => chain.OfVersion (packageMajorVersion packageSemver) s event ∧ s.Apart) s)
    (got : chain.getStatus services packageSemver chainId isRunning s.store = .ok status)
    (le : block ≤ status.indexedUpTo) : Complete cfg chain fits s.store block := by
  have versioned := reached_mono (fun _ _ => And.left) reached
  have upToDate : ∀ indexer, ∀ parameters ∈ chain.runsOf s.store indexer,
      UpToDate parameters (s.store.lastRun parameters.contractAddress) block := fun _ _ run =>
    upToDate_of_le cfg chain services packageSemver chainId isRunning s status versioned got block le run
  have synced := synced_of_reached (fun _ _ => And.right) reached
  have actor := synced.toActorSynced
  have unbounded : ∀ indexer parameters, parameters ∈ chain.runsOf s.store indexer →
      parameters.maxBlockNumber = none → block < chain.firstLeft s.store parameters.contractAddress := by
    intro indexer parameters run none
    rcases (upToDate_iff (planned_of_run actor run) s.store).mp (upToDate indexer parameters run) with stopped | past
    · rw [none] at stopped
      cases stopped
    · exact past
  have listed : ∀ address removalEpoch, (address, removalEpoch) ∈ filecoinPayContracts s.store.toDB →
      ∀ log ∈ chain.filecoinPayLogs address, log.blockNumber ≤ block → removalEpoch.all (log.blockNumber ≤ ·) →
        chain.indexerOf address = .filecoinPayV1 ∧ log.blockNumber < chain.firstLeft s.store address := by
    intro address removalEpoch inList log logged upTo before
    obtain ⟨parameters, run, rfl, rfl⟩ := contract_run reached inList
    refine ⟨(planned_of_run actor run).kind, ?_⟩
    rcases (upToDate_iff (planned_of_run actor run) s.store).mp (upToDate .filecoinPayV1 parameters run) with
      stopped | past
    · obtain ⟨removal, same, stopped⟩ := (Option.any_eq_true _ _).mp stopped
      rw [same] at before
      exact (of_decide_eq_true before).trans_lt (of_decide_eq_true stopped)
    · exact upTo.trans_lt past
  have actorPast : block < chain.firstLeft s.store chain.serviceRewardsActorAddress.toLowerCase :=
    unbounded .serviceRewardsActor _ (List.mem_filter.mpr ⟨List.mem_singleton_self _, rfl⟩) rfl
  have gatePast : block < chain.firstLeft s.store chain.streamWeightActorAddress.toLowerCase :=
    unbounded .streamWeightActor _ (List.mem_filter.mpr ⟨List.mem_singleton_self _, rfl⟩) rfl
  constructor
  · obtain ⟨later, split, after⟩ := upTo_split .serviceRewardsActor actor actorPast
    have run := synced.actor
    unfold Chain.actorLogs at run
    rw [split] at run
    obtain ⟨base, first, second⟩ := foldlM_append_eq_ok.mp run
    exact ⟨base, later, first, second, after⟩
  · intro epoch upTo
    exact answers_of_holds (holds_of_synced (gateSynced_of_reached reached) (gateLogs_past (upTo.trans_lt gatePast)))
  · intro address removalEpoch inList log logged upTo before
    obtain ⟨kind, past⟩ := listed address removalEpoch inList log logged upTo before
    exact (stored_of_past synced kind logged past).1
  · intro address removalEpoch inList log logged upTo before
    obtain ⟨kind, past⟩ := listed address removalEpoch inList log logged upTo before
    exact (stored_of_past synced kind logged past).2

end Complete

section Samples

def isOfVersion (chain : Chain) (version : Nat) (s : Execution) : chain.Event → Bool
  | .resume _ answers => answers.packageMajorVersion = version ∧ s.Apart
  | _ => s.Apart

theorem ofVersion_of_check {chain : Chain} {version : Nat} (s : Execution) (event : chain.Event)
    (checked : isOfVersion chain version s event) : chain.OfVersion version s event ∧ s.Apart := by
  cases event with
  | resume i answers => exact of_decide_eq_true (p := answers.packageMajorVersion = version ∧ s.Apart) checked
  | start => exact ⟨trivial, of_decide_eq_true checked⟩
  | proceed => exact ⟨trivial, of_decide_eq_true checked⟩
  | throw => exact ⟨trivial, of_decide_eq_true checked⟩

def versioned : Option PackageSemver := some ⟨1, "1.2.0"⟩

def versionedSchedule : Option Execution :=
  schedule hundredEpochs quietChain (isOfVersion quietChain 1) [fun | .serviceRewardsActor => 320 | _ => 300]

theorem versioned_status : versionedSchedule.map (fun s =>
    (quietChain.getStatus quietChain.answering versioned 314 false s.store).map fun status =>
      (status.indexedUpTo, status.contracts.map (·.indexedUpTo))) = some (.ok (300, [320, 300, 300, 300])) := by
  decide +kernel

theorem exists_versioned : ∃ s status,
    quietChain.Reached hundredEpochs (fun s event => quietChain.OfVersion 1 s event ∧ s.Apart) s ∧
    quietChain.getStatus quietChain.answering versioned 314 false s.store = .ok status ∧ status.indexedUpTo = 300 := by
  obtain ⟨s, run, answered⟩ := Option.map_eq_some_iff.mp versioned_status
  obtain ⟨status, got, same⟩ := exists_of_map_eq_ok answered
  exact ⟨s, status, reached_of_schedule ofVersion_of_check run, got, (Prod.mk.inj same).1⟩

theorem indexedUpTo_iff_versioned : ∃ s : Execution, ∀ parameters ∈ quietChain.runsOf s.store .filecoinPayV1,
    UpToDate parameters (s.store.lastRun parameters.contractAddress) 300 := by
  obtain ⟨s, status, reached, got, upTo⟩ := exists_versioned
  exact ⟨s, (indexedUpTo_iff hundredEpochs quietChain _ versioned 314 false s status
    (reached_mono (fun _ _ => And.left) reached) got 300).mp upTo.ge .filecoinPayV1⟩

theorem complete_of_status_versioned : ∃ s : Execution, Complete hundredEpochs quietChain engine s.store 300 := by
  obtain ⟨s, status, reached, got, upTo⟩ := exists_versioned
  exact ⟨s, complete_of_status hundredEpochs quietChain _ versioned 314 false s status 300 engine reached got upTo.ge⟩

end Samples

end Proof.Statuses
end FpvIndexer
