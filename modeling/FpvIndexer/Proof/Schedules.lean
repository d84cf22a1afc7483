import FpvIndexer.Proof.Commits

namespace FpvIndexer
open Relational

def Chain.actorLogsUpTo (chain : Chain) (block : Int) : List ServiceRewardsActorLog :=
  (chain.logs .serviceRewardsActor chain.serviceRewardsActorAddress.toLowerCase).between
    (chain.getContractDeploymentEpoch chain.serviceRewardsActorAddress.toLowerCase) block

/-- Where the nodes report this head, a run has nothing to index. -/
def NothingToIndex (parameters : IndexerRunParameters) (lastRun : Option Int) (head : Int) : Prop :=
  (parameters.maxBlockNumber.any fun maxBlockNumber => lastRun.any (maxBlockNumber ≤ ·)) ∨
    head < nextBlock parameters lastRun

instance (parameters : IndexerRunParameters) (lastRun : Option Int) (head : Int) :
    Decidable (NothingToIndex parameters lastRun head) := inferInstanceAs (Decidable (_ ∨ _))

def Chain.CaughtUp (chain : Chain) (store : Store) (head : Int) : Prop :=
  ∀ indexer, ∀ parameters ∈ chain.runsOf store indexer,
    NothingToIndex parameters (store.lastRun parameters.contractAddress) head

theorem Indexer.forall_iff {p : Indexer → Prop} :
    (p .serviceRewardsActor ∧ p .streamWeightActor ∧ p .filecoinPayV1 ∧ p .auctionableToken) ↔ ∀ indexer, p indexer := by
  constructor
  · rintro ⟨serviceRewardsActor, streamWeightActor, filecoinPayV1, auctionableToken⟩ indexer
    cases indexer with
    | serviceRewardsActor => exact serviceRewardsActor
    | streamWeightActor => exact streamWeightActor
    | filecoinPayV1 => exact filecoinPayV1
    | auctionableToken => exact auctionableToken
  · exact fun all => ⟨all _, all _, all _, all _⟩

instance (chain : Chain) (store : Store) (head : Int) : Decidable (chain.CaughtUp store head) :=
  decidable_of_iff _ Indexer.forall_iff

def DB.listsAsOf (cfg : Deployment) (q : Int) (db : DB) :
    List ServicePair × List WhitelistedToken × List FilecoinPayContract :=
  ((db.asOf cfg q).servicePair.rows, (db.asOf cfg q).whitelistedToken.rows, (db.asOf cfg q).filecoinPayContract.rows)

namespace Proof.Schedules
open Cursor Handlers Effects Replay ClosedQuarters Runs Commits

section Recorded
variable {cfg : Deployment} {chain : Chain} {store next : Store} {indexer : Indexer} {packageMajorVersion : Nat}
  {parameters : IndexerRunParameters} {range : BlockRange} {contracts : List Address}

theorem actorLogs_chainOrdered : ChainOrdered (chain.actorLogs store) := by
  unfold Chain.actorLogs Chain.upTo ChainLogs.upTo
  cases store.lastRun chain.serviceRewardsActorAddress.toLowerCase with
  | none => exact List.Pairwise.nil
  | some endBlock => exact (chain.numbered .serviceRewardsActor _).filter _

def Recorded (cfg : Deployment) (chain : Chain) (store : Store) : Prop :=
  ∃ history : History, history.Reaches cfg store.toDB ∧
    history.batches.flatMap Batch.serviceRewardsActorLogs = chain.actorLogs store

theorem recorded_migrated : Recorded cfg chain (.migrated (some cfg.toConfig)) :=
  ⟨⟨[], List.Pairwise.nil⟩, rfl, rfl⟩

theorem Recorded.batch (recorded : Recorded cfg chain store) {batch : Batch}
    (applied : index cfg store.toDB batch = .ok next.toDB)
    (logs : chain.actorLogs next = chain.actorLogs store ++ batch.serviceRewardsActorLogs) :
    Recorded cfg chain next := by
  obtain ⟨history, reached, same⟩ := recorded
  have listed : (history.batches ++ [batch]).flatMap Batch.serviceRewardsActorLogs = chain.actorLogs next := by
    rw [List.flatMap_append, List.flatMap_singleton, same, logs]
  refine ⟨⟨history.batches ++ [batch], listed ▸ actorLogs_chainOrdered⟩, ?_, listed⟩
  exact foldlM_append_eq_ok.mpr ⟨_, reached, (foldlM_singleton _ _ _).trans applied⟩

theorem Recorded.committed (recorded : Recorded cfg chain store) (synced : ActorSynced cfg chain store)
    (committed : Committed cfg chain store indexer packageMajorVersion parameters range contracts next) :
    Recorded cfg chain next := by
  obtain ⟨updated, applied, stored⟩ := committed.updated
  have others : indexer ≠ .serviceRewardsActor → chain.actorLogs next = chain.actorLogs store :=
    fun other => committed.actorLogs_other other
  cases indexer with
  | serviceRewardsActor =>
      have whole : index cfg store.toDB (.serviceRewardsActor chain.tokenServices (chain.actorLogsIn range)) =
          .ok next.toDB := committed.actorUpdated
      exact recorded.batch whole (committed.actorLogs synced)
  | filecoinPayV1 => exact recorded.batch (stored ▸ batch_spec applied) ((others nofun).trans (List.append_nil _).symm)
  | auctionableToken => exact recorded.batch (stored ▸ batch_spec applied) ((others nofun).trans (List.append_nil _).symm)
  | streamWeightActor =>
      obtain ⟨history, reached, same⟩ := recorded
      refine ⟨history, ?_, same.trans (others nofun).symm⟩
      rw [stored, streamWeight_spec applied]
      exact reached

end Recorded

section Tables
variable {cfg : Deployment} {chain : Chain} {store next : Store} {indexer : Indexer} {packageMajorVersion : Nat}
  {parameters : IndexerRunParameters} {range : BlockRange} {contracts : List Address}
  {ranges : List (Address × BlockRange)}

theorem railInput_contract {log : FilecoinPayV1Log} {row : FilecoinPayRail} (built : railInput log = some row) :
    row.filecoinPayContractAddress = log.address.toLowerCase := by
  unfold railInput at built
  split at built
  · cases built
    rfl
  · cases built

theorem filter_append_own {α : Type} {contract : α → Address} {rows added : List α}
    (own : ∀ row ∈ added, contract row = address) (other : Address) :
    (rows ++ added).filter (contract · = other) =
      rows.filter (contract · = other) ++ if other = address then added else [] := by
  rw [List.filter_append]
  congr 1
  split
  · rename_i same
    exact List.filter_eq_self.mpr fun row member => decide_eq_true ((own row member).trans same.symm)
  · rename_i differs
    refine List.filter_eq_nil_iff.mpr fun row member kept => differs ?_
    exact (of_decide_eq_true kept).symm.trans (own row member)

def payLogsIn (chain : Chain) (address : Address) (range : BlockRange) : List FilecoinPayV1Log :=
  (chain.logs .filecoinPayV1 address).between range.fromBlock range.toBlock

def indexedLogs (chain : Chain) (ranges : List (Address × BlockRange)) (address : Address) : List FilecoinPayV1Log :=
  ranges.flatMap fun (contract, range) => if contract = address then payLogsIn chain address range else []

theorem indexedLogs_concat (ranges : List (Address × BlockRange)) (contract address : Address) (range : BlockRange) :
    indexedLogs chain (ranges ++ [(contract, range)]) address = indexedLogs chain ranges address ++
      if contract = address then payLogsIn chain address range else [] := by
  unfold indexedLogs
  rw [List.flatMap_append, List.flatMap_singleton]

/-- The rails and the payments are those of the fetched logs. -/
structure Tables (chain : Chain) (store : Store) (ranges : List (Address × BlockRange)) : Prop where
  railKinds : ∀ row ∈ store.filecoinPayRail.rows, chain.indexerOf row.filecoinPayContractAddress = .filecoinPayV1
  paymentKinds : ∀ p ∈ store.filecoinPayPayment.rows, chain.indexerOf p.filecoinPayContractAddress = .filecoinPayV1
  rails : ∀ address, chain.indexerOf address = .filecoinPayV1 →
    store.filecoinPayRail.rows.filter (·.filecoinPayContractAddress = address) =
      getRailsInputs (indexedLogs chain ranges address)
  payments : ∀ address, chain.indexerOf address = .filecoinPayV1 →
    (store.filecoinPayPayment.rows.filter (·.filecoinPayContractAddress = address)).map
        (·.toFilecoinPayPaymentInput) = getPaymentsInputs (indexedLogs chain ranges address)

theorem tables_migrated (applicationConfig : Option Config) : Tables chain (.migrated applicationConfig) [] :=
  ⟨nofun, nofun, fun _ _ => rfl, fun _ _ => rfl⟩

theorem Tables.other (tables : Tables chain store ranges) (other : indexer ≠ .filecoinPayV1)
    (committed : Committed cfg chain store indexer packageMajorVersion parameters range contracts next) :
    Tables chain next (ranges ++ [(parameters.contractAddress, range)]) := by
  obtain ⟨updated, applied, stored⟩ := committed.updated
  obtain ⟨rails, payments⟩ := payments_frame applied other
  have logs : ∀ address, chain.indexerOf address = .filecoinPayV1 →
      indexedLogs chain (ranges ++ [(parameters.contractAddress, range)]) address = indexedLogs chain ranges address := by
    intro address pays
    rw [indexedLogs_concat, if_neg, List.append_nil]
    intro same
    rw [← same, committed.planned.kind] at pays
    exact other pays
  constructor
  · rw [stored, rails]
    exact tables.railKinds
  · rw [stored, payments]
    exact tables.paymentKinds
  · intro address pays
    rw [stored, rails, logs address pays]
    exact tables.rails address pays
  · intro address pays
    rw [stored, payments, logs address pays]
    exact tables.payments address pays

theorem Tables.filecoinPayV1 (tables : Tables chain store ranges)
    (committed : Committed cfg chain store .filecoinPayV1 packageMajorVersion parameters range contracts next) :
    Tables chain next (ranges ++ [(parameters.contractAddress, range)]) := by
  obtain ⟨updated, applied, stored⟩ := committed.updated
  obtain ⟨rails, payments, added, written, railRows, paymentRows, same⟩ := filecoinPay_spec (batch_spec applied)
  have emitted : ∀ log ∈ chain.served .filecoinPayV1 parameters.contractAddress contracts range.fromBlock range.toBlock,
      (log : FilecoinPayV1Log).address.toLowerCase = parameters.contractAddress :=
    fun log member => chain.emitted _ log (List.mem_of_mem_filter member)
  have ownRails : ∀ row ∈ getRailsInputs (chain.served .filecoinPayV1 parameters.contractAddress contracts
      range.fromBlock range.toBlock), row.filecoinPayContractAddress = parameters.contractAddress := by
    intro row member
    obtain ⟨log, served, built⟩ := List.mem_filterMap.mp member
    exact (railInput_contract built).trans (emitted log served)
  have ownPayments : ∀ p ∈ added, p.filecoinPayContractAddress = parameters.contractAddress := by
    intro p member
    have input := List.mem_map_of_mem (f := (·.toFilecoinPayPaymentInput)) member
    rw [same] at input
    obtain ⟨log, served, built⟩ := List.mem_filterMap.mp input
    exact (paymentInput_spec built).1.trans (emitted log served)
  rw [written] at stored
  constructor
  · intro row member
    rw [stored] at member
    rcases List.mem_append.mp (railRows ▸ member) with old | new
    · exact tables.railKinds row old
    · exact ownRails row new ▸ committed.planned.kind
  · intro p member
    rw [stored] at member
    rcases List.mem_append.mp (paymentRows ▸ member) with old | new
    · exact tables.paymentKinds p old
    · exact ownPayments p new ▸ committed.planned.kind
  · intro address pays
    rw [stored, railRows, filter_append_own ownRails, tables.rails address pays, indexedLogs_concat]
    by_cases own : address = parameters.contractAddress
    · rw [if_pos own, if_pos own.symm, own]
      exact List.filterMap_append.symm
    · rw [if_neg own, if_neg (Ne.symm own), List.append_nil, List.append_nil]
  · intro address pays
    rw [stored, paymentRows, filter_append_own ownPayments, List.map_append, tables.payments address pays,
      indexedLogs_concat]
    by_cases own : address = parameters.contractAddress
    · rw [if_pos own, if_pos own.symm, own, same]
      exact List.filterMap_append.symm
    · rw [if_neg own, if_neg (Ne.symm own), List.map_nil, List.append_nil, List.append_nil]

theorem Tables.committed (tables : Tables chain store ranges)
    (committed : Committed cfg chain store indexer packageMajorVersion parameters range contracts next) :
    Tables chain next (ranges ++ [(parameters.contractAddress, range)]) := by
  by_cases pays : indexer = .filecoinPayV1
  · subst pays
    exact tables.filecoinPayV1 committed
  · exact tables.other pays committed

end Tables

section Reached
variable {cfg : Deployment} {chain : Chain} {allowed : Execution → chain.Event → Prop} {s : Execution}

theorem recorded_of_reached (reached : chain.Reached cfg allowed s) : Recorded cfg chain s.store :=
  commit_induction (p := fun store _ => Recorded cfg chain store) recorded_migrated
    (fun before _ _ _ committed recorded => recorded.committed (consistent_of_reached before).synced committed) reached

theorem tables_of_reached (reached : chain.Reached cfg allowed s) : Tables chain s.store s.committed :=
  commit_induction (p := Tables chain) (tables_migrated _) (fun _ _ _ _ committed tables => tables.committed committed)
    reached

section Apart
variable (apart : ∀ s event, allowed s event → Execution.Apart s)
include apart

theorem continues_of_reached (reached : chain.Reached cfg allowed s) : ∀ run ∈ s.active, Continues chain s.store run := by
  induction reached with
  | migrated => exact fun _ member => absurd member List.not_mem_nil
  | @after s next event before allows stepped ih =>
      intro run member
      refine continues_step (p := fun _ => True) (consistent_of_reached before) ?_ (fun run member _ => ih run member)
        (stepped_of_step stepped) run member trivial
      intro i j different run other found foundToo _ planned plannedToo
      refine related_of_pairwise ?_ (apart s event allows) different.symm foundToo found plannedToo planned
      exact fun run other distinct planned plannedToo same => distinct plannedToo planned same.symm

/-- Where no two runs of one contract overlap, its committed batches are what is below its cursor. -/
theorem indexedLogs_of_reached (reached : chain.Reached cfg allowed s) (address : Address) :
    indexedLogs chain s.committed address = chain.upTo .filecoinPayV1 s.store address := by
  refine commit_induction (p := fun store ranges => indexedLogs chain ranges address = chain.upTo .filecoinPayV1 store
    address) rfl ?_ reached
  intro s i answers indexer parameters awaited range contracts logs next before _ found _ committed same
  rw [indexedLogs_concat, same]
  split
  · rename_i own
    subst own
    have continues := continues_of_reached apart before _ (List.mem_of_getElem? found) range rfl
    have started := (consistent_of_reached before).synced.started parameters.contractAddress
    unfold Chain.upTo
    rw [committed.own]
    exact (upTo_next _ continues committed.nonempty started).2
  · rename_i other
    exact (List.append_nil _).trans (upTo_of_lastRun (committed.others address (Ne.symm other))).symm

end Apart

/-- The tables of a store hold what the logs up to its cursors say. -/
structure Synced (cfg : Deployment) (chain : Chain) (store : Store) : Prop extends ActorSynced cfg chain store where
  rails : ∀ address, chain.indexerOf address = .filecoinPayV1 →
    store.filecoinPayRail.rows.filter (·.filecoinPayContractAddress = address) =
      getRailsInputs (chain.upTo .filecoinPayV1 store address)
  payments : ∀ address, chain.indexerOf address = .filecoinPayV1 →
    (store.filecoinPayPayment.rows.filter (·.filecoinPayContractAddress = address)).map
        (·.toFilecoinPayPaymentInput) = getPaymentsInputs (chain.upTo .filecoinPayV1 store address)

theorem synced_of_reached (apart : ∀ s event, allowed s event → Execution.Apart s) (reached : chain.Reached cfg allowed s) :
    Synced cfg chain s.store where
  toActorSynced := (consistent_of_reached reached).synced
  rails := by
    intro address pays
    rw [← indexedLogs_of_reached apart reached]
    exact (tables_of_reached reached).rails address pays
  payments := by
    intro address pays
    rw [← indexedLogs_of_reached apart reached]
    exact (tables_of_reached reached).payments address pays

end Reached

section CaughtUp
variable {cfg : Deployment} {chain : Chain} {store : Store} {indexer : Indexer} {address : Address} {block head : Int}

theorem within_epoch {transactionIndex : Hash → Nat} {log : indexer.Log} {fromBlock toBlock : Int} :
    (indexer.place transactionIndex).within fromBlock toBlock log ↔
      fromBlock ≤ (indexer.position log).epoch ∧ (indexer.position log).epoch ≤ toBlock := by
  rw [within_iff]
  constructor
  · rintro ⟨_, same, bounds⟩
    cases same
    exact bounds
  · exact fun bounds => ⟨_, rfl, bounds⟩

theorem mem_between {log : indexer.Log} {fromBlock toBlock : Int} :
    log ∈ (chain.logs indexer address).between fromBlock toBlock ↔
      log ∈ (chain.logs indexer address).logs ∧ fromBlock ≤ (indexer.position log).epoch ∧
        (indexer.position log).epoch ≤ toBlock :=
  List.mem_filter.trans (and_congr_right fun _ => within_epoch)

variable (indexer) in
theorem indexed_of_past
    (past : block < (store.lastRun address).elim (chain.getContractDeploymentEpoch address) (· + 1)) {log : indexer.Log}
    (logged : log ∈ (chain.logs indexer address).logs) (upToBlock : (indexer.position log).epoch ≤ block) :
    ∃ endBlock, store.lastRun address = some endBlock ∧ (indexer.position log).epoch ≤ endBlock := by
  have started := chain.deployed indexer address log logged
  cases last : store.lastRun address with
  | none =>
      rw [last] at past
      exact absurd (started.trans upToBlock) (not_le.mpr past)
  | some endBlock =>
      rw [last] at past
      exact ⟨endBlock, rfl, upToBlock.trans (Int.lt_add_one_iff.mp past)⟩

variable (indexer) in
theorem upTo_split (synced : ActorSynced cfg chain store)
    (past : block < (store.lastRun address).elim (chain.getContractDeploymentEpoch address) (· + 1)) :
    ∃ later, chain.upTo indexer store address =
        (chain.logs indexer address).between (chain.getContractDeploymentEpoch address) block ++ later ∧
      ∀ log ∈ later, block < (indexer.position log).epoch := by
  unfold Chain.upTo ChainLogs.upTo
  cases last : store.lastRun address with
  | none =>
      rw [last] at past
      change block < chain.getContractDeploymentEpoch address at past
      refine ⟨[], ?_, nofun⟩
      rw [between_empty _ past]
      rfl
  | some endBlock =>
      rw [last] at past
      change block < endBlock + 1 at past
      have started := synced.started address endBlock last
      by_cases before : block < chain.getContractDeploymentEpoch address
      · refine ⟨_, by rw [between_empty _ before]; rfl, ?_⟩
        intro log member
        exact before.trans_le (mem_between.mp member).2.1
      · refine ⟨_, (between_append _ (by omega) (by omega)).symm, ?_⟩
        intro log member
        exact Int.lt_iff_add_one_le.mpr (mem_between.mp member).2.1

theorem listsAsOf_effect {db next : DB} {q : Int} {tokensMap : List (Address × ERC20Metadata)}
    {log : ServiceRewardsActorLog} (effect : Effect cfg db (.actor tokensMap log) next)
    (later : q < cfg.quarterNum log.blockNumber) : next.listsAsOf cfg q = db.listsAsOf cfg q := by
  cases effect with
  | bindings _ _ orchestrators admissions pairs change =>
      exact Prod.ext (pairs_asOf change later) rfl
  | postings => rfl
  | lists _ _ stablecoins filecoinPayContracts contracts tokens mv contractRows tokenRows synced =>
      exact Prod.ext rfl (Prod.ext (tokens_step_asOf later _ _ tokensMap tokenRows)
        (contracts_step_asOf later _ _ contractRows))
  | parameters => rfl
  | shares => rfl

theorem listsAsOf_replay {db next : DB} {q : Int} {services : TokenServices} {logs : List ServiceRewardsActorLog}
    (run : logs.foldlM (handleOne cfg services) db = .ok next)
    (later : ∀ log ∈ logs, q < cfg.quarterNum log.blockNumber) : next.listsAsOf cfg q = db.listsAsOf cfg q := by
  refine foldlM_induction run (fun _ next => next.listsAsOf cfg q = db.listsAsOf cfg q) rfl ?_
  intro past log rest before after whole same handled
  obtain ⟨tokensMap, -, handled⟩ := handleOne_iff.mp handled
  exact (listsAsOf_effect (handleLog_effect handled) (later log (by simp [whole]))).trans same

theorem replayed_of_caughtUp (synced : ActorSynced cfg chain store) (caughtUp : chain.CaughtUp store head) (le : block ≤ head) :
    ∃ base, ∃ later : List ServiceRewardsActorLog,
      (chain.actorLogsUpTo block).foldlM (handleOne cfg chain.tokenServices) (DB.seeded cfg) = .ok base ∧
      later.foldlM (handleOne cfg chain.tokenServices) base = .ok store.toDB.actor ∧
      ∀ log ∈ later, block < log.blockNumber := by
  have nothing := caughtUp .serviceRewardsActor _ (List.mem_singleton_self _)
  have past : block < (store.lastRun chain.serviceRewardsActorAddress.toLowerCase).elim
      (chain.getContractDeploymentEpoch chain.serviceRewardsActorAddress.toLowerCase) (· + 1) := by
    rcases nothing with stopped | beyond
    · cases stopped
    · rw [chain.deployment_toLowerCase]
      exact le.trans_lt beyond
  obtain ⟨later, split, after⟩ := upTo_split .serviceRewardsActor synced past
  have run := synced.actor
  unfold Chain.actorLogs at run
  rw [split] at run
  obtain ⟨base, first, second⟩ := foldlM_append_eq_ok.mp run
  exact ⟨base, later, first, second, after⟩

theorem listsAsOf_of_caughtUp {other : Store} {headToo : Int} (synced : ActorSynced cfg chain store)
    (caughtUp : chain.CaughtUp store head) (syncedToo : ActorSynced cfg chain other) (caughtUpToo : chain.CaughtUp other headToo)
    (q : QuarterNumber) (closed : cfg.quarterEndEpoch q.intValue ≤ head) (closedToo : cfg.quarterEndEpoch q.intValue ≤ headToo) :
    store.toDB.listsAsOf cfg q.intValue = other.toDB.listsAsOf cfg q.intValue := by
  obtain ⟨base, later, first, second, after⟩ := replayed_of_caughtUp synced caughtUp closed
  obtain ⟨same, laterToo, firstToo, secondToo, afterToo⟩ := replayed_of_caughtUp syncedToo caughtUpToo closedToo
  obtain rfl : base = same := Except.ok.inj (first.symm.trans firstToo)
  have here := listsAsOf_replay second fun log member => lt_quarterNum (after log member)
  have there := listsAsOf_replay secondToo fun log member => lt_quarterNum (afterToo log member)
  exact here.trans there.symm

end CaughtUp

end Proof.Schedules
end FpvIndexer
