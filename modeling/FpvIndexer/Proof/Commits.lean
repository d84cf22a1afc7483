import FpvIndexer.Proof.Runs
import FpvIndexer.Proof.ClosedQuarters

namespace FpvIndexer
open Relational

namespace Chain
variable (chain : Chain)

def upTo (indexer : Indexer) (store : Store) (address : Address) : List indexer.Log :=
  (chain.logs indexer address).upTo (chain.getContractDeploymentEpoch address) (store.lastRun address)

def actorLogs (store : Store) : List ServiceRewardsActorLog :=
  chain.upTo .serviceRewardsActor store chain.serviceRewardsActorAddress.toLowerCase

def actorLogsIn (range : BlockRange) : List ServiceRewardsActorLog :=
  (chain.logs .serviceRewardsActor chain.serviceRewardsActorAddress.toLowerCase).between range.fromBlock range.toBlock

def firstLeft (store : Store) (address : Address) : Int :=
  (store.lastRun address).elim (chain.getContractDeploymentEpoch address) (· + 1)

end Chain

namespace Proof.Commits
open Cursor Handlers Effects Replay Runs

section Updates
variable {cfg : Deployment} {db next : DB}

theorem rails_spec {rows : List FilecoinPayRail} (run : rows.foldlM DB.insertRail db = .ok next) :
    ∃ rails, next = { db with filecoinPayRail := rails } ∧ rails.rows = db.filecoinPayRail.rows ++ rows := by
  induction rows generalizing db with
  | nil =>
      obtain rfl := pure_eq_ok.mp run
      exact ⟨_, rfl, (List.append_nil _).symm⟩
  | cons row rest ih =>
      rw [List.foldlM_cons, bind_eq_ok] at run
      obtain ⟨mid, first, later⟩ := run
      obtain ⟨rails, rfl, rows⟩ := insertRail_spec first
      obtain ⟨all, rfl, allRows⟩ := ih later
      exact ⟨all, rfl, by rw [allRows, rows, List.append_assoc, List.singleton_append]⟩

theorem payments_spec {inputs : List FilecoinPayPaymentInput} (run : inputs.foldlM DB.insertPayment db = .ok next) :
    ∃ payments, next = { db with filecoinPayPayment := payments } ∧ ∃ added, payments.rows =
      db.filecoinPayPayment.rows ++ added ∧ added.map (·.toFilecoinPayPaymentInput) = inputs := by
  induction inputs generalizing db with
  | nil =>
      obtain rfl := pure_eq_ok.mp run
      exact ⟨_, rfl, [], (List.append_nil _).symm, rfl⟩
  | cons input rest ih =>
      rw [List.foldlM_cons, bind_eq_ok] at run
      obtain ⟨mid, first, later⟩ := run
      obtain ⟨payments, payment, rfl, rows, same, -⟩ := insertPayment_spec first
      obtain ⟨all, rfl, added, allRows, sameRest⟩ := ih later
      refine ⟨all, rfl, payment :: added, ?_, ?_⟩
      · rw [allRows, rows, List.append_assoc, List.singleton_append]
      · rw [List.map_cons, same, sameRest]

theorem filecoinPay_spec {logs : List FilecoinPayV1Log} (updated : FilecoinPayV1Indexer.updateDb db logs = .ok next) :
    ∃ rails payments added, next = { db with filecoinPayRail := rails, filecoinPayPayment := payments } ∧
      rails.rows = db.filecoinPayRail.rows ++ getRailsInputs logs ∧
      payments.rows = db.filecoinPayPayment.rows ++ added ∧
      added.map (·.toFilecoinPayPaymentInput) = getPaymentsInputs logs := by
  obtain ⟨mid, first, second⟩ := bind_eq_ok.mp updated
  obtain ⟨rails, rfl, railRows⟩ := rails_spec first
  obtain ⟨payments, rfl, added, paymentRows, same⟩ := payments_spec second
  exact ⟨rails, payments, added, rfl, railRows, paymentRows, same⟩

theorem actor_spec {services : TokenServices} {logs : List ServiceRewardsActorLog}
    (updated : ServiceRewardsActorIndexer.updateDb cfg services db logs = .ok next) :
    next.filecoinPayRail = db.filecoinPayRail ∧ next.filecoinPayPayment = db.filecoinPayPayment ∧
      next.filecoinPayFeeAuction = db.filecoinPayFeeAuction := by
  obtain ⟨tokensMap, -, run⟩ := bind_eq_ok.mp updated
  refine foldlM_induction run (fun _ next => next.filecoinPayRail = db.filecoinPayRail ∧
    next.filecoinPayPayment = db.filecoinPayPayment ∧ next.filecoinPayFeeAuction = db.filecoinPayFeeAuction)
    ⟨rfl, rfl, rfl⟩ ?_
  intro past log rest before after whole same handled
  cases handleLog_effect handled with
  | bindings => exact same
  | postings => exact same
  | lists => exact same
  | parameters => exact same
  | shares => exact same

theorem transfers_spec {services : AuctionServices} {logs : List TransferLog}
    (updated : AuctionableTokenIndexer.updateDb services db logs = .ok next) :
    next.actor = db.actor ∧ next.filecoinPayRail = db.filecoinPayRail ∧
      next.filecoinPayPayment = db.filecoinPayPayment := by
  refine foldlM_induction updated (fun _ next => next.actor = db.actor ∧ next.filecoinPayRail = db.filecoinPayRail ∧
    next.filecoinPayPayment = db.filecoinPayPayment) ⟨rfl, rfl, rfl⟩ ?_
  intro past log rest before after whole same handled
  rcases transfer_spec handled with rfl | ⟨chainTx, token, inserted⟩
  · exact same
  · obtain ⟨_, _, _, rfl, -⟩ := insertAuction_spec inserted
    exact same

theorem batch_spec {store updated : Store} {batch : Batch} (done : store.updateDb (.batch cfg batch) = .ok updated) :
    index cfg store.toDB batch = .ok updated.toDB := by
  obtain ⟨db, applied, same⟩ := bind_eq_ok.mp done
  rw [← pure_eq_ok.mp same]
  exact applied

theorem streamWeight_spec {store next : Store} {logs : List StreamWeightActorLog}
    (updated : StreamWeightActorIndexer.updateDb store logs = .ok next) : next.toDB = store.toDB := by
  obtain ⟨_, -, updated⟩ := bind_eq_ok.mp updated
  obtain ⟨_, -, updated⟩ := bind_eq_ok.mp updated
  obtain ⟨_, -, updated⟩ := bind_eq_ok.mp updated
  obtain ⟨_, -, updated⟩ := bind_eq_ok.mp updated
  rw [← pure_eq_ok.mp updated]

end Updates

section Frames
variable {cfg : Deployment} {chain : Chain} {services : chain.Services} {indexer : Indexer} {store next : Store}
  {logs : List indexer.Log}

theorem actor_frame (updated : chain.updateDb cfg services store indexer logs = .ok next)
    (other : indexer ≠ .serviceRewardsActor) : next.toDB.actor = store.toDB.actor := by
  cases indexer with
  | serviceRewardsActor => exact absurd rfl other
  | streamWeightActor => rw [streamWeight_spec updated]
  | filecoinPayV1 =>
      obtain ⟨_, _, _, tables, -⟩ := filecoinPay_spec (batch_spec updated)
      rw [tables]
      rfl
  | auctionableToken => exact (transfers_spec (batch_spec updated)).1

theorem payments_frame (updated : chain.updateDb cfg services store indexer logs = .ok next) (other : indexer ≠ .filecoinPayV1) :
    next.filecoinPayRail = store.filecoinPayRail ∧ next.filecoinPayPayment = store.filecoinPayPayment := by
  cases indexer with
  | filecoinPayV1 => exact absurd rfl other
  | streamWeightActor =>
      have same := streamWeight_spec updated
      exact ⟨congrArg (·.filecoinPayRail) same, congrArg (·.filecoinPayPayment) same⟩
  | serviceRewardsActor =>
      obtain ⟨rails, payments, -⟩ := actor_spec (batch_spec updated)
      exact ⟨rails, payments⟩
  | auctionableToken => exact (transfers_spec (batch_spec updated)).2

end Frames

section Committed
variable {cfg : Deployment} {chain : Chain} {indexer : Indexer} {packageMajorVersion : Nat}
  {parameters : IndexerRunParameters} {store next : Store} {range : BlockRange} {contracts : List Address}

structure Planned (chain : Chain) (indexer : Indexer) (parameters : IndexerRunParameters) : Prop where
  kind : chain.indexerOf parameters.contractAddress = indexer
  actor : indexer = .serviceRewardsActor → parameters.contractAddress = chain.serviceRewardsActorAddress.toLowerCase
  gate : indexer = .streamWeightActor → parameters.contractAddress = chain.streamWeightActorAddress.toLowerCase
  deployment : parameters.minBlockNumber = chain.getContractDeploymentEpoch parameters.contractAddress

structure Committed (cfg : Deployment) (chain : Chain) (store : Store) (indexer : Indexer) (packageMajorVersion : Nat)
    (parameters : IndexerRunParameters) (range : BlockRange) (contracts : List Address) (next : Store) : Prop where
  planned : Planned chain indexer parameters
  nonempty : range.fromBlock ≤ range.toBlock
  started : chain.getContractDeploymentEpoch parameters.contractAddress ≤ range.fromBlock
  continues : isActor indexer → range.fromBlock = chain.firstLeft store parameters.contractAddress
  stored : ∃ updated, chain.updateDb cfg chain.answering store indexer
      (chain.served indexer parameters.contractAddress contracts range.fromBlock range.toBlock) = .ok updated ∧
    next = updated.upsertIndexerState ⟨parameters.contractAddress, range.toBlock, packageMajorVersion⟩

variable (committed : Committed cfg chain store indexer packageMajorVersion parameters range contracts next)
include committed

theorem Committed.own : next.lastRun parameters.contractAddress = some range.toBlock := by
  obtain ⟨updated, -, rfl⟩ := committed.stored
  exact lastRun_upsert updated _

theorem Committed.others (other : Address) (differs : other ≠ parameters.contractAddress) :
    next.lastRun other = store.lastRun other := by
  obtain ⟨updated, applied, rfl⟩ := committed.stored
  rw [lastRun_upsert_of_ne _ differs]
  unfold Store.lastRun
  rw [chain.indexerState_updateDb applied]

theorem Committed.updated : ∃ updated, chain.updateDb cfg chain.answering store indexer
    (chain.served indexer parameters.contractAddress contracts range.fromBlock range.toBlock) = .ok updated ∧
      next.toDB = updated.toDB := by
  obtain ⟨updated, applied, rfl⟩ := committed.stored
  exact ⟨updated, applied, rfl⟩

theorem Committed.endsStarted : chain.getContractDeploymentEpoch parameters.contractAddress ≤ range.toBlock :=
  committed.started.trans committed.nonempty

theorem Committed.upTo (continues : range.fromBlock = chain.firstLeft store parameters.contractAddress)
    (started : ∀ endBlock, store.lastRun parameters.contractAddress = some endBlock →
      chain.getContractDeploymentEpoch parameters.contractAddress ≤ endBlock) :
    chain.upTo indexer next parameters.contractAddress = chain.upTo indexer store parameters.contractAddress ++
      (chain.logs indexer parameters.contractAddress).between range.fromBlock range.toBlock := by
  unfold Chain.upTo
  rw [committed.own]
  exact (upTo_next _ continues committed.nonempty started).2.symm

end Committed

section Synced
variable {cfg : Deployment} {chain : Chain} {store next : Store} {indexer : Indexer} {packageMajorVersion : Nat}
  {parameters : IndexerRunParameters} {range : BlockRange} {contracts : List Address}

theorem upTo_of_lastRun {address : Address} (same : next.lastRun address = store.lastRun address) :
    chain.upTo indexer next address = chain.upTo indexer store address := by
  unfold Chain.upTo
  rw [same]

/-- The tables of the actor hold what its logs up to the cursor say. -/
structure ActorSynced (cfg : Deployment) (chain : Chain) (store : Store) : Prop where
  started : ∀ address endBlock, store.lastRun address = some endBlock →
    chain.getContractDeploymentEpoch address ≤ endBlock
  actor : (chain.actorLogs store).foldlM (handleOne cfg chain.tokenServices) (DB.seeded cfg) = .ok store.toDB.actor

theorem actorSynced_migrated : ActorSynced cfg chain (.migrated (some cfg.toConfig)) where
  started := fun _ _ last => (nomatch last)
  actor := rfl

theorem Committed.actorLogs (synced : ActorSynced cfg chain store)
    (committed : Committed cfg chain store .serviceRewardsActor packageMajorVersion parameters range contracts next) :
    chain.actorLogs next = chain.actorLogs store ++ chain.actorLogsIn range := by
  have upTo := committed.upTo (committed.continues rfl) (synced.started _)
  rw [committed.planned.actor rfl] at upTo
  exact upTo

theorem Committed.actorUpdated
    (committed : Committed cfg chain store .serviceRewardsActor packageMajorVersion parameters range contracts next) :
    ServiceRewardsActorIndexer.updateDb cfg chain.tokenServices store.toDB (chain.actorLogsIn range) = .ok next.toDB := by
  obtain ⟨updated, applied, stored⟩ := committed.updated
  rw [committed.planned.actor rfl] at applied
  rw [stored]
  exact batch_spec applied

theorem Committed.actorLogs_other (other : indexer ≠ .serviceRewardsActor)
    (committed : Committed cfg chain store indexer packageMajorVersion parameters range contracts next) :
    chain.actorLogs next = chain.actorLogs store := by
  refine upTo_of_lastRun (committed.others _ fun same => other ?_)
  rw [← committed.planned.kind, ← same, chain.serviceRewardsActor_indexer]

theorem ActorSynced.committed (synced : ActorSynced cfg chain store)
    (committed : Committed cfg chain store indexer packageMajorVersion parameters range contracts next) :
    ActorSynced cfg chain next := by
  obtain ⟨updated, applied, stored⟩ := committed.updated
  constructor
  · intro address endBlock last
    by_cases own : address = parameters.contractAddress
    · rw [own, committed.own] at last
      cases last
      rw [own]
      exact committed.endsStarted
    · rw [committed.others address own] at last
      exact synced.started address endBlock last
  · by_cases actor : indexer = .serviceRewardsActor
    · subst actor
      rw [committed.actorLogs synced]
      exact foldlM_append_eq_ok.mpr ⟨_, synced.actor, updateDb_actor committed.actorUpdated⟩
    · rw [committed.actorLogs_other actor, stored, actor_frame applied actor]
      exact synced.actor

theorem mem_upTo {address : Address} {log : indexer.Log} (member : log ∈ chain.upTo indexer store address) :
    ∃ endBlock, store.lastRun address = some endBlock ∧
      log ∈ (chain.logs indexer address).between (chain.getContractDeploymentEpoch address) endBlock := by
  unfold Chain.upTo ChainLogs.upTo at member
  cases last : store.lastRun address with
  | none =>
      rw [last] at member
      cases member
  | some endBlock =>
      rw [last] at member
      exact ⟨endBlock, rfl, member⟩

theorem ActorSynced.listed (synced : ActorSynced cfg chain store) :
    ∀ c ∈ store.filecoinPayContract.rows, c.contractAddress.toLowerCase = c.contractAddress ∧
      chain.isAddress c.contractAddress ∧ chain.indexerOf c.contractAddress = .filecoinPayV1 := by
  intro c member
  obtain ⟨log, inLogs, announced, -⟩ := announced_of_replay synced.actor c member
  obtain ⟨_, -, inRange⟩ := mem_upTo inLogs
  have inChain : log ∈ (chain.logs .serviceRewardsActor chain.serviceRewardsActorAddress.toLowerCase).logs :=
    List.mem_of_mem_filter inRange
  exact ⟨lower_of_announcedContracts announced, chain.announced_isAddress _ log inChain _ announced,
    chain.announced_indexer _ log inChain _ announced⟩

theorem mem_filecoinPayContracts {db : DB} {entry : Address × Option Int} (member : entry ∈ filecoinPayContracts db) :
    ∃ c ∈ db.filecoinPayContract.rows, c.contractAddress = entry.1 ∧ c.removalEpoch = entry.2 := by
  have listed := mem_of_mem_distinctOn_orderBy _ member
  rw [mem_distinctOn_id] at listed
  obtain ⟨c, inRows, rfl⟩ := List.mem_map.mp listed
  exact ⟨c, inRows, rfl, rfl⟩

theorem ActorSynced.planned (synced : ActorSynced cfg chain store)
    (member : parameters ∈ chain.candidates store indexer) (indexed : chain.isIndexed indexer parameters) :
    Planned chain indexer parameters := by
  cases indexer with
  | serviceRewardsActor =>
      obtain rfl := List.mem_singleton.mp member
      exact ⟨chain.serviceRewardsActor_indexer, fun _ => rfl, nofun, (chain.deployment_toLowerCase _).symm⟩
  | streamWeightActor =>
      obtain rfl := List.mem_singleton.mp member
      exact ⟨chain.streamWeightActor_indexer, nofun, fun _ => rfl, (chain.deployment_toLowerCase _).symm⟩
  | filecoinPayV1 =>
      obtain ⟨entry, listed, rfl⟩ := List.mem_map.mp member
      obtain ⟨c, inRows, address, -⟩ := mem_filecoinPayContracts (List.mem_of_mem_filter listed)
      obtain ⟨lower, -, kind⟩ := synced.listed c inRows
      refine ⟨?_, nofun, nofun, (chain.deployment_toLowerCase _).symm⟩
      change chain.indexerOf entry.1.toLowerCase.toLowerCase = _
      rw [← address, lower, lower, kind]
  | auctionableToken =>
      obtain ⟨token, listed, rfl⟩ := List.mem_map.mp member
      refine ⟨?_, nofun, nofun, (chain.deployment_toLowerCase _).symm⟩
      exact chain.token_indexer _ indexed

end Synced

section Ranges
variable {chain : Chain} {ranges more : List (Address × BlockRange)} {address : Address} {run : ActiveRun}

def Held (ranges : List (Address × BlockRange)) (address : Address) (block : Int) : Prop :=
  ∃ range, (address, range) ∈ ranges ∧ range.fromBlock ≤ block ∧ block ≤ range.toBlock

theorem Held.mono {block : Int} (held : Held ranges address block) (sub : ranges ⊆ more) : Held more address block := by
  obtain ⟨range, member, bounds⟩ := held
  exact ⟨range, sub member, bounds⟩

/-- A planned batch leaves no gap behind it. -/
structure Follows (chain : Chain) (ranges : List (Address × BlockRange)) (address : Address) (range : BlockRange) :
    Prop where
  nonempty : range.fromBlock ≤ range.toBlock
  started : chain.getContractDeploymentEpoch address ≤ range.fromBlock
  behind : ∀ block, chain.getContractDeploymentEpoch address ≤ block → block < range.fromBlock → Held ranges address block

structure Ready (chain : Chain) (ranges : List (Address × BlockRange)) (run : ActiveRun) : Prop where
  planned : (run.phase = .starts → chain.isIndexed run.indexer run.parameters) → Planned chain run.indexer run.parameters
  follows : ∀ range, run.range? = some range → Follows chain ranges run.contractAddress range
  logs : ∀ range contracts logs, run.phase = .writes range contracts logs →
    logs = chain.served run.indexer run.contractAddress contracts range.fromBlock range.toBlock

theorem Ready.mono (ready : Ready chain ranges run) (sub : ranges ⊆ more) : Ready chain more run where
  planned := ready.planned
  follows := by
    intro range planned
    obtain ⟨nonempty, started, behind⟩ := ready.follows range planned
    exact ⟨nonempty, started, fun block lower upper => (behind block lower upper).mono sub⟩
  logs := ready.logs

/-- The cursor of a contract is the end of a committed batch, and the batches of a contract leave no gap. -/
structure Filled (chain : Chain) (store : Store) (ranges : List (Address × BlockRange)) : Prop where
  cursor : ∀ address endBlock, store.lastRun address = some endBlock →
    ∃ range, (address, range) ∈ ranges ∧ range.toBlock = endBlock
  filled : ∀ address range, (address, range) ∈ ranges → ∀ block, chain.getContractDeploymentEpoch address ≤ block →
    block ≤ range.toBlock → Held ranges address block

theorem Filled.held {store : Store} (filled : Filled chain store ranges) {block : Int}
    (started : chain.getContractDeploymentEpoch address ≤ block) (past : block < chain.firstLeft store address) :
    Held ranges address block := by
  unfold Chain.firstLeft at past
  cases last : store.lastRun address with
  | none =>
      rw [last] at past
      exact absurd past (not_lt.mpr started)
  | some endBlock =>
      rw [last] at past
      obtain ⟨range, member, ends⟩ := filled.cursor address endBlock last
      exact filled.filled address range member block started (ends ▸ Int.lt_add_one_iff.mp past)

end Ranges

section Consistent
variable {cfg : Deployment} {chain : Chain} {s next : Execution} {answers : chain.Answers}

def Continues (chain : Chain) (store : Store) (run : ActiveRun) : Prop :=
  ∀ range, run.range? = some range → range.fromBlock = chain.firstLeft store run.contractAddress

structure Consistent (cfg : Deployment) (chain : Chain) (s : Execution) : Prop where
  stages : Stages s
  ready : ∀ run ∈ s.active, Ready chain s.committed run
  actors : ∀ run ∈ s.active, isActor run.indexer → Continues chain s.store run
  synced : ActorSynced cfg chain s.store
  filled : Filled chain s.store s.committed

theorem consistent_migrated : Consistent cfg chain (.migrated (some cfg.toConfig)) where
  stages := ⟨fun _ member => absurd member List.not_mem_nil, fun _ member => absurd member List.not_mem_nil,
    List.Pairwise.nil⟩
  ready := fun _ member => absurd member List.not_mem_nil
  actors := fun _ member => absurd member List.not_mem_nil
  synced := actorSynced_migrated
  filled := ⟨fun _ _ last => (nomatch last), nofun⟩

theorem ready_candidate (synced : ActorSynced cfg chain s.store) {indexer : Indexer} {parameters : IndexerRunParameters}
    (member : parameters ∈ chain.candidates s.store indexer) (ranges : List (Address × BlockRange)) :
    Ready chain ranges ⟨indexer, parameters, true, .starts⟩ where
  planned := fun indexed => synced.planned member (indexed rfl)
  follows := nofun
  logs := nofun

section Performed
variable {indexer : Indexer} {parameters : IndexerRunParameters} {awaited : Bool} {phase after : Phase indexer}

theorem from_nextRange {config : IndexerConfig} {heads : Heads} {store : Store} {range : BlockRange}
    (planned : Planned chain indexer parameters)
    (plans : nextRange config parameters (store.lastRun parameters.contractAddress) heads = .ok (some range)) :
    range.fromBlock = chain.firstLeft store parameters.contractAddress ∧ range.fromBlock ≤ range.toBlock := by
  obtain ⟨next, nonempty⟩ := nextRange_spec plans
  refine ⟨next.trans ?_, nonempty⟩
  unfold nextBlock Chain.firstLeft
  rw [planned.deployment]

theorem Consistent.moved (consistent : Consistent cfg chain s)
    (ready : Ready chain s.committed ⟨indexer, parameters, awaited, phase⟩)
    (performed : Performed cfg chain answers s.store ⟨indexer, parameters, awaited, phase⟩ (.goesOn after)) :
    Ready chain s.committed ⟨indexer, parameters, awaited, after⟩ := by
  cases performed with
  | started indexed => exact ⟨fun _ => ready.planned fun _ => indexed, nofun, nofun⟩
  | planned plans =>
      have planned := ready.planned nofun
      obtain ⟨first, nonempty⟩ := from_nextRange planned plans
      refine ⟨fun _ => planned, fun range same => ?_, nofun⟩
      cases same
      refine ⟨nonempty, ?_, fun block started before => consistent.filled.held started (first ▸ before)⟩
      rw [first]
      unfold Chain.firstLeft
      cases last : s.store.lastRun parameters.contractAddress with
      | none => exact le_rfl
      | some endBlock => exact (consistent.synced.started _ _ last).trans (Int.le_add_one le_rfl)
  | fetched =>
      refine ⟨fun _ => ready.planned nofun, ready.follows, fun range contracts logs same => ?_⟩
      cases same
      rfl

theorem continues_moved (ready : Ready chain s.committed ⟨indexer, parameters, awaited, phase⟩)
    (performed : Performed cfg chain answers s.store ⟨indexer, parameters, awaited, phase⟩ (.goesOn after))
    (continues : Continues chain s.store ⟨indexer, parameters, awaited, phase⟩) :
    Continues chain s.store ⟨indexer, parameters, awaited, after⟩ := by
  cases performed with
  | started => exact nofun
  | planned plans =>
      intro range same
      cases same
      exact (from_nextRange (ready.planned nofun) plans).1
  | fetched => exact continues

end Performed

section Committed
variable {i : Nat} {indexer : Indexer} {parameters : IndexerRunParameters} {awaited : Bool} {range : BlockRange}
  {contracts : List Address} {logs : List indexer.Log} {store : Store}

theorem Consistent.committed (consistent : Consistent cfg chain s)
    (found : s.active[i]? = some ⟨indexer, parameters, awaited, .writes range contracts logs⟩)
    (writes : writeBatch (chain.indexer cfg indexer) answers.packageMajorVersion parameters s.store range logs
      answers.services answers.transaction = .ok store) :
    Committed cfg chain s.store indexer answers.packageMajorVersion parameters range contracts store := by
  have member := List.mem_of_getElem? found
  have ready := consistent.ready _ member
  obtain ⟨nonempty, started, -⟩ := ready.follows range rfl
  obtain ⟨updated, applied, rfl⟩ := writeBatch_spec writes
  have sorted : logs = chain.served indexer parameters.contractAddress contracts range.fromBlock range.toBlock :=
    ready.logs range contracts logs rfl
  subst sorted
  refine ⟨ready.planned nofun, nonempty, started, fun actor => consistent.actors _ member actor range rfl, updated,
    updateDb_answering answers.services applied, ?_⟩
  rw [parameters.lowerCase]

theorem Filled.committed (filled : Filled chain s.store s.committed)
    (follows : Follows chain s.committed parameters.contractAddress range)
    (committed : Committed cfg chain s.store indexer answers.packageMajorVersion parameters range contracts store) :
    Filled chain store (s.committed ++ [(parameters.contractAddress, range)]) := by
  have sub : s.committed ⊆ s.committed ++ [(parameters.contractAddress, range)] := List.subset_append_left _ _
  have last := List.mem_append_right s.committed (List.mem_singleton_self (parameters.contractAddress, range))
  constructor
  · intro address endBlock current
    by_cases own : address = parameters.contractAddress
    · rw [own, committed.own] at current
      exact ⟨range, own ▸ last, Option.some.inj current⟩
    · rw [committed.others address own] at current
      obtain ⟨earlier, member, ends⟩ := filled.cursor address endBlock current
      exact ⟨earlier, sub member, ends⟩
  · intro address other member block started before
    rcases List.mem_append.mp member with earlier | new
    · exact (filled.filled address other earlier block started before).mono sub
    · cases List.mem_singleton.mp new
      by_cases behind : block < range.fromBlock
      · exact (follows.behind block started behind).mono sub
      · exact ⟨range, last, not_lt.mp behind, before⟩

end Committed

theorem continues_step {p : Indexer → Prop} (consistent : Consistent cfg chain s)
    (separate : ∀ i j : Nat, i ≠ j → ∀ run other : ActiveRun, s.active[i]? = some run → s.active[j]? = some other →
      p other.indexer → run.range?.isSome → other.range?.isSome → other.contractAddress ≠ run.contractAddress)
    (continues : ∀ run ∈ s.active, p run.indexer → Continues chain s.store run) {event : chain.Event}
    (stepped : Stepped cfg chain s event next) : ∀ run ∈ next.active, p run.indexer → Continues chain next.store run := by
  cases stepped with
  | entered _ indexer =>
      intro run member counts
      rcases List.mem_append.mp member with before | new
      · exact continues run before counts
      · obtain ⟨parameters, -, rfl⟩ := List.mem_map.mp new
        exact nofun
  | stopped => exact continues
  | failed =>
      intro run member counts
      obtain ⟨before, inActive, rfl⟩ := List.mem_map.mp member
      exact continues before (List.mem_of_mem_eraseIdx inActive) counts
  | ended => exact fun run member => continues run (List.mem_of_mem_eraseIdx member)
  | moved found performed =>
      intro run member counts
      rcases mem_set_cases member with rfl | ⟨j, -, there⟩
      · have before := List.mem_of_getElem? found
        exact continues_moved (consistent.ready _ before) performed (continues _ before counts)
      · exact continues run (List.mem_of_getElem? there) counts
  | @committed i answers indexer parameters awaited range contracts logs store found writes =>
      have committed := consistent.committed found writes
      have others : ∀ j ≠ i, ∀ run, s.active[j]? = some run → p run.indexer → Continues chain store run := by
        intro j different run there counts other planned
        have apart := separate i j different.symm _ run found there counts rfl (by rw [planned]; rfl)
        unfold Chain.firstLeft
        rw [committed.others _ apart]
        exact continues run (List.mem_of_getElem? there) counts other planned
      intro run member counts
      dsimp only at member
      split at member
      · rcases mem_set_cases member with rfl | ⟨j, different, there⟩
        · exact nofun
        · exact others j different run there counts
      · obtain ⟨j, different, there⟩ := List.mem_eraseIdx_iff_getElem?.mp member
        exact others j different run there counts

theorem kind_of_range {run : ActiveRun} (ready : Ready chain s.committed run) (planned : run.range?.isSome) :
    chain.indexerOf run.contractAddress = run.indexer := by
  refine (ready.planned fun starts => ?_).kind
  unfold ActiveRun.range? at planned
  rw [starts] at planned
  cases planned

theorem Consistent.separate (consistent : Consistent cfg chain s) (i j : Nat) (different : i ≠ j) (run other : ActiveRun)
    (found : s.active[i]? = some run) (foundToo : s.active[j]? = some other) (actor : isActor other.indexer)
    (planned : run.range?.isSome) (plannedToo : other.range?.isSome) : other.contractAddress ≠ run.contractAddress := by
  intro same
  have kind := kind_of_range (consistent.ready run (List.mem_of_getElem? found)) planned
  have kindToo := kind_of_range (consistent.ready other (List.mem_of_getElem? foundToo)) plannedToo
  rw [same, kind] at kindToo
  exact consistent.stages.different different.symm foundToo found actor kindToo.symm

theorem Consistent.step (consistent : Consistent cfg chain s) {event : chain.Event}
    (stepped : Stepped cfg chain s event next) : Consistent cfg chain next := by
  have stages := consistent.stages.step stepped
  have actors := continues_step (p := fun indexer => isActor indexer) consistent consistent.separate
    consistent.actors stepped
  cases stepped with
  | entered _ indexer =>
      refine ⟨stages, fun run member => ?_, actors, consistent.synced, consistent.filled⟩
      rcases List.mem_append.mp member with before | new
      · exact consistent.ready run before
      · obtain ⟨parameters, candidate, rfl⟩ := List.mem_map.mp new
        exact ready_candidate consistent.synced candidate _
  | stopped => exact ⟨stages, consistent.ready, actors, consistent.synced, consistent.filled⟩
  | failed =>
      refine ⟨stages, fun run member => ?_, actors, consistent.synced, consistent.filled⟩
      obtain ⟨before, inActive, rfl⟩ := List.mem_map.mp member
      obtain ⟨planned, follows, logs⟩ := consistent.ready before (List.mem_of_mem_eraseIdx inActive)
      exact ⟨planned, follows, logs⟩
  | ended =>
      exact ⟨stages, fun run member => consistent.ready run (List.mem_of_mem_eraseIdx member), actors,
        consistent.synced, consistent.filled⟩
  | moved found performed =>
      refine ⟨stages, fun run member => ?_, actors, consistent.synced, consistent.filled⟩
      rcases mem_set_cases member with rfl | ⟨j, -, there⟩
      · exact consistent.moved (consistent.ready _ (List.mem_of_getElem? found)) performed
      · exact consistent.ready run (List.mem_of_getElem? there)
  | @committed i answers indexer parameters awaited range contracts logs store found writes =>
      have committed := consistent.committed found writes
      have own := consistent.ready _ (List.mem_of_getElem? found)
      have sub : s.committed ⊆ s.committed ++ [(parameters.contractAddress, range)] := List.subset_append_left _ _
      refine ⟨stages, fun run member => ?_, actors, consistent.synced.committed committed,
        consistent.filled.committed (own.follows range rfl) committed⟩
      dsimp only at member
      split at member
      · rcases mem_set_cases member with rfl | ⟨j, -, there⟩
        · exact ⟨fun _ => own.planned nofun, nofun, nofun⟩
        · exact (consistent.ready run (List.mem_of_getElem? there)).mono sub
      · exact (consistent.ready run (List.mem_of_mem_eraseIdx member)).mono sub

end Consistent

section Reached
variable {cfg : Deployment} {chain : Chain} {allowed : Execution → chain.Event → Prop} {s : Execution}

theorem consistent_of_reached (reached : chain.Reached cfg allowed s) : Consistent cfg chain s := by
  induction reached with
  | migrated => exact consistent_migrated
  | after _ _ _ stepped ih => exact ih.step (stepped_of_step stepped)

/-- What a fresh store has and every commit keeps holds wherever a schedule leads. -/
theorem commit_induction {p : Store → List (Address × BlockRange) → Prop} (migrated : p (.migrated (some cfg.toConfig)) [])
    (commit : ∀ {s : Execution} {i : Nat} {answers : chain.Answers} {indexer : Indexer}
      {parameters : IndexerRunParameters} {awaited : Bool} {range : BlockRange} {contracts : List Address}
      {logs : List indexer.Log} {next : Store}, chain.Reached cfg allowed s → allowed s (.resume i answers) →
      s.active[i]? = some ⟨indexer, parameters, awaited, .writes range contracts logs⟩ →
      writeBatch (chain.indexer cfg indexer) answers.packageMajorVersion parameters s.store range logs answers.services
        answers.transaction = .ok next →
      Committed cfg chain s.store indexer answers.packageMajorVersion parameters range contracts next →
      p s.store s.committed → p next (s.committed ++ [(parameters.contractAddress, range)]))
    (reached : chain.Reached cfg allowed s) : p s.store s.committed := by
  induction reached with
  | migrated => exact migrated
  | after event before allows stepped ih =>
      cases stepped_of_step stepped with
      | committed found writes =>
          exact commit before allows found writes ((consistent_of_reached before).committed found writes) ih
      | entered => exact ih
      | stopped => exact ih
      | failed => exact ih
      | ended => exact ih
      | moved => exact ih

end Reached

end Proof.Commits
end FpvIndexer
