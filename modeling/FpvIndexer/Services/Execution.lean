import FpvIndexer.Services.IndexerOrchestrator
import FpvIndexer.Indexers.AbstractIndexer

namespace FpvIndexer
open Relational

inductive Indexer
  | serviceRewardsActor
  | streamWeightActor
  | filecoinPayV1
  | auctionableToken
deriving DecidableEq

namespace Indexer

def Log : Indexer → Type
  | serviceRewardsActor => ServiceRewardsActorLog
  | streamWeightActor => StreamWeightActorLog
  | filecoinPayV1 => FilecoinPayV1Log
  | auctionableToken => TransferLog

def position : (indexer : Indexer) → indexer.Log → Position
  | serviceRewardsActor, (log : ServiceRewardsActorLog) => log.position
  | streamWeightActor, (log : StreamWeightActorLog) => ⟨log.blockNumber, log.logIndex⟩
  | filecoinPayV1, (log : FilecoinPayV1Log) => ⟨log.blockNumber, log.logIndex⟩
  | auctionableToken, (log : TransferLog) => log.position

def transactionHash : (indexer : Indexer) → indexer.Log → Hash
  | serviceRewardsActor, (log : ServiceRewardsActorLog) => log.transactionHash
  | streamWeightActor, (log : StreamWeightActorLog) => log.transactionHash
  | filecoinPayV1, (log : FilecoinPayV1Log) => log.transactionHash
  | auctionableToken, (log : TransferLog) => log.transactionHash

def place (indexer : Indexer) (transactionIndex : Hash → Nat) : Place indexer.Log where
  blockNumber := fun log => some (indexer.position log).epoch
  transactionIndex := fun log => some (transactionIndex (indexer.transactionHash log))
  logIndex := fun log => some (indexer.position log).logIndex

def next? : Indexer → Option Indexer
  | serviceRewardsActor => some streamWeightActor
  | streamWeightActor => some filecoinPayV1
  | filecoinPayV1 => some auctionableToken
  | auctionableToken => none

end Indexer

def TokenServices.isERC20 (services : TokenServices) (tokenAddress : Address) : Except Failure Bool :=
  match services.getERC20Metadata tokenAddress with
  | .ok _ => .ok true
  | .error _ => services.isValidERC20 tokenAddress

/-- A chain whose logs are final, with the addresses of the settings. -/
structure Chain where
  serviceRewardsActorAddress : Address
  streamWeightActorAddress : Address
  transactionIndex : Hash → Nat
  logs : (indexer : Indexer) → Address → ChainLogs (indexer.place transactionIndex)
  getContractDeploymentEpoch : Address → Int
  isAddress : Address → Bool
  metadataOf : Address → Option ERC20Metadata
  transactionOf : Hash → Transaction
  decodeFunctionData : Hex → Except Failure FilecoinPayV1Call
  indexerOf : Address → Indexer
  numbered : ∀ indexer address, (logs indexer address).logs.Pairwise fun a b => indexer.position a < indexer.position b
  deployed : ∀ indexer address, ∀ log ∈ (logs indexer address).logs,
    getContractDeploymentEpoch address ≤ (indexer.position log).epoch
  emitted : ∀ address, ∀ log ∈ (logs .filecoinPayV1 address).logs,
    (log : FilecoinPayV1Log).address.toLowerCase = address
  deployment_toLowerCase : ∀ address,
    getContractDeploymentEpoch address.toLowerCase = getContractDeploymentEpoch address
  announced_isAddress : ∀ address, ∀ log ∈ (logs .serviceRewardsActor address).logs,
    ∀ contract ∈ announcedContracts log, isAddress contract
  -- an address is that of a contract of one kind
  serviceRewardsActor_indexer : indexerOf serviceRewardsActorAddress.toLowerCase = .serviceRewardsActor
  streamWeightActor_indexer : indexerOf streamWeightActorAddress.toLowerCase = .streamWeightActor
  announced_indexer : ∀ address, ∀ log ∈ (logs .serviceRewardsActor address).logs,
    ∀ contract ∈ announcedContracts log, indexerOf contract = .filecoinPayV1
  token_indexer : ∀ token, (metadataOf token).isSome → indexerOf token = .auctionableToken
  token_isAddress : ∀ token, (metadataOf token).isSome → isAddress token

namespace Chain
variable (chain : Chain)

/-- What the metadata service and the nodes answer of tokens and transactions. A call may fail. -/
structure Services where
  tokens : TokenServices
  getTransaction : Hash → Except Failure Transaction
  metadata : ∀ token answer, tokens.getERC20Metadata token = .ok answer → chain.metadataOf token = some answer
  valid : ∀ token answer, tokens.isValidERC20 token = .ok answer → answer = (chain.metadataOf token).isSome
  details : ∀ token answer, chain.metadataOf token = some answer →
    (∀ decimals, tokens.getTokenDecimals token = .ok decimals → decimals = answer.decimals) ∧
      ∀ symbol, tokens.getTokenSymbol token = .ok symbol → symbol = answer.symbol
  transaction : ∀ hash answer, getTransaction hash = .ok answer → answer = chain.transactionOf hash

variable {chain} in
def Services.auctions (services : chain.Services) : AuctionServices where
  getTransaction := services.getTransaction
  decodeFunctionData := chain.decodeFunctionData

variable {chain} in
def Services.isIndexed (services : chain.Services) (indexer : Indexer) (address : Address) : Except Failure Bool :=
  match indexer with
  | .auctionableToken => services.tokens.isERC20 address
  | _ => .ok true

def isERC20 (token : Address) : Bool := (chain.metadataOf token).isSome

def tokenDetail {α : Type} (detail : ERC20Metadata → α) (token : Address) : Except Failure α :=
  match chain.metadataOf token with
  | some metadata => .ok (detail metadata)
  | none => .error (.rejected s!"\"{token}\" does not point to a valid ERC20 token contract")

theorem tokenDetail_eq_ok {α : Type} {detail : ERC20Metadata → α} {token : Address} {answer : α} :
    chain.tokenDetail detail token = .ok answer ↔
      ∃ metadata, chain.metadataOf token = some metadata ∧ detail metadata = answer := by
  unfold tokenDetail
  cases chain.metadataOf token <;> simp

def answering : chain.Services where
  tokens :=
    { getERC20Metadata := chain.tokenDetail id
      isValidERC20 := fun token => .ok (chain.isERC20 token)
      getTokenDecimals := chain.tokenDetail (·.decimals)
      getTokenSymbol := chain.tokenDetail (·.symbol) }
  getTransaction := fun hash => .ok (chain.transactionOf hash)
  metadata := by
    intro token answer answered
    obtain ⟨metadata, known, rfl⟩ := chain.tokenDetail_eq_ok.mp answered
    exact known
  valid := fun _ _ answered => (Except.ok.inj answered).symm
  details := by
    intro token metadata known
    constructor
    · intro decimals answered
      obtain ⟨found, same, rfl⟩ := chain.tokenDetail_eq_ok.mp answered
      rw [Option.some.inj (known.symm.trans same)]
    · intro symbol answered
      obtain ⟨found, same, rfl⟩ := chain.tokenDetail_eq_ok.mp answered
      rw [Option.some.inj (known.symm.trans same)]
  transaction := fun _ _ answered => (Except.ok.inj answered).symm

def tokenServices : TokenServices := chain.answering.tokens

def auctionServices : AuctionServices := chain.answering.auctions

end Chain

def removalOrder (removalEpoch : Option Int) : (WithTop Int)ᵒᵈ := OrderDual.toDual (α := WithTop Int) removalEpoch

section Queries
variable (db : DB)

/-- `DISTINCT ON (contract_address)` over the groups of one removal epoch, an open listing first. -/
def filecoinPayContracts : List (Address × Option Int) :=
  distinctOn (·.1)
    (orderBy (fun c => toLex (c.1, removalOrder c.2))
      (distinctOn id (db.filecoinPayContract.rows.map fun c => (c.contractAddress, c.removalEpoch))))

def auctionableTokens : List Address :=
  distinctOn id ((db.filecoinPayRail.rows.filter (·.token ≠ zeroAddress)).map (·.token))

def filecoinPayAddresses (isAddress : Address → Bool) : List Address :=
  (db.filecoinPayContract.rows.map (·.contractAddress)).filter isAddress

end Queries

namespace Chain
variable (cfg : Deployment) (chain : Chain)

def updateDb (services : chain.Services) (store : Store) : (indexer : Indexer) → List indexer.Log → Except Failure Store
  | .serviceRewardsActor, logs => store.updateDb (.batch cfg (.serviceRewardsActor services.tokens logs))
  | .streamWeightActor, logs => store.updateDb (.streamWeightActor logs)
  | .filecoinPayV1, logs => store.updateDb (.batch cfg (.filecoinPayV1 logs))
  | .auctionableToken, logs => store.updateDb (.batch cfg (.auctionableToken services.auctions logs))

variable {cfg chain} in
theorem indexerState_updateDb {services : chain.Services} {store next : Store} {indexer : Indexer}
    {logs : List indexer.Log} (updated : chain.updateDb cfg services store indexer logs = .ok next) :
    next.indexerState = store.indexerState := by
  have batch : ∀ batch : Batch, store.updateDb (.batch cfg batch) = .ok next →
      next.indexerState = store.indexerState := by
    intro batch updated
    obtain ⟨db, -, stored⟩ := bind_eq_ok.mp updated
    rw [← pure_eq_ok.mp stored]
  cases indexer with
  | serviceRewardsActor => exact batch _ updated
  | filecoinPayV1 => exact batch _ updated
  | auctionableToken => exact batch _ updated
  | streamWeightActor =>
      obtain ⟨_, -, updated⟩ := bind_eq_ok.mp updated
      obtain ⟨_, -, updated⟩ := bind_eq_ok.mp updated
      obtain ⟨_, -, updated⟩ := bind_eq_ok.mp updated
      obtain ⟨_, -, updated⟩ := bind_eq_ok.mp updated
      cases updated
      rfl

def indexer (indexer : Indexer) : AbstractIndexer indexer.Log chain.Services where
  place := indexer.place chain.transactionIndex
  updateDb := fun services store logs => chain.updateDb cfg services store indexer logs
  indexerState_updateDb := chain.indexerState_updateDb

/-- What `getLogs` asks a node for; transfers only out of the contracts that the tables have. -/
def served : (indexer : Indexer) → Address → List Address → Int → Int → List indexer.Log
  | .auctionableToken, address, contracts, fromBlock, toBlock =>
      ((chain.logs .auctionableToken address).between fromBlock toBlock).filter fun log : TransferLog =>
        log.fromAddress.toLowerCase ∈ contracts
  | indexer, address, _, fromBlock, toBlock => (chain.logs indexer address).between fromBlock toBlock

def runParameters (address : Address) (maxBlockNumber : Option Int) : IndexerRunParameters where
  contractAddress := address.toLowerCase
  minBlockNumber := chain.getContractDeploymentEpoch address
  lowerCase := address.toLowerCase_toLowerCase
  maxBlockNumber

def candidates (store : Store) : Indexer → List IndexerRunParameters
  | .serviceRewardsActor => [chain.runParameters chain.serviceRewardsActorAddress none]
  | .streamWeightActor => [chain.runParameters chain.streamWeightActorAddress none]
  | .filecoinPayV1 =>
      ((filecoinPayContracts store.toDB).filter fun c => chain.isAddress c.1.toLowerCase).map fun c =>
        chain.runParameters c.1.toLowerCase c.2
  | .auctionableToken =>
      ((auctionableTokens store.toDB).filter fun token => chain.isAddress token.toLowerCase).map fun token =>
        chain.runParameters token.toLowerCase none

def isIndexed (indexer : Indexer) (parameters : IndexerRunParameters) : Bool :=
  indexer ≠ .auctionableToken || chain.isERC20 parameters.contractAddress

def runsOf (store : Store) (indexer : Indexer) : List IndexerRunParameters :=
  (chain.candidates store indexer).filter (chain.isIndexed indexer)

end Chain

inductive Phase (indexer : Indexer)
  | starts
  | plans
  | fetches (range : BlockRange)
  | writes (range : BlockRange) (filecoinPayAddresses : List Address) (logs : List indexer.Log)

def Phase.range? {indexer : Indexer} : Phase indexer → Option BlockRange
  | .starts => none
  | .plans => none
  | .fetches range => some range
  | .writes range _ _ => some range

/-- A run that has started. After an error of another one nobody awaits it, and it goes on. -/
structure ActiveRun where
  indexer : Indexer
  parameters : IndexerRunParameters
  awaited : Bool
  phase : Phase indexer

namespace ActiveRun
variable (run : ActiveRun)

def contractAddress : Address := run.parameters.contractAddress

def range? : Option BlockRange := run.phase.range?

def unawaited : ActiveRun := { run with awaited := false }

end ActiveRun

structure Execution where
  store : Store
  stage : Option Indexer
  active : List ActiveRun
  committed : List (Address × BlockRange)

namespace Execution
variable (s : Execution)

def migrated (applicationConfig : Option Config) : Execution := ⟨.migrated applicationConfig, none, [], []⟩

/-- `Promise.all` rejects with the first error, and the other runs go on. -/
def fails (i : Nat) (awaited : Bool) : Execution :=
  if awaited then { s with stage := none, active := (s.active.eraseIdx i).map (·.unawaited) }
  else { s with active := s.active.eraseIdx i }

end Execution

namespace Chain
variable (cfg : Deployment) (chain : Chain)

structure Answers where
  config : IndexerConfig
  packageMajorVersion : Nat
  getContractDeploymentEpoch : Except Failure Unit
  lastRun : Except Failure Unit
  heads : Heads
  getLogs : ∀ indexer address contracts fromBlock toBlock,
    Except Failure { logs : List indexer.Log // logs.Perm (chain.served indexer address contracts fromBlock toBlock) }
  services : chain.Services
  transaction : Except Failure Unit

inductive Progress (indexer : Indexer)
  | goesOn (phase : Phase indexer)
  | commits (range : BlockRange) (store : Store)
  | ends

def perform (answers : chain.Answers) (store : Store) (run : ActiveRun) : Except Failure (Progress run.indexer) :=
  match run.phase with
  | .starts => do
      if ← answers.services.isIndexed run.indexer run.contractAddress then
        answers.getContractDeploymentEpoch
        return .goesOn .plans
      else
        return .ends
  | .plans => do
      answers.lastRun
      match ← nextRange answers.config run.parameters (store.lastRun run.contractAddress) answers.heads with
      | none => return .ends
      | some range => return .goesOn (.fetches range)
  | .fetches range => do
      let contracts := filecoinPayAddresses store.toDB chain.isAddress
      let logs ← answers.getLogs run.indexer run.contractAddress contracts range.fromBlock range.toBlock
      return .goesOn (.writes range contracts (sortLogs (run.indexer.place chain.transactionIndex) logs.val))
  | .writes range _ logs => do
      let store ← writeBatch (chain.indexer cfg run.indexer) answers.packageMajorVersion run.parameters store range logs
        answers.services answers.transaction
      return .commits range store

end Chain

def Execution.after (s : Execution) (i : Nat) (run : ActiveRun) : Except Failure (Chain.Progress run.indexer) → Execution
  | .ok (.goesOn phase) => { s with active := s.active.set i { run with phase } }
  | .ok (.commits range store) =>
      { s with
        store
        active := if range.keepRunning then s.active.set i { run with phase := .plans } else s.active.eraseIdx i
        committed := s.committed ++ [(run.contractAddress, range)] }
  | .ok .ends => { s with active := s.active.eraseIdx i }
  | .error _ => s.fails i run.awaited

namespace Chain
variable (cfg : Deployment) (chain : Chain)

inductive Event
  | start
  | resume (i : Nat) (answers : chain.Answers)
  | proceed
  | throw

def enters (s : Execution) (indexer : Indexer) : Execution :=
  { s with
    stage := some indexer
    active := s.active ++ (chain.candidates s.store indexer).map fun parameters => ⟨indexer, parameters, true, .starts⟩ }

/-- One process, with calls of `execute` one after the other. The queries between the stages of a call may throw. -/
def step (s : Execution) : chain.Event → Option Execution
  | .start => if s.stage.isNone then some (chain.enters s .serviceRewardsActor) else none
  | .resume i answers => s.active[i]?.map fun run => s.after i run (chain.perform cfg answers s.store run)
  | .proceed =>
      match s.stage with
      | none => none
      | some current =>
          if s.active.any (·.awaited) then none
          else
            match current.next? with
            | some indexer => some (chain.enters s indexer)
            | none => some { s with stage := none }
  | .throw =>
      if s.stage.isSome ∧ ¬ s.active.any (·.awaited) then some { s with stage := none } else none

inductive Reached (allowed : Execution → chain.Event → Prop) : Execution → Prop
  | migrated : Reached allowed (.migrated (some cfg.toConfig))
  | after {s next : Execution} (event : chain.Event) (reached : Reached allowed s) (allows : allowed s event)
      (stepped : chain.step cfg s event = some next) : Reached allowed next

end Chain

/-- No two runs of one contract have a batch under way, as runs have that overlap after an error. -/
def Execution.Apart (s : Execution) : Prop :=
  s.active.Pairwise fun run other => run.range?.isSome → other.range?.isSome → run.contractAddress ≠ other.contractAddress

instance (s : Execution) : Decidable s.Apart := inferInstanceAs (Decidable (List.Pairwise _ _))

end FpvIndexer
