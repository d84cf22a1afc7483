import FpvIndexer.Database.Store
import FpvIndexer.Relational.Query
import FpvIndexer.Relational.Fallible
import Mathlib.Order.WithBot
import Mathlib.Data.Int.ConditionallyCompleteOrder

/-!
# The abstract indexer

`AbstractIndexer.run`, one recursion a batch. What the nodes report and which calls fail are answers of the
environment. A transaction that fails leaves the store as it was.
-/

namespace FpvIndexer
open Relational

inductive SortDirection
  | asc
  | desc

def compareNullableNumber {α : Type} [LT α] [DecidableLT α] (a b : Option α) (order : SortDirection) : Int :=
  let lowerValue := match order with
    | .asc => -1
    | .desc => 1
  let higherValue := lowerValue * -1
  match a, b with
  | none, none => 0
  | none, some _ => lowerValue
  | some _, none => higherValue
  | some a, some b => if a < b then lowerValue else if b < a then higherValue else 0

/-- The fields of a log that place it in the chain, `null` while the log is pending. -/
structure Place (ℓ : Type) where
  blockNumber : ℓ → Option Int
  transactionIndex : ℓ → Option Nat
  logIndex : ℓ → Option Nat

section Sorting
variable {ℓ : Type} (place : Place ℓ)

def compareLogs (a b : ℓ) : Int :=
  let blockOrder := compareNullableNumber (place.blockNumber a) (place.blockNumber b) .asc
  if blockOrder ≠ 0 then blockOrder
  else
    let transactionOrder := compareNullableNumber (place.transactionIndex a) (place.transactionIndex b) .asc
    if transactionOrder ≠ 0 then transactionOrder
    else compareNullableNumber (place.logIndex a) (place.logIndex b) .asc

def sortLogs (logs : List ℓ) : List ℓ := logs.insertionSort fun a b => compareLogs place a b ≤ 0

def Place.coordinates (log : ℓ) : WithBot Int ×ₗ WithBot Nat ×ₗ WithBot Nat :=
  toLex (place.blockNumber log, toLex (place.transactionIndex log, place.logIndex log))

/-- The final logs of a contract, in chain order. -/
structure ChainLogs where
  logs : List ℓ
  final : ∀ log ∈ logs,
    (place.blockNumber log).isSome ∧ (place.transactionIndex log).isSome ∧ (place.logIndex log).isSome
  ordered : logs.Pairwise fun a b => place.coordinates a < place.coordinates b

def Place.within (fromBlock toBlock : Int) (log : ℓ) : Bool :=
  (place.blockNumber log).any fun n => fromBlock ≤ n ∧ n ≤ toBlock

variable {place}

def ChainLogs.between (chain : ChainLogs place) (fromBlock toBlock : Int) : List ℓ :=
  chain.logs.filter (place.within fromBlock toBlock)

def ChainLogs.upTo (chain : ChainLogs place) (minBlockNumber : Int) (lastRun : Option Int) : List ℓ :=
  lastRun.elim [] (chain.between minBlockNumber)

end Sorting

structure IndexerConfig where
  archiveRpcThreshold : Int
  finalizedHeightMaxDifference : Option Int
  archiveNodeBatchBlockSize : Int
  recentNodeBatchBlockSize : Int
  archiveNodeBatchBlockSize_pos : 1 ≤ archiveNodeBatchBlockSize
  recentNodeBatchBlockSize_pos : 1 ≤ recentNodeBatchBlockSize

structure IndexedContract where
  contractAddress : Address
  minBlockNumber : Int
  lowerCase : contractAddress.toLowerCase = contractAddress

@[ext] structure IndexerRunParameters extends IndexedContract where
  maxBlockNumber : Option Int

instance : DecidableEq IndexerRunParameters := fun a b =>
  decidable_of_iff (a.contractAddress = b.contractAddress ∧ a.minBlockNumber = b.minBlockNumber ∧
    a.maxBlockNumber = b.maxBlockNumber) (IndexerRunParameters.ext_iff).symm

inductive Node
  | recent
  | archive
deriving DecidableEq

def IndexerConfig.batchBlockSize (config : IndexerConfig) : Node → Int
  | .recent => config.recentNodeBatchBlockSize
  | .archive => config.archiveNodeBatchBlockSize

structure Heads where
  recentHead : Except Failure Int
  currentHeight : Node → Except Failure Int
  finalizedHeight : Node → Except Failure Int

structure BlockRange where
  fromBlock : Int
  toBlock : Int
  maxToBlock : Int
deriving DecidableEq

def BlockRange.keepRunning (range : BlockRange) : Bool := range.maxToBlock ≠ range.toBlock

def batchRange (batchBlockSize fromBlock maxToBlock : Int) : Option BlockRange :=
  if maxToBlock < fromBlock then none
  else
    let blockDifference := maxToBlock - fromBlock
    let toBlock := if batchBlockSize ≤ blockDifference then fromBlock + batchBlockSize - 1 else maxToBlock
    some { fromBlock, toBlock, maxToBlock }

def nextBlock (parameters : IndexerRunParameters) (lastRun : Option Int) : Int :=
  lastRun.elim parameters.minBlockNumber (· + 1)

def nextRange (config : IndexerConfig) (parameters : IndexerRunParameters) (lastRun : Option Int) (heads : Heads) :
    Except Failure (Option BlockRange) :=
  if parameters.maxBlockNumber.any fun maxBlockNumber => lastRun.any (maxBlockNumber ≤ ·) then
    .ok none
  else do
    let fromBlock := nextBlock parameters lastRun
    let recentHead ← heads.recentHead
    let selectedNode := if config.archiveRpcThreshold < recentHead - fromBlock then .archive else .recent
    let currentHeight ← heads.currentHeight selectedNode
    let finalizedHeight ← heads.finalizedHeight selectedNode
    let maxToBlock := config.finalizedHeightMaxDifference.elim finalizedHeight fun difference =>
      max finalizedHeight (currentHeight - difference)
    return batchRange (config.batchBlockSize selectedNode) fromBlock maxToBlock

def Store.lastRun (store : Store) (contractAddress : Address) : Option Int :=
  (store.indexerState.lookup? contractAddress).map (·.endBlock)

structure AbstractIndexer (ℓ τ : Type) where
  place : Place ℓ
  updateDb : τ → Store → List ℓ → Except Failure Store
  indexerState_updateDb : ∀ {services store logs next}, updateDb services store logs = .ok next →
    next.indexerState = store.indexerState

/-- The answers to the calls of one batch; `served` are the logs that a node holds, which it returns in any order. -/
structure Answers {ℓ : Type} (served : Store → Int → Int → List ℓ) (τ : Type) where
  lastRun : Except Failure Unit
  heads : Heads
  getLogs : ∀ store fromBlock toBlock, Except Failure { logs : List ℓ // logs.Perm (served store fromBlock toBlock) }
  services : τ
  transaction : Except Failure Unit

structure IndexedBatch (ℓ : Type) where
  range : BlockRange
  logs : List ℓ
  store : Store

section Run
variable {ℓ τ : Type} (indexer : AbstractIndexer ℓ τ) {served : Store → Int → Int → List ℓ} (config : IndexerConfig)
  (packageMajorVersion : Nat) (parameters : IndexerRunParameters)

def writeBatch (store : Store) (range : BlockRange) (logs : List ℓ) (services : τ) (transaction : Except Failure Unit) :
    Except Failure Store := do
  transaction
  let updated ← indexer.updateDb services store logs
  return updated.upsertIndexerState ⟨parameters.contractAddress.toLowerCase, range.toBlock, packageMajorVersion⟩

def runBatch (store : Store) (answers : Answers served τ) : Except Failure (Option (IndexedBatch ℓ)) := do
  answers.lastRun
  match ← nextRange config parameters (store.lastRun parameters.contractAddress) answers.heads with
  | none => return none
  | some range =>
      let logs ← answers.getLogs store range.fromBlock range.toBlock
      let logsSorted := sortLogs indexer.place logs.val
      let store ← writeBatch indexer packageMajorVersion parameters store range logsSorted answers.services answers.transaction
      return some { range, logs := logsSorted, store }

structure Recursion (served : Store → Int → Int → List ℓ) (τ : Type) (contractAddress : Address) where
  others : Store → Store
  others_lastRun : ∀ store, (others store).lastRun contractAddress = store.lastRun contractAddress
  answers : Answers served τ

/-- The batches that a call commits, and the store it leaves behind, also where it fails or is interrupted. -/
def run : List (Recursion served τ parameters.contractAddress) → Store → List (IndexedBatch ℓ) × Store
  | [], store => ([], store)
  | recursion :: rest, store =>
      let store := recursion.others store
      match runBatch indexer config packageMajorVersion parameters store recursion.answers with
      | .ok (some batch) =>
          if batch.range.keepRunning then
            let (batches, final) := run rest batch.store
            (batch :: batches, final)
          else ([batch], batch.store)
      | _ => ([], store)

end Run

structure RunCall {ℓ : Type} (served : Store → Int → Int → List ℓ) (τ : Type) (contractAddress : Address) where
  config : IndexerConfig
  packageMajorVersion : Nat
  maxBlockNumber : Option Int
  recursions : List (Recursion served τ contractAddress)

section Runs
variable {ℓ τ : Type} (indexer : AbstractIndexer ℓ τ) {served : Store → Int → Int → List ℓ} (contract : IndexedContract)

def runs : List (RunCall served τ contract.contractAddress) → Store → List (IndexedBatch ℓ)
  | [], _ => []
  | call :: rest, store =>
      let (batches, final) := run indexer call.config call.packageMajorVersion
        { contract with maxBlockNumber := call.maxBlockNumber : IndexerRunParameters } call.recursions store
      batches ++ runs rest final

end Runs

end FpvIndexer
