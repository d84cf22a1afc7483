import FpvIndexer.Services.Execution

namespace FpvIndexer
open Relational

inductive ContractType
  | sra
  | swa
  | filecoinPayV1
  | erc20
deriving DecidableEq, Repr

structure ContractMetadata where
  type : ContractType
  address : Address
deriving DecidableEq, Repr

structure ContractState extends ContractMetadata where
  indexedUpTo : Int
deriving DecidableEq, Repr

structure IndexerStatus where
  version : String
  chainId : Nat
  isRunning : Bool
  indexedUpTo : Int
  contracts : List ContractState
deriving DecidableEq, Repr

def isAddressEqual (a b : Address) : Bool := a.toLowerCase = b.toLowerCase

structure PackageSemver where
  major : Nat
  text : String

def packageMajorVersion (packageSemver : Option PackageSemver) : Nat := packageSemver.elim 0 (·.major)

def minBigInt : List Int → Except Failure Int
  | [] => .error (.typeError "Reduce of empty array with no initial value")
  | first :: rest => .ok (rest.foldl (fun min current => if current < min then current else min) first)

namespace Chain
variable (chain : Chain)

def contractsMetadata (store : Store) (auctionableErc20 : List Address) : List ContractMetadata :=
  [⟨.sra, chain.serviceRewardsActorAddress.toLowerCase⟩, ⟨.swa, chain.streamWeightActorAddress.toLowerCase⟩] ++
    (filecoinPayContracts store.toDB).map (fun contract => ⟨.filecoinPayV1, contract.1⟩) ++
    auctionableErc20.map fun tokenAddress => ⟨.erc20, tokenAddress⟩

def contractState (savedContractsStates : List IndexerState) (contract : ContractMetadata) : ContractState where
  toContractMetadata := contract
  indexedUpTo :=
    match savedContractsStates.find? (·.contractAddress = contract.address) with
    | some savedState => savedState.endBlock
    | none => chain.getContractDeploymentEpoch contract.address - 1

def isRemovedAndSyncedFilecoinPayAddress (filecoinPayContracts : List (Address × Option Int)) (state : ContractState) :
    Bool :=
  filecoinPayContracts.any fun contract =>
    chain.isAddress state.address && chain.isAddress contract.1 && isAddressEqual state.address contract.1 &&
      contract.2.any (· ≤ state.indexedUpTo)

def getStatus (services : chain.Services) (packageSemver : Option PackageSemver) (chainId : Nat) (isRunning : Bool)
    (store : Store) : Except Failure IndexerStatus := do
  let savedContractsStates := store.indexerState.rows.filter (·.version = packageMajorVersion packageSemver)
  let erc20CheckPairs ← (auctionableTokens store.toDB).mapM fun token => do
    let isErc20 ← services.tokens.isValidERC20 token
    return (token, isErc20)
  let auctionableErc20 := (erc20CheckPairs.filter (·.2)).map (·.1)
  let contractsStates := (chain.contractsMetadata store auctionableErc20).map (chain.contractState savedContractsStates)
  let indexedUpTo ← minBigInt ((contractsStates.filter fun state =>
    !chain.isRemovedAndSyncedFilecoinPayAddress (filecoinPayContracts store.toDB) state).map (·.indexedUpTo))
  return {
    version := packageSemver.elim "N/A" (·.text)
    chainId
    isRunning
    indexedUpTo
    contracts := contractsStates }

end Chain
end FpvIndexer
