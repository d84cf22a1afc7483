import FpvIndexer.Database.PricePeriods

namespace FpvIndexer

abbrev Hex := String

structure TransferLog where
  address : Address
  blockNumber : Int
  logIndex : Nat
  transactionHash : Hash
  fromAddress : Address
  toAddress : Address
  value : Nat
deriving DecidableEq, Repr

def TransferLog.position (log : TransferLog) : Position := ⟨log.blockNumber, log.logIndex⟩

/-- A transaction as the node returns it, with no recipient where it creates a contract. -/
structure Transaction where
  toAddress : Option Address
  input : Hex
  value : Nat
deriving DecidableEq, Repr

inductive FilecoinPayV1Call
  | burnForFees (token recipient : Address) (requested : Nat)
  | other (functionName : String)
deriving DecidableEq, Repr

structure AuctionServices where
  getTransaction : Hash → Except Failure Transaction
  decodeFunctionData : Hex → Except Failure FilecoinPayV1Call

def safeFilecoinPayV1Decode (services : AuctionServices) (hex : Hex) : Option FilecoinPayV1Call :=
  match services.decodeFunctionData hex with
  | .ok call => some call
  | .error _ => none

def auctionInput (log : TransferLog) (chainTx : Transaction) (token : Address) : FilecoinPayFeeAuctionInput where
  filecoinPayContractAddress := log.fromAddress.toLowerCase
  txHash := log.transactionHash.toLower
  logIndex := log.logIndex
  tokenAddress := token.toLowerCase
  amountActual := log.value
  filBurned := chainTx.value
  auctionedAtEpoch := log.blockNumber

def DB.insertAuction (db : DB) (log : TransferLog) (chainTx : Transaction) (token : Address) :
    Except Failure DB := do
  let _ ← decimal 78 0 log.value
  let _ ← decimal 78 0 chainTx.value
  let filecoinPayFeeAuction ← insert "filecoin_pay_fee_auction_pkey" db.filecoinPayFeeAuction
    { toFilecoinPayFeeAuctionInput := auctionInput log chainTx token
      id := freshId (db.filecoinPayFeeAuction.rows.map (·.id)) }
  { db with filecoinPayFeeAuction : DB }.refreshQualifiedPricePeriodsMv

namespace AuctionableTokenIndexer
variable (services : AuctionServices)

def handleLog (db : DB) (log : TransferLog) : Except Failure DB := do
  let chainTx ← services.getTransaction log.transactionHash
  match safeFilecoinPayV1Decode services chainTx.input with
  | some (.burnForFees token _ _) => db.insertAuction log chainTx token
  | _ => return db

def updateDb (db : DB) (logs : List TransferLog) : Except Failure DB :=
  logs.foldlM (handleLog services) db

end AuctionableTokenIndexer
end FpvIndexer
