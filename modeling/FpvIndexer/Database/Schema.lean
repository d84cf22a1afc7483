import FpvIndexer.Quarter
import FpvIndexer.Relational.Table
import FpvIndexer.Relational.Lifespan
import Mathlib.Algebra.Order.Ring.Unbundled.Rat
import Mathlib.Data.Rat.Cast.Defs

/-!
# The database

One structure a table, with the columns of the migrations that the modelled code writes or reads,
under the primary key of the table. `BIGINT` epochs are integers, `NUMERIC` values are rationals.
-/

namespace FpvIndexer
open Relational

abbrev Address := String
abbrev Hash := String

def Address.toLowerCase (address : Address) : Address := address.toLower

theorem toLower_of_not_upper {c : Char} (h : ¬ (c.val ≥ 'A'.val ∧ c.val ≤ 'Z'.val)) : c.toLower = c := by
  unfold Char.toLower
  exact dif_neg h

theorem toLower_toLower (c : Char) : c.toLower.toLower = c.toLower := by
  by_cases upper : c.val ≥ 'A'.val ∧ c.val ≤ 'Z'.val
  · have shifted : c.toLower.val = c.val + ('a'.val - 'A'.val) := by
      unfold Char.toLower
      rw [dif_pos upper]
    apply toLower_of_not_upper
    rw [shifted]
    have first : ('A'.val).toNat = 65 := rfl
    have last : ('Z'.val).toNat = 90 := rfl
    have distance : ('a'.val - 'A'.val).toNat = 32 := rfl
    simp only [ge_iff_le, UInt32.le_iff_toNat_le, UInt32.toNat_add] at upper ⊢
    omega
  · rw [toLower_of_not_upper upper, toLower_of_not_upper upper]

theorem Address.toLowerCase_toLowerCase (address : Address) :
    address.toLowerCase.toLowerCase = address.toLowerCase := by
  unfold Address.toLowerCase String.toLower
  rw [String.map_map]
  exact congrArg (String.map · address) (funext toLower_toLower)

def zeroAddress : Address := "0x0000000000000000000000000000000000000000"

inductive ServiceRewardsActorParameterType
  | minLotAlphaNumerator
  | minLotAlphaDenominator
  | minLotFloor
  | priceBandBps
  | registrationCutoffEpochs
deriving DecidableEq, Repr

namespace ServiceRewardsActorParameterType

def label : ServiceRewardsActorParameterType → String
  | minLotAlphaNumerator => "MIN_LOT_ALPHA_NUMERATOR"
  | minLotAlphaDenominator => "MIN_LOT_ALPHA_DENOMINATOR"
  | minLotFloor => "MIN_LOT_FLOOR"
  | priceBandBps => "PRICE_BAND_BPS"
  | registrationCutoffEpochs => "REGISTRATION_CUTOFF_EPOCHS"

def ordinal : ServiceRewardsActorParameterType → Nat
  | minLotAlphaNumerator => 0
  | minLotAlphaDenominator => 1
  | minLotFloor => 2
  | priceBandBps => 3
  | registrationCutoffEpochs => 4

end ServiceRewardsActorParameterType

structure ServiceRewardsActorParameter where
  parameterType : ServiceRewardsActorParameterType
  parameterValue : ℚ
  updateEpoch : Int
  updateLogIndex : Nat
  updateTxHash : Hash
deriving DecidableEq

namespace ServiceRewardsActorParameter
variable (p : ServiceRewardsActorParameter)

def pkey : ServiceRewardsActorParameterType × Int × Nat :=
  (p.parameterType, p.updateEpoch, p.updateLogIndex)

def position : Position := ⟨p.updateEpoch, p.updateLogIndex⟩

end ServiceRewardsActorParameter

structure ServiceOrchestrator where
  id : Address
deriving DecidableEq

structure ServiceOrchestratorAdmission where
  serviceOrchestratorId : Address
  wallet : Address
  admissionEpoch : Int
  admissionLogIndex : Nat
  admissionTxHash : Hash
  removalEpoch : Option Int
  removalLogIndex : Option Nat
  removalTxHash : Option Hash
deriving DecidableEq

def ServiceOrchestratorAdmission.pkey (a : ServiceOrchestratorAdmission) : Address × Int × Nat :=
  (a.serviceOrchestratorId, a.admissionEpoch, a.admissionLogIndex)

structure ServicePair where
  serviceOrchestratorId : Address
  payer : Address
  operator : Address
  fromEpoch : Int
  fromLogIndex : Nat
  toEpoch : Option Int
  toLogIndex : Option Nat
  bindingEpoch : Int
  bindingTxHash : Hash
  unbindingEpoch : Option Int
  unbindingTxHash : Option Hash
deriving DecidableEq

namespace ServicePair
variable (sp : ServicePair)

def pkey : Address × Address × Int × Nat := (sp.payer, sp.operator, sp.fromEpoch, sp.fromLogIndex)

def pair : Address × Address := (sp.payer, sp.operator)

end ServicePair

structure QuarterBoundVolume where
  quarterNum : Nat
  volumeAttoUsd : ℚ
  epoch : Int
  txHash : Hash
deriving DecidableEq

structure WhitelistedToken where
  tokenAddress : Address
  tokenDecimals : Int
  tokenSymbol : String
  admittanceEpoch : Int
  admittanceLogIndex : Nat
  admittanceTxHash : Hash
  removalEpoch : Option Int
  removalLogIndex : Option Nat
  removalTxHash : Option Hash
deriving DecidableEq

def WhitelistedToken.pkey (t : WhitelistedToken) : Address × Int × Nat :=
  (t.tokenAddress, t.admittanceEpoch, t.admittanceLogIndex)

structure FilecoinPayContract where
  contractAddress : Address
  admittanceEpoch : Int
  admittanceLogIndex : Nat
  admittanceTxHash : Hash
  removalEpoch : Option Int
  removalLogIndex : Option Nat
  removalTxHash : Option Hash
deriving DecidableEq

def FilecoinPayContract.pkey (c : FilecoinPayContract) : Address × Int × Nat :=
  (c.contractAddress, c.admittanceEpoch, c.admittanceLogIndex)

structure FilecoinPayRail where
  filecoinPayContractAddress : Address
  txHash : Hash
  logIndex : Nat
  railId : Nat
  payer : Address
  payee : Address
  operator : Address
  validator : Address
  token : Address
deriving DecidableEq

def FilecoinPayRail.pkey (r : FilecoinPayRail) : Address × Nat := (r.filecoinPayContractAddress, r.railId)

structure FilecoinPayPaymentInput where
  filecoinPayContractAddress : Address
  txHash : Hash
  logIndex : Nat
  railId : Nat
  totalAmount : Nat
  netPayeeAmount : Nat
  operatorCommission : Nat
  networkFee : Nat
  settledAtEpoch : Int
  oneTime : Bool
deriving DecidableEq

structure FilecoinPayPayment extends FilecoinPayPaymentInput where
  id : Nat
deriving DecidableEq

def FilecoinPayPayment.position (p : FilecoinPayPayment) : Position := ⟨p.settledAtEpoch, p.logIndex⟩

structure FilecoinPayFeeAuctionInput where
  filecoinPayContractAddress : Address
  txHash : Hash
  logIndex : Nat
  tokenAddress : Address
  amountActual : Int
  filBurned : Int
  auctionedAtEpoch : Int
deriving DecidableEq

structure FilecoinPayFeeAuction extends FilecoinPayFeeAuctionInput where
  id : Nat
deriving DecidableEq

def FilecoinPayFeeAuction.position (a : FilecoinPayFeeAuction) : Position := ⟨a.auctionedAtEpoch, a.logIndex⟩

structure ServiceOrchestratorQuarterlyVolume where
  serviceOrchestratorId : Address
  quarterNum : Nat
  volumeAttoUsd : ℚ
  isCorrection : Bool
  postingEpoch : Int
  postingLogIndex : Nat
  postingTxHash : Hash
deriving DecidableEq

def ServiceOrchestratorQuarterlyVolume.pkey (v : ServiceOrchestratorQuarterlyVolume) :
    Address × Nat × Int × Nat :=
  (v.serviceOrchestratorId, v.quarterNum, v.postingEpoch, v.postingLogIndex)

structure PricePeriod where
  quarterNum : Int
  epoch : Int
  logIndex : Nat
  lotAttoUsd : ℚ
  claimAttoFil : ℚ
  claimTxHash : Hash
deriving DecidableEq

namespace PricePeriod
variable (qp : PricePeriod)

def ukey : Int × Int × Nat := (qp.quarterNum, qp.epoch, qp.logIndex)

def position : Position := ⟨qp.epoch, qp.logIndex⟩

end PricePeriod

structure DB where
  applicationConfig : Option Config
  serviceRewardsActorParameter : Table ServiceRewardsActorParameter ServiceRewardsActorParameter.pkey
  serviceOrchestrator : Table ServiceOrchestrator ServiceOrchestrator.id
  serviceOrchestratorAdmission : Table ServiceOrchestratorAdmission ServiceOrchestratorAdmission.pkey
  servicePair : Table ServicePair ServicePair.pkey
  quarterBoundVolume : Table QuarterBoundVolume QuarterBoundVolume.quarterNum
  whitelistedToken : Table WhitelistedToken WhitelistedToken.pkey
  filecoinPayContract : Table FilecoinPayContract FilecoinPayContract.pkey
  filecoinPayRail : Table FilecoinPayRail FilecoinPayRail.pkey
  filecoinPayPayment : Table FilecoinPayPayment FilecoinPayPayment.id
  filecoinPayFeeAuction : Table FilecoinPayFeeAuction FilecoinPayFeeAuction.id
  serviceOrchestratorQuarterlyVolume :
    Table ServiceOrchestratorQuarterlyVolume ServiceOrchestratorQuarterlyVolume.pkey
  qualifiedPricePeriodsMv : Table PricePeriod PricePeriod.ukey

/-- A freshly migrated database after `ConfigSeedService` has run. -/
def DB.seeded (cfg : Config) : DB where
  applicationConfig := some cfg
  serviceRewardsActorParameter := .empty
  serviceOrchestrator := .empty
  serviceOrchestratorAdmission := .empty
  servicePair := .empty
  quarterBoundVolume := .empty
  whitelistedToken := .empty
  filecoinPayContract := .empty
  filecoinPayRail := .empty
  filecoinPayPayment := .empty
  filecoinPayFeeAuction := .empty
  serviceOrchestratorQuarterlyVolume := .empty
  qualifiedPricePeriodsMv := .empty

/-- A fresh identifier, as `gen_random_uuid()` draws one. -/
def freshId (ids : List Nat) : Nat := ids.foldr max 0 + 1

theorem freshId_not_mem (ids : List Nat) : freshId ids ∉ ids := by
  have bound : ∀ id ∈ ids, id ≤ ids.foldr max 0 := by
    induction ids with
    | nil => simp
    | cons head rest ih =>
        intro id member
        rcases List.mem_cons.mp member with rfl | later
        · exact le_max_left _ _
        · exact (ih id later).trans (le_max_right _ _)
  intro member
  exact absurd (bound _ member) (Nat.not_succ_le_self _)

inductive Failure
  | typeError (message : String)
  | notAnInteger (value : ℚ)
  | uniqueViolation (constraint : String)
  | foreignKeyViolation (constraint : String)
  | cardinalityViolation
  | numericValueOutOfRange
  | divisionByZero
  | rejected (reason : String)
deriving DecidableEq

def decimal (precision scale : Nat) (value : Nat) : Except Failure Nat :=
  if value < 10 ^ (precision - scale) then .ok value else .error .numericValueOutOfRange

/-- `INTEGER` takes values up to `2 ^ 31 - 1`, in a column and in a comparison with one. -/
def integer (value : Nat) : Except Failure Nat :=
  if value < 2 ^ 31 then .ok value else .error .numericValueOutOfRange

theorem integer_of_lt {value : Nat} (inRange : value < 2 ^ 31) : integer value = .ok value := if_pos inRange

theorem integer_of_le {value : Nat} (outOfRange : 2 ^ 31 ≤ value) : integer value = .error .numericValueOutOfRange :=
  if_neg (by omega)

theorem lt_of_integer {value result : Nat} (small : integer value = .ok result) : value < 2 ^ 31 := by
  by_contra outOfRange
  rw [integer_of_le (by omega)] at small
  cases small

def insert {α κ : Type} {key : α → κ} [DecidableEq κ] (pkey : String) (t : Table α key) (row : α) :
    Except Failure (Table α key) :=
  match t.insert? row with
  | some u => .ok u
  | none => .error (.uniqueViolation pkey)

theorem insert_ok {α κ : Type} {key : α → κ} [DecidableEq κ] {pkey : String} {t u : Table α key} {row : α}
    (inserted : insert pkey t row = .ok u) : t.insert? row = some u := by
  unfold insert at inserted
  split at inserted
  · cases inserted
    assumption
  · cases inserted

theorem mem_of_insert {α κ : Type} {key : α → κ} [DecidableEq κ] {pkey : String} {t u : Table α key} {row : α}
    (inserted : insert pkey t row = .ok u) : row ∈ u.rows := by
  rw [Table.insert?_rows (insert_ok inserted)]
  exact List.mem_append_right _ List.mem_cons_self

theorem exists_insert {α κ : Type} {key : α → κ} [DecidableEq κ] (pkey : String) (t : Table α key) (row : α)
    (fresh : key row ∉ t.rows.map key) : ∃ u, insert pkey t row = .ok u ∧ u.rows = t.rows ++ [row] := by
  obtain ⟨u, inserted, rows⟩ := t.exists_insert? row fresh
  exact ⟨u, by rw [insert, inserted], rows⟩

def insertAll {α κ : Type} {key : α → κ} [DecidableEq κ] (pkey : String) (t : Table α key) (rows : List α) :
    Except Failure (Table α key) :=
  match t.insertAll? rows with
  | some u => .ok u
  | none => .error (.uniqueViolation pkey)

theorem exists_insertAll {α κ : Type} {key : α → κ} [DecidableEq κ] (pkey : String) (t : Table α key) (rows : List α)
    (distinct : ((t.rows ++ rows).map key).Nodup) : ∃ u, insertAll pkey t rows = .ok u ∧ u.rows = t.rows ++ rows := by
  obtain ⟨u, inserted, all⟩ := t.exists_insertAll? rows distinct
  exact ⟨u, by rw [insertAll, inserted], all⟩

theorem insertAll_ok {α κ : Type} {key : α → κ} [DecidableEq κ] {pkey : String} {t u : Table α key}
    {rows : List α} (inserted : insertAll pkey t rows = .ok u) : t.insertAll? rows = some u := by
  unfold insertAll at inserted
  split at inserted
  · cases inserted
    assumption
  · cases inserted

end FpvIndexer
