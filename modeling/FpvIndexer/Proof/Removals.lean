import FpvIndexer.Proof.Schedules
import FpvIndexer.Proof.AdmittedVolume
import FpvIndexer.Proof.Agreement

namespace FpvIndexer
open Relational

def holdsBlock (address : Address) (block : Int) (batch : Address × BlockRange) : Bool :=
  batch.1 = address ∧ batch.2.fromBlock ≤ block ∧ block ≤ batch.2.toBlock

def Execution.batchesWith (s : Execution) (address : Address) (block : Int) : Nat :=
  s.committed.countP (holdsBlock address block)

section Specification
variable (cfg : Deployment) (chain : Chain) (store : Store) (q : QuarterNumber)

def admittedContracts : List Address := (quarterFilecoinPayContracts cfg store.toDB q.intValue).map (·.contractAddress)

def Chain.filecoinPayLogs (address : Address) : List FilecoinPayV1Log := (chain.logs .filecoinPayV1 address).logs

def settledIn (input : FilecoinPayPaymentInput) : Bool := cfg.quarterNum input.settledAtEpoch = q.intValue

def Chain.payments (address : Address) : List FilecoinPayPaymentInput :=
  (getPaymentsInputs (chain.filecoinPayLogs address)).filter (settledIn cfg q)

def StoredOnce : Prop :=
  ∀ address ∈ admittedContracts cfg store q, ∀ input ∈ chain.payments cfg q address,
    store.filecoinPayPayment.rows.countP (·.toFilecoinPayPaymentInput = input) = 1

/-- The sum over the stablecoin payments that `getQuarterlyVolume` converts. -/
def quarterStablecoinVolume (serviceOrchestrator : Option String) : ℚ :=
  stablecoinVolume store.toDB (admittedContracts cfg store q)
    ((quarterTokens cfg store.toDB q.intValue).map (·.tokenAddress)) (cfg.quarterStartEpoch q.intValue)
    (cfg.quarterEndEpoch q.intValue) serviceOrchestrator

/-- The payments of a quarter are stored once in both stores, which report one volume. -/
structure ScheduleIndependent (other : Store) : Prop where
  stored : StoredOnce cfg chain store q
  storedToo : StoredOnce cfg chain other q
  volume : ∀ serviceOrchestrator,
    quarterStablecoinVolume cfg store q serviceOrchestrator = quarterStablecoinVolume cfg other q serviceOrchestrator
  reported : ∀ numericDiv numericDivToo blockNumber blockNumberToo serviceOrchestrator volume volumeToo,
    getQuarterlyVolume cfg numericDiv blockNumber store.toDB serviceOrchestrator q = .ok volume →
    getQuarterlyVolume cfg numericDivToo blockNumberToo other.toDB serviceOrchestrator q = .ok volumeToo →
      volume.stablecoinVolumeAttoUsd = volumeToo.stablecoinVolumeAttoUsd

/-- Every payment of the quarter past the cursor of a contract whose runs stopped at its removal is in a batch that was
committed before, and no two committed batches hold a payment of the quarter. -/
structure IndexedOnce (s : Execution) : Prop where
  nothingLeft : ∀ address ∈ admittedContracts cfg s.store q, ∀ removalEpoch endBlock,
    (address, some removalEpoch) ∈ filecoinPayContracts s.store.toDB → s.store.lastRun address = some endBlock →
      removalEpoch ≤ endBlock → ∀ input ∈ chain.payments cfg q address, endBlock < input.settledAtEpoch →
        0 < s.batchesWith address input.settledAtEpoch
  nothingTwice : ∀ address ∈ admittedContracts cfg s.store q, ∀ input ∈ chain.payments cfg q address,
    s.batchesWith address input.settledAtEpoch ≤ 1

end Specification

namespace Proof.Removals
open Handlers Commits Schedules Volume AsOf AdmittedVolume

section Payments
variable {cfg : Deployment} {chain : Chain} {allowed : Execution → chain.Event → Prop} {s : Execution} {store : Store}
  {q : QuarterNumber} {address : Address} {head : Int}

theorem mem_payments {input : FilecoinPayPaymentInput} : input ∈ chain.payments cfg q address ↔
    (∃ log ∈ chain.filecoinPayLogs address, paymentInput log = some input) ∧
      settledIn cfg q input := by
  unfold Chain.payments getPaymentsInputs
  rw [List.mem_filter, List.mem_filterMap]

theorem contract_of_mem {input : FilecoinPayPaymentInput} (member : input ∈ chain.payments cfg q address) :
    input.filecoinPayContractAddress = address := by
  obtain ⟨⟨log, logged, built⟩, -⟩ := mem_payments.mp member
  exact (paymentInput_spec built).1.trans (chain.emitted address log logged)

theorem inputs_nodup {logs : List FilecoinPayV1Log}
    (numbered : logs.Pairwise fun a b => Indexer.position .filecoinPayV1 a < Indexer.position .filecoinPayV1 b) :
    (getPaymentsInputs logs).Nodup := by
  unfold getPaymentsInputs
  refine List.pairwise_filterMap.mpr (numbered.imp fun {a b} earlier input built input' built' same => ?_)
  have here := (paymentInput_spec built).2
  have there := (paymentInput_spec built').2
  rw [same, there.1, there.2] at here
  refine ne_of_lt earlier (Position.ext ?_ ?_)
  · exact here.1.symm
  · exact here.2.symm

theorem payments_nodup : (chain.payments cfg q address).Nodup :=
  (inputs_nodup (chain.numbered .filecoinPayV1 address)).filter _

theorem count_inputs (rows : List FilecoinPayPayment) (input : FilecoinPayPaymentInput) :
    (rows.map (·.toFilecoinPayPaymentInput)).count input = rows.countP (·.toFilecoinPayPaymentInput = input) := by
  rw [List.count, List.countP_map]
  rfl

theorem payLogsIn_eq (address : Address) (range : BlockRange) : payLogsIn chain address range =
    (chain.filecoinPayLogs address).filter fun log => range.fromBlock ≤ log.blockNumber ∧ log.blockNumber ≤ range.toBlock :=
  List.filter_congr fun log _ => Bool.eq_iff_iff.mpr ((@within_epoch .filecoinPayV1 _ log _ _).trans decide_eq_true_iff.symm)

theorem getPaymentsInputs_between (address : Address) (range : BlockRange) :
    getPaymentsInputs (payLogsIn chain address range) = (getPaymentsInputs (chain.filecoinPayLogs address)).filter
      fun input => range.fromBlock ≤ input.settledAtEpoch ∧ input.settledAtEpoch ≤ range.toBlock := by
  rw [payLogsIn_eq]
  unfold getPaymentsInputs
  rw [List.filterMap_filter, List.filter_filterMap]
  apply List.filterMap_congr
  intro log _
  cases built : paymentInput log with
  | none => simp
  | some input =>
      have settled : input.settledAtEpoch = log.blockNumber := (paymentInput_spec built).2.1
      rw [Option.filter_some, settled]

/-- A payment is stored as often as committed batches hold its block. -/
theorem count_indexedLogs (ranges : List (Address × BlockRange)) (address : Address) (input : FilecoinPayPaymentInput) :
    (getPaymentsInputs (indexedLogs chain ranges address)).count input =
      ranges.countP (holdsBlock address input.settledAtEpoch) *
        (getPaymentsInputs (chain.filecoinPayLogs address)).count input := by
  induction ranges with
  | nil => simp [indexedLogs, getPaymentsInputs]
  | cons entry rest ih =>
      obtain ⟨contract, range⟩ := entry
      have split : getPaymentsInputs (indexedLogs chain ((contract, range) :: rest) address) =
          getPaymentsInputs (if contract = address then payLogsIn chain address range else []) ++
            getPaymentsInputs (indexedLogs chain rest address) := List.filterMap_append
      rw [split, List.count_append, ih, List.countP_cons, Nat.add_mul, Nat.add_comm]
      congr 1
      by_cases own : contract = address
      · rw [if_pos own, getPaymentsInputs_between]
        by_cases inRange : range.fromBlock ≤ input.settledAtEpoch ∧ input.settledAtEpoch ≤ range.toBlock
        · have holds : holdsBlock address input.settledAtEpoch (contract, range) := decide_eq_true ⟨own, inRange⟩
          have counted : decide (range.fromBlock ≤ input.settledAtEpoch ∧ input.settledAtEpoch ≤ range.toBlock) :=
            decide_eq_true inRange
          rw [if_pos holds, Nat.one_mul]
          exact List.count_filter (p := fun input : FilecoinPayPaymentInput => range.fromBlock ≤ input.settledAtEpoch ∧
            input.settledAtEpoch ≤ range.toBlock) counted
        · have outside : ¬ holdsBlock address input.settledAtEpoch (contract, range) :=
            fun holds => inRange (of_decide_eq_true holds).2
          rw [if_neg outside, Nat.zero_mul, List.count_eq_zero]
          exact fun listed => inRange (of_decide_eq_true (List.mem_filter.mp listed).2)
      · have outside : ¬ holdsBlock address input.settledAtEpoch (contract, range) :=
          fun holds => own (of_decide_eq_true holds).1
        rw [if_neg own, if_neg outside, Nat.zero_mul]
        rfl

theorem count_stored (reached : chain.Reached cfg allowed s) (kind : chain.indexerOf address = .filecoinPayV1)
    {input : FilecoinPayPaymentInput} (own : input.filecoinPayContractAddress = address) (inQuarter : settledIn cfg q input) :
    s.store.filecoinPayPayment.rows.countP (·.toFilecoinPayPaymentInput = input) =
      s.batchesWith address input.settledAtEpoch * (chain.payments cfg q address).count input := by
  unfold Execution.batchesWith Chain.payments
  rw [List.count_filter inQuarter, ← count_indexedLogs, ← (tables_of_reached reached).payments address kind, count_inputs,
    List.countP_filter]
  congr 1
  funext p
  by_cases same : p.toFilecoinPayPaymentInput = input
  · simp [same, own]
  · simp [same]

theorem count_payment (reached : chain.Reached cfg allowed s) (kind : chain.indexerOf address = .filecoinPayV1)
    {input : FilecoinPayPaymentInput} (listed : input ∈ chain.payments cfg q address) :
    s.store.filecoinPayPayment.rows.countP (·.toFilecoinPayPaymentInput = input) =
      s.batchesWith address input.settledAtEpoch := by
  rw [count_stored reached kind (contract_of_mem listed) (mem_payments.mp listed).2,
    List.count_eq_one_of_mem payments_nodup listed, Nat.mul_one]

theorem batchesWith_pos {block : Int} : 0 < s.batchesWith address block ↔ Held s.committed address block := by
  unfold Execution.batchesWith Held
  rw [List.countP_pos_iff]
  constructor
  · rintro ⟨⟨contract, range⟩, member, holds⟩
    obtain ⟨own, bounds⟩ := of_decide_eq_true holds
    exact ⟨range, own ▸ member, bounds⟩
  · rintro ⟨range, member, bounds⟩
    exact ⟨(address, range), member, decide_eq_true ⟨rfl, bounds⟩⟩

theorem settled_le {input : FilecoinPayPaymentInput} (inQuarter : settledIn cfg q input) :
    input.settledAtEpoch ≤ cfg.quarterEndEpoch q.intValue :=
  (cfg.quarterNum_le_iff (Int.natCast_nonneg _) _).mp (of_decide_eq_true inQuarter).le

theorem exists_filecoinPayContracts {c : FilecoinPayContract} (member : c ∈ store.filecoinPayContract.rows) :
    ∃ removalEpoch, (c.contractAddress, removalEpoch) ∈ filecoinPayContracts store.toDB := by
  have listed : (c.contractAddress, c.removalEpoch) ∈ distinctOn id
      (store.filecoinPayContract.rows.map fun c => (c.contractAddress, c.removalEpoch)) :=
    mem_distinctOn_id.mpr (List.mem_map_of_mem (f := fun c => (c.contractAddress, c.removalEpoch)) member)
  obtain ⟨⟨address, removalEpoch⟩, kept, same, -⟩ := exists_distinctOn_orderBy (fun entry => entry.1)
    (fun entry => toLex (entry.1, removalOrder entry.2)) listed
  obtain rfl : address = c.contractAddress := same
  exact ⟨removalEpoch, kept⟩

theorem nothing_of_caughtUp (synced : ActorSynced cfg chain store) (caughtUp : chain.CaughtUp store head)
    {removalEpoch : Option Int} (listed : (address, removalEpoch) ∈ filecoinPayContracts store.toDB) :
    (removalEpoch.any fun m => (store.lastRun address).any (m ≤ ·)) ∨ head < chain.firstLeft store address := by
  obtain ⟨c, inRows, rfl, -⟩ := mem_filecoinPayContracts listed
  obtain ⟨lower, isAddress, -⟩ := synced.listed c inRows
  have run : chain.runParameters c.contractAddress.toLowerCase removalEpoch ∈ chain.runsOf store .filecoinPayV1 :=
    List.mem_filter.mpr ⟨List.mem_map.mpr ⟨_, List.mem_filter.mpr ⟨listed, lower.symm ▸ isAddress⟩, rfl⟩, rfl⟩
  have nothing := caughtUp .filecoinPayV1 _ run
  rw [show (chain.runParameters c.contractAddress.toLowerCase removalEpoch).contractAddress = c.contractAddress by
    change c.contractAddress.toLowerCase.toLowerCase = _
    rw [lower, lower]] at nothing
  rw [lower] at nothing
  exact nothing

theorem kind_of_admitted (reached : chain.Reached cfg allowed s) (admitted : address ∈ admittedContracts cfg s.store q) :
    chain.indexerOf address = .filecoinPayV1 := by
  obtain ⟨c, inRows, rfl, -⟩ := Agreement.mem_quarterFilecoinPayContracts.mp admitted
  exact ((consistent_of_reached reached).synced.listed c inRows).2.2

theorem held_of_past (reached : chain.Reached cfg allowed s) {input : FilecoinPayPaymentInput}
    (listed : input ∈ chain.payments cfg q address) (past : input.settledAtEpoch < chain.firstLeft s.store address) :
    0 < s.batchesWith address input.settledAtEpoch := by
  obtain ⟨⟨log, logged, built⟩, -⟩ := mem_payments.mp listed
  have started := chain.deployed .filecoinPayV1 address log logged
  have epoch : input.settledAtEpoch = log.blockNumber := (paymentInput_spec built).2.1
  exact batchesWith_pos.mpr ((consistent_of_reached reached).filled.held (epoch ▸ started) past)

theorem storedOnce_iff (reached : chain.Reached cfg allowed s) (caughtUp : chain.CaughtUp s.store head)
    (past : cfg.quarterEndEpoch q.intValue ≤ head) :
    StoredOnce cfg chain s.store q ↔ IndexedOnce cfg chain q s := by
  constructor
  · intro once
    have batches : ∀ address ∈ admittedContracts cfg s.store q, ∀ input ∈ chain.payments cfg q address,
        s.batchesWith address input.settledAtEpoch = 1 := by
      intro address admitted input listed
      rw [← count_payment reached (kind_of_admitted reached admitted) listed]
      exact once address admitted input listed
    constructor
    · intro address admitted _ _ _ _ _ input listed _
      rw [batches address admitted input listed]
      exact Nat.one_pos
    · exact fun address admitted input listed => (batches address admitted input listed).le
  · intro indexedOnce address admitted input listed
    rw [count_payment reached (kind_of_admitted reached admitted) listed]
    refine le_antisymm (indexedOnce.nothingTwice address admitted input listed) ?_
    obtain ⟨c, inRows, rfl, -⟩ := Agreement.mem_quarterFilecoinPayContracts.mp admitted
    obtain ⟨removalEpoch, inList⟩ := exists_filecoinPayContracts inRows
    rcases nothing_of_caughtUp (consistent_of_reached reached).synced caughtUp inList with stopped | beyond
    · obtain ⟨removal, rfl, removed⟩ := (Option.any_eq_true _ _).mp stopped
      obtain ⟨endBlock, last, removed⟩ := (Option.any_eq_true _ _).mp removed
      by_cases upTo : input.settledAtEpoch ≤ endBlock
      · refine held_of_past reached listed ?_
        unfold Chain.firstLeft
        rw [last]
        exact Int.lt_add_one_of_le upTo
      · exact indexedOnce.nothingLeft _ admitted removal endBlock inList last (of_decide_eq_true removed) input listed
          (not_le.mp upTo)
    · exact held_of_past reached listed (((settled_le (mem_payments.mp listed).2).trans past).trans_lt beyond)

theorem nothingTwice_of_apart (apart : ∀ s event, allowed s event → Execution.Apart s)
    (reached : chain.Reached cfg allowed s) (address : Address) (block : Int) : s.batchesWith address block ≤ 1 := by
  refine (commit_induction (p := fun store ranges =>
    ranges.countP (holdsBlock address block) ≤ 1 ∧
      ∀ range, (address, range) ∈ ranges → range.toBlock < chain.firstLeft store address) ?_ ?_ reached).1
  · exact ⟨Nat.zero_le _, nofun⟩
  · intro s i answers indexer parameters awaited range contracts logs next before _ found _ committed ⟨once, below⟩
    have continues := continues_of_reached apart before _ (List.mem_of_getElem? found) range rfl
    have later : ∀ other, chain.firstLeft s.store other ≤ chain.firstLeft next other := by
      intro other
      unfold Chain.firstLeft
      by_cases own : other = parameters.contractAddress
      · have nonempty := committed.nonempty
        rw [own, committed.own]
        change range.fromBlock = chain.firstLeft s.store parameters.contractAddress at continues
        unfold Chain.firstLeft at continues
        rw [← continues]
        exact nonempty.trans (Int.le_add_one le_rfl)
      · rw [committed.others other own]
    rw [List.countP_append, List.countP_singleton]
    constructor
    · split
      · rename_i holds
        obtain ⟨own, lower, upper⟩ := of_decide_eq_true holds
        suffices none : s.committed.countP (holdsBlock address block) = 0 by omega
        rw [List.countP_eq_zero]
        rintro ⟨contract, earlier⟩ member holdsToo
        obtain ⟨ownToo, -, upperToo⟩ := of_decide_eq_true holdsToo
        change contract = address at ownToo
        change parameters.contractAddress = address at own
        have ends := below earlier (ownToo ▸ member)
        change range.fromBlock = chain.firstLeft s.store parameters.contractAddress at continues
        rw [own] at continues
        dsimp only at lower upperToo
        omega
      · exact once
    · intro earlier member
      rcases List.mem_append.mp member with old | new
      · exact (below earlier old).trans_le (later address)
      · cases List.mem_singleton.mp new
        unfold Chain.firstLeft
        rw [committed.own]
        exact Int.lt_add_one_of_le le_rfl

end Payments

section Volume
variable {cfg : Deployment} {chain : Chain} {allowed others : Execution → chain.Event → Prop} {s s' : Execution}
  {store : Store} {q : QuarterNumber} {address : Address}

theorem reported_stablecoinVolume {numericDiv : ℚ → ℚ → ℚ} {blockNumber : Int} {serviceOrchestrator : Option String}
    {volume : QuarterlyVolume}
    (reported : getQuarterlyVolume cfg numericDiv blockNumber store.toDB serviceOrchestrator q = .ok volume) :
    cfg.toBigInt (quarterStablecoinVolume cfg store q serviceOrchestrator) = some volume.stablecoinVolumeAttoUsd := by
  obtain ⟨parameters, set, -⟩ := getQuarterlyVolume_cases reported
  have read := InForce.getQuarterParameters_read set
  rw [← getQuarterlyVolume_stablecoins set reported, read.stablecoins, read.contracts]
  rfl

def inputValue (db : DB) (contracts stablecoins : List Address) (startEpoch endEpoch : Int)
    (serviceOrchestrator : Option String) (input : FilecoinPayPaymentInput) : ℚ :=
  ((db.filecoinPayRail.rows.filter fun r =>
      input.railId = r.railId ∧ input.filecoinPayContractAddress = r.filecoinPayContractAddress).map fun r =>
    let rp : RailPayment := ⟨⟨input, 0⟩, r⟩
    if isListed contracts stablecoins startEpoch endEpoch rp && isBound db serviceOrchestrator rp then tokenValue db rp
    else 0).sum

theorem stablecoinVolume_eq_inputs (db : DB) (contracts stablecoins : List Address) (startEpoch endEpoch : Int)
    (serviceOrchestrator : Option String) :
    stablecoinVolume db contracts stablecoins startEpoch endEpoch serviceOrchestrator =
      ((db.filecoinPayPayment.rows.map (·.toFilecoinPayPaymentInput)).map
        (inputValue db contracts stablecoins startEpoch endEpoch serviceOrchestrator)).sum := by
  rw [stablecoinVolume_eq]
  unfold railPayments
  rw [List.map_flatMap, List.flatMap_def, List.sum_flatten, List.map_map, List.map_map]
  refine congrArg List.sum (List.map_congr_left fun p _ => ?_)
  unfold inputValue
  rw [Function.comp_apply, List.map_map]
  rfl

def settledOn (cfg : Deployment) (contracts : List Address) (q : QuarterNumber) (input : FilecoinPayPaymentInput) : Bool :=
  input.filecoinPayContractAddress ∈ contracts && settledIn cfg q input

def paymentsOn (cfg : Deployment) (db : DB) (contracts : List Address) (q : QuarterNumber) : List FilecoinPayPaymentInput :=
  (db.filecoinPayPayment.rows.map (·.toFilecoinPayPaymentInput)).filter (settledOn cfg contracts q)

theorem inputValue_eq_zero {db : DB} {contracts stablecoins : List Address} {serviceOrchestrator : Option String}
    {input : FilecoinPayPaymentInput} (out : ¬ settledOn cfg contracts q input) :
    inputValue db contracts stablecoins (cfg.quarterStartEpoch q.intValue) (cfg.quarterEndEpoch q.intValue)
      serviceOrchestrator input = 0 := by
  unfold inputValue
  apply List.sum_eq_zero
  intro value member
  obtain ⟨r, -, rfl⟩ := List.mem_map.mp member
  refine if_neg fun counted => out ?_
  obtain ⟨contract, -, started, ended⟩ := of_decide_eq_true (Bool.and_eq_true_iff.mp counted).1
  refine Bool.and_eq_true_iff.mpr ⟨decide_eq_true contract, decide_eq_true (le_antisymm ?_ ?_)⟩
  · exact (cfg.quarterNum_le_iff (Int.natCast_nonneg _) _).mpr ended
  · exact (cfg.le_quarterNum_iff (by have := q.positive; omega) _).mpr started

theorem stablecoinVolume_eq_paymentsOn (db : DB) (contracts stablecoins : List Address)
    (serviceOrchestrator : Option String) :
    stablecoinVolume db contracts stablecoins (cfg.quarterStartEpoch q.intValue) (cfg.quarterEndEpoch q.intValue)
        serviceOrchestrator =
      ((paymentsOn cfg db contracts q).map (inputValue db contracts stablecoins (cfg.quarterStartEpoch q.intValue)
        (cfg.quarterEndEpoch q.intValue) serviceOrchestrator)).sum := by
  rw [stablecoinVolume_eq_inputs, paymentsOn, sum_map_filter]
  refine congrArg List.sum (List.map_congr_left fun input _ => ?_)
  split
  · rfl
  · rename_i out
    exact inputValue_eq_zero out

theorem paymentsOn_perm {contracts : List Address} (reached : chain.Reached cfg allowed s)
    (reached' : chain.Reached cfg others s') (kinds : ∀ address ∈ contracts, chain.indexerOf address = .filecoinPayV1)
    (same : ∀ address ∈ contracts, ∀ input ∈ chain.payments cfg q address,
      s.batchesWith address input.settledAtEpoch = s'.batchesWith address input.settledAtEpoch) :
    (paymentsOn cfg s.store.toDB contracts q).Perm (paymentsOn cfg s'.store.toDB contracts q) := by
  rw [List.perm_iff_count]
  intro input
  unfold paymentsOn
  by_cases counted : settledOn cfg contracts q input
  · obtain ⟨contract, inQuarter⟩ := Bool.and_eq_true_iff.mp counted
    have admitted := of_decide_eq_true contract
    rw [List.count_filter counted, List.count_filter counted, count_inputs, count_inputs,
      count_stored reached (kinds _ admitted) rfl inQuarter, count_stored reached' (kinds _ admitted) rfl inQuarter]
    by_cases listed : input ∈ chain.payments cfg q input.filecoinPayContractAddress
    · rw [same _ admitted input listed]
    · rw [List.count_eq_zero.mpr listed, Nat.mul_zero, Nat.mul_zero]
  · have out : ∀ rows : List FilecoinPayPaymentInput, (rows.filter (settledOn cfg contracts q)).count input = 0 :=
      fun rows => List.count_eq_zero.mpr fun member => counted (List.mem_filter.mp member).2
    rw [out, out]

theorem railsStored (reached : chain.Reached cfg allowed s) : Reachable.RailsStored s.store.toDB := by
  obtain ⟨history, reached, -⟩ := recorded_of_reached reached
  exact (Reachable.invariants_reached reached).rails

theorem mem_indexedLogs {ranges : List (Address × BlockRange)} {log : FilecoinPayV1Log} :
    log ∈ indexedLogs chain ranges address ↔
      log ∈ chain.filecoinPayLogs address ∧ Held ranges address log.blockNumber := by
  unfold indexedLogs
  rw [List.mem_flatMap]
  constructor
  · rintro ⟨⟨contract, range⟩, member, listed⟩
    dsimp only at listed
    split at listed
    · rename_i own
      obtain ⟨logged, bounds⟩ := mem_between.mp listed
      exact ⟨logged, range, own ▸ member, bounds⟩
    · cases listed
  · rintro ⟨logged, range, member, bounds⟩
    refine ⟨(address, range), member, ?_⟩
    dsimp only
    rw [if_pos rfl]
    exact mem_between.mpr ⟨logged, bounds⟩

theorem mem_rails_iff (reached : chain.Reached cfg allowed s) (kind : chain.indexerOf address = .filecoinPayV1)
    {r : FilecoinPayRail} (own : r.filecoinPayContractAddress = address) : r ∈ s.store.filecoinPayRail.rows ↔
      ∃ log ∈ chain.filecoinPayLogs address, railInput log = some r ∧ Held s.committed address log.blockNumber := by
  have mem : r ∈ s.store.filecoinPayRail.rows ↔ r ∈ getRailsInputs (indexedLogs chain s.committed address) := by
    rw [← (tables_of_reached reached).rails address kind, List.mem_filter, and_iff_left (decide_eq_true own)]
  rw [mem]
  unfold getRailsInputs
  rw [List.mem_filterMap]
  refine exists_congr fun log => ?_
  rw [mem_indexedLogs, and_assoc, and_comm (a := railInput log = some r)]

theorem rails_eq_singleton {db : DB} {r : FilecoinPayRail} (stored : r ∈ db.filecoinPayRail.rows)
    {input : FilecoinPayPaymentInput} (rail : input.railId = r.railId)
    (contract : input.filecoinPayContractAddress = r.filecoinPayContractAddress) :
    (db.filecoinPayRail.rows.filter fun r => input.railId = r.railId ∧
      input.filecoinPayContractAddress = r.filecoinPayContractAddress) = [r] := by
  refine List.perm_singleton.mp ((List.perm_ext_iff_of_nodup (db.filecoinPayRail.rows_nodup.filter _)
    (List.nodup_singleton r)).mpr fun found => ?_)
  rw [List.mem_singleton, List.mem_filter, decide_eq_true_eq]
  constructor
  · rintro ⟨member, sameRail, sameContract⟩
    exact db.filecoinPayRail.eq_of_key member stored
      (Prod.ext (sameContract.symm.trans contract) (sameRail.symm.trans rail))
  · rintro rfl
    exact ⟨stored, rail, contract⟩

theorem held_before (reached : chain.Reached cfg allowed s) {block earlier : Int}
    (held : Held s.committed address block) (started : chain.getContractDeploymentEpoch address ≤ earlier)
    (le : earlier ≤ block) : Held s.committed address earlier := by
  obtain ⟨range, member, -, upper⟩ := held
  exact (consistent_of_reached reached).filled.filled address range member earlier started (le.trans upper)

theorem rails_eq (reached : chain.Reached cfg allowed s) (reached' : chain.Reached cfg others s')
    (kind : chain.indexerOf address = .filecoinPayV1) {input : FilecoinPayPaymentInput}
    (own : input.filecoinPayContractAddress = address)
    (stored : input ∈ s.store.filecoinPayPayment.rows.map (·.toFilecoinPayPaymentInput))
    (storedToo : input ∈ s'.store.filecoinPayPayment.rows.map (·.toFilecoinPayPaymentInput)) :
    ∃ r : FilecoinPayRail, ∀ db ∈ [s.store.toDB, s'.store.toDB], (db.filecoinPayRail.rows.filter fun r =>
      input.railId = r.railId ∧ input.filecoinPayContractAddress = r.filecoinPayContractAddress) = [r] := by
  obtain ⟨p, inRows, rfl⟩ := List.mem_map.mp stored
  obtain ⟨p', inRowsToo, same⟩ := List.mem_map.mp storedToo
  change p'.toFilecoinPayPaymentInput = p.toFilecoinPayPaymentInput at same
  obtain ⟨r, rail, railId, contract⟩ := railsStored reached p inRows
  obtain ⟨r', railToo, railIdToo, contractToo⟩ := railsStored reached' p' inRowsToo
  rw [same] at railIdToo contractToo
  have key : r.pkey = r'.pkey := Prod.ext (contract.symm.trans contractToo) (railId.symm.trans railIdToo)
  have ownRail := contract.symm.trans own
  have ownRailToo := contractToo.symm.trans own
  obtain rfl : r = r' := by
    obtain ⟨log, logged, built, held⟩ := (mem_rails_iff reached kind ownRail).mp rail
    obtain ⟨logToo, loggedToo, builtToo, heldToo⟩ := (mem_rails_iff reached' kind ownRailToo).mp railToo
    -- the schedule that has fetched the later log has fetched both
    rcases le_total log.blockNumber logToo.blockNumber with le | le
    · have started := chain.deployed .filecoinPayV1 address log logged
      have later := (mem_rails_iff reached' kind ownRail).mpr
        ⟨log, logged, built, held_before reached' heldToo started le⟩
      exact s'.store.filecoinPayRail.eq_of_key later railToo key
    · have started := chain.deployed .filecoinPayV1 address logToo loggedToo
      have later := (mem_rails_iff reached kind ownRailToo).mpr
        ⟨logToo, loggedToo, builtToo, held_before reached held started le⟩
      exact s.store.filecoinPayRail.eq_of_key rail later key
  refine ⟨r, fun db member => ?_⟩
  simp only [List.mem_cons, List.not_mem_nil, or_false] at member
  rcases member with rfl | rfl
  · exact rails_eq_singleton rail railId contract
  · exact rails_eq_singleton railToo railId contract

section Lists
variable {db next : DB} (same : db.listsAsOf cfg q.intValue = next.listsAsOf cfg q.intValue)
include same

theorem quarterFilecoinPayContracts_eq :
    (quarterFilecoinPayContracts cfg db q.intValue).map (·.contractAddress) =
      (quarterFilecoinPayContracts cfg next q.intValue).map (·.contractAddress) := by
  have rows : (db.asOf cfg q.intValue).filecoinPayContract.rows = (next.asOf cfg q.intValue).filecoinPayContract.rows :=
    congrArg (fun lists => lists.2.2) same
  refine (quarterFilecoinPayContracts_asOf le_rfl).symm.trans (Eq.trans ?_ (quarterFilecoinPayContracts_asOf le_rfl))
  unfold quarterFilecoinPayContracts contractsByQuarter
  rw [rows]

theorem quarterTokens_eq : (quarterTokens cfg db q.intValue).map (·.tokenAddress) =
    (quarterTokens cfg next q.intValue).map (·.tokenAddress) := by
  have rows : (db.asOf cfg q.intValue).whitelistedToken.rows = (next.asOf cfg q.intValue).whitelistedToken.rows :=
    congrArg (fun lists => lists.2.1) same
  refine (quarterTokens_asOf le_rfl).symm.trans (Eq.trans ?_ (quarterTokens_asOf le_rfl))
  unfold quarterTokens tokensByQuarter
  rw [rows]

theorem isBound_eq (serviceOrchestrator : Option String) {rp : RailPayment} (known : settledBy cfg q.intValue rp) :
    isBound db serviceOrchestrator rp = isBound next serviceOrchestrator rp := by
  have rows : (db.asOf cfg q.intValue).servicePair.rows = (next.asOf cfg q.intValue).servicePair.rows :=
    congrArg (fun lists => lists.1) same
  refine (isBound_asOf serviceOrchestrator known).symm.trans (Eq.trans ?_ (isBound_asOf serviceOrchestrator known))
  unfold isBound
  rw [rows]

theorem tokenValue_eq {rp : RailPayment} (known : settledBy cfg q.intValue rp) :
    tokenValue db rp = tokenValue next rp := by
  have rows : (db.asOf cfg q.intValue).whitelistedToken.rows = (next.asOf cfg q.intValue).whitelistedToken.rows :=
    congrArg (fun lists => lists.2.1) same
  refine (tokenValue_asOf known).symm.trans (Eq.trans ?_ (tokenValue_asOf known))
  unfold tokenValue
  rw [rows]

end Lists

theorem inputValue_eq {db next : DB} (same : db.listsAsOf cfg q.intValue = next.listsAsOf cfg q.intValue)
    (contracts stablecoins : List Address) (startEpoch endEpoch : Int) (serviceOrchestrator : Option String)
    {input : FilecoinPayPaymentInput} (inQuarter : settledIn cfg q input)
    (rails : (db.filecoinPayRail.rows.filter fun r => input.railId = r.railId ∧
        input.filecoinPayContractAddress = r.filecoinPayContractAddress) =
      next.filecoinPayRail.rows.filter fun r => input.railId = r.railId ∧
        input.filecoinPayContractAddress = r.filecoinPayContractAddress) :
    inputValue db contracts stablecoins startEpoch endEpoch serviceOrchestrator input =
      inputValue next contracts stablecoins startEpoch endEpoch serviceOrchestrator input := by
  unfold inputValue
  rw [rails]
  refine congrArg List.sum (List.map_congr_left fun r _ => ?_)
  have known : settledBy cfg q.intValue ⟨⟨input, 0⟩, r⟩ := decide_eq_true (of_decide_eq_true inQuarter).le
  dsimp only
  rw [isBound_eq same serviceOrchestrator known, tokenValue_eq same known]

theorem quarterStablecoinVolume_eq (reached : chain.Reached cfg allowed s) (reached' : chain.Reached cfg others s')
    (lists : s.store.toDB.listsAsOf cfg q.intValue = s'.store.toDB.listsAsOf cfg q.intValue)
    (batches : ∀ address ∈ admittedContracts cfg s.store q, ∀ input ∈ chain.payments cfg q address,
      s.batchesWith address input.settledAtEpoch = s'.batchesWith address input.settledAtEpoch)
    (serviceOrchestrator : Option String) : quarterStablecoinVolume cfg s.store q serviceOrchestrator =
      quarterStablecoinVolume cfg s'.store q serviceOrchestrator := by
  have contracts : admittedContracts cfg s.store q = admittedContracts cfg s'.store q :=
    quarterFilecoinPayContracts_eq lists
  have kinds : ∀ address ∈ admittedContracts cfg s.store q, chain.indexerOf address = .filecoinPayV1 :=
    fun _ admitted => kind_of_admitted reached admitted
  unfold quarterStablecoinVolume
  rw [contracts] at batches kinds ⊢
  rw [quarterTokens_eq lists, stablecoinVolume_eq_paymentsOn, stablecoinVolume_eq_paymentsOn]
  have perm := paymentsOn_perm reached reached' kinds batches
  refine Eq.trans (congrArg List.sum (List.map_congr_left fun input member => ?_)) (perm.map _).sum_eq
  obtain ⟨stored, settled⟩ := List.mem_filter.mp member
  obtain ⟨contract, inQuarter⟩ := Bool.and_eq_true_iff.mp settled
  have storedToo := List.mem_of_mem_filter (perm.mem_iff.mp member)
  obtain ⟨r, rails⟩ := rails_eq reached reached' (kinds _ (of_decide_eq_true contract)) rfl stored storedToo
  exact inputValue_eq lists _ _ _ _ _ inQuarter ((rails _ (by simp)).trans (rails _ (by simp)).symm)

end Volume

section Samples
-- addresses are written short

def logsAt (indexer : Indexer) (home : Address) (logs : List indexer.Log)
    (numbered : logs.Pairwise fun a b => indexer.position a < indexer.position b) (address : Address) :
    ChainLogs (indexer.place fun _ => 0) where
  logs := if address = home then logs else []
  final := fun _ _ => ⟨rfl, rfl, rfl⟩
  ordered := by
    split
    · refine numbered.imp fun {a b} earlier => ?_
      rw [Position.lt_iff] at earlier
      unfold Place.coordinates
      rw [Prod.Lex.toLex_lt_toLex, Prod.Lex.toLex_lt_toLex]
      rcases earlier with before | ⟨same, before⟩
      · exact Or.inl (WithBot.coe_lt_coe.mpr before)
      · exact Or.inr ⟨congrArg some same, Or.inr ⟨rfl, WithBot.coe_lt_coe.mpr before⟩⟩
    · exact List.Pairwise.nil

theorem mem_logsAt {indexer : Indexer} {home address : Address} {logs : List indexer.Log}
    {numbered : logs.Pairwise fun a b => indexer.position a < indexer.position b} {log : indexer.Log}
    (member : log ∈ (logsAt indexer home logs numbered address).logs) : address = home ∧ log ∈ logs := by
  unfold logsAt at member
  dsimp only at member
  split at member
  · rename_i same
    exact ⟨same, member⟩
  · cases member

theorem logsAt_numbered (indexer : Indexer) (home : Address) (logs : List indexer.Log)
    (numbered : logs.Pairwise fun a b => indexer.position a < indexer.position b) (address : Address) :
    (logsAt indexer home logs numbered address).logs.Pairwise fun a b => indexer.position a < indexer.position b := by
  unfold logsAt
  dsimp only
  split
  · exact numbered
  · exact List.Pairwise.nil

def dollar (token : Address) : Option ERC20Metadata := if token = "0xd" then some ⟨18, "USD"⟩ else none

theorem dollar_isSome {token : Address} (known : (dollar token).isSome) : token = "0xd" := by
  by_contra other
  unfold dollar at known
  rw [if_neg other] at known
  cases known

def home : Indexer → Address
  | .serviceRewardsActor => "0xa"
  | .streamWeightActor => "0xb"
  | .filecoinPayV1 => "0xf"
  | .auctionableToken => "0xd"

section Chains
variable (actorLogs : List ServiceRewardsActorLog) (payLogs : List FilecoinPayV1Log) (transfers : List TransferLog)

def sampleLogs : (indexer : Indexer) → List indexer.Log
  | .serviceRewardsActor => actorLogs
  | .streamWeightActor => []
  | .filecoinPayV1 => payLogs
  | .auctionableToken => transfers

def sampleChain (transactionOf : Hash → Transaction) (decodeFunctionData : Hex → Except Failure FilecoinPayV1Call)
    (numbered : ∀ indexer, (sampleLogs actorLogs payLogs transfers indexer).Pairwise fun a b =>
      indexer.position a < indexer.position b)
    (deployed : ∀ indexer, ∀ log ∈ sampleLogs actorLogs payLogs transfers indexer, 0 ≤ (indexer.position log).epoch)
    (emitted : ∀ log ∈ payLogs, log.address.toLowerCase = "0xf")
    (announced : ∀ log ∈ actorLogs, ∀ contract ∈ announcedContracts log, contract ∈ ["0xe", "0xf"]) : Chain where
  serviceRewardsActorAddress := "0xa"
  streamWeightActorAddress := "0xb"
  transactionIndex _ := 0
  logs indexer := logsAt indexer (home indexer) (sampleLogs actorLogs payLogs transfers indexer) (numbered indexer)
  getContractDeploymentEpoch _ := 0
  isAddress _ := true
  metadataOf := dollar
  transactionOf
  decodeFunctionData
  indexerOf address :=
    if address = "0xa" then .serviceRewardsActor
    else if address = "0xb" then .streamWeightActor
    else if address = "0xd" then .auctionableToken
    else .filecoinPayV1
  numbered := fun indexer address => logsAt_numbered indexer _ _ (numbered indexer) address
  deployed := fun indexer _ log member => deployed indexer log (mem_logsAt member).2
  emitted := by
    intro address log member
    obtain ⟨rfl, listed⟩ := mem_logsAt member
    exact emitted log listed
  deployment_toLowerCase := fun _ => rfl
  announced_isAddress := fun _ _ _ _ _ => rfl
  serviceRewardsActor_indexer := by decide +kernel
  streamWeightActor_indexer := by decide +kernel
  announced_indexer := by
    intro address log member contract isAnnounced
    have known := announced log (mem_logsAt member).2 contract isAnnounced
    simp only [List.mem_cons, List.not_mem_nil, or_false] at known
    rcases known with rfl | rfl <;> decide +kernel
  token_indexer := by
    intro token known
    rw [dollar_isSome known]
    decide +kernel
  token_isAddress := fun _ _ => rfl

end Chains

def wideBatches : IndexerConfig := ⟨1000, none, 1000, 1000, by decide, by decide⟩

def answersAt (chain : Chain) (head : Int) : chain.Answers where
  config := wideBatches
  packageMajorVersion := 1
  getContractDeploymentEpoch := .ok ()
  lastRun := .ok ()
  heads := ⟨.ok head, fun _ => .ok head, fun _ => .ok head⟩
  getLogs := fun indexer address contracts fromBlock toBlock =>
    .ok ⟨chain.served indexer address contracts fromBlock toBlock, List.Perm.refl _⟩
  services := chain.answering
  transaction := .ok ()

section Drive
variable (cfg : Deployment) (chain : Chain) (check : Execution → chain.Event → Bool) (head : Indexer → Int)

def guardedStep (s : Execution) (event : chain.Event) : Option Execution :=
  if check s event then chain.step cfg s event else none

def drive : Nat → Execution → Option Execution
  | 0, _ => none
  | fuel + 1, s =>
      if s.stage.isNone then some s
      else
        let event := match s.active with
          | [] => .proceed
          | run :: _ => .resume 0 (answersAt chain (head run.indexer))
        (guardedStep cfg chain check s event).bind (drive fuel)

def callAt (s : Execution) : Option Execution := (guardedStep cfg chain check s .start).bind (drive cfg chain check head 40)

def schedule (heads : List (Indexer → Int)) : Option Execution :=
  heads.foldlM (fun s head => callAt cfg chain check head s) (.migrated (some cfg.toConfig))

variable {cfg chain check head} {allowed : Execution → chain.Event → Prop} {s final : Execution}

theorem step_of_guardedStep {event : chain.Event} (stepped : guardedStep cfg chain check s event = some final) :
    check s event ∧ chain.step cfg s event = some final := by
  unfold guardedStep at stepped
  split at stepped
  · rename_i checked
    exact ⟨checked, stepped⟩
  · cases stepped

variable (sound : ∀ s event, check s event → allowed s event)
include sound

theorem reached_of_guardedStep {event : chain.Event} (reached : chain.Reached cfg allowed s)
    (stepped : guardedStep cfg chain check s event = some final) : chain.Reached cfg allowed final := by
  obtain ⟨checked, stepped⟩ := step_of_guardedStep stepped
  exact .after event reached (sound s event checked) stepped

theorem reached_of_drive {fuel : Nat} (reached : chain.Reached cfg allowed s)
    (run : drive cfg chain check head fuel s = some final) : chain.Reached cfg allowed final := by
  induction fuel generalizing s with
  | zero => cases run
  | succ fuel ih =>
      unfold drive at run
      split at run
      · cases run
        exact reached
      · obtain ⟨next, stepped, onward⟩ := Option.bind_eq_some_iff.mp run
        exact ih (reached_of_guardedStep sound reached stepped) onward

theorem reached_of_schedule {heads : List (Indexer → Int)} (run : schedule cfg chain check heads = some final) :
    chain.Reached cfg allowed final := by
  suffices general : ∀ s, chain.Reached cfg allowed s →
      heads.foldlM (fun s head => callAt cfg chain check head s) s = some final → chain.Reached cfg allowed final from
    general _ .migrated run
  clear run
  induction heads with
  | nil =>
      intro s reached run
      cases run
      exact reached
  | cons head rest ih =>
      intro s reached run
      rw [List.foldlM_cons, Option.bind_eq_bind, Option.bind_eq_some_iff] at run
      obtain ⟨next, call, onward⟩ := run
      obtain ⟨first, started, driven⟩ := Option.bind_eq_some_iff.mp call
      exact ih next (reached_of_drive sound (reached_of_guardedStep sound reached started) driven) onward

end Drive

def isApart {chain : Chain} (s : Execution) (_ : chain.Event) : Bool := s.Apart

theorem apart_of_check {chain : Chain} (s : Execution) (event : chain.Event) (checked : isApart s event) : s.Apart :=
  of_decide_eq_true checked

end Samples

section Removed

def removedMidQuarter : Chain :=
  sampleChain
    [⟨50, 0, "0x1", .pricingParamsUpdated 10 1 1 1000 5⟩,
      ⟨50, 1, "0x1", .admittedListsUpdated ["0xd"] ["0xf"]⟩,
      ⟨50, 2, "0x1", .orchestratorAdmitted "0xc" "0xc"⟩,
      ⟨50, 3, "0x1", .bindingDeclared "0x1" "0x2" "0xc"⟩,
      ⟨150, 0, "0x4", .admittedListsUpdated ["0xd"] []⟩]
    [⟨"0xf", 60, 0, "0x2",
        .railCreated 1 "0x1" "0x3" "0xd" "0x2" "0x4"⟩,
      ⟨"0xf", 120, 0, "0x3", .railSettled 1 5 5 0 0⟩, ⟨"0xf", 170, 0, "0x5", .railSettled 1 7 7 0 0⟩]
    [] (fun _ => ⟨none, "", 0⟩) (fun _ => .error (.rejected "no data"))
    (by intro indexer; cases indexer <;> decide) (by intro indexer; cases indexer <;> decide) (by decide +kernel)
    (by decide +kernel)

def removedSchedule (heads : List Int) : Option Execution :=
  schedule hundredEpochs removedMidQuarter isApart (heads.map fun head _ => head)

theorem apart_of_removedSchedule {heads : List Int} {s : Execution} (run : removedSchedule heads = some s) :
    removedMidQuarter.Reached hundredEpochs (fun s _ => s.Apart) s :=
  reached_of_schedule apart_of_check run

theorem reached_of_removedSchedule {heads : List Int} {s : Execution} (run : removedSchedule heads = some s) :
    removedMidQuarter.Reached hundredEpochs (fun _ _ => True) s :=
  reached_of_schedule (fun _ _ _ => trivial) run

def latePayment : FilecoinPayPaymentInput where
  filecoinPayContractAddress := "0xf"
  txHash := "0x5"
  logIndex := 0
  railId := 1
  totalAmount := 7
  netPayeeAmount := 7
  operatorCommission := 0
  networkFee := 0
  settledAtEpoch := 170
  oneTime := false

def seen (s : Execution) : Bool × Option Int × List Address × ℚ × Nat :=
  (removedMidQuarter.CaughtUp s.store 300, s.store.lastRun "0xf",
    admittedContracts hundredEpochs s.store firstQuarter, quarterStablecoinVolume hundredEpochs s.store firstQuarter none,
    s.store.filecoinPayPayment.rows.countP (·.toFilecoinPayPaymentInput = latePayment))

theorem seen_early : (removedSchedule [155, 300]).map seen =
    some (true, some 155, ["0xf"], 5, 0) := by decide +kernel

theorem seen_late : (removedSchedule [300]).map seen = some (true, some 300, ["0xf"], 12, 1) := by
  decide +kernel

theorem seen_twice : (removedSchedule [140, 300]).map seen =
    some (true, some 300, ["0xf"], 12, 1) := by decide +kernel

theorem exists_of_seen {heads : List Int} {lastRun : Option Int} {contracts : List Address} {volume : ℚ} {count : Nat}
    (ran : (removedSchedule heads).map seen = some (true, lastRun, contracts, volume, count)) :
    ∃ s, removedSchedule heads = some s ∧ removedMidQuarter.CaughtUp s.store 300 ∧
      s.store.lastRun "0xf" = lastRun ∧ admittedContracts hundredEpochs s.store firstQuarter = contracts ∧
      quarterStablecoinVolume hundredEpochs s.store firstQuarter none = volume ∧
      s.store.filecoinPayPayment.rows.countP (·.toFilecoinPayPaymentInput = latePayment) = count := by
  obtain ⟨s, run, same⟩ := Option.map_eq_some_iff.mp ran
  obtain ⟨caughtUp, rest⟩ := Prod.mk.inj same
  obtain ⟨last, rest⟩ := Prod.mk.inj rest
  obtain ⟨contracts, rest⟩ := Prod.mk.inj rest
  obtain ⟨volume, count⟩ := Prod.mk.inj rest
  exact ⟨s, run, of_decide_eq_true caughtUp, last, contracts, volume, count⟩

theorem indexedOnce_of_cursor {heads : List Int} {s : Execution} (run : removedSchedule heads = some s)
    (last : s.store.lastRun "0xf" = some 300)
    (contracts : admittedContracts hundredEpochs s.store firstQuarter = ["0xf"]) :
    IndexedOnce hundredEpochs removedMidQuarter firstQuarter s where
  nothingLeft := by
    intro address admitted removalEpoch endBlock _ current _ input payment past
    rw [contracts, List.mem_singleton] at admitted
    rw [admitted, last] at current
    cases current
    exact absurd (past.trans_le (settled_le (mem_payments.mp payment).2)) (by decide)
  nothingTwice := fun address _ input _ =>
    nothingTwice_of_apart (fun _ _ apart => apart) (apart_of_removedSchedule run) address input.settledAtEpoch

end Removed

end Proof.Removals
end FpvIndexer
