import FpvIndexer.Proof.Rosters
import FpvIndexer.Proof.PaymentsList

namespace FpvIndexer
open Relational

structure LoggedPayment where
  payment : FilecoinPayPaymentInput
  rail : FilecoinPayRail
deriving DecidableEq

def LoggedPayment.position (p : LoggedPayment) : Position :=
  ⟨p.payment.settledAtEpoch, p.payment.logIndex⟩

def RailPayment.logged (rp : RailPayment) : LoggedPayment := ⟨rp.payment.toFilecoinPayPaymentInput, rp.rail⟩

namespace Chain
variable (cfg : Deployment) (chain : Chain) (store : Store)

def loggedPayments (contract : Address) : List LoggedPayment :=
  (getPaymentsInputs (chain.upTo .filecoinPayV1 store contract)).flatMap fun payment =>
    ((getRailsInputs (chain.upTo .filecoinPayV1 store contract)).filter (payment.railId = ·.railId)).map (⟨payment, ·⟩)

def creditedTo (p : LoggedPayment) : Option Address :=
  ((chain.registry cfg store).tenure (p.rail.payer, p.rail.operator)).holder p.position

def listedContract (p : LoggedPayment) : Bool :=
  (((chain.roster store).contracts p.payment.filecoinPayContractAddress).holder p.position).isSome

def listedToken (p : LoggedPayment) : Option ERC20Metadata :=
  ((chain.roster store).tokens p.rail.token).holder p.position

/-- What a payment adds to the volume in stablecoins of a quarter. -/
def credit (admittedStablecoins : List Address) (serviceOrchestrator : Option String) (q : QuarterNumber)
    (p : LoggedPayment) : ℚ :=
  if p.rail.token ∈ admittedStablecoins ∧ cfg.quarterStartEpoch q.intValue ≤ p.payment.settledAtEpoch ∧
      p.payment.settledAtEpoch ≤ cfg.quarterEndEpoch q.intValue ∧
      (chain.creditedTo cfg store p).any (matchesOrchestrator serviceOrchestrator) then
    (chain.listedToken store p).elim 0 fun metadata =>
      p.payment.totalAmount * (10 : ℚ) ^ (18 - metadata.decimals)
  else 0

/-- What a payment adds to the volume in FIL of a pricing period. -/
def filCredit (qp : PricePeriod) (serviceOrchestrator : Option String) (p : LoggedPayment) : Int :=
  if p.rail.token = zeroAddress ∧ cfg.activationEpoch ≤ p.payment.settledAtEpoch ∧
      (chain.creditedTo cfg store p).any (matchesOrchestrator serviceOrchestrator) ∧
      p.position < qp.position ∧ ¬ (store.toDB.qualifiedPricePeriodsMv.rows.any fun eqp =>
        p.position < eqp.position ∧ eqp.position < qp.position) then
    p.payment.totalAmount
  else 0

end Chain

namespace Proof.Credits
open Volume Owners Attribution Commits Schedules Tenancy Rosters

theorem joined_iff {db : DB} {rp : RailPayment} {owner : Option Address} (single : joinServicePairs db rp = [owner])
    (id : Address) : owner = some id ↔
      Attributed db.servicePair.rows (rp.rail.payer, rp.rail.operator) rp.payment.position id := by
  have binding : ∀ sp : ServicePair, sp.bindsRail rp ↔ sp.pair = (rp.rail.payer, rp.rail.operator) ∧
      sp.covers rp.payment.position := by
    intro sp
    rw [ServicePair.bindsRail, decide_eq_true_eq, ServicePair.pair, Prod.mk.injEq, and_assoc, eq_comm (a := sp.payer),
      eq_comm (a := sp.operator)]
  unfold joinServicePairs at single
  have joined : (∃ sp ∈ db.servicePair.rows.filter (·.bindsRail rp), sp.serviceOrchestratorId = id) ↔
      Attributed db.servicePair.rows (rp.rail.payer, rp.rail.operator) rp.payment.position id := by
    simp only [List.mem_filter, binding, and_assoc]
    exact Iff.rfl
  rw [← joined]
  split at single
  · rename_i none
    obtain rfl := List.singleton_inj.mp single
    rw [none]
    constructor
    · intro shown
      cases shown
    · rintro ⟨_, member, -⟩
      cases member
  · have shown : some id ∈ [owner] ↔ ∃ sp ∈ db.servicePair.rows.filter (·.bindsRail rp), sp.serviceOrchestratorId = id := by
      rw [← single, List.mem_map]
      simp only [Option.some_inj]
    rw [← shown, List.mem_singleton, eq_comm]

section Reached
variable {cfg : Deployment} {chain : Chain} {allowed : Execution → chain.Event → Prop} {s : Execution}
  (reached : chain.Reached cfg allowed s)

theorem loggedPayments_of_synced (synced : Synced cfg chain s.store) {contract : Address}
    (kind : chain.indexerOf contract = .filecoinPayV1) :
    ((railPayments s.store.toDB).filter fun rp => rp.payment.filecoinPayContractAddress = contract).map (·.logged) =
      chain.loggedPayments s.store contract := by
  unfold railPayments Chain.loggedPayments
  rw [← synced.rails contract kind, ← synced.payments contract kind, List.filter_flatMap, List.map_flatMap,
    List.flatMap_map, flatMap_filter]
  refine List.flatMap_congr fun p _ => ?_
  by_cases own : p.filecoinPayContractAddress = contract
  · rw [if_pos (decide_eq_true own), List.filter_map, List.map_map, List.filter_filter, List.filter_filter]
    refine congrArg _ (List.filter_congr fun r _ => ?_)
    simp only [Function.comp_apply, own, decide_true, Bool.true_and, Bool.decide_and, eq_comm (a := contract)]
  · rw [if_neg (by simpa using own)]
    simp only [List.filter_map, Function.comp_def, own, decide_false, List.filter_false, List.map_nil]

include reached

theorem joinServicePairs_of_reached (rp : RailPayment) :
    joinServicePairs s.store.toDB rp = [chain.creditedTo cfg s.store rp.logged] := by
  have kept := kept_of_reached cfg chain allowed s reached
  obtain ⟨owner, single⟩ : ∃ owner, joinServicePairs s.store.toDB rp = [owner] :=
    joinServicePairs_single kept.bindings rp
  have attributed : ∀ id, Attributed s.store.servicePair.rows (rp.rail.payer, rp.rail.operator) rp.payment.position id ↔
      ((chain.registry cfg s.store).tenure (rp.rail.payer, rp.rail.operator)).holder rp.payment.position = some id :=
    fun id => attributed_iff kept _ _ id
  rw [single]
  exact congrArg (fun owner => [owner]) (Option.ext fun id => (joined_iff single id).trans (attributed id))

theorem filecoinPayContractWhitelisted_of_reached (rp : RailPayment) :
    filecoinPayContractWhitelisted s.store.toDB rp = chain.listedContract s.store rp.logged := by
  rw [Bool.eq_iff_iff]
  unfold Chain.listedContract filecoinPayContractWhitelisted
  rw [List.any_eq_true, Option.isSome_iff_exists]
  simp only [decide_eq_true_eq, eq_comm (a := rp.payment.filecoinPayContractAddress)]
  exact (contractHeld_iff reached _ _).trans ⟨fun held => ⟨(), held⟩, fun ⟨_, held⟩ => held⟩

theorem tokenOpen_iff (rp : RailPayment) : (s.store.whitelistedToken.rows.any fun t =>
    rp.rail.token = t.tokenAddress ∧ t.covers rp.payment.position) = (chain.listedToken s.store rp.logged).isSome := by
  rw [Bool.eq_iff_iff, List.any_eq_true, Option.isSome_iff_exists]
  simp only [decide_eq_true_eq, eq_comm (a := rp.rail.token)]
  constructor
  · rintro ⟨t, member, own, covers⟩
    exact ⟨⟨t.tokenDecimals, t.tokenSymbol⟩, (tokenHeld_iff reached _ _ _).mp ⟨t, member, own, covers, rfl⟩⟩
  · rintro ⟨metadata, held⟩
    obtain ⟨t, member, own, covers, -⟩ := (tokenHeld_iff reached _ _ _).mpr held
    exact ⟨t, member, own, covers⟩

theorem tokenWhitelisted_of_reached (rp : RailPayment) : tokenWhitelisted s.store.toDB rp =
    (decide (rp.rail.token = zeroAddress) || (chain.listedToken s.store rp.logged).isSome) := by
  unfold tokenWhitelisted
  rw [← tokenOpen_iff reached, Bool.decide_or, Bool.decide_coe]

def credited (cfg : Deployment) (chain : Chain) (store : Store) (p : LoggedPayment) :
    LoggedPayment × Option Address × Bool × Bool :=
  (p, chain.creditedTo cfg store p, chain.listedContract store p,
    decide (p.rail.token = zeroAddress) || (chain.listedToken store p).isSome)

def shownCredit (row : PaymentRow) : LoggedPayment × Option Address × Bool × Bool :=
  (row.toRailPayment.logged, row.serviceOrchestratorId, row.filecoinPayContractWhitelisted, row.tokenWhitelisted)

theorem basePayments_credited : (basePayments cfg s.store.toDB).map (fun row => (row.toRailPayment, shownCredit row)) =
      (railPayments s.store.toDB).map fun rp => (rp, credited cfg chain s.store rp.logged) := by
  have bindings : Bindings.Invariant (chain.actorLogs s.store) s.store.toDB.servicePair.rows :=
    (kept_of_reached cfg chain allowed s reached).bindings
  rw [← basePayments_railPayments cfg bindings, List.map_map]
  refine List.map_congr_left fun row member => ?_
  obtain ⟨-, -, owns, contract, token⟩ := PaymentsList.mem_basePayments member
  rw [joinServicePairs_of_reached reached, List.mem_singleton] at owns
  rw [filecoinPayContractWhitelisted_of_reached reached] at contract
  rw [tokenWhitelisted_of_reached reached] at token
  unfold shownCredit credited
  rw [owns, contract, token]
  rfl

theorem tokenValue_of_reached (rp : RailPayment) : tokenValue s.store.toDB rp =
    (chain.listedToken s.store rp.logged).elim 0 fun metadata =>
      rp.payment.totalAmount * (10 : ℚ) ^ (18 - metadata.decimals) := by
  have once := Lists.one_open (listed_of_reached reached).tokens rp.rail.token rp.payment.position
  have held := tokenHeld_iff reached rp.rail.token rp.payment.position
  unfold tokenValue
  change List.length (s.store.whitelistedToken.rows.filter _) ≤ 1 at once
  cases found : s.store.whitelistedToken.rows.filter fun t =>
      rp.rail.token = t.tokenAddress ∧ t.covers rp.payment.position with
  | nil =>
      have none : chain.listedToken s.store rp.logged = Option.none := by
        refine Option.eq_none_iff_forall_ne_some.mpr fun metadata isHeld => ?_
        obtain ⟨t, member, own, covers, -⟩ := (held metadata).mpr isHeld
        exact List.filter_eq_nil_iff.mp found t member (decide_eq_true ⟨own.symm, covers⟩)
      rw [none]
      rfl
  | cons t rest =>
      rw [found] at once
      obtain rfl : rest = [] := List.eq_nil_of_length_eq_zero (by simpa using once)
      have inFilter : t ∈ s.store.whitelistedToken.rows.filter fun t =>
          rp.rail.token = t.tokenAddress ∧ t.covers rp.payment.position := by
        rw [found]
        exact List.mem_singleton_self t
      obtain ⟨member, covers⟩ := List.mem_filter.mp inFilter
      obtain ⟨own, covers⟩ := of_decide_eq_true covers
      have some : chain.listedToken s.store rp.logged = Option.some ⟨t.tokenDecimals, t.tokenSymbol⟩ :=
        (held _).mp ⟨t, member, own.symm, covers, rfl⟩
      rw [some, List.map_singleton, List.sum_singleton]
      rfl

theorem isBound_of_reached (serviceOrchestrator : Option String) (rp : RailPayment) :
    isBound s.store.toDB serviceOrchestrator rp =
      (chain.creditedTo cfg s.store rp.logged).any (matchesOrchestrator serviceOrchestrator) := by
  rw [Bool.eq_iff_iff, Option.any_eq_true]
  exact PaymentsList.isBound_iff_owner serviceOrchestrator (joinServicePairs_of_reached reached rp)

theorem sum_loggedPayments (apart : ∀ s event, allowed s event → Execution.Apart s) {M : Type} [AddCommMonoid M]
    {contracts : List Address} (nodup : contracts.Nodup)
    (kinds : ∀ contract ∈ contracts, chain.indexerOf contract = .filecoinPayV1) (f : LoggedPayment → M) :
    ((railPayments s.store.toDB).map fun rp =>
        if rp.payment.filecoinPayContractAddress ∈ contracts then f rp.logged else 0).sum =
      (contracts.map fun contract => ((chain.loggedPayments s.store contract).map f).sum).sum := by
  have byContract := sum_map_mem_keys nodup (fun rp : RailPayment => rp.payment.filecoinPayContractAddress)
    (fun rp => f rp.logged) (railPayments s.store.toDB)
  refine byContract.trans (congrArg List.sum (List.map_congr_left fun contract member => ?_))
  rw [← loggedPayments_of_synced (synced_of_reached apart reached) (kinds contract member), List.map_map]
  rfl

theorem admitted_kinds {contract : Address} {quarterNum : Int}
    (admitted : contract ∈ (quarterFilecoinPayContracts cfg s.store.toDB quarterNum).map (·.contractAddress)) :
    chain.indexerOf contract = .filecoinPayV1 := by
  obtain ⟨c, member, rfl, -⟩ := Agreement.mem_quarterFilecoinPayContracts.mp admitted
  exact ((consistent_of_reached reached).synced.listed c member).2.2

end Reached

theorem admitted_nodup {cfg : Deployment} {db : DB} (quarterNum : Int) :
    ((quarterFilecoinPayContracts cfg db quarterNum).map (·.contractAddress)).Nodup :=
  List.pairwise_map.mpr (distinctOn_pairwise _ _)

section Told
variable (cfg : Deployment) (chain : Chain) (allowed : Execution → chain.Event → Prop) (s : Execution)
  (apart : ∀ s event, allowed s event → Execution.Apart s) (reached : chain.Reached cfg allowed s)

include apart reached

/-- The payments list shows of every contract the payments that its logs make, each with the orchestrator that holds
its pair by then and with whether its contract and its token are listed by then. -/
theorem basePayments_of_reached (contract : Address) (kind : chain.indexerOf contract = .filecoinPayV1) :
    ((basePayments cfg s.store.toDB).filter (·.payment.filecoinPayContractAddress = contract)).map shownCredit =
      (chain.loggedPayments s.store contract).map (credited cfg chain s.store) := by
  have shown := congrArg (fun all => (all.filter fun entry =>
    entry.1.payment.filecoinPayContractAddress = contract).map Prod.snd) (basePayments_credited reached)
  simp only [List.filter_map, List.map_map, Function.comp_def] at shown
  rw [← loggedPayments_of_synced (synced_of_reached apart reached) kind, List.map_map]
  exact shown

/-- The volume in stablecoins of a quarter is the credit of the payments that the logs of the admitted contracts
make, as an integer. -/
theorem stablecoinVolume_of_reached (numericDiv : ℚ → ℚ → ℚ) (blockNumber : Int) (serviceOrchestrator : Option String)
    (q : QuarterNumber) (volume : QuarterlyVolume)
    (reported : getQuarterlyVolume cfg numericDiv blockNumber s.store.toDB serviceOrchestrator q = .ok volume) :
    ∃ parameters, getQuarterParameters cfg s.store.toDB q = .ok parameters ∧
      cfg.toBigInt (parameters.admittedFilecoinPayContractAddresses.map fun contract =>
        ((chain.loggedPayments s.store contract).map
          (chain.credit cfg s.store parameters.admittedStablecoins serviceOrchestrator q)).sum).sum =
            some volume.stablecoinVolumeAttoUsd := by
  obtain ⟨parameters, set, -⟩ := getQuarterlyVolume_cases reported
  refine ⟨parameters, set, ?_⟩
  have contracts := (InForce.getQuarterParameters_read set).contracts
  have kinds : ∀ contract ∈ parameters.admittedFilecoinPayContractAddresses,
      chain.indexerOf contract = .filecoinPayV1 := by
    rw [contracts]
    exact fun contract => admitted_kinds reached
  rw [← getQuarterlyVolume_stablecoins set reported, stablecoinVolume_eq,
    ← sum_loggedPayments reached apart (contracts ▸ admitted_nodup _) kinds]
  refine congrArg cfg.toBigInt (congrArg List.sum (List.map_congr_left fun rp _ => ?_))
  rw [isBound_of_reached reached, tokenValue_of_reached reached]
  unfold isListed Chain.credit
  by_cases admitted : rp.payment.filecoinPayContractAddress ∈ parameters.admittedFilecoinPayContractAddresses
  · simp only [admitted, true_and, if_true, Bool.decide_and, Bool.and_eq_true, decide_eq_true_eq, and_assoc]
    rfl
  · simp only [admitted, false_and, decide_false, Bool.false_and, Bool.false_eq_true, if_false]

/-- The volume in FIL of a pricing period counts the payments that the logs of the admitted contracts make and that
no other qualified period prices first. -/
theorem filVolume_of_reached (numericDiv : ℚ → ℚ → ℚ) (blockNumber : Int) (serviceOrchestrator : Option String)
    (q : QuarterNumber) (parameters : QuarterParameters) (volume : QuarterlyVolume)
    (set : getQuarterParameters cfg s.store.toDB q = .ok parameters) (admitted : AnyAdmitted parameters)
    (reported : getQuarterlyVolume cfg numericDiv blockNumber s.store.toDB serviceOrchestrator q = .ok volume) :
    volume.pricingPeriods.map (·.volumeAttoFil) = (periodsOfQuarter s.store.toDB q.intValue).map fun qp =>
      (parameters.admittedFilecoinPayContractAddresses.map fun contract =>
        ((chain.loggedPayments s.store contract).map
          (chain.filCredit cfg s.store qp serviceOrchestrator)).sum).sum := by
  have counts := (getQuarterlyVolume_eq_ok set admitted).mp reported
  have contracts := (InForce.getQuarterParameters_read set).contracts
  have kinds : ∀ contract ∈ parameters.admittedFilecoinPayContractAddresses,
      chain.indexerOf contract = .filecoinPayV1 := by
    rw [contracts]
    exact fun contract => admitted_kinds reached
  rw [pricingPeriods_volumes counts.periods]
  refine List.map_congr_left fun qp _ => ?_
  rw [← sum_loggedPayments reached apart (contracts ▸ admitted_nodup _) kinds]
  unfold matchedPayments filPayments
  rw [List.filter_filter, sum_map_filter]
  refine congrArg List.sum (List.map_congr_left fun rp _ => ?_)
  rw [isBound_of_reached reached]
  unfold Chain.filCredit pricesFirst
  by_cases listed : rp.payment.filecoinPayContractAddress ∈ parameters.admittedFilecoinPayContractAddresses
  · simp only [listed, true_and, if_true, Bool.decide_and, Bool.and_eq_true, decide_eq_true_eq, Bool.not_eq_true,
      and_assoc]
    refine if_congr ?_ rfl rfl
    exact ⟨fun ⟨after, first, fil, activated, bound⟩ => ⟨fil, activated, bound, after, first⟩,
      fun ⟨fil, activated, bound, after, first⟩ => ⟨after, first, fil, activated, bound⟩⟩
  · simp only [listed, false_and, decide_false, Bool.and_false, Bool.false_eq_true, if_false]

end Told

section Samples
open AdmittedVolume Removals

theorem leased_credits : (leasedSchedule [100, 300]).map (fun s =>
      ((basePayments hundredEpochs s.store.toDB).map (·.serviceOrchestratorId),
        (getQuarterlyVolume hundredEpochs (· / ·) 300 s.store.toDB (some "0xE") firstQuarter).map
          (·.stablecoinVolumeAttoUsd))) = some ([some "0xc", some "0xe", some "0xc"], .ok 7) := by decide +kernel

theorem exists_leased_credits : ∃ (s : Execution) (volume : QuarterlyVolume),
    leasedChain.Reached hundredEpochs (fun s _ => s.Apart) s ∧
    (basePayments hundredEpochs s.store.toDB).map (·.serviceOrchestratorId) = [some "0xc", some "0xe", some "0xc"] ∧
    getQuarterlyVolume hundredEpochs (· / ·) 300 s.store.toDB (some "0xE") firstQuarter = .ok volume ∧
    volume.stablecoinVolumeAttoUsd = 7 := by
  obtain ⟨s, run, told⟩ := Option.map_eq_some_iff.mp leased_credits
  obtain ⟨owners, volumes⟩ := Prod.mk.inj told
  obtain ⟨volume, reported, seven⟩ := exists_of_map_eq_ok volumes
  exact ⟨s, volume, reached_of_schedule apart_of_check run, owners, reported, seven⟩

theorem basePayments_of_reached_leased : ∃ s : Execution,
    (basePayments hundredEpochs s.store.toDB).map (·.serviceOrchestratorId) = [some "0xc", some "0xe", some "0xc"] ∧
    ((basePayments hundredEpochs s.store.toDB).filter (·.payment.filecoinPayContractAddress = "0xf")).map shownCredit =
      (leasedChain.loggedPayments s.store "0xf").map (credited hundredEpochs leasedChain s.store) := by
  obtain ⟨s, -, reached, owners, -⟩ := exists_leased_credits
  exact ⟨s, owners, basePayments_of_reached _ _ _ s (fun _ _ apart => apart) reached "0xf" (by decide +kernel)⟩

theorem stablecoinVolume_of_reached_leased : ∃ (s : Execution) (parameters : QuarterParameters),
    hundredEpochs.toBigInt (parameters.admittedFilecoinPayContractAddresses.map fun contract =>
      ((leasedChain.loggedPayments s.store contract).map
        (leasedChain.credit hundredEpochs s.store parameters.admittedStablecoins (some "0xE") firstQuarter)).sum).sum =
          some 7 := by
  obtain ⟨s, volume, reached, -, reported, seven⟩ := exists_leased_credits
  obtain ⟨parameters, -, told⟩ :=
    stablecoinVolume_of_reached _ _ _ s (fun _ _ apart => apart) reached _ _ _ _ volume reported
  rw [seven] at told
  exact ⟨s, parameters, told⟩

def feeBurn (epoch : Int) (txHash : Hash) : TransferLog := ⟨"0xd", epoch, 0, txHash, "0xf", "0x9", 105⟩

def pricedChain : Chain :=
  sampleChain
    [⟨50, 0, "0x1", .pricingParamsUpdated 10 1 1 1000 5⟩, ⟨50, 1, "0x1", .admittedListsUpdated ["0xd"] ["0xf"]⟩,
      ⟨50, 2, "0x1", .orchestratorAdmitted "0xc" "0xc"⟩, ⟨90, 0, "0x2", .bindingDeclared "0x1" "0x2" "0xc"⟩]
    [⟨"0xf", 60, 0, "0x3", .railCreated 1 "0x1" "0x3" "0xd" "0x2" "0x4"⟩,
      ⟨"0xf", 60, 1, "0x3", .railCreated 2 "0x1" "0x3" zeroAddress "0x2" "0x4"⟩,
      ⟨"0xf", 120, 1, "0x4", .railSettled 2 5 5 0 0⟩, ⟨"0xf", 180, 1, "0x5", .railSettled 2 7 7 0 0⟩]
    [feeBurn 110 "0x11", feeBurn 111 "0x12", feeBurn 112 "0x13", feeBurn 113 "0x14", feeBurn 114 "0x15",
      feeBurn 170 "0x16"]
    (fun _ => ⟨some "0xf", "0x1a257300", 1⟩) (fun _ => .ok (.burnForFees "0xd" "0x9" 0))
    (by intro indexer; cases indexer <;> decide) (by intro indexer; cases indexer <;> decide) (by decide +kernel)
    (by decide +kernel)

def pricedSchedule (heads : List Int) : Option Execution :=
  schedule hundredEpochs pricedChain isApart (heads.map fun head _ => head)

theorem priced_ends : (pricedSchedule [100, 300]).map (fun s =>
      (getQuarterParameters hundredEpochs s.store.toDB firstQuarter,
        (getQuarterlyVolume hundredEpochs (· / ·) 300 s.store.toDB none firstQuarter).map
          (·.pricingPeriods.map (·.volumeAttoFil)))) =
    some (.ok firstQuarterParameters, .ok [5]) := by decide +kernel

theorem filVolume_of_reached_priced : ∃ s : Execution,
    [5] = (periodsOfQuarter s.store.toDB firstQuarter.intValue).map fun qp =>
      (firstQuarterParameters.admittedFilecoinPayContractAddresses.map fun contract =>
        ((pricedChain.loggedPayments s.store contract).map
          (pricedChain.filCredit hundredEpochs s.store qp none)).sum).sum := by
  obtain ⟨s, run, told⟩ := Option.map_eq_some_iff.mp priced_ends
  obtain ⟨set, volumes⟩ := Prod.mk.inj told
  obtain ⟨volume, reported, five⟩ := exists_of_map_eq_ok volumes
  have reached := reached_of_schedule apart_of_check run
  have counted := filVolume_of_reached _ _ _ s (fun _ _ apart => apart) reached _ _ none _ _ volume set (by decide) reported
  rw [five] at counted
  exact ⟨s, counted⟩

end Samples

end Proof.Credits
end FpvIndexer
