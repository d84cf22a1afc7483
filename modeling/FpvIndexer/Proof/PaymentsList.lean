import FpvIndexer.Proof.AdmittedVolume
import FpvIndexer.Proof.Attribution

namespace FpvIndexer
open Relational

def PaymentsQuery.atPage (query : PaymentsQuery) (page : Nat) : PaymentsQuery :=
  { query with page := page + 1, page_pos := Nat.le_add_left 1 page }

namespace Proof.PaymentsList
open Volume Reachable Attribution AdmittedVolume

section Specification
variable (services : TokenServices) (cfg : Deployment) (blockNumber : Int) (scan : List PaymentRow → List PaymentRow)
  (divides : PaymentsQuery → RailPayment → PricePeriod → Bool) (db : DB) (parameters : QuarterParameters)
  (serviceOrchestrator : Option String) (q : QuarterNumber)

def allPages (query : PaymentsQuery) : Except Failure (List Payment) := do
  let first ← getPaymentsPaginated services cfg blockNumber scan divides db (query.atPage 0)
  let pages ← (List.range first.pagesCount).mapM fun page =>
    getPaymentsPaginated services cfg blockNumber scan divides db (query.atPage page)
  return pages.flatMap (·.data)

def quarterQuery (sort : List SortKey) (limit : Nat) (limit_pos : 1 ≤ limit) : PaymentsQuery where
  serviceOrchestrator
  fromEpoch := some (cfg.quarterStartEpoch q.intValue)
  toEpoch := some (cfg.quarterEndEpoch q.intValue)
  countsTowardsVolume := some true
  sort
  page := 1
  limit
  page_pos := Nat.one_pos
  limit_pos

def listedTotal (payments : List Payment) : ℚ :=
  ((payments.filter (·.tokenAddress ≠ zeroAddress)).map fun payment =>
    payment.totalAmountBaseUnits * (10 : ℚ) ^ (18 - payment.tokenDecimals)).sum

def settledFor (rp : RailPayment) : Bool :=
  (cfg.quarterStartEpoch q.intValue ≤ rp.payment.settledAtEpoch ∧
    rp.payment.settledAtEpoch ≤ cfg.quarterEndEpoch q.intValue : Bool) && isBound db serviceOrchestrator rp

/-- A listing of the contract and one of the token were open when the payment was settled. -/
def flagged (rp : RailPayment) : Bool :=
  rp.rail.token ≠ zeroAddress ∧ filecoinPayContractWhitelisted db rp ∧ tokenOpen db rp

def onLists (rp : RailPayment) : Bool :=
  rp.payment.filecoinPayContractAddress ∈ parameters.admittedFilecoinPayContractAddresses ∧
    rp.rail.token ∈ parameters.admittedStablecoins

def onlyFlagged (rp : RailPayment) : Bool :=
  settledFor cfg db serviceOrchestrator q rp && (flagged db rp && !onLists parameters rp)

def onlyCounted (rp : RailPayment) : Bool :=
  settledFor cfg db serviceOrchestrator q rp && (onLists parameters rp && tokenOpen db rp && !flagged db rp)

def worth (decimalsOf : Address → Int) (kind : RailPayment → Bool) : ℚ :=
  (((railPayments db).filter kind).map (attoUsd decimalsOf)).sum

/-- The list comes to whole atto-USD, and what only it takes in and what only the volume does differ by no more than
rounding makes up for. -/
structure Balanced (decimalsOf : Address → Int) : Prop where
  whole : Whole (worth db decimalsOf fun rp => settledFor cfg db serviceOrchestrator q rp && flagged db rp)
  most : worth db decimalsOf (onlyFlagged cfg db parameters serviceOrchestrator q) -
    worth db decimalsOf (onlyCounted cfg db parameters serviceOrchestrator q) ≤ 1 / 2
  least : -(1 / 2) < worth db decimalsOf (onlyFlagged cfg db parameters serviceOrchestrator q) -
    worth db decimalsOf (onlyCounted cfg db parameters serviceOrchestrator q)

end Specification

section Pages
variable {services : TokenServices} {cfg : Deployment} {blockNumber : Int} {scan : List PaymentRow → List PaymentRow}
  {divides : PaymentsQuery → RailPayment → PricePeriod → Bool} {db : DB} {decimalsOf : Address → Int}

structure Shows (decimalsOf : Address → Int) (row : PaymentRow) (payment : Payment) : Prop where
  token : payment.tokenAddress = row.rail.token
  amount : payment.totalAmountBaseUnits = row.payment.totalAmount
  decimals : payment.tokenDecimals = decimalsOf row.rail.token

theorem tokenDetails_decimals (answers : services.Answers decimalsOf) {tokens : List Address}
    {details : List (Address × ERC20Metadata)} (fetched : tokens.mapM (tokenDetails services) = .ok details)
    {token : Address} {metadata : ERC20Metadata} (found : details.lookup token = some metadata) :
    metadata.decimals = decimalsOf token := by
  obtain ⟨front, back, split, -⟩ := List.lookup_eq_some_iff.mp found
  have fetchedToken : (token, metadata) ∈ details := by simp [split]
  obtain ⟨asked, -, answered⟩ := exists_item_of_mem_mapM fetched fetchedToken
  obtain ⟨decimals, got, answered⟩ := bind_eq_ok.mp answered
  obtain ⟨symbol, -, answered⟩ := bind_eq_ok.mp answered
  cases answered
  exact answers.decimals token decimals got

structure Displays (cfg : Deployment) (metadata : ERC20Metadata) (row : PaymentRow) (payment : Payment) : Prop where
  contract : payment.filecoinPayContract = row.payment.filecoinPayContractAddress
  epoch : payment.epoch = row.payment.settledAtEpoch
  logIndex : payment.logIndex = row.payment.logIndex
  transactionHash : payment.transactionHash = row.payment.txHash
  rail : payment.railId = row.rail.railId
  token : payment.tokenAddress = row.rail.token
  decimals : payment.tokenDecimals = metadata.decimals
  amount : payment.totalAmountBaseUnits = row.payment.totalAmount
  pricing : row.pricing.mapM (paymentPricingPeriod cfg) = .ok payment.pricingPeriod

theorem toPayment_displays {details : List (Address × ERC20Metadata)} {quarters : List Quarter} {row : PaymentRow}
    {payment : Payment} (shown : toPayment cfg details quarters row = .ok payment) :
    ∃ metadata, details.lookup row.rail.token = some metadata ∧ Displays cfg metadata row payment := by
  unfold toPayment at shown
  cases found : details.lookup row.rail.token with
  | none =>
      rw [found] at shown
      cases shown
  | some metadata =>
      rw [found] at shown
      obtain ⟨pricingPeriod, priced, shown⟩ := bind_eq_ok.mp shown
      obtain rfl := pure_eq_ok.mp shown
      exact ⟨metadata, rfl, rfl, rfl, rfl, rfl, rfl, rfl, rfl, rfl, priced⟩

theorem toPayment_shows (answers : services.Answers decimalsOf) {tokens : List Address}
    {details : List (Address × ERC20Metadata)} (fetched : tokens.mapM (tokenDetails services) = .ok details)
    {quarters : List Quarter} {row : PaymentRow} {payment : Payment}
    (shown : toPayment cfg details quarters row = .ok payment) : Shows decimalsOf row payment := by
  obtain ⟨metadata, found, displays⟩ := toPayment_displays shown
  exact ⟨displays.token, displays.amount, displays.decimals.trans (tokenDetails_decimals answers fetched found)⟩

def pageRows (cfg : Deployment) (scan : List PaymentRow → List PaymentRow) (db : DB) (query : PaymentsQuery) :
    List PaymentRow :=
  applyPagination query (applySorting query.sort (scan (selectedPayments cfg db query)))

theorem getPaymentsPaginated_rows {query : PaymentsQuery} {list : PaginatedPaymentsList}
    (listed : getPaymentsPaginated services cfg blockNumber scan divides db query = .ok list) :
    ∃ quarters details, list.pagesCount = pagesCount (selectedPayments cfg db query).length query.limit ∧
      list.totalCount = (selectedPayments cfg db query).length ∧
      dividesByZero divides db query (pageRows cfg scan db query) = false ∧
      (∃ tokens : List Address, tokens.mapM (tokenDetails services) = .ok details) ∧
      (pageRows cfg scan db query).mapM (toPayment cfg details quarters) = .ok list.data := by
  unfold getPaymentsPaginated at listed
  obtain ⟨quarters, -, listed⟩ := bind_eq_ok.mp listed
  dsimp only at listed
  split at listed
  · cases listed
  · rename_i divided
    rw [Bool.not_eq_true] at divided
    obtain ⟨details, fetched, listed⟩ := bind_eq_ok.mp listed
    obtain ⟨payments, mapped, listed⟩ := bind_eq_ok.mp listed
    obtain rfl := pure_eq_ok.mp listed
    exact ⟨quarters, details, rfl, rfl, divided, ⟨_, fetched⟩, mapped⟩

theorem getPaymentsPaginated_spec (answers : services.Answers decimalsOf) {query : PaymentsQuery}
    {list : PaginatedPaymentsList}
    (listed : getPaymentsPaginated services cfg blockNumber scan divides db query = .ok list) :
    list.pagesCount = pagesCount (selectedPayments cfg db query).length query.limit ∧
      List.Forall₂ (Shows decimalsOf) (pageRows cfg scan db query) list.data := by
  obtain ⟨quarters, details, count, -, -, ⟨tokens, fetched⟩, mapped⟩ := getPaymentsPaginated_rows listed
  exact ⟨count, (mapM_eq_ok.mp mapped).imp fun row payment shown => toPayment_shows answers fetched shown⟩

theorem mem_applyPagination {query : PaymentsQuery} {rows : List PaymentRow} {row : PaymentRow}
    (member : row ∈ applyPagination query rows) : row ∈ rows :=
  List.mem_of_mem_drop (List.mem_of_mem_take member)

theorem applySorting_perm (sort : List SortKey) (rows : List PaymentRow) : (applySorting sort rows).Perm rows := by
  unfold applySorting
  split
  · exact List.Perm.refl rows
  · exact orderBy_perm _ rows
  · exact orderBy_perm _ rows

theorem le_pagesCount (totalCount : Nat) {limit : Nat} (limit_pos : 1 ≤ limit) :
    totalCount ≤ pagesCount totalCount limit * limit := by
  have whole := Nat.div_add_mod totalCount limit
  have rest := Nat.mod_lt totalCount limit_pos
  have pages : totalCount / limit + (if totalCount % limit = 0 then 0 else 1) ≤ pagesCount totalCount limit :=
    le_max_left _ _
  apply le_trans _ (Nat.mul_le_mul_right limit pages)
  rw [Nat.add_mul, Nat.mul_comm]
  split
  · omega
  · omega

theorem allPages_shows (answers : services.Answers decimalsOf) (scans : ∀ rows, (scan rows).Perm rows)
    {query : PaymentsQuery} {payments : List Payment}
    (listed : allPages services cfg blockNumber scan divides db query = .ok payments) :
    ∃ shown, shown.Perm (selectedPayments cfg db query) ∧ List.Forall₂ (Shows decimalsOf) shown payments := by
  obtain ⟨first, got, listed⟩ := bind_eq_ok.mp listed
  obtain ⟨pages, mapped, listed⟩ := bind_eq_ok.mp listed
  obtain rfl := pure_eq_ok.mp listed
  obtain ⟨count, -⟩ := getPaymentsPaginated_spec answers got
  let selected := selectedPayments cfg db query
  let sorted := applySorting query.sort (scan selected)
  have perm : sorted.Perm selected := (applySorting_perm query.sort _).trans (scans selected)
  refine ⟨sorted, perm, ?_⟩
  have whole : ((List.range first.pagesCount).flatMap fun page => (sorted.drop (page * query.limit)).take query.limit)
      = sorted := by
    rw [flatMap_pages, count]
    apply List.take_of_length_le
    rw [perm.length_eq]
    exact le_pagesCount selected.length query.limit_pos
  rw [← whole]
  apply List.rel_flatMap (mapM_eq_ok.mp mapped)
  intro page list here
  exact (getPaymentsPaginated_spec answers here).2

theorem listedTotal_eq {shown : List PaymentRow} {payments : List Payment}
    (shows : List.Forall₂ (Shows decimalsOf) shown payments) :
    listedTotal payments =
      ((shown.filter (·.rail.token ≠ zeroAddress)).map fun row => attoUsd decimalsOf row.toRailPayment).sum := by
  unfold listedTotal
  rw [sum_map_filter, sum_map_filter]
  induction shows with
  | nil => rfl
  | cons here _ ih =>
      rw [List.map_cons, List.map_cons, List.sum_cons, List.sum_cons, ih, here.token, here.amount, here.decimals]
      rfl

end Pages

section Rows
variable {cfg : Deployment} {db : DB} {past : List ServiceRewardsActorLog} {serviceOrchestrator : Option String}
  {q : QuarterNumber}

theorem isBound_iff_owner (serviceOrchestrator : Option String) {rp : RailPayment} {owner : Option Address}
    (single : joinServicePairs db rp = [owner]) :
    isBound db serviceOrchestrator rp ↔ ∃ id, owner = some id ∧ matchesOrchestrator serviceOrchestrator id := by
  unfold joinServicePairs at single
  constructor
  · intro bound
    obtain ⟨sp, member, binds⟩ := List.any_eq_true.mp bound
    rw [Bool.and_eq_true] at binds
    have covering : sp ∈ db.servicePair.rows.filter (·.bindsRail rp) := List.mem_filter.mpr ⟨member, binds.1⟩
    split at single
    · rename_i none
      rw [none] at covering
      cases covering
    · have joined := List.mem_map_of_mem (f := fun sp : ServicePair => some sp.serviceOrchestratorId) covering
      rw [single, List.mem_singleton] at joined
      exact ⟨sp.serviceOrchestratorId, joined.symm, binds.2⟩
  · rintro ⟨id, rfl, matched⟩
    split at single
    · cases single
    · have joined : some id ∈ [some id] := List.mem_singleton_self _
      rw [← single] at joined
      obtain ⟨sp, covering, same⟩ := List.mem_map.mp joined
      cases same
      obtain ⟨member, binds⟩ := List.mem_filter.mp covering
      exact List.any_eq_true.mpr ⟨sp, member, Bool.and_eq_true_iff.mpr ⟨binds, matched⟩⟩

theorem mem_basePayments {row : PaymentRow} (member : row ∈ basePayments cfg db) :
    row.toRailPayment ∈ railPayments db ∧ row.pricing = lateralPricing cfg db row.toRailPayment ∧
      row.serviceOrchestratorId ∈ joinServicePairs db row.toRailPayment ∧
      row.filecoinPayContractWhitelisted = filecoinPayContractWhitelisted db row.toRailPayment ∧
      row.tokenWhitelisted = tokenWhitelisted db row.toRailPayment := by
  obtain ⟨rp, joined, grouped⟩ := List.mem_flatMap.mp member
  obtain ⟨owner, owns, rfl⟩ := List.mem_map.mp grouped
  exact ⟨joined, rfl, owns, rfl, rfl⟩

theorem lateralPricing_of_page {scan : List PaymentRow → List PaymentRow} (scans : ∀ rows, (scan rows).Perm rows)
    {query : PaymentsQuery} {row : PaymentRow} (onPage : row ∈ pageRows cfg scan db query) :
    row.toRailPayment ∈ railPayments db ∧ row.pricing = lateralPricing cfg db row.toRailPayment := by
  have sorted := (applySorting_perm query.sort _).mem_iff.mp (mem_applyPagination onPage)
  have inSelected := (scans _).mem_iff.mp sorted
  obtain ⟨joined, priced, -⟩ := mem_basePayments (List.mem_of_mem_filter inSelected)
  exact ⟨joined, priced⟩

theorem claim_of_page {divides : PaymentsQuery → RailPayment → PricePeriod → Bool} {query : PaymentsQuery}
    {rows : List PaymentRow} (undivided : dividesByZero divides db query rows = false) {row : PaymentRow}
    (onPage : row ∈ rows) {pricing : PaymentPricing} (attached : row.pricing = some pricing) :
    pricing.claimAttoFil ≠ 0 := by
  intro zero
  have divided : dividesByZero divides db query rows := by
    refine decide_eq_true (.inr (List.any_eq_true.mpr ⟨row, onPage, ?_⟩))
    rw [attached]
    exact decide_eq_true zero
  exact Bool.eq_false_iff.mp undivided divided

theorem mem_of_lateralPricing {rp : RailPayment} {pricing : PaymentPricing}
    (attached : lateralPricing cfg db rp = some pricing) :
    ∃ qp ∈ db.qualifiedPricePeriodsMv.rows, pricing.claimAttoFil = qp.claimAttoFil := by
  unfold lateralPricing at attached
  split at attached
  · rw [lag_head?] at attached
    cases head : (orderBy (·.position) (periodsAfter db rp)).head? with
    | none =>
        rw [head] at attached
        cases attached
    | some qp =>
        rw [head] at attached
        obtain rfl := Option.some.inj attached
        exact ⟨qp, List.mem_of_mem_filter (mem_of_head?_orderBy _ head), rfl⟩
  · cases attached

theorem dividesByZero_eq_false (claims : ∀ qp ∈ db.qualifiedPricePeriodsMv.rows, qp.claimAttoFil ≠ 0)
    (divides : PaymentsQuery → RailPayment → PricePeriod → Bool) {scan : List PaymentRow → List PaymentRow}
    (scans : ∀ rows, (scan rows).Perm rows) {query : PaymentsQuery} :
    dividesByZero divides db query (pageRows cfg scan db query) = false := by
  unfold dividesByZero
  rw [decide_eq_false_iff_not]
  rintro (computed | onPage)
  · obtain ⟨rp, -, computed⟩ := List.any_eq_true.mp computed
    obtain ⟨qp, later, zero⟩ := List.any_eq_true.mp computed
    exact claims qp (List.mem_of_mem_filter later) (of_decide_eq_true zero).2
  · obtain ⟨row, member, zero⟩ := List.any_eq_true.mp onPage
    cases attached : row.pricing with
    | none =>
        rw [attached] at zero
        cases zero
    | some pricing =>
        obtain ⟨qp, stored, claim⟩ := mem_of_lateralPricing ((lateralPricing_of_page scans member).2.symm.trans attached)
        rw [attached] at zero
        exact claims qp stored (claim.symm.trans (of_decide_eq_true zero))

theorem isSelected_iff (bindings : Bindings.Invariant past db.servicePair.rows) {row : PaymentRow}
    (member : row ∈ basePayments cfg db) (sort : List SortKey) (limit : Nat) (limit_pos : 1 ≤ limit) :
    (row.isSelected (quarterQuery cfg serviceOrchestrator q sort limit limit_pos) ∧ row.rail.token ≠ zeroAddress) ↔
      settledFor cfg db serviceOrchestrator q row.toRailPayment ∧ flagged db row.toRailPayment := by
  obtain ⟨-, -, owns, contract, token⟩ := mem_basePayments member
  obtain ⟨owner, single⟩ := joinServicePairs_single bindings row.toRailPayment
  have owned : row.serviceOrchestratorId = owner := by
    rw [single] at owns
    exact List.mem_singleton.mp owns
  have bound := isBound_iff_owner serviceOrchestrator (owned ▸ single)
  have matched : row.matchesServiceOrchestrator serviceOrchestrator ∧ row.serviceOrchestratorId.isSome ↔
      isBound db serviceOrchestrator row.toRailPayment := by
    rw [bound]
    unfold PaymentRow.matchesServiceOrchestrator matchesOrchestrator
    cases row.serviceOrchestratorId <;> cases serviceOrchestrator <;> simp
  have whitelisted : row.rail.token ≠ zeroAddress → (row.tokenWhitelisted ↔ tokenOpen db row.toRailPayment) := by
    intro notFil
    rw [token, tokenWhitelisted, tokenOpen]
    simp [notFil]
  unfold PaymentRow.isSelected PaymentRow.countsTowardsVolume quarterQuery PaymentRow.matchesFromEpoch
    PaymentRow.matchesToEpoch settledFor flagged
  by_cases notFil : row.rail.token = zeroAddress
  · simp [notFil]
  · have listed := whitelisted notFil
    simp only [notFil, ← matched, ← contract, ← listed, ne_eq, not_false_eq_true, true_and, false_and, or_false,
      Option.all_some, decide_eq_true_eq, Bool.and_eq_true, and_true]
    tauto

theorem listedTotal_flagged {services : TokenServices} {blockNumber : Int} {scan : List PaymentRow → List PaymentRow}
    {divides : PaymentsQuery → RailPayment → PricePeriod → Bool} {decimalsOf : Address → Int}
    (bindings : Bindings.Invariant past db.servicePair.rows) (answers : services.Answers decimalsOf)
    (scans : ∀ rows, (scan rows).Perm rows) {sort : List SortKey} {limit : Nat} {limit_pos : 1 ≤ limit}
    {payments : List Payment} (listed : allPages services cfg blockNumber scan divides db
      (quarterQuery cfg serviceOrchestrator q sort limit limit_pos) = .ok payments) :
    listedTotal payments =
      worth db decimalsOf fun rp => settledFor cfg db serviceOrchestrator q rp && flagged db rp := by
  obtain ⟨shown, perm, shows⟩ := allPages_shows answers scans listed
  let query := quarterQuery cfg serviceOrchestrator q sort limit limit_pos
  have permuted : ((shown.filter (·.rail.token ≠ zeroAddress)).map fun row => attoUsd decimalsOf row.toRailPayment).Perm
      (((selectedPayments cfg db query).filter (·.rail.token ≠ zeroAddress)).map fun row =>
        attoUsd decimalsOf row.toRailPayment) :=
    (perm.filter _).map _
  have same : (selectedPayments cfg db query).filter (·.rail.token ≠ zeroAddress) = (basePayments cfg db).filter
      ((fun rp => settledFor cfg db serviceOrchestrator q rp && flagged db rp) ∘ PaymentRow.toRailPayment) := by
    rw [selectedPayments, List.filter_filter]
    apply List.filter_congr
    intro row member
    rw [Bool.eq_iff_iff, Bool.and_eq_true, decide_eq_true_eq, and_comm, isSelected_iff bindings member]
    exact (Bool.and_eq_true_iff).symm
  rw [listedTotal_eq shows, permuted.sum_eq, same, worth, ← basePayments_railPayments cfg bindings, List.filter_map,
    List.map_map]
  rfl

theorem stablecoinVolume_counted {decimalsOf : Address → Int}
    (tokens : Lists.Invariant past (db.whitelistedToken.rows.map (·.listing)))
    (decimals : ∀ t ∈ db.whitelistedToken.rows, t.tokenDecimals = decimalsOf t.tokenAddress)
    (parameters : QuarterParameters) :
    stablecoinVolume db parameters.admittedFilecoinPayContractAddresses parameters.admittedStablecoins
        (cfg.quarterStartEpoch q.intValue) (cfg.quarterEndEpoch q.intValue) serviceOrchestrator =
      worth db decimalsOf fun rp => settledFor cfg db serviceOrchestrator q rp &&
        (onLists parameters rp && tokenOpen db rp) := by
  rw [stablecoinVolume_eq, worth, sum_map_filter]
  congr 1
  apply List.map_congr_left
  intro rp _
  have same : (isListed parameters.admittedFilecoinPayContractAddresses parameters.admittedStablecoins
      (cfg.quarterStartEpoch q.intValue) (cfg.quarterEndEpoch q.intValue) rp && isBound db serviceOrchestrator rp) =
      (settledFor cfg db serviceOrchestrator q rp && onLists parameters rp) := by
    unfold isListed settledFor onLists
    rw [Bool.eq_iff_iff]
    simp only [Bool.and_eq_true, decide_eq_true_eq]
    tauto
  rw [same, tokenValue_eq tokens decimals rp, ← Bool.and_assoc]
  cases tokenOpen db rp with
  | true => simp
  | false => simp

end Rows

theorem worth_sub {db : DB} (decimalsOf : Address → Int) (one other : RailPayment → Bool) :
    worth db decimalsOf one - worth db decimalsOf other =
      worth db decimalsOf (fun rp => one rp && !other rp) - worth db decimalsOf (fun rp => other rp && !one rp) := by
  have both : (fun rp => other rp && one rp) = fun rp => one rp && other rp := by
    funext rp
    exact Bool.and_comm _ _
  rw [worth, worth, sum_map_filter_split one other, sum_map_filter_split other one, both, add_sub_add_left_eq_sub]
  rfl

theorem difference_eq (cfg : Deployment) (db : DB) (parameters : QuarterParameters) (serviceOrchestrator : Option String)
    (q : QuarterNumber) (decimalsOf : Address → Int) :
    (worth db decimalsOf fun rp => settledFor cfg db serviceOrchestrator q rp && flagged db rp) -
      (worth db decimalsOf fun rp => settledFor cfg db serviceOrchestrator q rp &&
        (onLists parameters rp && tokenOpen db rp)) =
      worth db decimalsOf (onlyFlagged cfg db parameters serviceOrchestrator q) -
        worth db decimalsOf (onlyCounted cfg db parameters serviceOrchestrator q) := by
  have flaggedOnly : (fun rp => settledFor cfg db serviceOrchestrator q rp && flagged db rp &&
      !(settledFor cfg db serviceOrchestrator q rp && (onLists parameters rp && tokenOpen db rp))) =
      onlyFlagged cfg db parameters serviceOrchestrator q := by
    funext rp
    have isOpen : flagged db rp → tokenOpen db rp := fun flagged => (of_decide_eq_true flagged).2.2
    unfold onlyFlagged
    cases flag : flagged db rp with
    | true =>
        rw [isOpen flag]
        cases settledFor cfg db serviceOrchestrator q rp <;> simp
    | false => simp
  have countedOnly : (fun rp => settledFor cfg db serviceOrchestrator q rp && (onLists parameters rp && tokenOpen db rp) &&
      !(settledFor cfg db serviceOrchestrator q rp && flagged db rp)) =
      onlyCounted cfg db parameters serviceOrchestrator q := by
    funext rp
    unfold onlyCounted
    cases settledFor cfg db serviceOrchestrator q rp <;> simp
  rw [worth_sub, flaggedOnly, countedOnly]

section Dropped

def droppedMidQuarter : History where
  batches := [.serviceRewardsActor dollars (bootstrap ++ [⟨150, 0, "0x2", .admittedListsUpdated ["0xd"] []⟩]),
    settlements "0xd" [(140, 5), (160, 7)]]
  ordered := by unfold ChainOrdered; decide

theorem droppedMidQuarter_indexed :
    droppedMidQuarter.Reaches hundredEpochs (droppedMidQuarter.database hundredEpochs) ∧
    getQuarterParameters hundredEpochs (droppedMidQuarter.database hundredEpochs) firstQuarter =
      .ok firstQuarterParameters ∧
    (∃ volume, getQuarterlyVolume hundredEpochs (· / ·) 300 (droppedMidQuarter.database hundredEpochs) (some "0xa")
      firstQuarter = .ok volume ∧ volume.stablecoinVolumeAttoUsd = 12) ∧
    ∃ payments, allPages dollars hundredEpochs 300 id (fun _ _ _ => true) (droppedMidQuarter.database hundredEpochs)
      (quarterQuery hundredEpochs (some "0xa") firstQuarter [.minusEpoch] 100 (by decide)) = .ok payments ∧
        listedTotal payments = 5 :=
  ⟨History.reaches_database (by decide +kernel), by decide +kernel, exists_of_map_eq_ok (by decide +kernel),
    exists_of_map_eq_ok (by decide +kernel)⟩

theorem listedThroughout_list : ∃ payments, allPages dollars hundredEpochs 300 id (fun _ _ _ => true)
    (listedThroughout.database hundredEpochs) (quarterQuery hundredEpochs (some "0xa") firstQuarter [.minusEpoch] 100
      (by decide)) = .ok payments ∧ listedTotal payments = 12 :=
  exists_of_map_eq_ok (by decide +kernel)

end Dropped

end Proof.PaymentsList
end FpvIndexer
