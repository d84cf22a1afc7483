import FpvIndexer.Relational.Paging
import FpvIndexer.Proof.PaymentsList

namespace FpvIndexer
open Relational

structure Settlement where
  filecoinPayContract : Address
  epoch : Int
  logIndex : Nat
  transactionHash : Hash
  railId : Nat
deriving DecidableEq

def RailPayment.settlement (rp : RailPayment) : Settlement :=
  ⟨rp.payment.filecoinPayContractAddress, rp.payment.settledAtEpoch, rp.payment.logIndex, rp.payment.txHash,
    rp.rail.railId⟩

def Payment.settlement (payment : Payment) : Settlement :=
  ⟨payment.filecoinPayContract, payment.epoch, payment.logIndex, payment.transactionHash, payment.railId⟩

namespace Proof.Paging
open PaymentsList AdmittedVolume

/-- What may differ from one request to the next while the database stays as it is. -/
structure Request where
  services : TokenServices
  blockNumber : Int
  scan : List PaymentRow → List PaymentRow
  scans : ∀ rows, (scan rows).Perm rows
  divides : PaymentsQuery → RailPayment → PricePeriod → Bool

section Specification
variable (cfg : Deployment) (db : DB) (query : PaymentsQuery)

def Request.page (request : Request) (page : Nat) : Except Failure PaginatedPaymentsList :=
  getPaymentsPaginated request.services cfg request.blockNumber request.scan request.divides db (query.atPage page)

def pagesOf (requests : Nat → Request) : Except Failure (List PaginatedPaymentsList) := do
  let first ← (requests 0).page cfg db query 0
  (List.range first.pagesCount).mapM fun page => (requests page).page cfg db query page

def isMatching (rp : RailPayment) : Bool := (paymentRows cfg db rp).any (·.isSelected query)

def matchingPayments : List RailPayment := (railPayments db).filter (isMatching cfg db query)

def ListsExactly : Prop :=
  ∀ requests pages, pagesOf cfg db query requests = .ok pages →
    ((pages.flatMap (·.data)).map Payment.settlement).Perm
      ((matchingPayments cfg db query).map RailPayment.settlement) ∧
    ∀ list ∈ pages, list.totalCount = (matchingPayments cfg db query).length

/-- No payment is joined to two service pairs that the filters let through. -/
def OneRowEach : Prop :=
  ∀ rp ∈ railPayments db, (paymentRows cfg db rp).countP (·.isSelected query) ≤ 1

def sortKey (sort : List SortKey) (rp : RailPayment) : Int :=
  match sort with
  | .minusEpoch :: _ => -rp.payment.settledAtEpoch
  | _ => rp.payment.settledAtEpoch

/-- No page ends between two matching payments of one epoch. -/
def EpochsTogether : Prop :=
  TiesTogether (sortKey query.sort) RailPayment.settlement query.limit (matchingPayments cfg db query)

/-- Every page is returned, whatever the order of the rows that it is cut from. -/
def Answered (services : TokenServices) (blockNumber : Int)
    (divides : PaymentsQuery → RailPayment → PricePeriod → Bool) : Prop :=
  ∀ scan : List PaymentRow → List PaymentRow, (∀ rows, (scan rows).Perm rows) → ∀ page,
    ∃ list, getPaymentsPaginated services cfg blockNumber scan divides db (query.atPage page) = .ok list

end Specification

section Matching
variable {cfg : Deployment} {db : DB} {query : PaymentsQuery}

theorem mem_paymentRows {rp : RailPayment} {row : PaymentRow} (member : row ∈ paymentRows cfg db rp) :
    row.toRailPayment = rp := by
  obtain ⟨owner, -, rfl⟩ := List.mem_map.mp member
  rfl

theorem selectedPayments_rows (cfg : Deployment) (db : DB) (query : PaymentsQuery) : selectedPayments cfg db query =
    (railPayments db).flatMap fun rp => (paymentRows cfg db rp).filter (·.isSelected query) := by
  rw [selectedPayments, basePayments, List.filter_flatMap]

theorem length_flatMap_filter {α β : Type} (p : β → Bool) (f : α → List β) (items : List α) :
    (items.filter fun item => (f item).any p).length ≤ (items.flatMap fun item => (f item).filter p).length ∧
      ((items.flatMap fun item => (f item).filter p).length = (items.filter fun item => (f item).any p).length ↔
        ∀ item ∈ items, (f item).countP p ≤ 1) := by
  induction items with
  | nil => simp
  | cons item rest ih =>
      have here : (f item).any p = true ↔ 0 < (f item).countP p := by
        rw [List.any_eq_true, List.countP_pos_iff]
      have counted : ((f item).filter p).length = (f item).countP p := List.countP_eq_length_filter.symm
      rw [List.flatMap_cons, List.length_append, counted, List.forall_mem_cons, ← ih.2]
      cases found : (f item).any p with
      | true =>
          have := here.mp found
          rw [List.filter_cons_of_pos (by simpa using found), List.length_cons]
          omega
      | false =>
          have none : ¬ 0 < (f item).countP p := fun some => by simp [here.mpr some] at found
          rw [List.filter_cons_of_neg (by simpa using found)]
          omega

theorem length_selected_iff : (selectedPayments cfg db query).length = (matchingPayments cfg db query).length ↔
    OneRowEach cfg db query := by
  rw [selectedPayments_rows]
  exact (length_flatMap_filter _ _ _).2

theorem selected_payments (once : OneRowEach cfg db query) :
    (selectedPayments cfg db query).map (·.toRailPayment) = matchingPayments cfg db query := by
  rw [selectedPayments_rows, matchingPayments, List.map_flatMap]
  unfold OneRowEach at once
  generalize railPayments db = payments at once
  induction payments with
  | nil => rfl
  | cons rp rest ih =>
      obtain ⟨here, others⟩ := List.forall_mem_cons.mp once
      have own : ((paymentRows cfg db rp).filter (·.isSelected query)).map (·.toRailPayment) =
          if isMatching cfg db query rp then [rp] else [] := by
        rw [List.countP_eq_length_filter] at here
        cases kept : (paymentRows cfg db rp).filter (·.isSelected query) with
        | nil =>
            have none : isMatching cfg db query rp = false := List.any_eq_false.mpr (List.filter_eq_nil_iff.mp kept)
            rw [none]
            rfl
        | cons row more =>
            rw [kept, List.length_cons] at here
            obtain rfl : more = [] := List.eq_nil_of_length_eq_zero (by omega)
            have listed : row ∈ (paymentRows cfg db rp).filter (·.isSelected query) := kept ▸ List.mem_singleton_self row
            obtain ⟨member, passes⟩ := List.mem_filter.mp listed
            have found : isMatching cfg db query rp = true := List.any_eq_true.mpr ⟨row, member, passes⟩
            rw [found, List.map_singleton, mem_paymentRows member]
            rfl
      rw [List.flatMap_cons, own, ih others, List.filter_cons]
      cases isMatching cfg db query rp <;> rfl

end Matching

section Pages
variable {cfg : Deployment} {db : DB} {query : PaymentsQuery} {selected : List PaymentRow}

theorem toPayment_settlement {details : List (Address × ERC20Metadata)} {quarters : List Quarter} {row : PaymentRow}
    {payment : Payment} (shown : toPayment cfg details quarters row = .ok payment) :
    payment.settlement = row.toRailPayment.settlement := by
  obtain ⟨_, -, displays⟩ := toPayment_displays shown
  rw [Payment.settlement, displays.contract, displays.epoch, displays.logIndex, displays.transactionHash, displays.rail]
  rfl

theorem page_spec {request : Request} {page : Nat} {list : PaginatedPaymentsList}
    (listed : request.page cfg db query page = .ok list) :
    list.pagesCount = pagesCount (selectedPayments cfg db query).length query.limit ∧
      list.totalCount = (selectedPayments cfg db query).length ∧ list.data.map Payment.settlement =
        (pageOf query.limit page (applySorting query.sort (request.scan (selectedPayments cfg db query)))).map
          (RailPayment.settlement ∘ PaymentRow.toRailPayment) := by
  obtain ⟨quarters, details, pages, total, -, -, mapped⟩ := getPaymentsPaginated_rows listed
  refine ⟨pages, total, ?_⟩
  exact map_of_mapM mapped fun row payment shown => toPayment_settlement shown

theorem applySorting_orders (accepted : query.sort ≠ []) {rows : List PaymentRow} (perm : rows.Perm selected) :
    Orders (sortKey query.sort ∘ PaymentRow.toRailPayment) selected (applySorting query.sort rows) := by
  refine ⟨(applySorting_perm query.sort rows).trans perm, ?_⟩
  cases listed : query.sort with
  | nil => exact absurd listed accepted
  | cons first rest =>
      cases first with
      | minusEpoch =>
          exact (orderBy_sorted (fun row : PaymentRow => OrderDual.toDual row.payment.settledAtEpoch) rows).imp
            fun le => Int.neg_le_neg le
      | epoch => exact orderBy_sorted (fun row : PaymentRow => row.payment.settledAtEpoch) rows
      | plusEpoch => exact orderBy_sorted (fun row : PaymentRow => row.payment.settledAtEpoch) rows

theorem applySorting_of_orders {sort : List SortKey} {ordered : List PaymentRow}
    (orders : Orders (sortKey sort ∘ PaymentRow.toRailPayment) selected ordered) :
    applySorting sort ordered = ordered := by
  cases sort with
  | nil => rfl
  | cons first rest =>
      cases first with
      | minusEpoch =>
          apply orderBy_of_sorted
          exact orders.sorted.imp fun le => Int.neg_le_neg_iff.mp le
      | epoch => exact orderBy_of_sorted _ orders.sorted
      | plusEpoch => exact orderBy_of_sorted _ orders.sorted

def scanTo (selected ordered rows : List PaymentRow) : List PaymentRow :=
  if rows = selected then ordered else rows

theorem scanTo_perm {ordered : List PaymentRow} (perm : ordered.Perm selected) (rows : List PaymentRow) :
    (scanTo selected ordered rows).Perm rows := by
  unfold scanTo
  split
  · rename_i same
    exact same ▸ perm
  · exact List.Perm.refl rows

theorem pagesOf_spec {requests : Nat → Request} {pages : List PaginatedPaymentsList}
    (listed : pagesOf cfg db query requests = .ok pages) :
    (pages.flatMap (·.data)).map Payment.settlement = shownPages (RailPayment.settlement ∘ PaymentRow.toRailPayment)
      query.limit (pagesCount (selectedPayments cfg db query).length query.limit) (fun page =>
        applySorting query.sort ((requests page).scan (selectedPayments cfg db query))) ∧
    (∀ list ∈ pages, list.totalCount = (selectedPayments cfg db query).length) ∧ ∃ list, list ∈ pages := by
  obtain ⟨first, here, mapped⟩ := bind_eq_ok.mp listed
  rw [(page_spec here).1] at mapped
  refine ⟨?_, ?_, ?_⟩
  · rw [List.map_flatMap, List.flatMap_def, map_of_mapM mapped fun page list found => (page_spec found).2.2,
      ← List.flatMap_def]
    rfl
  · intro list member
    obtain ⟨page, -, found⟩ := exists_item_of_mem_mapM mapped member
    exact (page_spec found).2.1
  · have page : 0 < pagesCount (selectedPayments cfg db query).length query.limit :=
      Nat.lt_of_lt_of_le Nat.one_pos (Nat.le_max_right _ 1)
    obtain ⟨list, member, -⟩ := exists_result_of_mem_mapM mapped (List.mem_range.mpr page)
    exact ⟨list, member⟩

theorem exists_pagesOf {services : TokenServices} {blockNumber : Int}
    {divides : PaymentsQuery → RailPayment → PricePeriod → Bool} (answered : Answered cfg db query services blockNumber divides)
    {orders : Nat → List PaymentRow} (perms : ∀ page, (orders page).Perm selected) :
    ∃ pages, pagesOf cfg db query (fun page => ⟨services, blockNumber, scanTo selected (orders page),
      scanTo_perm (perms page), divides⟩) = .ok pages := by
  obtain ⟨first, here⟩ := answered (scanTo selected (orders 0)) (scanTo_perm (perms 0)) 0
  obtain ⟨pages, mapped⟩ := exists_mapM_ok fun page (_ : page ∈ List.range first.pagesCount) =>
    answered (scanTo selected (orders page)) (scanTo_perm (perms page)) page
  exact ⟨pages, bind_eq_ok.mpr ⟨first, here, mapped⟩⟩

theorem listsExactly_rows {services : TokenServices} {blockNumber : Int}
    {divides : PaymentsQuery → RailPayment → PricePeriod → Bool}
    (answered : Answered cfg db query services blockNumber divides) (exactly : ListsExactly cfg db query)
    {orders : Nat → List PaymentRow} (allowed : ∀ page, Orders (sortKey query.sort ∘ PaymentRow.toRailPayment)
      (selectedPayments cfg db query) (orders page)) :
    (shownPages (RailPayment.settlement ∘ PaymentRow.toRailPayment) query.limit
        (pagesCount (selectedPayments cfg db query).length query.limit) orders).Perm
      ((matchingPayments cfg db query).map RailPayment.settlement) ∧
    (selectedPayments cfg db query).length = (matchingPayments cfg db query).length := by
  obtain ⟨pages, listed⟩ := exists_pagesOf answered fun page => (allowed page).perm
  obtain ⟨perm, totals⟩ := exactly _ _ listed
  obtain ⟨shown, counted, list, member⟩ := pagesOf_spec listed
  have chosen : ∀ page, applySorting query.sort (scanTo (selectedPayments cfg db query) (orders page)
      (selectedPayments cfg db query)) = orders page := by
    intro page
    rw [scanTo, if_pos rfl]
    exact applySorting_of_orders (allowed page)
  rw [shown] at perm
  simp only [chosen] at perm
  exact ⟨perm, (counted list member).symm.trans (totals list member)⟩

theorem epochsTogether_iff (payments : selected.map (·.toRailPayment) = matchingPayments cfg db query) :
    EpochsTogether cfg db query ↔ TiesTogether (sortKey query.sort ∘ PaymentRow.toRailPayment)
      (RailPayment.settlement ∘ PaymentRow.toRailPayment) query.limit selected := by
  rw [EpochsTogether, ← payments, tiesTogether_map]

theorem listsExactly_of_together (accepted : query.sort ≠ []) (once : OneRowEach cfg db query)
    (together : EpochsTogether cfg db query) : ListsExactly cfg db query := by
  intro requests pages listed
  obtain ⟨shown, counted, -⟩ := pagesOf_spec listed
  have payments := selected_payments once
  constructor
  · rw [shown, ← payments, List.map_map]
    exact shownPages_perm (le_pagesCount _ query.limit_pos) ((epochsTogether_iff payments).mp together)
      fun page => applySorting_orders accepted ((requests page).scans _)
  · intro list member
    rw [counted list member, ← payments, List.length_map]

end Pages

section Answered
variable {cfg : Deployment} {db : DB} {query : PaymentsQuery} {services : TokenServices} {blockNumber : Int}

theorem exists_getQuarters (started : cfg.activationEpoch ≤ blockNumber) :
    ∃ quarters, getQuarters cfg blockNumber = .ok quarters := by
  unfold getQuarters
  rw [if_neg started.not_gt]
  apply exists_mapM_ok
  intro q _
  exact ⟨_, if_neg (by omega)⟩

theorem tokenDetails_fst {token : Address} {details : Address × ERC20Metadata}
    (told : tokenDetails services token = .ok details) : details.1 = token := by
  obtain ⟨decimals, -, told⟩ := bind_eq_ok.mp told
  obtain ⟨symbol, -, told⟩ := bind_eq_ok.mp told
  obtain rfl := pure_eq_ok.mp told
  rfl

theorem exists_toPayment {results : List PaymentRow} {details : List (Address × ERC20Metadata)}
    (fetched : (distinctOn id (results.map (·.rail.token))).mapM (tokenDetails services) = .ok details)
    (quarters : List Quarter) {row : PaymentRow} (member : row ∈ results)
    (whole : ∃ period, row.pricing.mapM (paymentPricingPeriod cfg) = .ok period) :
    ∃ payment, toPayment cfg details quarters row = .ok payment := by
  obtain ⟨period, priced⟩ := whole
  obtain ⟨entry, listed, told⟩ := exists_result_of_mem_mapM fetched
    (mem_distinctOn_id.mpr (List.mem_map_of_mem (f := (·.rail.token)) member))
  unfold toPayment
  cases found : details.lookup row.rail.token with
  | none =>
      have absent := List.lookup_eq_none_iff.mp found entry listed
      rw [tokenDetails_fst told] at absent
      simp at absent
  | some metadata => exact ⟨_, bind_eq_ok.mpr ⟨period, priced, rfl⟩⟩

theorem answered_of_services (started : cfg.activationEpoch ≤ blockNumber)
    (told : ∀ token, ∃ details, tokenDetails services token = .ok details)
    (whole : ∀ row ∈ selectedPayments cfg db query, ∃ period, row.pricing.mapM (paymentPricingPeriod cfg) = .ok period)
    (claims : ∀ qp ∈ db.qualifiedPricePeriodsMv.rows, qp.claimAttoFil ≠ 0)
    (divides : PaymentsQuery → RailPayment → PricePeriod → Bool) :
    Answered cfg db query services blockNumber divides := by
  intro scan scans page
  obtain ⟨quarters, numbered⟩ := exists_getQuarters started
  let results := pageRows cfg scan db (query.atPage page)
  obtain ⟨details, fetched⟩ := exists_mapM_ok fun token (_ : token ∈ distinctOn id (results.map (·.rail.token))) => told token
  have inSelected : ∀ row ∈ results, row ∈ selectedPayments cfg db query := fun row onPage =>
    ((applySorting_perm query.sort _).trans (scans _)).mem_iff.mp (mem_applyPagination onPage)
  obtain ⟨payments, shown⟩ := exists_mapM_ok fun row (onPage : row ∈ results) =>
    exists_toPayment fetched quarters onPage (whole row (inSelected row onPage))
  have divided : ¬ dividesByZero divides db (query.atPage page) results := by
    rw [Bool.not_eq_true]
    exact dividesByZero_eq_false claims divides scans
  let list : PaginatedPaymentsList := ⟨payments, page + 1, pagesCount (selectedPayments cfg db query).length query.limit,
    (selectedPayments cfg db query).length⟩
  refine ⟨list, bind_eq_ok.mpr ⟨quarters, numbered, (if_neg divided).trans ?_⟩⟩
  exact bind_eq_ok.mpr ⟨details, fetched, bind_eq_ok.mpr ⟨payments, shown, rfl⟩⟩

end Answered

/-- The pages list every matching payment once exactly if each comes with one row and no epoch is cut. -/
theorem listsExactly_iff (cfg : Deployment) (db : DB) (query : PaymentsQuery) (accepted : query.sort ≠ [])
    (services : TokenServices) (blockNumber : Int) (divides : PaymentsQuery → RailPayment → PricePeriod → Bool)
    (answered : Answered cfg db query services blockNumber divides) :
    ListsExactly cfg db query ↔ OneRowEach cfg db query ∧ EpochsTogether cfg db query := by
  constructor
  · intro exactly
    have sorted := fun _ : Nat =>
      orders_orderBy (sortKey query.sort ∘ PaymentRow.toRailPayment) (selectedPayments cfg db query)
    have once := length_selected_iff.mp (listsExactly_rows answered exactly sorted).2
    have payments := selected_payments once
    refine ⟨once, (epochsTogether_iff payments).mpr ?_⟩
    apply (shownPages_perm_iff query.limit_pos (le_pagesCount _ query.limit_pos)).mp
    intro orders allowed
    rw [← List.map_map, payments]
    exact (listsExactly_rows answered exactly allowed).1
  · exact fun ⟨once, together⟩ => listsExactly_of_together accepted once together

section SameEpoch

def twiceInOneEpoch : History where
  batches := [.serviceRewardsActor dollars bootstrap, .filecoinPayV1 [
    ⟨"0xf", 60, 0, "0x7", .railCreated 1 "0xp" "0xe" "0xd" "0xo" "0xv"⟩,
    ⟨"0xf", 140, 8, "0x8", .railSettled 1 5 5 0 0⟩, ⟨"0xf", 140, 9, "0x9", .railSettled 1 7 7 0 0⟩]]
  ordered := by unfold ChainOrdered; decide

def everyPayment (limit : Nat) (limit_pos : 1 ≤ limit) : PaymentsQuery where
  serviceOrchestrator := none
  fromEpoch := none
  toEpoch := none
  countsTowardsVolume := none
  sort := [.minusEpoch]
  page := 1
  limit
  page_pos := Nat.one_pos
  limit_pos

def turnedRequests (page : Nat) : Request :=
  if page = 1 then ⟨dollars, 300, List.reverse, List.reverse_perm, fun _ _ _ => true⟩
  else ⟨dollars, 300, id, List.Perm.refl, fun _ _ _ => true⟩

theorem turnedRequests_pages : ∃ pages, pagesOf hundredEpochs (twiceInOneEpoch.database hundredEpochs)
    (everyPayment 1 (by decide)) turnedRequests = .ok pages ∧
      ((pages.flatMap (·.data)).map Payment.settlement).map (·.logIndex) = [8, 8] :=
  exists_of_map_eq_ok (by decide +kernel)

theorem twiceInOneEpoch_unpriced : (twiceInOneEpoch.database hundredEpochs).qualifiedPricePeriodsMv.rows = [] := by
  decide +kernel

theorem twiceInOneEpoch_answered : Answered hundredEpochs (twiceInOneEpoch.database hundredEpochs)
    (everyPayment 2 (by decide)) dollars 300 fun _ _ _ => true := by
  refine answered_of_services (by decide) (fun token => ⟨_, rfl⟩) ?_ (by simp [twiceInOneEpoch_unpriced]) _
  intro row member
  obtain ⟨-, priced, -⟩ := mem_basePayments (List.mem_of_mem_filter member)
  have none : row.pricing = none := by
    rw [priced, lateralPricing, periodsAfter, twiceInOneEpoch_unpriced]
    split
    · rfl
    · rfl
  rw [none]
  exact ⟨_, rfl⟩

theorem listsExactly_iff_twiceInOneEpoch :
    ListsExactly hundredEpochs (twiceInOneEpoch.database hundredEpochs) (everyPayment 2 (by decide)) ↔
      OneRowEach hundredEpochs (twiceInOneEpoch.database hundredEpochs) (everyPayment 2 (by decide)) ∧
      EpochsTogether hundredEpochs (twiceInOneEpoch.database hundredEpochs) (everyPayment 2 (by decide)) :=
  listsExactly_iff _ _ _ (by decide) dollars 300 _ twiceInOneEpoch_answered

theorem tied_payments_repeat_and_vanish :
    twiceInOneEpoch.Reaches hundredEpochs (twiceInOneEpoch.database hundredEpochs) ∧
      ¬ ListsExactly hundredEpochs (twiceInOneEpoch.database hundredEpochs) (everyPayment 1 (by decide)) := by
  refine ⟨History.reaches_database (by decide +kernel), ?_⟩
  intro exactly
  obtain ⟨pages, listed, shown⟩ := turnedRequests_pages
  have stored : ((matchingPayments hundredEpochs (twiceInOneEpoch.database hundredEpochs)
      (everyPayment 1 (by decide))).map RailPayment.settlement).map (·.logIndex) = [8, 9] := by decide +kernel
  have perm := (exactly turnedRequests pages listed).1.map (·.logIndex)
  rw [shown, stored] at perm
  exact absurd perm (by decide)

end SameEpoch

end Proof.Paging
end FpvIndexer
