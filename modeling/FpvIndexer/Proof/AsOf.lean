import FpvIndexer.Proof.InForce

/-!
# A database as of a quarter

What was known when a quarter ended: later rows are left out, and an end that came later is not there yet. The
price periods of the quarters up to then are those of the database as of then.
-/

namespace FpvIndexer
open Relational Proof

section AsOf
variable (cfg : Config) (q : Int)

def Config.knownBy (epoch : Int) : Bool := cfg.quarterNum epoch ≤ q

def Config.endAsOf (stop : Option Int) : Option Int := stop.filter (cfg.knownBy q)

def ServicePair.asOf (sp : ServicePair) : ServicePair :=
  { sp with
    toEpoch := cfg.endAsOf q sp.toEpoch
    toLogIndex := (cfg.endAsOf q sp.toEpoch).bind fun _ => sp.toLogIndex
    unbindingEpoch := none
    unbindingTxHash := none }

def WhitelistedToken.asOf (t : WhitelistedToken) : WhitelistedToken :=
  { t with
    removalEpoch := cfg.endAsOf q t.removalEpoch
    removalLogIndex := (cfg.endAsOf q t.removalEpoch).bind fun _ => t.removalLogIndex
    removalTxHash := none }

def FilecoinPayContract.asOf (c : FilecoinPayContract) : FilecoinPayContract :=
  { c with
    removalEpoch := cfg.endAsOf q c.removalEpoch
    removalLogIndex := (cfg.endAsOf q c.removalEpoch).bind fun _ => c.removalLogIndex
    removalTxHash := none }

theorem ServicePair.asOf_pkey (sp : ServicePair) : (sp.asOf cfg q).pkey = sp.pkey := rfl

theorem WhitelistedToken.asOf_pkey (t : WhitelistedToken) : (t.asOf cfg q).pkey = t.pkey := rfl

theorem FilecoinPayContract.asOf_pkey (c : FilecoinPayContract) : (c.asOf cfg q).pkey = c.pkey := rfl

def DB.usesRail (db : DB) (r : FilecoinPayRail) : Bool :=
  db.filecoinPayPayment.rows.any fun p => cfg.knownBy q p.settledAtEpoch &&
    (p.railId = r.railId ∧ p.filecoinPayContractAddress = r.filecoinPayContractAddress : Bool)

def DB.asOf (db : DB) : DB where
  applicationConfig := db.applicationConfig
  serviceRewardsActorParameter :=
    db.serviceRewardsActorParameter.view (fun p => cfg.knownBy q p.updateEpoch) id fun _ => rfl
  serviceOrchestrator := .empty
  serviceOrchestratorAdmission := .empty
  servicePair := db.servicePair.view (fun sp => cfg.knownBy q sp.fromEpoch) (·.asOf cfg q)
    (ServicePair.asOf_pkey cfg q)
  quarterBoundVolume := db.quarterBoundVolume.view (fun v => (v.quarterNum : Int) < q) id fun _ => rfl
  whitelistedToken := db.whitelistedToken.view (fun t => cfg.knownBy q t.admittanceEpoch) (·.asOf cfg q)
    (WhitelistedToken.asOf_pkey cfg q)
  filecoinPayContract :=
    db.filecoinPayContract.view (fun c => cfg.knownBy q c.admittanceEpoch) (·.asOf cfg q)
      (FilecoinPayContract.asOf_pkey cfg q)
  filecoinPayRail := db.filecoinPayRail.view (db.usesRail cfg q) id fun _ => rfl
  filecoinPayPayment := db.filecoinPayPayment.view (fun p => cfg.knownBy q p.settledAtEpoch) id fun _ => rfl
  filecoinPayFeeAuction := db.filecoinPayFeeAuction.view (fun a => cfg.knownBy q a.auctionedAtEpoch) id fun _ => rfl
  serviceOrchestratorQuarterlyVolume := .empty
  qualifiedPricePeriodsMv := db.qualifiedPricePeriodsMv.view (·.quarterNum ≤ q) id fun _ => rfl

section Rows
variable (db : DB)

@[simp] theorem DB.asOf_applicationConfig : (db.asOf cfg q).applicationConfig = db.applicationConfig := rfl

@[simp] theorem DB.asOf_parameters : (db.asOf cfg q).serviceRewardsActorParameter.rows =
    db.serviceRewardsActorParameter.rows.filter fun p => cfg.knownBy q p.updateEpoch := List.map_id _

@[simp] theorem DB.asOf_pairs : (db.asOf cfg q).servicePair.rows =
    (db.servicePair.rows.filter fun sp => cfg.knownBy q sp.fromEpoch).map (·.asOf cfg q) := rfl

@[simp] theorem DB.asOf_volumes : (db.asOf cfg q).quarterBoundVolume.rows =
    db.quarterBoundVolume.rows.filter fun v => (v.quarterNum : Int) < q := List.map_id _

@[simp] theorem DB.asOf_tokens : (db.asOf cfg q).whitelistedToken.rows =
    (db.whitelistedToken.rows.filter fun t => cfg.knownBy q t.admittanceEpoch).map (·.asOf cfg q) := rfl

@[simp] theorem DB.asOf_contracts : (db.asOf cfg q).filecoinPayContract.rows =
    (db.filecoinPayContract.rows.filter fun c => cfg.knownBy q c.admittanceEpoch).map (·.asOf cfg q) := rfl

@[simp] theorem DB.asOf_rails :
    (db.asOf cfg q).filecoinPayRail.rows = db.filecoinPayRail.rows.filter (db.usesRail cfg q) := List.map_id _

@[simp] theorem DB.asOf_payments : (db.asOf cfg q).filecoinPayPayment.rows =
    db.filecoinPayPayment.rows.filter fun p => cfg.knownBy q p.settledAtEpoch := List.map_id _

@[simp] theorem DB.asOf_auctions : (db.asOf cfg q).filecoinPayFeeAuction.rows =
    db.filecoinPayFeeAuction.rows.filter fun a => cfg.knownBy q a.auctionedAtEpoch := List.map_id _

@[simp] theorem DB.asOf_periods : (db.asOf cfg q).qualifiedPricePeriodsMv.rows =
    db.qualifiedPricePeriodsMv.rows.filter (·.quarterNum ≤ q) := List.map_id _

end Rows

def TokenByQuarter.asOf (t : TokenByQuarter) : TokenByQuarter where
  toWhitelistedToken := t.toWhitelistedToken.asOf cfg q
  admittanceQuarterNum := t.admittanceQuarterNum
  removalQuarterNum := t.removalQuarterNum.filter (· ≤ q)

def ContractByQuarter.asOf (c : ContractByQuarter) : ContractByQuarter where
  toFilecoinPayContract := c.toFilecoinPayContract.asOf cfg q
  admittanceQuarterNum := c.admittanceQuarterNum
  removalQuarterNum := c.removalQuarterNum.filter (· ≤ q)

end AsOf

namespace Proof.AsOf
open PriceBand InForce

section Ends
variable {cfg : Config} {q : Int}

theorem map_endAsOf (stop : Option Int) :
    (cfg.endAsOf q stop).map cfg.quarterNum = (stop.map cfg.quarterNum).filter (· ≤ q) := by
  unfold Config.endAsOf Config.knownBy
  cases stop with
  | none => rfl
  | some epoch =>
      rw [Option.map_some, Option.filter_some, Option.filter_some]
      split
      · rfl
      · rfl

theorem all_filter {p : Int → Bool} (later : ∀ n, q < n → p n) (stop : Option Int) :
    (stop.filter (· ≤ q)).all p = stop.all p := by
  cases stop with
  | none => rfl
  | some n =>
      rw [Option.filter_some]
      by_cases known : n ≤ q
      · rw [if_pos (decide_eq_true known)]
      · rw [if_neg (by simpa using known), Option.all_none, Option.all_some, later n (by omega)]

end Ends

section Lists
variable {cfg : Config} {q : Int} (db : DB)

theorem tokensByQuarter_asOf : tokensByQuarter cfg (db.asOf cfg q) =
    ((tokensByQuarter cfg db).filter (·.admittanceQuarterNum ≤ q)).map (·.asOf cfg q) := by
  unfold tokensByQuarter
  rw [DB.asOf_tokens, List.filter_map, List.map_map, List.map_map]
  apply List.map_congr_left
  intro t _
  simp only [Function.comp_apply, TokenByQuarter.asOf, ← map_endAsOf]
  rfl

theorem contractsByQuarter_asOf : contractsByQuarter cfg (db.asOf cfg q) =
    ((contractsByQuarter cfg db).filter (·.admittanceQuarterNum ≤ q)).map (·.asOf cfg q) := by
  unfold contractsByQuarter
  rw [DB.asOf_contracts, List.filter_map, List.map_map, List.map_map]
  apply List.map_congr_left
  intro c _
  simp only [Function.comp_apply, ContractByQuarter.asOf, ← map_endAsOf]
  rfl

theorem parametersByQuarter_asOf :
    parametersByQuarter cfg (db.asOf cfg q) = (parametersByQuarter cfg db).filter (·.quarterNum ≤ q) := by
  unfold parametersByQuarter
  rw [DB.asOf_parameters, List.filter_map]
  rfl

theorem parameters_asOf : parameters cfg (db.asOf cfg q) = (parameters cfg db).filter (·.quarterNum ≤ q) := by
  unfold parameters
  rw [parametersByQuarter_asOf, ← filter_orderBy, filter_distinctOn]
  intro a b same
  rw [(Prod.mk.inj same).2]

theorem lateralParameter_asOf {quarterNum : Int} (closed : quarterNum ≤ q)
    (parameterType : ServiceRewardsActorParameterType) :
    lateralParameter cfg (db.asOf cfg q) parameterType quarterNum = lateralParameter cfg db parameterType quarterNum := by
  unfold lateralParameter
  rw [parameters_asOf, List.filter_filter]
  congr 4
  funext p
  by_cases earlier : p.quarterNum < quarterNum
  · simp [earlier, (earlier.trans_le closed).le]
  · simp [earlier]

theorem tokens_asOf :
    tokens cfg (db.asOf cfg q) = ((tokens cfg db).filter (·.admittanceQuarterNum ≤ q)).map (·.asOf cfg q) := by
  let key := fun t : TokenByQuarter => (t.tokenAddress, t.admittanceQuarterNum)
  let order := fun t : TokenByQuarter => toLex (t.tokenAddress, toLex (t.admittanceQuarterNum,
    OrderDual.toDual (⟨t.admittanceEpoch, t.admittanceLogIndex⟩ : Position)))
  have ends : ∀ t : TokenByQuarter, decide (t.admittanceQuarterNum ≤ q) →
      (t.asOf cfg q).removalQuarterNum.all (t.admittanceQuarterNum < ·) =
        t.removalQuarterNum.all (t.admittanceQuarterNum < ·) := by
    intro t known
    rw [decide_eq_true_eq] at known
    exact all_filter (fun n later => decide_eq_true (known.trans_lt later)) t.removalQuarterNum
  have byKey : ∀ a b, key a = key b → decide (a.admittanceQuarterNum ≤ q) = decide (b.admittanceQuarterNum ≤ q) := by
    intro a b same
    rw [(Prod.mk.inj same).2]
  unfold tokens
  rw [tokensByQuarter_asOf, filter_distinctOn key byKey, filter_orderBy order]
  refine distinctOn_orderBy_filter_map key order (TokenByQuarter.asOf cfg q) (fun _ => rfl) (fun _ => rfl) ?_ _
  exact ends

theorem contracts_asOf :
    contracts cfg (db.asOf cfg q) = ((contracts cfg db).filter (·.admittanceQuarterNum ≤ q)).map (·.asOf cfg q) := by
  let key := fun c : ContractByQuarter => (c.contractAddress, c.admittanceQuarterNum)
  let order := fun c : ContractByQuarter => toLex (c.contractAddress, toLex (c.admittanceQuarterNum,
    OrderDual.toDual (⟨c.admittanceEpoch, c.admittanceLogIndex⟩ : Position)))
  have ends : ∀ c : ContractByQuarter, decide (c.admittanceQuarterNum ≤ q) →
      (c.asOf cfg q).removalQuarterNum.all (c.admittanceQuarterNum < ·) =
        c.removalQuarterNum.all (c.admittanceQuarterNum < ·) := by
    intro c known
    rw [decide_eq_true_eq] at known
    exact all_filter (fun n later => decide_eq_true (known.trans_lt later)) c.removalQuarterNum
  have byKey : ∀ a b, key a = key b → decide (a.admittanceQuarterNum ≤ q) = decide (b.admittanceQuarterNum ≤ q) := by
    intro a b same
    rw [(Prod.mk.inj same).2]
  unfold contracts
  rw [contractsByQuarter_asOf, filter_distinctOn key byKey, filter_orderBy order]
  refine distinctOn_orderBy_filter_map key order (ContractByQuarter.asOf cfg q) (fun _ => rfl) (fun _ => rfl) ?_ _
  exact ends

end Lists

section Auctions
variable {cfg : Config} {q : Int} {db : DB}

theorem lateralToken_asOf {quarterNum : Int} (closed : quarterNum ≤ q) (tokenAddress : Address) :
    lateralToken cfg (db.asOf cfg q) tokenAddress quarterNum =
      (lateralToken cfg db tokenAddress quarterNum).map (·.asOf cfg q) := by
  unfold lateralToken
  rw [tokens_asOf, filter_map_filter_within (fun wt : TokenByQuarter => decide (tokenAddress = wt.tokenAddress ∧
    wt.admittanceQuarterNum < quarterNum ∧ wt.removalQuarterNum.all (quarterNum ≤ ·))),
    ← List.head?_map, map_orderBy _ (fun wt : TokenByQuarter => OrderDual.toDual wt.admittanceQuarterNum)]
  · intro t
    rfl
  · intro t _
    have removal : (t.asOf cfg q).removalQuarterNum.all (quarterNum ≤ ·) = t.removalQuarterNum.all (quarterNum ≤ ·) :=
      all_filter (fun n later => decide_eq_true (closed.trans later.le)) t.removalQuarterNum
    rw [removal]
    rfl
  · intro t admitted
    exact decide_eq_true ((of_decide_eq_true admitted).2.1.le.trans closed)

theorem contractExists_asOf {quarterNum : Int} (closed : quarterNum ≤ q + 1) (contractAddress : Address) :
    contractExists cfg (db.asOf cfg q) contractAddress quarterNum = contractExists cfg db contractAddress quarterNum := by
  have removal : ∀ c : ContractByQuarter, (c.asOf cfg q).removalQuarterNum.all (quarterNum ≤ ·) =
      c.removalQuarterNum.all (quarterNum ≤ ·) := fun c =>
    all_filter (fun n later => decide_eq_true (closed.trans later)) c.removalQuarterNum
  unfold contractExists
  rw [contracts_asOf, List.any_map, List.any_filter]
  congr 1
  funext c
  rw [Function.comp_apply, removal]
  change (_ && decide (contractAddress = c.contractAddress ∧ c.admittanceQuarterNum < quarterNum ∧ _)) = _
  by_cases earlier : c.admittanceQuarterNum < quarterNum
  · rw [decide_eq_true (Int.lt_add_one_iff.mp (earlier.trans_le closed)), Bool.true_and]
    rfl
  · simp [earlier]

theorem boundVolume_asOf {quarterNum : Int} (earlier : quarterNum < q) :
    boundVolume (db.asOf cfg q) quarterNum = boundVolume db quarterNum := by
  unfold boundVolume
  rw [DB.asOf_volumes, List.find?_filter]
  congr 2
  funext v
  by_cases same : (v.quarterNum : Int) = quarterNum
  · simp [same, earlier]
  · simp [same]

theorem whitelistedAuction_asOf {a : FilecoinPayFeeAuction} (known : cfg.knownBy q a.auctionedAtEpoch) :
    whitelistedAuction cfg (db.asOf cfg q) a = whitelistedAuction cfg db a := by
  have closed := of_decide_eq_true known
  unfold whitelistedAuction
  dsimp only
  rw [contractExists_asOf (closed.trans (Int.le_add_one le_rfl)), lateralToken_asOf closed, Option.map_map]
  rfl

theorem whitelistedAuctions_asOf : whitelistedAuctions cfg (db.asOf cfg q) =
    (whitelistedAuctions cfg db).filter fun a => cfg.knownBy q a.auctionedAtEpoch := by
  unfold whitelistedAuctions
  rw [DB.asOf_auctions, List.filter_filterMap, List.filterMap_filter]
  apply List.filterMap_congr
  intro a _
  have epoch : ∀ w, whitelistedAuction cfg db a = some w → w.auctionedAtEpoch = a.auctionedAtEpoch := fun w built =>
    congrArg Position.epoch (whitelistedAuction_row built).1
  cases known : cfg.knownBy q a.auctionedAtEpoch with
  | true =>
      rw [if_pos rfl, whitelistedAuction_asOf known]
      cases built : whitelistedAuction cfg db a with
      | none => rfl
      | some w => rw [Option.filter_some, epoch w built, known, if_pos rfl]
  | false =>
      rw [if_neg (by simp)]
      cases built : whitelistedAuction cfg db a with
      | none => rfl
      | some w => rw [Option.filter_some, epoch w built, known, if_neg (by simp)]

theorem isSubstantial_asOf (count : Nat) {a : WhitelistedAuction} (closed : a.quarterNum ≤ q) :
    isSubstantial cfg (db.asOf cfg q) count a = isSubstantial cfg db count a := by
  unfold isSubstantial
  rw [lateralParameter_asOf db closed, lateralParameter_asOf db closed, lateralParameter_asOf db closed,
    boundVolume_asOf (by omega)]

theorem substantialAuctions_split (cfg : Config) (q : Int) (db : DB) (count : Nat) :
    ∃ later, substantialAuctions cfg db count = substantialAuctions cfg (db.asOf cfg q) count ++ later ∧
      ∀ s ∈ later, q < s.quarterNum ∧ (substantialAuctions cfg (db.asOf cfg q) count).length < s.auctionNum := by
  let known := fun a : WhitelistedAuction => cfg.knownBy q a.auctionedAtEpoch
  let ordered := orderBy WhitelistedAuction.position ((whitelistedAuctions cfg db).filter (isSubstantial cfg db count))
  have down : ∀ a b : WhitelistedAuction, a.position ≤ b.position → known b → known a := by
    intro a b before knownB
    exact decide_eq_true ((cfg.quarterNum_mono (Position.epoch_le_of_le before)).trans (of_decide_eq_true knownB))
  have split : ordered = ordered.filter known ++ ordered.filter fun a => !known a :=
    eq_filter_append_filter known (orderBy_sorted WhitelistedAuction.position _) down
  have closed : ordered.filter known = orderBy WhitelistedAuction.position
      ((whitelistedAuctions cfg (db.asOf cfg q)).filter (isSubstantial cfg (db.asOf cfg q) count)) := by
    rw [filter_orderBy, whitelistedAuctions_asOf, List.filter_filter, List.filter_filter]
    congr 1
    apply List.filter_congr
    intro a member
    obtain ⟨row, -, -, -, quarter⟩ := mem_whitelistedAuctions member
    cases isKnown : known a with
    | true =>
        have closed : a.quarterNum ≤ q := quarter.trans_le (of_decide_eq_true isKnown)
        rw [isSubstantial_asOf count closed, show cfg.knownBy q a.auctionedAtEpoch = true from isKnown, Bool.and_comm]
    | false => rw [show cfg.knownBy q a.auctionedAtEpoch = false from isKnown, Bool.false_and, Bool.and_false]
  have numbers : rowNumber ordered = rowNumber (ordered.filter known) ++
      (ordered.filter fun a => !known a).zipIdx (1 + (ordered.filter known).length) := by
    rw [← rowNumber_append, ← split]
  refine ⟨((ordered.filter fun a => !known a).zipIdx (1 + (ordered.filter known).length)).map
    fun numbered => { toWhitelistedAuction := numbered.1, auctionNum := numbered.2 }, ?_, ?_⟩
  · unfold substantialAuctions
    rw [← closed]
    exact (congrArg (List.map _) numbers).trans List.map_append
  · intro s member
    obtain ⟨⟨a, number⟩, numbered, rfl⟩ := List.mem_map.mp member
    obtain ⟨start, -, inRest⟩ := List.mem_zipIdx numbered
    have late : a ∈ ordered.filter fun a => !known a := by
      rw [inRest]
      exact List.getElem_mem _
    obtain ⟨inOrder, unknown⟩ := List.mem_filter.mp late
    rw [mem_orderBy] at inOrder
    obtain ⟨row, -, -, -, quarter⟩ := mem_whitelistedAuctions (List.mem_of_mem_filter inOrder)
    constructor
    · change q < a.quarterNum
      rw [quarter]
      simpa [known, Config.knownBy] using unknown
    · have length : (substantialAuctions cfg (db.asOf cfg q) count).length = (ordered.filter known).length := by
        rw [closed, substantialAuctions, List.length_map, ← List.length_map (f := Prod.fst), rowNumber_map_fst]
      rw [length]
      exact (Nat.lt_add_one _).trans_le ((Nat.add_comm _ _).trans_le start)

theorem quarterAuctions_asOf (count : Nat) {qIndex : Int} (closed : qIndex + 1 ≤ q) :
    quarterAuctions cfg (db.asOf cfg q) count qIndex = quarterAuctions cfg db count qIndex := by
  obtain ⟨later, split, late⟩ := substantialAuctions_split cfg q db count
  have none : later.filterMap (bandChecked cfg db qIndex) = [] := by
    apply List.filterMap_eq_nil_iff.mpr
    intro s member
    have after := (late s member).1
    exact if_neg fun checked => by omega
  have same : (substantialAuctions cfg (db.asOf cfg q) count).filterMap (bandChecked cfg (db.asOf cfg q) qIndex) =
      (substantialAuctions cfg (db.asOf cfg q) count).filterMap (bandChecked cfg db qIndex) := by
    apply List.filterMap_congr
    intro s _
    unfold bandChecked
    split
    · rename_i checked
      rw [lateralParameter_asOf db (by omega)]
    · rfl
  unfold quarterAuctions
  rw [same, split, List.filterMap_append, none, List.append_nil]

theorem seedAuctions_asOf {count : Nat} {s : SubstantialAuction}
    (member : s ∈ substantialAuctions cfg (db.asOf cfg q) count) (past : 5 < s.auctionNum) :
    seedAuctions cfg (db.asOf cfg q) count = seedAuctions cfg db count := by
  obtain ⟨later, split, late⟩ := substantialAuctions_split cfg q db count
  have enough : 5 < (substantialAuctions cfg (db.asOf cfg q) count).length := by
    have numbers := List.mem_map_of_mem (f := SubstantialAuction.auctionNum) member
    rw [substantialAuctions_numbers, List.mem_range'_1] at numbers
    omega
  have none : later.filter (·.auctionNum ≤ 5) = [] := by
    apply List.filter_eq_nil_iff.mpr
    intro t inLater
    have after := (late t inLater).2
    simp
    omega
  unfold seedAuctions
  rw [split, List.filter_append, none, List.append_nil]

theorem flaggedAuctions_asOf (s : LoopState) {qIndex : Int} (closed : qIndex + 1 ≤ q) :
    flaggedAuctions cfg (db.asOf cfg q) s qIndex = flaggedAuctions cfg db s qIndex := by
  unfold flaggedAuctions
  dsimp only
  rw [quarterAuctions_asOf s.previousQuarterPricePeriodsCount closed]
  cases auctions : quarterAuctions cfg db s.previousQuarterPricePeriodsCount qIndex with
  | nil => rw [List.filter_nil, List.flatMap_nil, List.flatMap_nil]
  | cons a rest =>
      have first : a ∈ quarterAuctions cfg (db.asOf cfg q) s.previousQuarterPricePeriodsCount qIndex := by
        rw [quarterAuctions_asOf _ closed, auctions]
        exact List.mem_cons_self
      obtain ⟨t, substantial, -, past, -⟩ := mem_quarterAuctions first
      unfold medians seedAuctionsRanked
      rw [seedAuctions_asOf substantial past]

theorem iteration_asOf (s : LoopState) {qIndex : Int} (closed : qIndex + 1 ≤ q) :
    iteration cfg (db.asOf cfg q) s qIndex = iteration cfg db s qIndex := by
  unfold iteration quarterResults
  rw [flaggedAuctions_asOf s closed]

theorem foldl_iteration_asOf {qIndexes : List Int} (closed : ∀ qIndex ∈ qIndexes, qIndex + 1 ≤ q) (s : LoopState) :
    qIndexes.foldl (iteration cfg (db.asOf cfg q)) s = qIndexes.foldl (iteration cfg db) s := by
  apply List.foldl_ext
  intro s qIndex member
  exact iteration_asOf s (closed qIndex member)

theorem quarterIndexes_asOf : quarterIndexes cfg (db.asOf cfg q) =
    (quarterIndexes cfg db).filter fun qIndex => qIndex + 1 ≤ q := by
  unfold quarterIndexes
  rw [DB.asOf_auctions, filter_orderBy, filter_distinctOn, List.filter_map, List.filter_filter, List.filter_filter]
  · congr 3
    apply List.filter_congr
    intro a _
    unfold Config.knownBy Config.quarterNum
    by_cases active : cfg.activationEpoch ≤ a.auctionedAtEpoch
    · rw [if_neg (not_lt.mpr active)]
      simp [active]
    · simp [active]
  · intro a b same
    rw [show a = b from same]

theorem quarterResults_quarter {s : LoopState} {qIndex : Int} {qp : PricePeriod}
    (member : qp ∈ quarterResults cfg db s qIndex) : qp.quarterNum = qIndex + 1 := by
  obtain ⟨a, inQuarter, rfl⟩ := mem_quarterResults member
  obtain ⟨-, -, -, -, quarter, -⟩ := mem_quarterAuctions inQuarter
  exact quarter

theorem returned_closed {qIndexes : List Int} (closed : ∀ qIndex ∈ qIndexes, qIndex + 1 ≤ q) {s : LoopState}
    (before : ∀ qp ∈ s.returned, qp.quarterNum ≤ q) :
    ∀ qp ∈ (qIndexes.foldl (iteration cfg db) s).returned, qp.quarterNum ≤ q := by
  induction qIndexes generalizing s with
  | nil => exact before
  | cons qIndex rest ih =>
      obtain ⟨here, others⟩ := List.forall_mem_cons.mp closed
      apply ih others
      intro qp member
      rcases List.mem_append.mp member with older | new
      · exact before qp older
      · exact (quarterResults_quarter new).trans_le here

theorem returned_later {qIndexes : List Int} (later : ∀ qIndex ∈ qIndexes, q < qIndex + 1) (s : LoopState) :
    (qIndexes.foldl (iteration cfg db) s).returned.filter (·.quarterNum ≤ q) =
      s.returned.filter (·.quarterNum ≤ q) := by
  induction qIndexes generalizing s with
  | nil => rfl
  | cons qIndex rest ih =>
      obtain ⟨here, others⟩ := List.forall_mem_cons.mp later
      have none : (quarterResults cfg db s qIndex).filter (·.quarterNum ≤ q) = [] := by
        apply List.filter_eq_nil_iff.mpr
        intro qp member
        rw [quarterResults_quarter member]
        simpa using here
      rw [List.foldl_cons, ih others, iteration, List.filter_append, none, List.append_nil]

theorem getQualifyingPricePeriods_asOf (configured : db.applicationConfig = some cfg) :
    getQualifyingPricePeriods (db.asOf cfg q) = (getQualifyingPricePeriods db).filter (·.quarterNum ≤ q) := by
  have split := eq_filter_append_filter (fun qIndex : Int => qIndex + 1 ≤ q) (quarterIndexes_increasing cfg db)
    (fun a b before closed => decide_eq_true ((Int.add_lt_add_right before 1).le.trans (of_decide_eq_true closed)))
  have closed : ∀ qIndex ∈ (quarterIndexes cfg db).filter fun qIndex => qIndex + 1 ≤ q, qIndex + 1 ≤ q :=
    fun qIndex member => of_decide_eq_true (List.mem_filter.mp member).2
  have later : ∀ qIndex ∈ (quarterIndexes cfg db).filter fun qIndex => !decide (qIndex + 1 ≤ q), q < qIndex + 1 :=
    fun qIndex member => by simpa using (List.mem_filter.mp member).2
  unfold getQualifyingPricePeriods
  rw [DB.asOf_applicationConfig, configured]
  dsimp only
  rw [quarterIndexes_asOf, foldl_iteration_asOf closed, split, List.foldl_append, returned_later later, ← split]
  symm
  apply List.filter_eq_self.mpr
  intro qp member
  have bound := returned_closed closed (s := .initial) (fun qp none => by cases none) qp member
  exact decide_eq_true bound

end Auctions

end Proof.AsOf
end FpvIndexer
