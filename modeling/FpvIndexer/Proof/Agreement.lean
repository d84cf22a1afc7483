import FpvIndexer.Proof.InForce

namespace FpvIndexer
namespace Proof.Agreement
open Relational PriceBand InForce

section Parameters
variable (cfg : Deployment) (db : DB)

/-- What a query for the parameter in force answers: its value, or nothing where none was set before. -/
structure Picks (parameterType : ServiceRewardsActorParameterType) (quarterNum : Int) (result : Option ℚ) : Prop where
  inForce : ∀ value, result = some value → ParameterInForce cfg db parameterType quarterNum value
  unset : result = none → ∀ p ∈ db.serviceRewardsActorParameter.rows, p.parameterType = parameterType →
    ¬ cfg.quarterNum p.updateEpoch < quarterNum

variable {cfg db} {parameterType : ServiceRewardsActorParameterType} {quarterNum : Int}

theorem parameterInForce_unique {a b : ℚ} (ha : ParameterInForce cfg db parameterType quarterNum a)
    (hb : ParameterInForce cfg db parameterType quarterNum b) : a = b := by
  obtain ⟨p, inRows, type, rfl, earlier, latest⟩ := ha
  obtain ⟨r, inRowsToo, typeToo, rfl, earlierToo, latestToo⟩ := hb
  have position : p.position = r.position :=
    le_antisymm (latestToo p inRows type earlier) (latest r inRowsToo typeToo earlierToo)
  have key : p.pkey = r.pkey := by
    obtain ⟨epoch, logIndex⟩ := Position.mk.inj position
    unfold ServiceRewardsActorParameter.pkey
    rw [type, typeToo, epoch, logIndex]
  rw [db.serviceRewardsActorParameter.eq_of_key inRows inRowsToo key]

theorem Picks.unique {a b : Option ℚ} (ha : Picks cfg db parameterType quarterNum a)
    (hb : Picks cfg db parameterType quarterNum b) : a = b := by
  cases a with
  | none =>
      cases b with
      | none => rfl
      | some value =>
          obtain ⟨p, inRows, type, -, earlier, -⟩ := hb.inForce value rfl
          exact absurd earlier (ha.unset rfl p inRows type)
  | some value =>
      cases b with
      | none =>
          obtain ⟨p, inRows, type, -, earlier, -⟩ := ha.inForce value rfl
          exact absurd earlier (hb.unset rfl p inRows type)
      | some other => rw [parameterInForce_unique (ha.inForce value rfl) (hb.inForce other rfl)]

theorem picks_lateralParameter : Picks cfg db parameterType quarterNum (lateralParameter cfg db parameterType quarterNum) where
  inForce := fun value found => lateralParameter_inForce found
  unset := by
    intro none p inRows type earlier
    obtain ⟨r, kept, sameType, sameQuarter, -⟩ := exists_parameter cfg inRows
    have empty := (head?_orderBy_eq_none _).mp (Option.map_eq_none_iff.mp none)
    apply List.filter_eq_nil_iff.mp empty r kept
    exact decide_eq_true ⟨sameType.trans type, sameQuarter ▸ earlier⟩

def quarterParameter (cfg : Deployment) (db : DB) (parameterType : ServiceRewardsActorParameterType) (quarterNum : Int) :
    Option ℚ :=
  ((quarterParameters cfg db quarterNum).find? (·.parameterType = parameterType)).map (·.parameterValue)

theorem mem_quarterParameters {p : ParameterByQuarter} (member : p ∈ quarterParameters cfg db quarterNum) :
    p.toServiceRewardsActorParameter ∈ db.serviceRewardsActorParameter.rows ∧
      p.quarterNum = cfg.quarterNum p.updateEpoch ∧ p.quarterNum < quarterNum := by
  obtain ⟨listed, earlier⟩ := List.mem_filter.mp (mem_of_mem_distinctOn_orderBy _ member)
  obtain ⟨row, inRows, rfl⟩ := List.mem_map.mp listed
  exact ⟨inRows, rfl, of_decide_eq_true earlier⟩

theorem exists_quarterParameter {row : ServiceRewardsActorParameter} (member : row ∈ db.serviceRewardsActorParameter.rows)
    (earlier : cfg.quarterNum row.updateEpoch < quarterNum) : ∃ p ∈ quarterParameters cfg db quarterNum,
      p.parameterType = row.parameterType ∧ row.position ≤ p.position := by
  let order := fun p : ParameterByQuarter =>
    toLex (p.parameterType.ordinal, OrderDual.toDual (toLex (p.quarterNum, p.position)))
  have listed : (⟨row, cfg.quarterNum row.updateEpoch⟩ : ParameterByQuarter) ∈
      (parametersByQuarter cfg db).filter (·.quarterNum < quarterNum) :=
    List.mem_filter.mpr ⟨List.mem_map.mpr ⟨row, member, rfl⟩, decide_eq_true earlier⟩
  obtain ⟨p, kept, same, first⟩ := exists_distinctOn_orderBy (fun p : ParameterByQuarter => p.parameterType) order listed
  refine ⟨p, kept, same, ?_⟩
  have notAfter : toLex (cfg.quarterNum row.updateEpoch, row.position) ≤ toLex (p.quarterNum, p.position) := by
    simpa [order, Prod.Lex.toLex_le_toLex, same] using first
  rcases Prod.Lex.toLex_le_toLex.mp notAfter with before | ⟨-, le⟩
  · rw [(mem_quarterParameters kept).2.1] at before
    apply le_of_lt
    apply Position.lt_of_epoch_lt
    exact lt_of_not_ge fun h => absurd before (not_lt.mpr (cfg.quarterNum_mono h))
  · exact le

theorem picks_quarterParameter : Picks cfg db parameterType quarterNum (quarterParameter cfg db parameterType quarterNum) where
  inForce := by
    intro value found
    obtain ⟨p, first, rfl⟩ := Option.map_eq_some_iff.mp found
    have kept := List.mem_of_find?_eq_some first
    have type := List.find?_some first
    rw [decide_eq_true_eq] at type
    obtain ⟨inRows, number, earlier⟩ := mem_quarterParameters kept
    refine ⟨_, inRows, type, rfl, number ▸ earlier, ?_⟩
    intro other inRowsToo typeToo earlierToo
    obtain ⟨r, keptToo, same, later⟩ := exists_quarterParameter inRowsToo earlierToo
    rw [distinctOn_inj _ keptToo kept (same.trans (typeToo.trans type.symm))] at later
    exact later
  unset := by
    intro none p inRows type earlier
    obtain ⟨r, kept, same, -⟩ := exists_quarterParameter inRows earlier
    have absent := List.find?_eq_none.mp (Option.map_eq_none_iff.mp none) r kept
    exact absent (decide_eq_true (same.trans type))

theorem picks_registrationCutoff (q1 : 1 ≤ quarterNum) : Picks cfg db .registrationCutoffEpochs quarterNum
    (registrationCutoff db (cfg.quarterStartEpoch quarterNum)) where
  inForce := by
    intro value found
    obtain ⟨p, first, rfl⟩ := Option.map_eq_some_iff.mp found
    obtain ⟨inRows, fits⟩ := List.mem_filter.mp (mem_of_head?_orderBy _ first)
    obtain ⟨type, earlier⟩ := of_decide_eq_true fits
    refine ⟨p, inRows, type, rfl, (cfg.quarterNum_lt_iff q1 _).mpr earlier, ?_⟩
    intro other inRowsToo typeToo earlierToo
    have earlyEpoch := (cfg.quarterNum_lt_iff q1 _).mp earlierToo
    have notAfter := le_of_head?_orderBy (fun p : ServiceRewardsActorParameter => OrderDual.toDual p.position) first
      (List.mem_filter.mpr ⟨inRowsToo, decide_eq_true ⟨typeToo, earlyEpoch⟩⟩)
    exact OrderDual.toDual_le_toDual.mp notAfter
  unset := by
    intro none p inRows type earlier
    have empty := (head?_orderBy_eq_none _).mp (Option.map_eq_none_iff.mp none)
    apply List.filter_eq_nil_iff.mp empty p inRows
    exact decide_eq_true ⟨type, (cfg.quarterNum_lt_iff q1 _).mp earlier⟩

end Parameters

section Listings
variable {cfg : Deployment} {α : Type} {listing : α → Listing} {rows : List α}

def StandsFor (cfg : Deployment) (l : Listing) (quarterNum : Int) : Bool :=
  admittedFor (cfg.quarterNum l.start.epoch) (l.removalEpoch.map cfg.quarterNum) quarterNum

theorem covers_of_standsFor {l : Listing} {quarterNum : Int} (q1 : 1 ≤ quarterNum) (stands : StandsFor cfg l quarterNum) :
    l.span.Covers ⟨cfg.quarterStartEpoch quarterNum, 0⟩ := by
  obtain ⟨admitted, notRemoved⟩ := of_decide_eq_true stands
  constructor
  · exact (Position.lt_of_epoch_lt ((cfg.quarterNum_lt_iff q1 _).mp admitted)).le
  · intro stop closed
    obtain ⟨epoch, removed, closed⟩ := Option.bind_eq_some_iff.mp closed
    obtain ⟨logIndex, -, rfl⟩ := Option.map_eq_some_iff.mp closed
    rw [removed, Option.map_some, Option.all_some, decide_eq_true_eq, cfg.le_quarterNum_iff q1] at notRemoved
    rw [Position.le_iff]
    dsimp only
    omega

theorem mem_standing {β ι : Type} [LinearOrder ι] (listing : α → Listing) {wrap : α → β} {name : β → Address}
    {order : β → ι} {stands : β → Bool} {quarterNum : Int} {address : Address}
    (named : ∀ a, name (wrap a) = (listing a).address)
    (standing : ∀ a, stands (wrap a) = StandsFor cfg (listing a) quarterNum) :
    address ∈ (distinctOn name (orderBy order ((rows.map wrap).filter stands))).map name ↔
      ∃ a ∈ rows, (listing a).address = address ∧ StandsFor cfg (listing a) quarterNum := by
  constructor
  · intro member
    obtain ⟨b, kept, rfl⟩ := List.mem_map.mp member
    obtain ⟨listed, stands⟩ := List.mem_filter.mp (mem_of_mem_distinctOn_orderBy _ kept)
    obtain ⟨a, inRows, rfl⟩ := List.mem_map.mp listed
    exact ⟨a, inRows, (named a).symm, (standing a).symm.trans stands⟩
  · rintro ⟨a, inRows, rfl, here⟩
    have listed : wrap a ∈ (rows.map wrap).filter stands :=
      List.mem_filter.mpr ⟨List.mem_map_of_mem inRows, (standing a).trans here⟩
    obtain ⟨first, kept, same, -⟩ := exists_distinctOn_orderBy name order listed
    exact List.mem_map.mpr ⟨first, kept, same.trans (named a)⟩

variable (separated : Separated (fun a => (listing a).address) (fun a => (listing a).span) rows)
include separated

theorem eq_of_standsFor {quarterNum : Int} (q1 : 1 ≤ quarterNum) {a b : α} (ha : a ∈ rows) (hb : b ∈ rows)
    (same : (listing a).address = (listing b).address) (standsA : StandsFor cfg (listing a) quarterNum)
    (standsB : StandsFor cfg (listing b) quarterNum) : a = b := by
  by_contra differ
  exact (separated.apart_of_ne ha hb differ same).disjoint _ (covers_of_standsFor q1 standsA)
    (covers_of_standsFor q1 standsB)

theorem standing_length_le_one {quarterNum : Int} (q1 : 1 ≤ quarterNum) (address : Address) :
    (rows.filter fun a => (listing a).address = address ∧ StandsFor cfg (listing a) quarterNum).length ≤ 1 := by
  apply separated.filter_length_le_one
  · intro a b ha hb
    exact (of_decide_eq_true ha).1.trans (of_decide_eq_true hb).1.symm
  · intro a b ha hb apart
    exact apart.disjoint _ (covers_of_standsFor q1 (of_decide_eq_true ha).2) (covers_of_standsFor q1 (of_decide_eq_true hb).2)

theorem eq_of_outlives {a b : α} (ha : a ∈ rows) (hb : b ∈ rows) (same : (listing a).address = (listing b).address)
    (sameQuarter : cfg.quarterNum (listing a).start.epoch = cfg.quarterNum (listing b).start.epoch)
    (outlivesA : (listing a).removalEpoch.all fun epoch => cfg.quarterNum (listing a).start.epoch < cfg.quarterNum epoch)
    (outlivesB : (listing b).removalEpoch.all fun epoch => cfg.quarterNum (listing b).start.epoch < cfg.quarterNum epoch) :
    a = b := by
  have stands : ∀ l : Listing, (l.removalEpoch.all fun epoch => cfg.quarterNum l.start.epoch < cfg.quarterNum epoch) →
      StandsFor cfg l (cfg.quarterNum l.start.epoch + 1) := by
    intro l outlives
    refine decide_eq_true ⟨Int.lt_succ _, ?_⟩
    rw [Option.all_map]
    exact outlives
  have started := cfg.quarterNum_nonneg (listing a).start.epoch
  apply eq_of_standsFor separated (by omega) ha hb same (stands _ outlivesA)
  rw [sameQuarter]
  exact stands _ outlivesB

theorem mem_outlasting {β ι : Type} [LinearOrder ι] {wrap : α → β} {key : β → Address × Int} {order : β → ι}
    {outlives : β → Bool} (keyed : ∀ a, key (wrap a) = ((listing a).address, cfg.quarterNum (listing a).start.epoch))
    (outlived : ∀ a, outlives (wrap a) =
      (listing a).removalEpoch.all fun epoch => cfg.quarterNum (listing a).start.epoch < cfg.quarterNum epoch)
    {quarterNum : Int} {a : α} (member : a ∈ rows) (stands : StandsFor cfg (listing a) quarterNum) :
    wrap a ∈ distinctOn key (orderBy order ((rows.map wrap).filter outlives)) := by
  have outlivesA : outlives (wrap a) := by
    obtain ⟨admitted, notRemoved⟩ := of_decide_eq_true stands
    rw [outlived]
    cases removed : (listing a).removalEpoch with
    | none => rfl
    | some epoch =>
        rw [removed, Option.map_some, Option.all_some, decide_eq_true_eq] at notRemoved
        exact decide_eq_true (by omega)
  have listed : wrap a ∈ (rows.map wrap).filter outlives := List.mem_filter.mpr ⟨List.mem_map_of_mem member, outlivesA⟩
  obtain ⟨first, kept, same, -⟩ := exists_distinctOn_orderBy key order listed
  obtain ⟨wrapped, outlivesFirst⟩ := List.mem_filter.mp (mem_of_mem_distinctOn_orderBy _ kept)
  obtain ⟨b, inRows, rfl⟩ := List.mem_map.mp wrapped
  rw [keyed, keyed] at same
  obtain ⟨address, quarter⟩ := Prod.mk.inj same
  rw [outlived] at outlivesA outlivesFirst
  rw [eq_of_outlives separated member inRows address.symm quarter.symm outlivesA outlivesFirst]
  exact kept

end Listings

section Queries
variable {cfg : Deployment} {db : DB} {quarterNum : Int} {address : Address}

def ApartTokens (db : DB) : Prop :=
  Separated (fun t : WhitelistedToken => t.listing.address) (fun t => t.listing.span) db.whitelistedToken.rows

def ApartContracts (db : DB) : Prop :=
  Separated (fun c : FilecoinPayContract => c.listing.address) (fun c => c.listing.span) db.filecoinPayContract.rows

theorem mem_quarterTokens : address ∈ (quarterTokens cfg db quarterNum).map (·.tokenAddress) ↔
    ∃ t ∈ db.whitelistedToken.rows, t.tokenAddress = address ∧ StandsFor cfg t.listing quarterNum :=
  mem_standing WhitelistedToken.listing (fun _ => rfl) fun _ => rfl

theorem mem_quarterFilecoinPayContracts :
    address ∈ (quarterFilecoinPayContracts cfg db quarterNum).map (·.contractAddress) ↔
      ∃ c ∈ db.filecoinPayContract.rows, c.contractAddress = address ∧ StandsFor cfg c.listing quarterNum :=
  mem_standing FilecoinPayContract.listing (fun _ => rfl) fun _ => rfl

theorem lateralToken_isSome (apart : ApartTokens db) : (lateralToken cfg db address quarterNum).isSome ↔
    ∃ t ∈ db.whitelistedToken.rows, t.tokenAddress = address ∧ StandsFor cfg t.listing quarterNum := by
  constructor
  · intro found
    obtain ⟨t, first⟩ := Option.isSome_iff_exists.mp found
    obtain ⟨kept, stands⟩ := List.mem_filter.mp (mem_of_head?_orderBy _ first)
    obtain ⟨row, inRows, rfl⟩ := List.mem_map.mp (List.mem_of_mem_filter (mem_of_mem_distinctOn_orderBy _ kept))
    obtain ⟨same, stands⟩ := of_decide_eq_true stands
    exact ⟨row, inRows, same.symm, decide_eq_true stands⟩
  · rintro ⟨row, inRows, rfl, stands⟩
    have kept : _ ∈ tokens cfg db := mem_outlasting apart (fun _ => rfl) (fun _ => Option.all_map) inRows stands
    rw [← Option.ne_none_iff_isSome]
    intro none
    apply List.filter_eq_nil_iff.mp ((head?_orderBy_eq_none _).mp none) _ kept
    exact decide_eq_true ⟨rfl, of_decide_eq_true stands⟩

theorem contractExists_iff (apart : ApartContracts db) : contractExists cfg db address quarterNum ↔
    ∃ c ∈ db.filecoinPayContract.rows, c.contractAddress = address ∧ StandsFor cfg c.listing quarterNum := by
  unfold contractExists
  rw [List.any_eq_true]
  constructor
  · rintro ⟨c, kept, passes⟩
    obtain ⟨row, inRows, rfl⟩ := List.mem_map.mp (List.mem_of_mem_filter (mem_of_mem_distinctOn_orderBy _ kept))
    obtain ⟨same, stands⟩ := of_decide_eq_true passes
    exact ⟨row, inRows, same.symm, decide_eq_true stands⟩
  · rintro ⟨row, inRows, rfl, stands⟩
    have kept : _ ∈ contracts cfg db := mem_outlasting apart (fun _ => rfl) (fun _ => Option.all_map) inRows stands
    exact ⟨_, kept, decide_eq_true ⟨rfl, of_decide_eq_true stands⟩⟩

end Queries

section Used
variable {cfg : Deployment} {db : DB}

theorem quarterParameter_of_required {parameterType : ServiceRewardsActorParameterType} {quarterNum : Int}
    {missing invalid : Failure} {value : Int}
    (required : requireParameter cfg (quarterParameters cfg db quarterNum) parameterType missing invalid = .ok value) :
    ∃ stored, quarterParameter cfg db parameterType quarterNum = some stored ∧ cfg.toBigInt stored = some value := by
  unfold requireParameter at required
  unfold quarterParameter
  cases found : (quarterParameters cfg db quarterNum).find? (·.parameterType = parameterType) with
  | none =>
      rw [found] at required
      cases required
  | some p =>
      rw [found] at required
      dsimp only at required
      refine ⟨p.parameterValue, rfl, ?_⟩
      cases converted : cfg.toBigInt p.parameterValue with
      | none =>
          rw [converted] at required
          cases required
      | some integer =>
          rw [converted] at required
          rw [Except.ok.inj required]

def reported (parameters : QuarterParameters) : ServiceRewardsActorParameterType → Option Int
  | .priceBandBps => some parameters.priceBandBps
  | .minLotFloor => some parameters.minLotFloorAttoUsd
  | .minLotAlphaNumerator => some parameters.minLotAlphaNumerator
  | .minLotAlphaDenominator => some parameters.minLotAlphaDenominator
  | .registrationCutoffEpochs => none

theorem getQuarterParameters_reported {q : QuarterNumber} {parameters : QuarterParameters}
    (set : getQuarterParameters cfg db q = .ok parameters) (parameterType : ServiceRewardsActorParameterType)
    (value : Int) (used : reported parameters parameterType = some value) :
    ∃ stored, quarterParameter cfg db parameterType q.intValue = some stored ∧ cfg.toBigInt stored = some value := by
  have read := InForce.getQuarterParameters_read set
  cases parameterType with
  | priceBandBps =>
      cases used
      exact quarterParameter_of_required read.band
  | minLotFloor =>
      cases used
      exact quarterParameter_of_required read.floor
  | minLotAlphaNumerator =>
      cases used
      exact quarterParameter_of_required read.numerator
  | minLotAlphaDenominator =>
      cases used
      exact quarterParameter_of_required read.denominator
  | registrationCutoffEpochs => cases used

end Used

section Updates

structure ListUpdate where
  log : ServiceRewardsActorLog
  tokensMap : List (Address × ERC20Metadata)
  stablecoins : List Address
  filecoinPayContracts : List Address

def ListUpdate.apply (db : DB) (update : ListUpdate) : Except Failure DB :=
  updatedAdmittedLists update.tokensMap db update.log update.stablecoins update.filecoinPayContracts

structure Listed (past : List ServiceRewardsActorLog) (db : DB) : Prop where
  contracts : Lists.Invariant past (db.filecoinPayContract.rows.map (·.listing))
  tokens : Lists.Invariant past (db.whitelistedToken.rows.map (·.listing))

theorem listed_of_updates {start db : DB} {updates : List ListUpdate} (noTokens : start.whitelistedToken = .empty)
    (noContracts : start.filecoinPayContract = .empty) (ordered : ChainOrdered (updates.map (·.log)))
    (updated : updates.foldlM ListUpdate.apply start = .ok db) : Listed (updates.map (·.log)) db := by
  refine foldlM_induction updated (fun past db => Listed (past.map (·.log)) db) ?_ ?_
  · constructor
    · rw [noContracts]
      exact Lists.invariant_nil
    · rw [noTokens]
      exact Lists.invariant_nil
  · intro past update rest db next whole listed applied
    have later : ∀ earlier ∈ past.map (·.log), earlier.position < update.log.position := by
      rw [whole, List.map_append, ChainOrdered, List.pairwise_append] at ordered
      exact fun earlier before => ordered.2.2 earlier before update.log (by simp)
    obtain ⟨contracts, tokens, mv, rfl, contractRows, tokenRows, -⟩ := Handlers.updatedAdmittedLists_spec applied
    rw [List.map_append, List.map_singleton]
    exact ⟨Reachable.contracts_step listed.contracts later contractRows, Reachable.tokens_step listed.tokens later tokenRows⟩

end Updates

structure QueriesAgree (cfg : Deployment) (db : DB) (q : QuarterNumber) : Prop where
  parameters : ∀ parameterType,
    quarterParameter cfg db parameterType q.intValue = lateralParameter cfg db parameterType q.intValue
  used : ∀ parameters, getQuarterParameters cfg db q = .ok parameters → ∀ parameterType value,
    reported parameters parameterType = some value →
      ∃ stored, lateralParameter cfg db parameterType q.intValue = some stored ∧ cfg.toBigInt stored = some value
  whole : ∀ parameters, getQuarterParameters cfg db q = .ok parameters → ∀ parameterType value,
    reported parameters parameterType = some value → ∀ n : Int,
      lateralParameter cfg db parameterType q.intValue = some (n : ℚ) → n = value
  cutoff : ∀ blockNumber, cfg.getQuarterForEpoch blockNumber = q.intValue →
    registrationCutoff db (logQuarterStartEpoch cfg blockNumber) =
      quarterParameter cfg db .registrationCutoffEpochs q.intValue
  tokens : ∀ address, address ∈ (quarterTokens cfg db q.intValue).map (·.tokenAddress) ↔
    (lateralToken cfg db address q.intValue).isSome
  contracts : ∀ address, address ∈ (quarterFilecoinPayContracts cfg db q.intValue).map (·.contractAddress) ↔
    contractExists cfg db address q.intValue
  oneRow : ∀ address, ((tokensByQuarter cfg db).filter fun t => t.tokenAddress = address ∧
    admittedFor t.admittanceQuarterNum t.removalQuarterNum q.intValue).length ≤ 1

/-- All queries for a quarter agree on the parameters, the tokens and the contracts in force in it. -/
theorem queriesAgree_of_updates (cfg : Deployment) (start db : DB) (updates : List ListUpdate)
    (noTokens : start.whitelistedToken = .empty) (noContracts : start.filecoinPayContract = .empty)
    (ordered : ChainOrdered (updates.map (·.log))) (updated : updates.foldlM ListUpdate.apply start = .ok db)
    (q : QuarterNumber) : QueriesAgree cfg db q := by
  have listed := listed_of_updates noTokens noContracts ordered updated
  have apartTokens : ApartTokens db := List.pairwise_map.mp listed.tokens.apart
  have apartContracts : ApartContracts db := List.pairwise_map.mp listed.contracts.apart
  have q1 : 1 ≤ (q.intValue : Int) := by exact_mod_cast q.positive
  have sameParameter : ∀ parameterType, quarterParameter cfg db parameterType q.intValue =
      lateralParameter cfg db parameterType q.intValue :=
    fun parameterType => picks_quarterParameter.unique picks_lateralParameter
  refine ⟨sameParameter, ?_, ?_, ?_, ?_, ?_, ?_⟩
  · intro parameters set parameterType value used
    obtain ⟨stored, read, converted⟩ := getQuarterParameters_reported set parameterType value used
    exact ⟨stored, sameParameter parameterType ▸ read, converted⟩
  · intro parameters set parameterType value used n inForce
    obtain ⟨stored, read, converted⟩ := getQuarterParameters_reported set parameterType value used
    rw [sameParameter parameterType, inForce] at read
    rw [← Option.some.inj read, cfg.toBigInt_intCast] at converted
    exact Option.some.inj converted
  · intro blockNumber number
    have start : logQuarterStartEpoch cfg blockNumber = cfg.quarterStartEpoch q.intValue := by
      rw [logQuarterStartEpoch, number, max_eq_left q1, Config.quarterStartEpoch]
    rw [start]
    exact (picks_registrationCutoff q1).unique picks_quarterParameter
  · intro address
    rw [mem_quarterTokens, lateralToken_isSome apartTokens]
  · intro address
    rw [mem_quarterFilecoinPayContracts, contractExists_iff apartContracts]
  · intro address
    have one : (db.whitelistedToken.rows.filter fun t => t.listing.address = address ∧
        StandsFor cfg t.listing q.intValue).length ≤ 1 := standing_length_le_one apartTokens q1 address
    rw [tokensByQuarter, List.filter_map, List.length_map]
    exact one

section Relisted

def listUpdate (blockNumber : Int) (stablecoins filecoinPayContracts : List Address) : ListUpdate where
  log := ⟨blockNumber, 0, "0x0", .admittedListsUpdated stablecoins filecoinPayContracts⟩
  tokensMap := [("0xd", ⟨18, "USD"⟩)]
  stablecoins := stablecoins
  filecoinPayContracts := filecoinPayContracts

def relistings : List ListUpdate := [listUpdate 50 ["0xd"] ["0xf"], listUpdate 150 [] [], listUpdate 160 ["0xd"] ["0xf"]]

def unlisted : DB :=
  { DB.seeded hundredEpochs with
    serviceRewardsActorParameter := ⟨[⟨.priceBandBps, 1000, 50, 0, "0x0"⟩, ⟨.priceBandBps, 2000, 120, 0, "0x0"⟩], by decide⟩ }

def relisted : DB :=
  match relistings.foldlM ListUpdate.apply unlisted with
  | .ok db => db
  | .error _ => unlisted

theorem relisted_reached : relistings.foldlM ListUpdate.apply unlisted = .ok relisted := by
  unfold relisted
  split
  · assumption
  · rename_i failed
    have ok : (relistings.foldlM ListUpdate.apply unlisted).isOk := by decide +kernel
    rw [failed] at ok
    cases ok

theorem queriesAgree_of_updates_relisted : QueriesAgree hundredEpochs relisted ⟨2, by decide⟩ ∧
    (quarterTokens hundredEpochs relisted 2).map (·.tokenAddress) = ["0xd"] ∧
      lateralParameter hundredEpochs relisted .priceBandBps 2 = some 2000 :=
  ⟨queriesAgree_of_updates hundredEpochs unlisted relisted relistings rfl rfl (by unfold ChainOrdered; decide)
    relisted_reached _,
    by decide +kernel, by decide +kernel⟩

end Relisted

end Proof.Agreement
end FpvIndexer
