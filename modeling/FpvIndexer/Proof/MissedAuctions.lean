import FpvIndexer.Proof.Removals
import FpvIndexer.Proof.ListUpdates

namespace FpvIndexer
open Relational

def directBurn (services : AuctionServices) (log : TransferLog) : Option FilecoinPayFeeAuctionInput :=
  (services.getTransaction log.transactionHash).toOption.bind fun chainTx =>
    if chainTx.toAddress.map (·.toLowerCase) = some log.fromAddress.toLowerCase then
      match safeFilecoinPayV1Decode services chainTx.input with
      | some (.burnForFees token _ _) => some (auctionInput log chainTx token)
      | _ => none
    else none

def listedContracts (logs : List ServiceRewardsActorLog) : List Address :=
  logs.foldl (fun listed log =>
    match log.event with
    | .admittedListsUpdated _ filecoinPayContracts => filecoinPayContracts.map (·.toLowerCase)
    | _ => listed) []

namespace Chain
variable (cfg : Deployment) (chain : Chain)

def transfers (address : Address) : List TransferLog := (chain.logs .auctionableToken address).logs

/-- The contracts of the last update of the lists in an earlier quarter. -/
def listedFor (quarterNum : Int) : List Address :=
  listedContracts ((chain.logs .serviceRewardsActor chain.serviceRewardsActorAddress.toLowerCase).logs.filter
    fun log : ServiceRewardsActorLog => cfg.quarterNum log.blockNumber < quarterNum)

/-- Every contract that is listed for the quarter of a direct burn in the range is among these. -/
def knowsBurns (address : Address) (contracts : List Address) (range : BlockRange) : Bool :=
  ((chain.logs .auctionableToken address).between range.fromBlock range.toBlock).all fun log : TransferLog =>
    (directBurn chain.auctionServices log).isSome →
      log.fromAddress.toLowerCase ∈ chain.listedFor cfg (cfg.quarterNum log.blockNumber) →
        log.fromAddress.toLowerCase ∈ contracts

/-- A batch of a token that is committed was fetched with the contracts of its burns. -/
def burnsKnown (s : Execution) : chain.Event → Bool
  | .resume i answers =>
      s.active[i]?.all fun run =>
        match run with
        | ⟨.auctionableToken, parameters, awaited, .writes range contracts logs⟩ =>
            (chain.perform cfg answers s.store ⟨.auctionableToken, parameters, awaited, .writes range contracts logs⟩).isOk →
              chain.knowsBurns cfg parameters.contractAddress contracts range
        | _ => true
  | _ => true

/-- Every direct burn up to a head, of an auctionable token and out of a contract of its quarter, is stored. -/
def NoneMissed (store : Store) (head : Int) : Prop :=
  ∀ token ∈ auctionableTokens store.toDB, chain.isERC20 token.toLowerCase →
    ∀ log ∈ chain.transfers token.toLowerCase, log.blockNumber ≤ head →
      log.fromAddress.toLowerCase ∈
          (quarterFilecoinPayContracts cfg store.toDB (cfg.quarterNum log.blockNumber)).map (·.contractAddress) →
        ∀ input, directBurn chain.auctionServices log = some input →
          ∃ auction ∈ store.filecoinPayFeeAuction.rows, auction.toFilecoinPayFeeAuctionInput = input

end Chain

namespace Proof.MissedAuctions
open Commits Schedules Effects Handlers Replay

section Burns
variable {services : AuctionServices} {db next : DB} {logs : List TransferLog} {log : TransferLog}
  {input : FilecoinPayFeeAuctionInput}

theorem directBurn_spec (burn : directBurn services log = some input) : ∃ chainTx token recipient requested,
    services.getTransaction log.transactionHash = .ok chainTx ∧
      safeFilecoinPayV1Decode services chainTx.input = some (.burnForFees token recipient requested) ∧
      input = auctionInput log chainTx token := by
  unfold directBurn at burn
  obtain ⟨chainTx, got, burn⟩ := Option.bind_eq_some_iff.mp burn
  split at burn
  · split at burn
    · rename_i token recipient requested decoded
      cases burn
      refine ⟨chainTx, token, recipient, requested, ?_, decoded, rfl⟩
      cases answer : services.getTransaction log.transactionHash with
      | error failure =>
          rw [answer] at got
          cases got
      | ok found =>
          rw [answer] at got
          cases got
          rfl
    · cases burn
  · cases burn

theorem handleLog_burn (handled : AuctionableTokenIndexer.handleLog services db log = .ok next)
    (burn : directBurn services log = some input) :
    ∃ auction ∈ next.filecoinPayFeeAuction.rows, auction.toFilecoinPayFeeAuctionInput = input := by
  obtain ⟨chainTx, token, recipient, requested, got, decoded, rfl⟩ := directBurn_spec burn
  unfold AuctionableTokenIndexer.handleLog at handled
  rw [got, ok_bind, decoded] at handled
  obtain ⟨_, _, auction, rfl, rows, -, same, -⟩ := insertAuction_spec handled
  exact ⟨auction, by rw [rows]; exact List.mem_append_right _ (List.mem_singleton_self _), same⟩

theorem handleLog_keeps (handled : AuctionableTokenIndexer.handleLog services db log = .ok next) :
    db.filecoinPayFeeAuction.rows ⊆ next.filecoinPayFeeAuction.rows := by
  rcases transfer_spec handled with rfl | ⟨chainTx, token, inserted⟩
  · exact List.Subset.refl _
  · obtain ⟨_, _, auction, rfl, rows, -⟩ := insertAuction_spec inserted
    rw [rows]
    exact List.subset_append_left _ _

theorem transfers_burns (updated : AuctionableTokenIndexer.updateDb services db logs = .ok next) :
    db.filecoinPayFeeAuction.rows ⊆ next.filecoinPayFeeAuction.rows ∧
      ∀ log ∈ logs, ∀ input, directBurn services log = some input →
        ∃ auction ∈ next.filecoinPayFeeAuction.rows, auction.toFilecoinPayFeeAuctionInput = input := by
  refine foldlM_induction updated (fun past next =>
    db.filecoinPayFeeAuction.rows ⊆ next.filecoinPayFeeAuction.rows ∧
      ∀ log ∈ past, ∀ input, directBurn services log = some input →
        ∃ auction ∈ next.filecoinPayFeeAuction.rows, auction.toFilecoinPayFeeAuctionInput = input) ⟨?_, nofun⟩ ?_
  · exact List.Subset.refl _
  · intro past log rest before after whole ⟨kept, burns⟩ handled
    have keeps := handleLog_keeps handled
    refine ⟨List.Subset.trans kept keeps, fun burned member input burn => ?_⟩
    rcases List.mem_append.mp member with earlier | here
    · obtain ⟨auction, stored, same⟩ := burns burned earlier input burn
      exact ⟨auction, keeps stored, same⟩
    · obtain rfl := List.mem_singleton.mp here
      exact handleLog_burn handled burn

end Burns

section Stored
variable {cfg : Deployment} {chain : Chain} {store next : Store} {indexer : Indexer} {packageMajorVersion : Nat}
  {parameters : IndexerRunParameters} {range : BlockRange} {contracts : List Address}
  {ranges : List (Address × BlockRange)}

def BurnsStored (cfg : Deployment) (chain : Chain) (store : Store) (ranges : List (Address × BlockRange)) : Prop :=
  ∀ address, chain.indexerOf address = .auctionableToken →
    ∀ log ∈ chain.transfers address, Held ranges address log.blockNumber →
      log.fromAddress.toLowerCase ∈ chain.listedFor cfg (cfg.quarterNum log.blockNumber) →
        ∀ input, directBurn chain.auctionServices log = some input →
          ∃ auction ∈ store.filecoinPayFeeAuction.rows, auction.toFilecoinPayFeeAuctionInput = input

theorem held_concat {address contract : Address} {block : Int}
    (held : Held (ranges ++ [(contract, range)]) address block) :
    Held ranges address block ∨ address = contract ∧ range.fromBlock ≤ block ∧ block ≤ range.toBlock := by
  obtain ⟨other, member, bounds⟩ := held
  rcases List.mem_append.mp member with old | new
  · exact Or.inl ⟨other, old, bounds⟩
  · cases List.mem_singleton.mp new
    exact Or.inr ⟨rfl, bounds⟩

theorem BurnsStored.other (stored : BurnsStored cfg chain store ranges)
    (committed : Committed cfg chain store indexer packageMajorVersion parameters range contracts next)
    (other : indexer ≠ .auctionableToken) (same : next.filecoinPayFeeAuction = store.filecoinPayFeeAuction) :
    BurnsStored cfg chain next (ranges ++ [(parameters.contractAddress, range)]) := by
  intro address isToken log logged held
  rw [same]
  refine stored address isToken log logged ((held_concat held).resolve_right fun here => other ?_)
  rw [← committed.planned.kind, ← here.1, isToken]

theorem BurnsStored.token (stored : BurnsStored cfg chain store ranges)
    (committed : Committed cfg chain store .auctionableToken packageMajorVersion parameters range contracts next)
    (knows : chain.knowsBurns cfg parameters.contractAddress contracts range) :
    BurnsStored cfg chain next (ranges ++ [(parameters.contractAddress, range)]) := by
  obtain ⟨updated, applied, same⟩ := committed.updated
  obtain ⟨kept, added⟩ := transfers_burns (batch_spec applied)
  rw [← same] at kept added
  intro address isToken log logged held listed input burn
  rcases held_concat held with earlier | ⟨rfl, bounds⟩
  · obtain ⟨auction, inRows, row⟩ := stored address isToken log logged earlier listed input burn
    exact ⟨auction, kept inRows, row⟩
  · have new : log ∈ (chain.logs .auctionableToken parameters.contractAddress).between range.fromBlock range.toBlock :=
      mem_between.mpr ⟨logged, bounds⟩
    have known := of_decide_eq_true (List.all_eq_true.mp knows log new) (by rw [burn]; rfl) listed
    exact added log (List.mem_filter.mpr ⟨new, decide_eq_true known⟩) input burn

theorem burnsStored_of_reached {s : Execution}
    (reached : chain.Reached cfg (fun s event => chain.burnsKnown cfg s event) s) :
    BurnsStored cfg chain s.store s.committed := by
  refine commit_induction (p := BurnsStored cfg chain) ?_ ?_ reached
  · exact fun _ _ _ _ ⟨_, member, _⟩ => (nomatch member)
  · intro s i answers indexer parameters awaited range contracts logs next before allows found writes committed stored
    obtain ⟨updated, applied, same⟩ := committed.updated
    cases indexer with
    | auctionableToken =>
        refine stored.token committed ?_
        unfold Chain.burnsKnown at allows
        dsimp only at allows
        rw [found, Option.all_some] at allows
        refine of_decide_eq_true allows ?_
        unfold Chain.perform
        dsimp only
        rw [writes]
        rfl
    | serviceRewardsActor =>
        refine stored.other committed nofun ?_
        rw [same]
        exact (actor_spec (batch_spec applied)).2.2
    | streamWeightActor =>
        refine stored.other committed nofun ?_
        rw [same, streamWeight_spec applied]
    | filecoinPayV1 =>
        refine stored.other committed nofun ?_
        obtain ⟨_, _, _, tables, -⟩ := filecoinPay_spec (batch_spec applied)
        rw [same, tables]

end Stored

section Listed
variable {cfg : Deployment} {chain : Chain} {services : TokenServices} {store : Store} {logs : List ServiceRewardsActorLog}
  {db next : DB} {head : Int}

def OpenContract (db : DB) (address : Address) : Prop :=
  ∃ c ∈ db.filecoinPayContract.rows, c.contractAddress = address ∧ c.removalEpoch = none

theorem history_of_replay (ordered : ChainOrdered logs)
    (run : logs.foldlM (handleOne cfg services) (DB.seeded cfg) = .ok db) :
    ∃ history : History, history.Reaches cfg db ∧ history.batches.flatMap Batch.serviceRewardsActorLogs = logs := by
  have same : (logs.map fun log => Batch.serviceRewardsActor services [log]).flatMap Batch.serviceRewardsActorLogs =
      logs := by
    rw [List.flatMap_map]
    exact List.flatMap_singleton' logs
  refine ⟨⟨logs.map fun log => .serviceRewardsActor services [log], same.symm ▸ ordered⟩, ?_, same⟩
  unfold History.Reaches indexAll
  rw [List.foldlM_map]
  exact run

theorem listed_of_replay (ordered : ChainOrdered logs)
    (run : logs.foldlM (handleOne cfg services) (DB.seeded cfg) = .ok db) : Agreement.Listed logs db := by
  obtain ⟨history, reached, same⟩ := history_of_replay ordered run
  have inv := Reachable.invariants_reached reached
  rw [same] at inv
  exact ⟨inv.contracts, inv.tokens⟩

theorem updatedAdmittedLists_open {past : List ServiceRewardsActorLog} {log : ServiceRewardsActorLog}
    {tokensMap : List (Address × ERC20Metadata)} {stablecoins filecoinPayContracts : List Address}
    (listed : Agreement.Listed past db) (later : ∀ earlier ∈ past, earlier.position < log.position)
    (updated : updatedAdmittedLists tokensMap db log stablecoins filecoinPayContracts = .ok next) (address : Address) :
    address ∈ filecoinPayContracts.map (·.toLowerCase) ↔ OpenContract next address := by
  have applied : Agreement.ListUpdate.apply db ⟨log, tokensMap, stablecoins, filecoinPayContracts⟩ = .ok next := updated
  have installs := (ListUpdates.installs_of_apply listed later applied).contracts
  refine (installs.opened address).trans ?_
  unfold OpenContract
  exact exists_congr fun c => and_congr_right fun _ => and_comm

theorem listedContracts_concat (past : List ServiceRewardsActorLog) {log : ServiceRewardsActorLog} :
    (∀ stablecoins filecoinPayContracts, log.event = .admittedListsUpdated stablecoins filecoinPayContracts →
      listedContracts (past ++ [log]) = filecoinPayContracts.map (·.toLowerCase)) ∧
    ((∀ stablecoins filecoinPayContracts, log.event ≠ .admittedListsUpdated stablecoins filecoinPayContracts) →
      listedContracts (past ++ [log]) = listedContracts past) := by
  unfold listedContracts
  rw [List.foldl_append, List.foldl_cons, List.foldl_nil]
  constructor
  · intro stablecoins filecoinPayContracts event
    rw [event]
  · intro other
    split
    · rename_i stablecoins filecoinPayContracts event
      exact absurd event (other stablecoins filecoinPayContracts)
    · rfl

theorem mem_listedContracts (ordered : ChainOrdered logs)
    (run : logs.foldlM (handleOne cfg services) (DB.seeded cfg) = .ok db) (address : Address) :
    address ∈ listedContracts logs ↔ OpenContract db address := by
  refine (foldlM_induction run (fun past db => past.foldlM (handleOne cfg services) (DB.seeded cfg) = .ok db ∧
    (address ∈ listedContracts past ↔ OpenContract db address)) ⟨rfl, ?_⟩ ?_).2
  · exact ⟨nofun, fun ⟨_, member, _⟩ => (nomatch member)⟩
  · intro past log rest before after whole ⟨earlier, same⟩ handled
    refine ⟨foldlM_append_eq_ok.mpr ⟨before, earlier, (foldlM_singleton _ _ _).trans handled⟩, ?_⟩
    obtain ⟨tokensMap, -, handled⟩ := handleOne_iff.mp handled
    rcases handleLog_lists handled with ⟨stablecoins, filecoinPayContracts, event, updated⟩ | ⟨other, kept, -⟩
    · rw [whole, ChainOrdered, List.pairwise_append] at ordered
      rw [(listedContracts_concat past).1 _ _ event]
      exact updatedAdmittedLists_open (listed_of_replay ordered.1 earlier)
        (fun other member => ordered.2.2 other member log List.mem_cons_self) updated address
    · rw [(listedContracts_concat past).2 other, same]
      unfold OpenContract
      rw [kept]

theorem open_of_asOf {q : Int} (ordered : ChainOrdered logs)
    (run : logs.foldlM (handleOne cfg services) (DB.seeded cfg) = .ok db)
    (closed : ∀ log ∈ logs, cfg.quarterNum log.blockNumber ≤ q) {c : FilecoinPayContract}
    (member : c ∈ db.filecoinPayContract.rows) (isOpen : cfg.endAsOf q c.removalEpoch = none) :
    c.removalEpoch = none := by
  have listings := (listed_of_replay ordered run).contracts
  have listed : c.listing ∈ db.filecoinPayContract.rows.map (·.listing) := List.mem_map_of_mem member
  rcases (listings.together _ listed).cases with ⟨none, -⟩ | ⟨stop, epoch, logIndex⟩
  · exact none
  · have stops : stop ∈ c.listing.span.stop := by
      unfold Listing.span
      rw [epoch, logIndex]
      rfl
    obtain ⟨log, inLogs, rfl⟩ := listings.ended _ listed stop stops
    have removed : c.removalEpoch = some log.blockNumber := epoch
    have known : cfg.knownBy q log.blockNumber := decide_eq_true (closed log inLogs)
    rw [removed, Config.endAsOf, Option.filter_some, if_pos known] at isOpen
    cases isOpen

theorem actorLogsUpTo_eq {quarterNum : Int} (q1 : 1 ≤ quarterNum) :
    chain.actorLogsUpTo (cfg.quarterEndEpoch (quarterNum - 1)) =
      (chain.logs .serviceRewardsActor chain.serviceRewardsActorAddress.toLowerCase).logs.filter
        fun log : ServiceRewardsActorLog => cfg.quarterNum log.blockNumber < quarterNum := by
  apply List.filter_congr
  intro log logged
  have deployed := chain.deployed .serviceRewardsActor _ log logged
  have closed := cfg.quarterNum_le_iff (show 0 ≤ quarterNum - 1 by omega) (Indexer.position .serviceRewardsActor log).epoch
  rw [Bool.eq_iff_iff, within_epoch, and_iff_right deployed, ← closed, decide_eq_true_eq]
  exact Int.le_sub_one_iff

theorem listed_of_admitted (synced : ActorSynced cfg chain store) (caughtUp : chain.CaughtUp store head) {epoch : Int}
    (reached : epoch ≤ head) {address : Address}
    (admitted : address ∈ (quarterFilecoinPayContracts cfg store.toDB (cfg.quarterNum epoch)).map (·.contractAddress)) :
    address ∈ chain.listedFor cfg (cfg.quarterNum epoch) := by
  obtain ⟨c, inRows, rfl, stands⟩ := Agreement.mem_quarterFilecoinPayContracts.mp admitted
  obtain ⟨earlier, notRemoved⟩ := of_decide_eq_true stands
  have q1 : 1 ≤ cfg.quarterNum epoch := by
    have := cfg.quarterNum_nonneg c.listing.start.epoch
    omega
  have closed := cfg.quarterNum_le_iff (show 0 ≤ cfg.quarterNum epoch - 1 by omega)
  have past : cfg.quarterEndEpoch (cfg.quarterNum epoch - 1) < epoch := by
    rw [← not_le, ← closed]
    omega
  obtain ⟨base, later, first, second, after⟩ := replayed_of_caughtUp synced caughtUp (past.le.trans reached)
  have kept := listsAsOf_replay (q := cfg.quarterNum epoch - 1) second fun log member => by
    rw [← not_le, closed, not_le]
    exact after log member
  have rows : (store.toDB.asOf cfg (cfg.quarterNum epoch - 1)).filecoinPayContract.rows =
      (base.asOf cfg (cfg.quarterNum epoch - 1)).filecoinPayContract.rows := congrArg (fun lists => lists.2.2) kept
  have known : cfg.knownBy (cfg.quarterNum epoch - 1) c.admittanceEpoch :=
    decide_eq_true (Int.le_sub_one_iff.mpr earlier)
  have stood : cfg.endAsOf (cfg.quarterNum epoch - 1) c.removalEpoch = none := by
    unfold Config.endAsOf
    rw [Option.filter_eq_none_iff]
    intro removalEpoch removed unknown
    change (c.removalEpoch.map cfg.quarterNum).all (cfg.quarterNum epoch ≤ ·) at notRemoved
    rw [removed, Option.map_some, Option.all_some, decide_eq_true_eq] at notRemoved
    have := of_decide_eq_true unknown
    omega
  have seen : c.asOf cfg (cfg.quarterNum epoch - 1) ∈
      (base.asOf cfg (cfg.quarterNum epoch - 1)).filecoinPayContract.rows := by
    rw [← rows]
    exact List.mem_map_of_mem (List.mem_filter.mpr ⟨inRows, known⟩)
  obtain ⟨early, listed, same⟩ := List.mem_map.mp seen
  have member := List.mem_of_mem_filter listed
  have address : early.contractAddress = c.contractAddress := by
    have asOf := congrArg FilecoinPayContract.contractAddress same
    exact asOf
  have ordered : ChainOrdered (chain.actorLogsUpTo (cfg.quarterEndEpoch (cfg.quarterNum epoch - 1))) :=
    (chain.numbered .serviceRewardsActor _).filter _
  have isOpen : early.removalEpoch = none := by
    refine open_of_asOf ordered first ?_ member ((congrArg FilecoinPayContract.removalEpoch same).trans stood)
    exact fun log inLogs => (closed _).mpr (mem_between.mp inLogs).2.2
  unfold Chain.listedFor
  rw [← actorLogsUpTo_eq q1]
  exact (mem_listedContracts ordered first _).mpr ⟨early, member, address, isOpen⟩

end Listed

section Missed
variable {cfg : Deployment} {chain : Chain} {s : Execution} {store : Store} {head : Int}

theorem past_of_caughtUp (caughtUp : chain.CaughtUp store head) {token : Address}
    (auctionable : token ∈ auctionableTokens store.toDB) (isERC20 : chain.isERC20 token.toLowerCase) :
    head < chain.firstLeft store token.toLowerCase := by
  have isIndexed : chain.isERC20 token.toLowerCase.toLowerCase := by rwa [Address.toLowerCase_toLowerCase]
  have run : chain.runParameters token.toLowerCase none ∈ chain.runsOf store .auctionableToken :=
    List.mem_filter.mpr ⟨List.mem_map.mpr ⟨token, List.mem_filter.mpr ⟨auctionable, chain.token_isAddress _ isERC20⟩,
      rfl⟩, isIndexed⟩
  have nothing := caughtUp .auctionableToken _ run
  change NothingToIndex _ (store.lastRun token.toLowerCase.toLowerCase) head at nothing
  rw [Address.toLowerCase_toLowerCase] at nothing
  rcases nothing with stopped | beyond
  · cases stopped
  · exact beyond

/-- No auction is missed where the committed batches of the tokens know the contracts of their burns. -/
theorem noneMissed_of_reached (cfg : Deployment) (chain : Chain) (s : Execution)
    (reached : chain.Reached cfg (fun s event => chain.burnsKnown cfg s event) s) (head : Int)
    (caughtUp : chain.CaughtUp s.store head) : chain.NoneMissed cfg s.store head := by
  have consistent := consistent_of_reached reached
  have stored := burnsStored_of_reached reached
  intro token auctionable isERC20 log logged upToHead admitted input burn
  have started := chain.deployed .auctionableToken token.toLowerCase log logged
  have held := consistent.filled.held started
    (upToHead.trans_lt (past_of_caughtUp caughtUp auctionable isERC20))
  exact stored token.toLowerCase (chain.token_indexer _ isERC20) log logged held
    (listed_of_admitted consistent.synced caughtUp upToHead admitted) input burn

end Missed

section Late
open Removals

def lateBurn : TransferLog := ⟨"0xd", 205, 0, "0x6", "0xe", "0x9", 105⟩

def listedLate : Chain :=
  sampleChain
    [⟨50, 0, "0x1", .admittedListsUpdated ["0xd"] ["0xf"]⟩, ⟨190, 0, "0x4", .admittedListsUpdated ["0xd"] ["0xe", "0xf"]⟩]
    [⟨"0xf", 60, 0, "0x2", .railCreated 1 "0x1" "0x3" "0xd" "0x2" "0x4"⟩]
    [lateBurn] (fun _ => ⟨some "0xe", "0x1a257300", 1⟩) (fun _ => .ok (.burnForFees "0xd" "0x9" 0))
    (by intro indexer; cases indexer <;> decide) (by intro indexer; cases indexer <;> decide) (by decide +kernel)
    (by decide +kernel)

def lateSchedule (check : Execution → listedLate.Event → Bool) (head : Int) : Option Execution :=
  schedule hundredEpochs listedLate check [fun | .serviceRewardsActor => 180 | _ => head, fun _ => 300]

def lateInput : FilecoinPayFeeAuctionInput := auctionInput lateBurn ⟨some "0xe", "0x1a257300", 1⟩ "0xd"

def auctionsSeen (s : Execution) : Bool × List Address × List Address × List FilecoinPayFeeAuctionInput :=
  (listedLate.CaughtUp s.store 300, auctionableTokens s.store.toDB,
    (quarterFilecoinPayContracts hundredEpochs s.store.toDB 2).map (·.contractAddress),
    s.store.filecoinPayFeeAuction.rows.map (·.toFilecoinPayFeeAuctionInput))

theorem seen_ahead : (lateSchedule (fun _ _ => true) 210).map auctionsSeen =
    some (true, ["0xd"], ["0xe", "0xf"], []) := by decide +kernel

theorem seen_behind : (lateSchedule (listedLate.burnsKnown hundredEpochs) 180).map auctionsSeen =
    some (true, ["0xd"], ["0xe", "0xf"], [lateInput]) := by decide +kernel

theorem exists_of_auctionsSeen {allowed : Execution → listedLate.Event → Prop}
    {check : Execution → listedLate.Event → Bool} (sound : ∀ s event, check s event → allowed s event) {head : Int}
    {auctions : List FilecoinPayFeeAuctionInput}
    (ran : (lateSchedule check head).map auctionsSeen = some (true, ["0xd"], ["0xe", "0xf"], auctions)) :
    ∃ s, listedLate.Reached hundredEpochs allowed s ∧ listedLate.CaughtUp s.store 300 ∧
      "0xd" ∈ auctionableTokens s.store.toDB ∧
      "0xe" ∈ (quarterFilecoinPayContracts hundredEpochs s.store.toDB 2).map (·.contractAddress) ∧
      s.store.filecoinPayFeeAuction.rows.map (·.toFilecoinPayFeeAuctionInput) = auctions := by
  obtain ⟨s, run, same⟩ := Option.map_eq_some_iff.mp ran
  obtain ⟨caughtUp, rest⟩ := Prod.mk.inj same
  obtain ⟨tokens, rest⟩ := Prod.mk.inj rest
  obtain ⟨contracts, rows⟩ := Prod.mk.inj rest
  refine ⟨s, reached_of_schedule sound run, of_decide_eq_true caughtUp, ?_, ?_, rows⟩
  · rw [tokens]
    exact List.mem_singleton_self _
  · rw [contracts]
    exact List.mem_cons_self

theorem noneMissed_of_reached_late : ∃ s : Execution, listedLate.CaughtUp s.store 300 ∧
    listedLate.NoneMissed hundredEpochs s.store 300 ∧
    s.store.filecoinPayFeeAuction.rows.map (·.toFilecoinPayFeeAuctionInput) = [lateInput] := by
  obtain ⟨s, reached, caughtUp, -, -, rows⟩ := exists_of_auctionsSeen (fun _ _ known => known) seen_behind
  exact ⟨s, caughtUp, noneMissed_of_reached hundredEpochs listedLate s reached 300 caughtUp, rows⟩

theorem late_auction_missed : ∃ s : Execution, listedLate.Reached hundredEpochs (fun _ _ => True) s ∧
    listedLate.CaughtUp s.store 300 ∧ "0xd" ∈ auctionableTokens s.store.toDB ∧
    lateBurn ∈ listedLate.transfers "0xd" ∧ lateBurn.blockNumber ≤ 300 ∧
    lateBurn.fromAddress ∈ (quarterFilecoinPayContracts hundredEpochs s.store.toDB
      (hundredEpochs.quarterNum lateBurn.blockNumber)).map (·.contractAddress) ∧
    directBurn listedLate.auctionServices lateBurn = some lateInput ∧ s.store.filecoinPayFeeAuction.rows = [] ∧
    ¬ listedLate.NoneMissed hundredEpochs s.store 300 := by
  obtain ⟨s, reached, caughtUp, token, contract, rows⟩ := exists_of_auctionsSeen (fun _ _ _ => trivial) seen_ahead
  have logged : lateBurn ∈ listedLate.transfers "0xd" := by decide +kernel
  have direct : directBurn listedLate.auctionServices lateBurn = some lateInput := by decide +kernel
  have empty : s.store.filecoinPayFeeAuction.rows = [] := List.map_eq_nil_iff.mp rows
  refine ⟨s, reached, caughtUp, token, logged, by decide, contract, direct, empty, ?_⟩
  intro noneMissed
  have lower : lateBurn.fromAddress.toLowerCase = "0xe" := by decide +kernel
  have quarter : hundredEpochs.quarterNum lateBurn.blockNumber = 2 := by decide +kernel
  obtain ⟨auction, stored, -⟩ := noneMissed "0xd" token (by decide +kernel) lateBurn (by decide +kernel) (by decide)
    (by rw [lower, quarter]; exact contract) _ direct
  rw [empty] at stored
  cases stored

end Late

end Proof.MissedAuctions
end FpvIndexer
