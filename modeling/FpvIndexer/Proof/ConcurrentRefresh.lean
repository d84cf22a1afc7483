import FpvIndexer.Proof.Freshness
import FpvIndexer.Relational.Refresh

namespace FpvIndexer
namespace Proof.ConcurrentRefresh
open Relational Relational.Refresh Handlers Freshness

section Transactions

def auctionInput? (services : AuctionServices) (log : TransferLog) : Except Failure (Option FilecoinPayFeeAuctionInput) := do
  let chainTx ← services.getTransaction log.transactionHash
  match safeFilecoinPayV1Decode services chainTx.input with
  | some (.burnForFees token _ _) => do
      let _ ← decimal 78 0 log.value
      let _ ← decimal 78 0 chainTx.value
      return some (auctionInput log chainTx token)
  | _ => return none

structure TokenTransaction where
  services : AuctionServices
  logs : List TransferLog
  auctions : List FilecoinPayFeeAuction
  inserts : (logs.mapM (auctionInput? services)).map (·.filterMap id) =
    .ok (auctions.map (·.toFilecoinPayFeeAuctionInput))

theorem handleLog_inserts {services : AuctionServices} {db next : DB} {log : TransferLog}
    (handled : AuctionableTokenIndexer.handleLog services db log = .ok next) :
    ∃ added : Option FilecoinPayFeeAuction,
      auctionInput? services log = .ok (added.map (·.toFilecoinPayFeeAuctionInput)) ∧
      next.filecoinPayFeeAuction.rows = db.filecoinPayFeeAuction.rows ++ added.toList := by
  unfold AuctionableTokenIndexer.handleLog at handled
  obtain ⟨chainTx, fetched, handled⟩ := bind_eq_ok.mp handled
  split at handled
  · rename_i decoded
    obtain ⟨lot, lotFits, inserted⟩ := bind_eq_ok.mp handled
    obtain ⟨claim, claimFits, -⟩ := bind_eq_ok.mp inserted
    obtain ⟨auctions, mv, auction, rfl, rows, -, same, -⟩ := insertAuction_spec handled
    refine ⟨some auction, ?_, rows⟩
    unfold auctionInput?
    rw [fetched, ok_bind, decoded]
    dsimp only
    rw [lotFits, ok_bind, claimFits, ok_bind, Option.map_some, same]
    rfl
  · rename_i other
    obtain rfl := pure_eq_ok.mp handled
    refine ⟨none, ?_, (List.append_nil _).symm⟩
    unfold auctionInput?
    rw [fetched, ok_bind]
    split
    · rename_i decoded
      exact absurd decoded (other _ _ _)
    · rfl

theorem exists_transaction {services : AuctionServices} {logs : List TransferLog} {db next : DB}
    (updated : AuctionableTokenIndexer.updateDb services db logs = .ok next) : ∃ tx : TokenTransaction,
      tx.services = services ∧ tx.logs = logs ∧
        next.filecoinPayFeeAuction.rows = db.filecoinPayFeeAuction.rows ++ tx.auctions := by
  suffices rows : ∃ auctions : List FilecoinPayFeeAuction, (logs.mapM (auctionInput? services)).map (·.filterMap id) =
      .ok (auctions.map (·.toFilecoinPayFeeAuctionInput)) ∧
        next.filecoinPayFeeAuction.rows = db.filecoinPayFeeAuction.rows ++ auctions by
    obtain ⟨auctions, inserts, rows⟩ := rows
    exact ⟨⟨services, logs, auctions, inserts⟩, rfl, rfl, rows⟩
  unfold AuctionableTokenIndexer.updateDb at updated
  induction logs generalizing db with
  | nil =>
      cases updated
      exact ⟨[], rfl, (List.append_nil _).symm⟩
  | cons log rest ih =>
      rw [List.foldlM_cons, bind_eq_ok] at updated
      obtain ⟨mid, handled, onward⟩ := updated
      obtain ⟨added, input, here⟩ := handleLog_inserts handled
      obtain ⟨auctions, inputs, later⟩ := ih onward
      refine ⟨added.toList ++ auctions, ?_, by rw [later, here, List.append_assoc]⟩
      rw [List.mapM_cons, input, ok_bind]
      cases mapped : rest.mapM (auctionInput? services) with
      | error failure =>
          rw [mapped] at inputs
          cases inputs
      | ok others =>
          rw [mapped] at inputs
          have same : others.filterMap id = auctions.map (·.toFilecoinPayFeeAuctionInput) := Except.ok.inj inputs
          rw [ok_bind, List.map_append, ← same]
          cases added <;> rfl

end Transactions

section View

def withAuctions (db : DB) (auctions : Table FilecoinPayFeeAuction FilecoinPayFeeAuction.id) : DB :=
  { db with filecoinPayFeeAuction := auctions }

def evaluate (db : DB) (rows : List FilecoinPayFeeAuction) : Option (Table PricePeriod PricePeriod.ukey) :=
  match (Table.ofRows? rows : Option (Table FilecoinPayFeeAuction FilecoinPayFeeAuction.id)) with
  | none => none
  | some auctions =>
      match (withAuctions db auctions).refreshQualifiedPricePeriodsMv with
      | .ok next => some next.qualifiedPricePeriodsMv
      | .error _ => none

theorem evaluate_eq_some {db : DB} {rows : List FilecoinPayFeeAuction} {mv : Table PricePeriod PricePeriod.ukey} :
    evaluate db rows = some mv ↔ ∃ auctions : Table FilecoinPayFeeAuction FilecoinPayFeeAuction.id,
      auctions.rows = rows ∧ mv.rows = getQualifyingPricePeriods (withAuctions db auctions) := by
  constructor
  · intro evaluated
    unfold evaluate at evaluated
    split at evaluated
    · cases evaluated
    · rename_i auctions built
      split at evaluated
      · rename_i next refreshed
        obtain ⟨view, rfl, synced⟩ := refresh_eq_ok refreshed
        cases evaluated
        exact ⟨auctions, Table.ofRows?_rows built, synced⟩
      · cases evaluated
  · rintro ⟨auctions, rfl, synced⟩
    unfold evaluate DB.refreshQualifiedPricePeriodsMv
    rw [Table.ofRows?_self]
    dsimp only
    rw [← synced, Table.ofRows?_self]

/-- What `execute` finds when it starts the indexers of the tokens, with the view up to date. -/
structure Launch where
  db : DB
  fresh : Fresh db
  transactions : List TokenTransaction

def Launch.inserts (launch : Launch) (i : Fin launch.transactions.length) : List FilecoinPayFeeAuction :=
  (launch.transactions.get i).auctions

abbrev Launch.State (launch : Launch) : Type :=
  Refresh.State (Fin launch.transactions.length) FilecoinPayFeeAuction (Table PricePeriod PricePeriod.ukey)

def Launch.start (launch : Launch) : launch.State :=
  .start launch.db.filecoinPayFeeAuction.rows launch.db.qualifiedPricePeriodsMv launch.inserts

/-- All the auctions are committed, those from before and those of every transaction, and the view is theirs. -/
structure Launch.ViewOfAll (launch : Launch) (s : launch.State) : Prop where
  all : s.rows.Perm (launch.db.filecoinPayFeeAuction.rows ++ launch.transactions.flatMap (·.auctions))
  view : ∃ auctions : Table FilecoinPayFeeAuction FilecoinPayFeeAuction.id,
    auctions.rows = s.rows ∧ s.view.rows = getQualifyingPricePeriods (withAuctions launch.db auctions)

theorem viewOfAll_of_committed (launch : Launch) (s : launch.State)
    (reached : Reached (evaluate launch.db) Current launch.start s) (done : ∀ i, (s.txs i).committed) :
    launch.ViewOfAll s := by
  have initial : evaluate launch.db launch.db.filecoinPayFeeAuction.rows = some launch.db.qualifiedPricePeriodsMv :=
    evaluate_eq_some.mpr ⟨launch.db.filecoinPayFeeAuction, rfl, launch.fresh⟩
  have holds := invariant_of_reached (invariant_start initial launch.inserts) reached
  obtain ⟨order, committed⟩ := committed_of_reached reached
  refine ⟨(rows_perm committed done).trans (List.Perm.of_eq ?_), evaluate_eq_some.mp holds.fresh⟩
  unfold Launch.inserts
  rw [← List.flatMap_map, List.map_get_finRange]

end View

section Tokens
open PriceBand

def fiveAuctions : Table FilecoinPayFeeAuction FilecoinPayFeeAuction.id where
  rows := [auctionAt 1 110 100 1, auctionAt 2 111 90 1, auctionAt 3 112 110 1, auctionAt 4 113 80 1,
    auctionAt 5 114 120 1]
  nodup := by decide

def burnOf (token : Address) : AuctionServices where
  getTransaction _ := .ok ⟨some "0xf", "0x1a257300", 1⟩
  decodeFunctionData _ := .ok (.burnForFees token "0xb" 0)

def sixth : TokenTransaction where
  services := burnOf "0xd"
  logs := [⟨"0xd", 120, 0, "0x0", "0xf", "0xb", 105⟩]
  auctions := [auctionAt 6 120 105 1]
  inserts := by decide +kernel

def unlisted : TokenTransaction where
  services := burnOf "0xc"
  logs := [⟨"0xc", 121, 0, "0x0", "0xf", "0xb", 7⟩]
  auctions := [{ auctionAt 7 121 7 1 with tokenAddress := "0xc" }]
  inserts := by decide +kernel

def twoTokens : Launch where
  db := market fiveAuctions
  fresh := by unfold Fresh; decide +kernel
  transactions := [sixth, unlisted]

def bothWait : List (Event (Fin 2)) :=
  [.insert 0, .snapshot 0, .insert 1, .snapshot 1, .evaluate 0, .commit 0, .evaluate 1, .commit 1]

def oneByOne : List (Event (Fin 2)) :=
  [.insert 0, .insert 1, .snapshot 0, .evaluate 0, .commit 0, .snapshot 1, .evaluate 1, .commit 1]

theorem viewOfAll_oneByOne : ∃ s : twoTokens.State,
    oneByOne.foldlM (guarded (evaluate twoTokens.db) Current) twoTokens.start = some s ∧ twoTokens.ViewOfAll s ∧
      s.view.rows.map (·.epoch) = [120] := by
  obtain ⟨s, run, outcome⟩ := Option.map_eq_some_iff.mp (show
    (oneByOne.foldlM (guarded (evaluate twoTokens.db) Current) twoTokens.start).map (fun s : twoTokens.State =>
      (s.view.rows.map (·.epoch), decide (∀ i, (s.txs i).committed))) = some ([120], true)
    by decide +kernel)
  obtain ⟨view, committed⟩ := Prod.mk.inj outcome
  exact ⟨s, run, viewOfAll_of_committed twoTokens s (reached_of_guarded .here run) (of_decide_eq_true committed), view⟩

def sevenAuctions : Table FilecoinPayFeeAuction FilecoinPayFeeAuction.id where
  rows := fiveAuctions.rows ++ sixth.auctions ++ unlisted.auctions
  nodup := by decide

theorem bothWait_stale : ¬ ∀ (launch : Launch) (s : launch.State),
    Reached (evaluate launch.db) (fun _ _ => True) launch.start s → (∀ i, (s.txs i).committed) → launch.ViewOfAll s := by
  intro always
  obtain ⟨s, run, outcome⟩ := Option.map_eq_some_iff.mp (show
    (bothWait.foldlM (guarded (evaluate twoTokens.db) fun _ _ => True) twoTokens.start).map (fun s : twoTokens.State =>
      (s.view.rows.map (·.epoch), s.rows, decide (∀ i, (s.txs i).committed))) = some ([], sevenAuctions.rows, true)
    by decide +kernel)
  obtain ⟨view, rest⟩ := Prod.mk.inj outcome
  obtain ⟨rows, committed⟩ := Prod.mk.inj rest
  obtain ⟨auctions, stored, fresh⟩ :=
    (always twoTokens s (reached_of_guarded .here run) (of_decide_eq_true committed)).view
  obtain rfl : auctions = sevenAuctions := Table.ext (stored.trans rows)
  -- the sixth auction qualifies, and its refresh is the one that was overwritten
  have qualified : (getQualifyingPricePeriods (withAuctions twoTokens.db sevenAuctions)).map (·.epoch) = [120] := by
    decide +kernel
  rw [← fresh, view] at qualified
  cases qualified

end Tokens
end Proof.ConcurrentRefresh
end FpvIndexer
