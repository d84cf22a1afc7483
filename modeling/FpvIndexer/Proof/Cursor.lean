import FpvIndexer.Indexers.AbstractIndexer
import FpvIndexer.Relational.Scan

namespace FpvIndexer
namespace Proof.Cursor
open Relational

section Sorting
variable {α ℓ : Type} [LinearOrder α] (place : Place ℓ)

theorem compareNullableNumber_asc [DecidableLT α] (a b : WithBot α) :
    compareNullableNumber (α := α) a b .asc = -1 ∧ a < b ∨ compareNullableNumber (α := α) a b .asc = 0 ∧ a = b ∨
      compareNullableNumber (α := α) a b .asc = 1 ∧ b < a := by
  unfold compareNullableNumber
  cases a with
  | bot =>
      cases b with
      | bot => exact .inr (.inl ⟨rfl, rfl⟩)
      | coe b => exact .inl ⟨rfl, WithBot.bot_lt_coe b⟩
  | coe a =>
      cases b with
      | bot => exact .inr (.inr ⟨rfl, WithBot.bot_lt_coe a⟩)
      | coe b =>
          dsimp only
          rcases lt_trichotomy a b with lt | rfl | gt
          · exact .inl ⟨if_pos lt, WithBot.coe_lt_coe.mpr lt⟩
          · exact .inr (.inl ⟨by simp, rfl⟩)
          · exact .inr (.inr ⟨by simp [gt, gt.not_gt], WithBot.coe_lt_coe.mpr gt⟩)

theorem compareNullableNumber_nonpos [DecidableLT α] (a b : WithBot α) :
    compareNullableNumber (α := α) a b .asc ≤ 0 ↔ a ≤ b := by
  rcases compareNullableNumber_asc a b with ⟨order, lt⟩ | ⟨order, eq⟩ | ⟨order, gt⟩
  · simp [order, lt.le]
  · simp [order, eq.le]
  · simp [order, gt]

theorem ite_compareNullableNumber_nonpos [DecidableLT α] (a b : WithBot α) (next : Int) :
    (if compareNullableNumber (α := α) a b .asc ≠ 0 then compareNullableNumber (α := α) a b .asc else next) ≤ 0 ↔
      a < b ∨ a = b ∧ next ≤ 0 := by
  rcases compareNullableNumber_asc a b with ⟨order, lt⟩ | ⟨order, eq⟩ | ⟨order, gt⟩
  · simp [order, lt]
  · rw [if_neg (not_not.mpr order)]
    simp [eq]
  · simp [order, gt.not_gt, gt.ne']

theorem compareLogs_nonpos (a b : ℓ) : compareLogs place a b ≤ 0 ↔ place.coordinates a ≤ place.coordinates b := by
  unfold compareLogs Place.coordinates
  rw [Prod.Lex.toLex_le_toLex, Prod.Lex.toLex_le_toLex]
  refine (ite_compareNullableNumber_nonpos _ _ _).trans (or_congr Iff.rfl (and_congr Iff.rfl ?_))
  refine (ite_compareNullableNumber_nonpos _ _ _).trans (or_congr Iff.rfl (and_congr Iff.rfl ?_))
  exact compareNullableNumber_nonpos _ _

theorem sortLogs_eq_orderBy (logs : List ℓ) : sortLogs place logs = orderBy place.coordinates logs := by
  unfold sortLogs orderBy
  simp only [compareLogs_nonpos]

variable {place}

theorem sortLogs_of_perm {logs served : List ℓ} (perm : logs.Perm served)
    (ordered : served.Pairwise fun a b => place.coordinates a < place.coordinates b) : sortLogs place logs = served := by
  rw [sortLogs_eq_orderBy]
  exact orderBy_of_perm _ perm ordered

end Sorting

section Between
variable {ℓ : Type} {place : Place ℓ} (chain : ChainLogs place)

theorem within_iff {fromBlock toBlock : Int} {log : ℓ} :
    place.within fromBlock toBlock log ↔ ∃ n, place.blockNumber log = some n ∧ fromBlock ≤ n ∧ n ≤ toBlock := by
  unfold Place.within
  cases place.blockNumber log <;> simp

theorem between_empty {fromBlock toBlock : Int} (empty : toBlock < fromBlock) : chain.between fromBlock toBlock = [] := by
  apply List.filter_eq_nil_iff.mpr
  intro log _ within
  obtain ⟨n, -, lower, upper⟩ := within_iff.mp within
  omega

theorem up_to_block (middle : Int) (a b : ℓ) (lt : place.coordinates a < place.coordinates b)
    (before : (place.blockNumber b).all (· ≤ middle)) : (place.blockNumber a).all (· ≤ middle) := by
  have blocks := Prod.Lex.monotone_fst _ _ lt.le
  change @LE.le (WithBot Int) _ (place.blockNumber a) (place.blockNumber b) at blocks
  cases blockA : place.blockNumber a with
  | none => rfl
  | some m =>
      cases blockB : place.blockNumber b with
      | none =>
          rw [blockA, blockB] at blocks
          exact absurd blocks (WithBot.not_coe_le_bot m)
      | some n =>
          rw [blockA, blockB] at blocks
          rw [blockB] at before
          exact decide_eq_true ((WithBot.coe_le_coe.mp blocks).trans (of_decide_eq_true before))

theorem between_append {fromBlock middle toBlock : Int} (lower : fromBlock ≤ middle + 1) (upper : middle ≤ toBlock) :
    chain.between fromBlock middle ++ chain.between (middle + 1) toBlock = chain.between fromBlock toBlock := by
  have ordered : (chain.between fromBlock toBlock).Pairwise fun a b => place.coordinates a < place.coordinates b :=
    chain.ordered.filter _
  rw [eq_filter_append_filter (fun log => (place.blockNumber log).all (· ≤ middle)) ordered (up_to_block middle)]
  unfold ChainLogs.between
  rw [List.filter_filter, List.filter_filter]
  congr 1
  · apply List.filter_congr
    intro log _
    unfold Place.within
    cases place.blockNumber log with
    | none => rfl
    | some n => simp only [Option.any_some, Option.all_some]; grind
  · apply List.filter_congr
    intro log _
    unfold Place.within
    cases place.blockNumber log with
    | none => rfl
    | some n => simp only [Option.any_some, Option.all_some]; grind

end Between

section Batches
variable {ℓ τ : Type} {indexer : AbstractIndexer ℓ τ} {served : Store → Int → Int → List ℓ} {config : IndexerConfig}
  {packageMajorVersion : Nat} {parameters : IndexerRunParameters} {store : Store} {batch : IndexedBatch ℓ}

theorem batchBlockSize_pos (config : IndexerConfig) (node : Node) : 1 ≤ config.batchBlockSize node := by
  cases node with
  | recent => exact config.recentNodeBatchBlockSize_pos
  | archive => exact config.archiveNodeBatchBlockSize_pos

theorem batchRange_spec {batchBlockSize fromBlock maxToBlock : Int} {range : BlockRange} (size : 1 ≤ batchBlockSize)
    (planned : batchRange batchBlockSize fromBlock maxToBlock = some range) :
    range.fromBlock = fromBlock ∧ range.fromBlock ≤ range.toBlock := by
  unfold batchRange at planned
  split at planned
  · cases planned
  · cases planned
    refine ⟨rfl, ?_⟩
    dsimp only
    split <;> omega

theorem nextRange_spec {lastRun : Option Int} {heads : Heads} {range : BlockRange}
    (planned : nextRange config parameters lastRun heads = .ok (some range)) :
    range.fromBlock = nextBlock parameters lastRun ∧ range.fromBlock ≤ range.toBlock := by
  unfold nextRange at planned
  split at planned
  · cases planned
  · obtain ⟨recentHead, -, planned⟩ := bind_eq_ok.mp planned
    obtain ⟨currentHeight, -, planned⟩ := bind_eq_ok.mp planned
    obtain ⟨finalizedHeight, -, planned⟩ := bind_eq_ok.mp planned
    exact batchRange_spec (batchBlockSize_pos config _) (pure_eq_ok.mp planned)

theorem advances {lastRun : Option Int} {heads : Heads} {range : BlockRange}
    (planned : nextRange config parameters lastRun heads = .ok (some range)) (endBlock : Int)
    (last : lastRun = some endBlock) : endBlock < range.toBlock := by
  obtain ⟨next, nonempty⟩ := nextRange_spec planned
  rw [last] at next
  change range.fromBlock = endBlock + 1 at next
  omega

theorem upTo_next {place : Place ℓ} (chain : ChainLogs place) {minBlockNumber fromBlock toBlock : Int}
    {lastRun : Option Int} (next : fromBlock = lastRun.elim minBlockNumber (· + 1)) (nonempty : fromBlock ≤ toBlock)
    (started : ∀ endBlock, lastRun = some endBlock → minBlockNumber ≤ endBlock) :
    minBlockNumber ≤ toBlock ∧ chain.upTo minBlockNumber lastRun ++ chain.between fromBlock toBlock =
      chain.upTo minBlockNumber (some toBlock) := by
  rw [next]
  cases lastRun with
  | none =>
      refine ⟨?_, rfl⟩
      change fromBlock = minBlockNumber at next
      omega
  | some middle =>
      have lower := started middle rfl
      change fromBlock = middle + 1 at next
      exact ⟨by omega, between_append chain (by omega) (by omega)⟩

theorem upTo_range {place : Place ℓ} (chain : ChainLogs place) {lastRun : Option Int} {heads : Heads} {range : BlockRange}
    (planned : nextRange config parameters lastRun heads = .ok (some range))
    (started : ∀ endBlock, lastRun = some endBlock → parameters.minBlockNumber ≤ endBlock) :
    parameters.minBlockNumber ≤ range.toBlock ∧
      chain.upTo parameters.minBlockNumber lastRun ++ chain.between range.fromBlock range.toBlock =
        chain.upTo parameters.minBlockNumber (some range.toBlock) := by
  obtain ⟨next, nonempty⟩ := nextRange_spec planned
  exact upTo_next chain next nonempty started

theorem writeBatch_spec {next : Store} {range : BlockRange} {logs : List ℓ} {services : τ}
    {transaction : Except Failure Unit}
    (wrote : writeBatch indexer packageMajorVersion parameters store range logs services transaction = .ok next) :
    ∃ updated, indexer.updateDb services store logs = .ok updated ∧ next = updated.upsertIndexerState
      ⟨parameters.contractAddress.toLowerCase, range.toBlock, packageMajorVersion⟩ := by
  obtain ⟨-, -, wrote⟩ := bind_eq_ok.mp wrote
  obtain ⟨updated, applied, stored⟩ := bind_eq_ok.mp wrote
  exact ⟨updated, applied, (pure_eq_ok.mp stored).symm⟩

theorem runBatch_spec {answers : Answers served τ}
    (ran : runBatch indexer config packageMajorVersion parameters store answers = .ok (some batch)) :
    ∃ logs updated, nextRange config parameters (store.lastRun parameters.contractAddress) answers.heads =
        .ok (some batch.range) ∧
      logs.Perm (served store batch.range.fromBlock batch.range.toBlock) ∧ batch.logs = sortLogs indexer.place logs ∧
      indexer.updateDb answers.services store batch.logs = .ok updated ∧
      batch.store = updated.upsertIndexerState
        ⟨parameters.contractAddress.toLowerCase, batch.range.toBlock, packageMajorVersion⟩ := by
  unfold runBatch at ran
  obtain ⟨-, -, ran⟩ := bind_eq_ok.mp ran
  obtain ⟨planned, range, ran⟩ := bind_eq_ok.mp ran
  cases planned with
  | none => cases ran
  | some planned =>
      obtain ⟨logs, -, ran⟩ := bind_eq_ok.mp ran
      obtain ⟨stored, wrote, ran⟩ := bind_eq_ok.mp ran
      obtain ⟨updated, applied, same⟩ := writeBatch_spec wrote
      cases ran
      exact ⟨logs.val, updated, range, logs.property, rfl, applied, same⟩

theorem lastRun_upsert (updated : Store) (state : IndexerState) :
    (updated.upsertIndexerState state).lastRun state.contractAddress = some state.endBlock := by
  unfold Store.lastRun Store.upsertIndexerState
  rw [Table.lookup?_upsert_self]
  rfl

theorem lastRun_upsert_of_ne (updated : Store) {state : IndexerState} {contractAddress : Address}
    (other : contractAddress ≠ state.contractAddress) :
    (updated.upsertIndexerState state).lastRun contractAddress = updated.lastRun contractAddress := by
  unfold Store.lastRun Store.upsertIndexerState
  rw [Table.lookup?_upsert_of_ne _ other]

theorem lastRun_runBatch {answers : Answers served τ}
    (ran : runBatch indexer config packageMajorVersion parameters store answers = .ok (some batch)) :
    batch.store.lastRun parameters.contractAddress = some batch.range.toBlock := by
  obtain ⟨logs, updated, -, -, -, -, stored⟩ := runBatch_spec ran
  rw [stored, parameters.lowerCase]
  exact lastRun_upsert updated _

end Batches

section Histories
variable {ℓ τ : Type} {indexer : AbstractIndexer ℓ τ} (chain : ChainLogs indexer.place) (contract : IndexedContract)

/-- The logs applied so far are those up to the cursor. -/
structure Applied (applied : List ℓ) (lastRun : Option Int) : Prop where
  started : ∀ endBlock, lastRun = some endBlock → contract.minBlockNumber ≤ endBlock
  upTo : applied = chain.upTo contract.minBlockNumber lastRun

variable {chain contract}

theorem Applied.batch {config : IndexerConfig} {packageMajorVersion : Nat} {maxBlockNumber : Option Int}
    {store : Store} {batch : IndexedBatch ℓ} {applied : List ℓ} {answers : Answers (fun _ => chain.between) τ}
    (holds : Applied chain contract applied (store.lastRun contract.contractAddress))
    (ran : runBatch indexer config packageMajorVersion ⟨contract, maxBlockNumber⟩ store answers = .ok (some batch)) :
    Applied chain contract (applied ++ batch.logs) (some batch.range.toBlock) ∧
      ∀ endBlock, store.lastRun contract.contractAddress = some endBlock → endBlock < batch.range.toBlock := by
  obtain ⟨logs, updated, planned, perm, sorted, -, -⟩ := runBatch_spec ran
  obtain ⟨started, upTo⟩ := upTo_range chain planned holds.started
  refine ⟨⟨?_, ?_⟩, advances planned⟩
  · intro endBlock same
    cases same
    exact started
  · rw [holds.upTo, sorted, sortLogs_of_perm perm (chain.ordered.filter _)]
    exact upTo

inductive Indexes (indexer : AbstractIndexer ℓ τ) (served : Store → Int → Int → List ℓ) (contract : IndexedContract) :
    Store → List (IndexedBatch ℓ) → Store → Prop
  | done {store final : Store} (same : final.lastRun contract.contractAddress = store.lastRun contract.contractAddress) :
      Indexes indexer served contract store [] final
  | batch {store before final : Store} {batch : IndexedBatch ℓ} {later : List (IndexedBatch ℓ)} (config : IndexerConfig)
      (packageMajorVersion : Nat) (maxBlockNumber : Option Int) (answers : Answers served τ)
      (same : before.lastRun contract.contractAddress = store.lastRun contract.contractAddress)
      (ran : runBatch indexer config packageMajorVersion ⟨contract, maxBlockNumber⟩ before answers = .ok (some batch))
      (onward : Indexes indexer served contract batch.store later final) :
      Indexes indexer served contract store (batch :: later) final

section Runs
variable {served : Store → Int → Int → List ℓ} {store start final : Store} {batches more : List (IndexedBatch ℓ)}

theorem Indexes.of_lastRun (same : store.lastRun contract.contractAddress = start.lastRun contract.contractAddress)
    (indexes : Indexes indexer served contract store batches final) :
    Indexes indexer served contract start batches final := by
  cases indexes with
  | done kept => exact .done (kept.trans same)
  | batch config packageMajorVersion maxBlockNumber answers kept ran onward =>
      exact .batch config packageMajorVersion maxBlockNumber answers (kept.trans same) ran onward

theorem Indexes.append {last : Store} (first : Indexes indexer served contract start batches store)
    (second : Indexes indexer served contract store more last) :
    Indexes indexer served contract start (batches ++ more) last := by
  induction first with
  | done same => exact second.of_lastRun same
  | batch config packageMajorVersion maxBlockNumber answers same ran _ ih =>
      exact .batch config packageMajorVersion maxBlockNumber answers same ran (ih second)

variable (indexer contract)

theorem indexes_run (config : IndexerConfig) (packageMajorVersion : Nat) (maxBlockNumber : Option Int)
    (recursions : List (Recursion served τ contract.contractAddress)) (store : Store) :
    Indexes indexer served contract store
      (run indexer config packageMajorVersion ⟨contract, maxBlockNumber⟩ recursions store).1
      (run indexer config packageMajorVersion ⟨contract, maxBlockNumber⟩ recursions store).2 := by
  induction recursions generalizing store with
  | nil => exact .done rfl
  | cons recursion rest ih =>
      have same := recursion.others_lastRun store
      unfold run
      dsimp only
      split
      · rename_i batch ran
        split
        · exact .batch config packageMajorVersion maxBlockNumber recursion.answers same ran (ih batch.store)
        · exact .batch config packageMajorVersion maxBlockNumber recursion.answers same ran (.done rfl)
      · exact .done same

theorem indexes_runs (calls : List (RunCall served τ contract.contractAddress)) (store : Store) :
    ∃ final, Indexes indexer served contract store (runs indexer contract calls store) final := by
  induction calls generalizing store with
  | nil => exact ⟨store, .done rfl⟩
  | cons call rest ih =>
      have first := indexes_run indexer contract call.config call.packageMajorVersion call.maxBlockNumber
        call.recursions store
      obtain ⟨final, second⟩ := ih (run indexer call.config call.packageMajorVersion
        ⟨contract, call.maxBlockNumber⟩ call.recursions store).2
      exact ⟨final, first.append second⟩

end Runs

theorem applied_of_indexes {start final : Store} {batches : List (IndexedBatch ℓ)}
    (indexes : Indexes indexer (fun _ => chain.between) contract start batches final) {applied : List ℓ}
    (holds : Applied chain contract applied (start.lastRun contract.contractAddress)) {past rest : List (IndexedBatch ℓ)}
    {batch : IndexedBatch ℓ} (split : batches = past ++ batch :: rest) :
    ∃ endBlock, batch.store.lastRun contract.contractAddress = some endBlock ∧
      Applied chain contract (applied ++ (past ++ [batch]).flatMap (·.logs)) (some endBlock) ∧
      (∀ earlier, start.lastRun contract.contractAddress = some earlier → earlier < endBlock) ∧
      ∀ before ∈ past, ∃ earlier, before.store.lastRun contract.contractAddress = some earlier ∧ earlier < endBlock := by
  induction indexes generalizing past applied with
  | done => simp at split
  | @batch start before final first later config packageMajorVersion maxBlockNumber answers same ran _ ih =>
      rw [← same] at holds
      obtain ⟨appliedFirst, increases⟩ := holds.batch ran
      have last := lastRun_runBatch ran
      rw [same] at increases
      cases past with
      | nil =>
          obtain ⟨rfl, -⟩ := List.cons.inj split
          refine ⟨first.range.toBlock, last, ?_, increases, ?_⟩
          · simpa using appliedFirst
          · intro before member
            cases member
      | cons head past =>
          obtain ⟨rfl, tail⟩ := List.cons.inj split
          rw [← last] at appliedFirst
          obtain ⟨endBlock, current, appliedAll, beyond, beyondAll⟩ := ih appliedFirst tail
          have further := beyond _ last
          refine ⟨endBlock, current, ?_, ?_, ?_⟩
          · simpa using appliedAll
          · intro earlier stored
            exact (increases earlier stored).trans further
          · intro before member
            rcases List.mem_cons.mp member with rfl | member
            · exact ⟨_, last, further⟩
            · exact beyondAll before member

end Histories

section Once
variable {ℓ τ : Type}

structure TestLog where
  blockNumber : Int
  transactionIndex : Nat
  logIndex : Nat
deriving DecidableEq

def testIndexer : AbstractIndexer TestLog Unit where
  place := ⟨fun log => some log.blockNumber, fun log => some log.transactionIndex, fun log => some log.logIndex⟩
  updateDb := fun _ store _ => .ok store
  indexerState_updateDb := by
    intro _ store _ next updated
    cases updated
    rfl

def testLogs : ChainLogs testIndexer.place where
  logs := [⟨1, 0, 2⟩, ⟨1, 0, 4⟩, ⟨1, 1, 0⟩, ⟨2, 0, 0⟩]
  final := by decide
  ordered := by decide

def testContract : IndexedContract := ⟨"0x1", 1, by decide +kernel⟩

def testCall : RunCall (fun _ => testLogs.between) Unit testContract.contractAddress where
  config := ⟨0, none, 1, 1, by decide, by decide⟩
  packageMajorVersion := 1
  maxBlockNumber := none
  recursions := List.replicate 2
    { others := id
      others_lastRun := fun _ => rfl
      answers :=
        { lastRun := .ok ()
          heads := ⟨.ok 2, fun _ => .ok 2, fun _ => .ok 2⟩
          getLogs := fun _ fromBlock toBlock =>
            .ok ⟨(testLogs.between fromBlock toBlock).reverse, List.reverse_perm _⟩
          services := ()
          transaction := .ok () } }

end Once

end Proof.Cursor
end FpvIndexer
