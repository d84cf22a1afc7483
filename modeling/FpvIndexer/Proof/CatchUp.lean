import FpvIndexer.Proof.Cursor

namespace FpvIndexer
open Relational

structure Heights where
  currentHeight : Node → Int
  finalizedHeight : Node → Int

def Heights.heads (heights : Heights) : Heads where
  recentHead := .ok (heights.currentHeight .recent)
  currentHeight := fun node => .ok (heights.currentHeight node)
  finalizedHeight := fun node => .ok (heights.finalizedHeight node)

namespace Proof.CatchUp
open Cursor

section Specification
variable {ℓ τ : Type} (indexer : AbstractIndexer ℓ τ) {served : Store → Int → Int → List ℓ} (config : IndexerConfig)
  (packageMajorVersion : Nat) (parameters : IndexerRunParameters) (heights : Heights)

def selectedNode (fromBlock : Int) : Node :=
  if config.archiveRpcThreshold < heights.currentHeight .recent - fromBlock then .archive else .recent

def maxToBlock (node : Node) : Int :=
  config.finalizedHeightMaxDifference.elim (heights.finalizedHeight node) fun difference =>
    max (heights.finalizedHeight node) (heights.currentHeight node - difference)

structure Ended (ℓ : Type) where
  batches : List (IndexedBatch ℓ)
  store : Store
  fromBlock : Int

/-- The recursion of `run`, level by level, as long as no call fails; `none` if it needs more levels. -/
def complete : List (Recursion served τ parameters.contractAddress) → Store → Except Failure (Option (Ended ℓ))
  | [], _ => .ok none
  | recursion :: rest, store => do
      let store := recursion.others store
      match ← runBatch indexer config packageMajorVersion parameters store recursion.answers with
      | none => return some ⟨[], store, nextBlock parameters (store.lastRun parameters.contractAddress)⟩
      | some batch =>
          if batch.range.keepRunning then do
            let ended ← complete rest batch.store
            return ended.map fun ended => { ended with batches := batch :: ended.batches }
          else return some ⟨[batch], batch.store, batch.range.fromBlock⟩

def Within (range : BlockRange) : Prop :=
  range.fromBlock ≤ range.toBlock ∧ range.toBlock ≤ range.maxToBlock ∧
    range.maxToBlock = maxToBlock config heights (selectedNode config heights range.fromBlock)

/-- What is stored at the end: a block from `maxBlockNumber` on, one from the last of the node on, or nothing. -/
inductive CaughtUp (final : Store) (fromBlock : Int) : Prop
  | maxBlockNumber (maxBlockNumber endBlock : Int) (given : parameters.maxBlockNumber = some maxBlockNumber)
      (stored : final.lastRun parameters.contractAddress = some endBlock) (reached : maxBlockNumber ≤ endBlock)
  | maxToBlock (endBlock : Int) (stored : final.lastRun parameters.contractAddress = some endBlock)
      (reached : maxToBlock config heights (selectedNode config heights fromBlock) ≤ endBlock)
  | nothingIndexed (unstored : final.lastRun parameters.contractAddress = none)
      (above : maxToBlock config heights (selectedNode config heights fromBlock) < parameters.minBlockNumber)

end Specification

section Complete
variable {ℓ τ : Type} {indexer : AbstractIndexer ℓ τ} {served : Store → Int → Int → List ℓ} {config : IndexerConfig}
  {packageMajorVersion : Nat} {parameters : IndexerRunParameters} {heights : Heights} {store : Store}
  {recursions : List (Recursion served τ parameters.contractAddress)} {ended : Ended ℓ}

theorem run_of_complete
    (completed : complete indexer config packageMajorVersion parameters recursions store = .ok (some ended)) :
    run indexer config packageMajorVersion parameters recursions store = (ended.batches, ended.store) := by
  induction recursions generalizing store ended with
  | nil => cases completed
  | cons recursion rest ih =>
      obtain ⟨result, ran, completed⟩ := bind_eq_ok.mp completed
      unfold run
      dsimp only
      rw [ran]
      cases result with
      | none =>
          cases completed
          rfl
      | some batch =>
          dsimp only at completed ⊢
          by_cases again : batch.range.keepRunning
          · rw [if_pos again] at completed ⊢
            obtain ⟨later, further, completed⟩ := bind_eq_ok.mp completed
            cases later with
            | none => cases completed
            | some later =>
                cases completed
                rw [ih further]
          · rw [if_neg again] at completed ⊢
            cases completed
            rfl

theorem batchRange_cases {size : Int} (positive : 1 ≤ size) (fromBlock maxToBlock : Int) :
    batchRange size fromBlock maxToBlock = none ∧ maxToBlock < fromBlock ∨
      ∃ range, batchRange size fromBlock maxToBlock = some range ∧ range.fromBlock = fromBlock ∧
        range.maxToBlock = maxToBlock ∧ fromBlock ≤ range.toBlock ∧ range.toBlock ≤ maxToBlock := by
  unfold batchRange
  by_cases past : maxToBlock < fromBlock
  · exact .inl ⟨if_pos past, past⟩
  · rw [if_neg past]
    refine .inr ⟨_, rfl, rfl, rfl, ?_, ?_⟩
    · dsimp only
      split <;> omega
    · dsimp only
      split <;> omega

theorem nextRange_cases (config : IndexerConfig) (parameters : IndexerRunParameters) (heights : Heights)
    (store : Store) :
    nextRange config parameters (store.lastRun parameters.contractAddress) heights.heads = .ok none ∧
        CaughtUp config parameters heights store (nextBlock parameters (store.lastRun parameters.contractAddress)) ∨
      ∃ range, nextRange config parameters (store.lastRun parameters.contractAddress) heights.heads = .ok (some range) ∧
        range.fromBlock = nextBlock parameters (store.lastRun parameters.contractAddress) ∧
        Within config heights range := by
  unfold nextRange
  by_cases stops : parameters.maxBlockNumber.any fun maxBlockNumber =>
      (store.lastRun parameters.contractAddress).any (maxBlockNumber ≤ ·)
  · rw [if_pos stops]
    obtain ⟨maxBlockNumber, given, far⟩ := (Option.any_eq_true _ _).mp stops
    obtain ⟨endBlock, stored, reached⟩ := (Option.any_eq_true _ _).mp far
    exact .inl ⟨rfl, .maxBlockNumber maxBlockNumber endBlock given stored (of_decide_eq_true reached)⟩
  · rw [if_neg stops]
    let fromBlock := nextBlock parameters (store.lastRun parameters.contractAddress)
    let node := selectedNode config heights fromBlock
    rcases batchRange_cases (batchBlockSize_pos config node) fromBlock (maxToBlock config heights node) with
      ⟨empty, past⟩ | ⟨range, planned, starts, bound, nonempty, within⟩
    · refine .inl ⟨congrArg Except.ok empty, ?_⟩
      cases stored : store.lastRun parameters.contractAddress with
      | none =>
          refine .nothingIndexed stored ?_
          simpa [fromBlock, node, stored, nextBlock] using past
      | some endBlock =>
          refine .maxToBlock endBlock stored ?_
          simpa [fromBlock, node, stored, nextBlock, Int.lt_add_one_iff] using past
    · refine .inr ⟨range, congrArg Except.ok planned, starts, ?_⟩
      rw [Within, starts, bound]
      exact ⟨nonempty, within, rfl⟩

theorem runBatch_none {answers : Answers served τ}
    (ran : runBatch indexer config packageMajorVersion parameters store answers = .ok none) :
    nextRange config parameters (store.lastRun parameters.contractAddress) answers.heads = .ok none := by
  obtain ⟨-, -, ran⟩ := bind_eq_ok.mp ran
  obtain ⟨planned, range, ran⟩ := bind_eq_ok.mp ran
  cases planned with
  | none => exact range
  | some planned =>
      obtain ⟨logs, -, ran⟩ := bind_eq_ok.mp ran
      obtain ⟨-, -, ran⟩ := bind_eq_ok.mp ran
      obtain ⟨updated, -, ran⟩ := bind_eq_ok.mp ran
      cases ran

def remaining (config : IndexerConfig) (parameters : IndexerRunParameters) (heights : Heights) (store : Store) : Nat :=
  (max (maxToBlock config heights .recent) (maxToBlock config heights .archive) + 1 -
    nextBlock parameters (store.lastRun parameters.contractAddress)).toNat

theorem maxToBlock_le (config : IndexerConfig) (heights : Heights) (node : Node) :
    maxToBlock config heights node ≤ max (maxToBlock config heights .recent) (maxToBlock config heights .archive) := by
  cases node with
  | recent => exact le_max_left _ _
  | archive => exact le_max_right _ _

theorem remaining_decreases {batch : IndexedBatch ℓ} (within : Within config heights batch.range)
    (starts : batch.range.fromBlock = nextBlock parameters (store.lastRun parameters.contractAddress))
    (stored : batch.store.lastRun parameters.contractAddress = some batch.range.toBlock)
    (again : batch.range.keepRunning) :
    remaining config parameters heights batch.store < remaining config parameters heights store := by
  obtain ⟨nonempty, upTo, bound⟩ := within
  have below := maxToBlock_le config heights (selectedNode config heights batch.range.fromBlock)
  have differ : batch.range.maxToBlock ≠ batch.range.toBlock := of_decide_eq_true again
  unfold remaining
  rw [stored, ← starts]
  change (_ - (batch.range.toBlock + 1)).toNat < _
  omega

section Levels
variable {recursion : Recursion served τ parameters.contractAddress}
  {rest : List (Recursion served τ parameters.contractAddress)} {batch : IndexedBatch ℓ}

theorem complete_of_none (ran : runBatch indexer config packageMajorVersion parameters (recursion.others store)
    recursion.answers = .ok none) :
    complete indexer config packageMajorVersion parameters (recursion :: rest) store = .ok (some ⟨[], recursion.others store,
      nextBlock parameters ((recursion.others store).lastRun parameters.contractAddress)⟩) :=
  bind_eq_ok.mpr ⟨none, ran, rfl⟩

theorem complete_of_last (ran : runBatch indexer config packageMajorVersion parameters (recursion.others store)
    recursion.answers = .ok (some batch)) (last : ¬ batch.range.keepRunning) :
    complete indexer config packageMajorVersion parameters (recursion :: rest) store =
      .ok (some ⟨[batch], batch.store, batch.range.fromBlock⟩) :=
  bind_eq_ok.mpr ⟨some batch, ran, if_neg last⟩

theorem complete_of_again (ran : runBatch indexer config packageMajorVersion parameters (recursion.others store)
    recursion.answers = .ok (some batch)) (again : batch.range.keepRunning) :
    complete indexer config packageMajorVersion parameters (recursion :: rest) store = do
      let ended ← complete indexer config packageMajorVersion parameters rest batch.store
      return ended.map fun ended => { ended with batches := batch :: ended.batches } := by
  rw [complete, ran, ok_bind]
  exact if_pos again

end Levels

structure Answering (indexer : AbstractIndexer ℓ τ) (answers : Answers served τ) : Prop where
  lastRun : answers.lastRun = .ok ()
  getLogs : ∀ store fromBlock toBlock, ∃ logs, answers.getLogs store fromBlock toBlock = .ok logs
  transaction : answers.transaction = .ok ()
  updateDb : ∀ store logs, ∃ next, indexer.updateDb answers.services store logs = .ok next

theorem exists_runBatch {answers : Answers served τ} (answering : Answering indexer answers)
    (fixed : answers.heads = heights.heads) :
    ∃ result, runBatch indexer config packageMajorVersion parameters store answers = .ok result := by
  have planned : ∃ range, nextRange config parameters (store.lastRun parameters.contractAddress) answers.heads = .ok range := by
    rw [fixed]
    rcases nextRange_cases config parameters heights store with ⟨stops, -⟩ | ⟨range, planned, -⟩
    · exact ⟨none, stops⟩
    · exact ⟨some range, planned⟩
  obtain ⟨range, planned⟩ := planned
  unfold runBatch
  rw [answering.lastRun, ok_bind, planned, ok_bind]
  cases range with
  | none => exact ⟨none, rfl⟩
  | some range =>
      obtain ⟨logs, got⟩ := answering.getLogs store range.fromBlock range.toBlock
      obtain ⟨updated, applied⟩ := answering.updateDb store (sortLogs indexer.place logs.val)
      dsimp only
      unfold writeBatch
      rw [got, ok_bind, answering.transaction, ok_bind, applied, ok_bind]
      exact ⟨_, rfl⟩

theorem complete_ne_error (answering : ∀ recursion ∈ recursions, Answering indexer recursion.answers)
    (fixed : ∀ recursion ∈ recursions, recursion.answers.heads = heights.heads) (failure : Failure) :
    complete indexer config packageMajorVersion parameters recursions store ≠ .error failure := by
  induction recursions generalizing store with
  | nil => exact fun failed => by cases failed
  | cons recursion rest ih =>
      obtain ⟨answers, restAnswers⟩ := List.forall_mem_cons.mp answering
      obtain ⟨heads, restHeads⟩ := List.forall_mem_cons.mp fixed
      obtain ⟨result, ran⟩ : ∃ result, runBatch indexer config packageMajorVersion parameters (recursion.others store)
        recursion.answers = .ok result := exists_runBatch answers heads
      intro failed
      cases result with
      | none => cases failed.symm.trans (complete_of_none ran)
      | some batch =>
          by_cases again : batch.range.keepRunning
          · rw [complete_of_again ran again, bind_eq_error] at failed
            rcases failed with failed | ⟨ended, -, failed⟩
            · exact ih restAnswers restHeads failed
            · cases failed
          · cases failed.symm.trans (complete_of_last ran again)

theorem complete_ends (levels : Nat) (store : Store) (recursions : Nat → Recursion served τ parameters.contractAddress)
    (left : remaining config parameters heights store < levels)
    (fixed : ∀ level, (recursions level).answers.heads = heights.heads)
    (unfailing : ∀ count failure, complete indexer config packageMajorVersion parameters
      ((List.range count).map recursions) store ≠ .error failure) :
    ∃ count ended, complete indexer config packageMajorVersion parameters ((List.range count).map recursions) store =
        .ok (some ended) ∧
      (∀ batch ∈ ended.batches, Within config heights batch.range) ∧
      CaughtUp config parameters heights ended.store ended.fromBlock := by
  induction levels generalizing store recursions with
  | zero => omega
  | succ levels ih =>
      have same := (recursions 0).others_lastRun store
      have further : ∀ count, (List.range (count + 1)).map recursions =
          recursions 0 :: (List.range count).map fun level => recursions (level + 1) := by
        intro count
        rw [List.range_succ_eq_map, List.map_cons, List.map_map]
        rfl
      have found := nextRange_cases config parameters heights ((recursions 0).others store)
      cases ran : runBatch indexer config packageMajorVersion parameters ((recursions 0).others store)
          (recursions 0).answers with
      | error failure => exact absurd (bind_eq_error.mpr (.inl ran)) (unfailing 1 failure)
      | ok result =>
          cases result with
          | none =>
              refine ⟨1, _, complete_of_none ran, List.forall_mem_nil _, ?_⟩
              have planned := runBatch_none ran
              rw [fixed 0] at planned
              rcases found with ⟨-, caughtUp⟩ | ⟨range, other, -⟩
              · exact caughtUp
              · cases planned.symm.trans other
          | some batch =>
              obtain ⟨-, -, planned, -⟩ := runBatch_spec ran
              rw [fixed 0] at planned
              obtain ⟨starts, within⟩ : batch.range.fromBlock = nextBlock parameters
                  (((recursions 0).others store).lastRun parameters.contractAddress) ∧
                  Within config heights batch.range := by
                rcases found with ⟨stops, -⟩ | ⟨range, other, starts, within⟩
                · cases planned.symm.trans stops
                · cases planned.symm.trans other
                  exact ⟨starts, within⟩
              have stored := lastRun_runBatch ran
              by_cases again : batch.range.keepRunning
              · have closer := remaining_decreases within (same ▸ starts) stored again
                obtain ⟨count, ended, completed, all, caughtUp⟩ := ih batch.store (fun level => recursions (level + 1))
                  (by omega) (fun level => fixed (level + 1)) (by
                    intro count failure failed
                    apply unfailing (count + 1) failure
                    rw [further, complete_of_again ran again, failed]
                    rfl)
                refine ⟨count + 1, { ended with batches := batch :: ended.batches }, ?_, ?_, caughtUp⟩
                · rw [further, complete_of_again ran again, completed]
                  rfl
                · exact List.forall_mem_cons.mpr ⟨within, all⟩
              · refine ⟨1, _, complete_of_last ran again, List.forall_mem_singleton.mpr within, ?_⟩
                refine .maxToBlock batch.range.toBlock stored ?_
                have upTo : batch.range.maxToBlock = batch.range.toBlock := by simpa [BlockRange.keepRunning] using again
                exact within.2.2 ▸ upTo.le

end Complete

/-- With fixed heights and no failing call, the recursion ends, and what is stored then is far enough. -/
theorem run_catches_up {ℓ τ : Type} (indexer : AbstractIndexer ℓ τ) (served : Store → Int → Int → List ℓ)
    (config : IndexerConfig) (packageMajorVersion : Nat) (parameters : IndexerRunParameters) (heights : Heights)
    (store : Store) (recursions : Nat → Recursion served τ parameters.contractAddress)
    (fixed : ∀ level, (recursions level).answers.heads = heights.heads)
    (unfailing : ∀ count failure, complete indexer config packageMajorVersion parameters
      ((List.range count).map recursions) store ≠ .error failure) :
    ∃ count ended, complete indexer config packageMajorVersion parameters ((List.range count).map recursions) store =
        .ok (some ended) ∧
      run indexer config packageMajorVersion parameters ((List.range count).map recursions) store =
        (ended.batches, ended.store) ∧
      (∀ batch ∈ ended.batches, Within config heights batch.range) ∧
      CaughtUp config parameters heights ended.store ended.fromBlock := by
  obtain ⟨count, ended, completed, within, caughtUp⟩ := complete_ends _ store recursions (Nat.lt_succ_self _) fixed unfailing
  exact ⟨count, ended, completed, run_of_complete completed, within, caughtUp⟩

section Switch

def laggingArchive : Heights where
  currentHeight := fun node => if node = .archive then 2 else 4
  finalizedHeight := fun node => if node = .archive then 2 else 3

theorem oneBlock_pos : (1 : Int) ≤ 1 := le_rfl

def oneBlockBatches : IndexerConfig := ⟨2, none, 1, 1, oneBlock_pos, oneBlock_pos⟩

def answeringLevel (_ : Nat) : Recursion (fun _ => testLogs.between) Unit testContract.contractAddress where
  others := fun store => store
  others_lastRun := fun _ => rfl
  answers :=
    { lastRun := .ok ()
      heads := laggingArchive.heads
      getLogs := fun _ fromBlock toBlock => .ok ⟨testLogs.between fromBlock toBlock, List.Perm.refl _⟩
      services := ()
      transaction := .ok () }

theorem answeringLevel_answers (level : Nat) : Answering testIndexer (answeringLevel level).answers where
  lastRun := rfl
  getLogs := fun _ _ _ => ⟨_, rfl⟩
  transaction := rfl
  updateDb := fun _ _ => ⟨_, rfl⟩

theorem run_catches_up_laggingArchive : ∃ count ended,
    complete testIndexer oneBlockBatches 1 ⟨testContract, none⟩ ((List.range count).map answeringLevel) (.migrated none) =
        .ok (some ended) ∧
      run testIndexer oneBlockBatches 1 ⟨testContract, none⟩ ((List.range count).map answeringLevel) (.migrated none) =
        (ended.batches, ended.store) ∧
      (∀ batch ∈ ended.batches, Within oneBlockBatches laggingArchive batch.range) ∧
      CaughtUp oneBlockBatches ⟨testContract, none⟩ laggingArchive ended.store ended.fromBlock := by
  have answers : ∀ count, ∀ recursion ∈ (List.range count).map answeringLevel, Answering testIndexer recursion.answers :=
    fun _ => List.forall_mem_map.mpr fun level _ => answeringLevel_answers level
  have heads : ∀ count, ∀ recursion ∈ (List.range count).map answeringLevel,
      recursion.answers.heads = laggingArchive.heads := fun _ => List.forall_mem_map.mpr fun _ _ => rfl
  exact run_catches_up testIndexer (fun _ => testLogs.between) oneBlockBatches 1 ⟨testContract, none⟩ laggingArchive
    (.migrated none) answeringLevel (fun _ => rfl) fun count failure => complete_ne_error (answers count) (heads count) failure

end Switch

end Proof.CatchUp
end FpvIndexer
