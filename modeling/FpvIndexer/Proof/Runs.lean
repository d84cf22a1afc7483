import FpvIndexer.Services.Execution
import FpvIndexer.Proof.Cursor
import FpvIndexer.Proof.Replay

namespace FpvIndexer
namespace Proof.Runs
open Relational Cursor Replay

section Answers
variable {cfg : Deployment} {chain : Chain} (services : chain.Services)

theorem maybeMetadataPair_answering {token : Address} {pair : Option (Address × ERC20Metadata)}
    (answered : maybeMetadataPair services.tokens token = .ok pair) :
    maybeMetadataPair chain.tokenServices token = .ok pair := by
  have known : pair = (chain.metadataOf token).map fun metadata => (token, metadata) := by
    unfold maybeMetadataPair at answered
    split at answered
    · rename_i metadata got
      rw [services.metadata token metadata got, ← Except.ok.inj answered]
      rfl
    · obtain ⟨isERC20, valid, answered⟩ := bind_eq_ok.mp answered
      have valid := services.valid token isERC20 valid
      split at answered
      · rename_i accepted
        rw [accepted] at valid
        obtain ⟨metadata, found⟩ := Option.isSome_iff_exists.mp valid.symm
        obtain ⟨decimals, gotDecimals, answered⟩ := bind_eq_ok.mp answered
        obtain ⟨symbol, gotSymbol, answered⟩ := bind_eq_ok.mp answered
        have details := services.details token metadata found
        rw [found, ← pure_eq_ok.mp answered, details.1 decimals gotDecimals, details.2 symbol gotSymbol]
        rfl
      · rename_i refused
        rw [Bool.eq_false_of_not_eq_true refused] at valid
        rw [Option.not_isSome_iff_eq_none.mp (Bool.eq_false_iff.mp valid.symm), ← pure_eq_ok.mp answered]
        rfl
  rw [known]
  unfold maybeMetadataPair Chain.tokenServices Chain.answering Chain.tokenDetail Chain.isERC20
  cases found : chain.metadataOf token <;> simp [found, bind, Except.bind, pure, Except.pure]

theorem updateDb_answering {store next : Store} {indexer : Indexer} {logs : List indexer.Log}
    (updated : chain.updateDb cfg services store indexer logs = .ok next) :
    chain.updateDb cfg chain.answering store indexer logs = .ok next := by
  cases indexer with
  | streamWeightActor => exact updated
  | filecoinPayV1 => exact updated
  | serviceRewardsActor =>
      obtain ⟨db, indexed, stored⟩ := bind_eq_ok.mp updated
      obtain ⟨tokensMap, fetched, handled⟩ := bind_eq_ok.mp indexed
      obtain ⟨pairs, mapped, collected⟩ := bind_eq_ok.mp fetched
      have mappedToo := mapM_eq_ok.mpr ((mapM_eq_ok.mp mapped).imp fun _ _ => maybeMetadataPair_answering services)
      exact bind_eq_ok.mpr ⟨db, bind_eq_ok.mpr ⟨tokensMap, bind_eq_ok.mpr ⟨pairs, mappedToo, collected⟩, handled⟩, stored⟩
  | auctionableToken =>
      obtain ⟨db, indexed, stored⟩ := bind_eq_ok.mp updated
      refine bind_eq_ok.mpr ⟨db, foldlM_imp indexed fun db log next handled => ?_, stored⟩
      obtain ⟨chainTx, got, handled⟩ := bind_eq_ok.mp handled
      obtain rfl := services.transaction _ _ got
      exact handled

theorem isERC20_answered {token : Address} {isERC20 : Bool} (answered : services.tokens.isERC20 token = .ok isERC20) :
    isERC20 = chain.isERC20 token := by
  unfold TokenServices.isERC20 at answered
  unfold Chain.isERC20
  split at answered
  · rename_i metadata got
    rw [services.metadata token metadata got, ← Except.ok.inj answered]
    rfl
  · exact services.valid token isERC20 answered

end Answers

section Performed
variable {cfg : Deployment} {chain : Chain} {answers : chain.Answers} {store : Store}

inductive Performed (cfg : Deployment) (chain : Chain) (answers : chain.Answers) (store : Store) :
    (run : ActiveRun) → Chain.Progress run.indexer → Prop
  | started {indexer : Indexer} {parameters : IndexerRunParameters} {awaited : Bool}
      (indexed : chain.isIndexed indexer parameters) :
      Performed cfg chain answers store ⟨indexer, parameters, awaited, .starts⟩ (.goesOn .plans)
  | skipped {indexer : Indexer} {parameters : IndexerRunParameters} {awaited : Bool}
      (other : ¬ chain.isIndexed indexer parameters) :
      Performed cfg chain answers store ⟨indexer, parameters, awaited, .starts⟩ .ends
  | planned {indexer : Indexer} {parameters : IndexerRunParameters} {awaited : Bool} {range : BlockRange}
      (plans : nextRange answers.config parameters (store.lastRun parameters.contractAddress) answers.heads =
        .ok (some range)) :
      Performed cfg chain answers store ⟨indexer, parameters, awaited, .plans⟩ (.goesOn (.fetches range))
  | finished {indexer : Indexer} {parameters : IndexerRunParameters} {awaited : Bool}
      (plans : nextRange answers.config parameters (store.lastRun parameters.contractAddress) answers.heads = .ok none) :
      Performed cfg chain answers store ⟨indexer, parameters, awaited, .plans⟩ .ends
  | fetched {indexer : Indexer} {parameters : IndexerRunParameters} {awaited : Bool} {range : BlockRange} :
      Performed cfg chain answers store ⟨indexer, parameters, awaited, .fetches range⟩
        (.goesOn (.writes range (filecoinPayAddresses store.toDB chain.isAddress)
          (chain.served indexer parameters.contractAddress (filecoinPayAddresses store.toDB chain.isAddress)
            range.fromBlock range.toBlock)))
  | wrote {indexer : Indexer} {parameters : IndexerRunParameters} {awaited : Bool} {range : BlockRange}
      {contracts : List Address} {logs : List indexer.Log} {next : Store}
      (writes : writeBatch (chain.indexer cfg indexer) answers.packageMajorVersion parameters store range logs
        answers.services answers.transaction = .ok next) :
      Performed cfg chain answers store ⟨indexer, parameters, awaited, .writes range contracts logs⟩
        (.commits range next)

theorem served_ordered (chain : Chain) (indexer : Indexer) (address : Address) (contracts : List Address)
    (fromBlock toBlock : Int) : (chain.served indexer address contracts fromBlock toBlock).Pairwise fun a b =>
      (indexer.place chain.transactionIndex).coordinates a < (indexer.place chain.transactionIndex).coordinates b := by
  have ordered := (chain.logs indexer address).ordered.filter
    ((indexer.place chain.transactionIndex).within fromBlock toBlock)
  cases indexer with
  | auctionableToken => exact ordered.filter _
  | serviceRewardsActor => exact ordered
  | streamWeightActor => exact ordered
  | filecoinPayV1 => exact ordered

theorem isIndexed_answered {services : chain.Services} {indexer : Indexer} {parameters : IndexerRunParameters}
    {indexed : Bool} (answered : services.isIndexed indexer parameters.contractAddress = .ok indexed) :
    indexed = chain.isIndexed indexer parameters := by
  cases indexer with
  | auctionableToken => exact isERC20_answered services answered
  | serviceRewardsActor => exact (Except.ok.inj answered).symm
  | streamWeightActor => exact (Except.ok.inj answered).symm
  | filecoinPayV1 => exact (Except.ok.inj answered).symm

theorem performed_of_perform {run : ActiveRun} {progress : Chain.Progress run.indexer}
    (performed : chain.perform cfg answers store run = .ok progress) : Performed cfg chain answers store run progress := by
  obtain ⟨indexer, parameters, awaited, phase⟩ := run
  cases phase with
  | starts =>
      obtain ⟨indexed, answered, performed⟩ := bind_eq_ok.mp performed
      have same := isIndexed_answered answered
      split at performed
      · rename_i isIndexed
        obtain ⟨-, -, performed⟩ := bind_eq_ok.mp performed
        cases performed
        exact .started (same ▸ isIndexed)
      · rename_i other
        cases performed
        exact .skipped (same ▸ other)
  | plans =>
      obtain ⟨-, -, performed⟩ := bind_eq_ok.mp performed
      obtain ⟨range, plans, performed⟩ := bind_eq_ok.mp performed
      cases range with
      | none =>
          cases performed
          exact .finished plans
      | some range =>
          cases performed
          exact .planned plans
  | fetches range =>
      obtain ⟨logs, -, performed⟩ := bind_eq_ok.mp performed
      cases performed
      have sorted := sortLogs_of_perm logs.property (served_ordered chain indexer parameters.contractAddress
        (filecoinPayAddresses store.toDB chain.isAddress) range.fromBlock range.toBlock)
      dsimp only [ActiveRun.contractAddress]
      rw [sorted]
      exact .fetched
  | writes range contracts logs =>
      obtain ⟨next, writes, performed⟩ := bind_eq_ok.mp performed
      cases performed
      exact .wrote writes

end Performed

section Steps
variable {cfg : Deployment} {chain : Chain} {s next : Execution}

inductive Stepped (cfg : Deployment) (chain : Chain) (s : Execution) : chain.Event → Execution → Prop
  | entered (event : chain.Event) (indexer : Indexer) (idle : s.stage = none ∨ ∀ run ∈ s.active, ¬ run.awaited) :
      Stepped cfg chain s event (chain.enters s indexer)
  | stopped (event : chain.Event) (idle : ∀ run ∈ s.active, ¬ run.awaited) :
      Stepped cfg chain s event { s with stage := none }
  | failed {i : Nat} {answers : chain.Answers} {run : ActiveRun} (found : s.active[i]? = some run) (awaited : run.awaited) :
      Stepped cfg chain s (.resume i answers)
        { s with stage := none, active := (s.active.eraseIdx i).map (·.unawaited) }
  | ended {i : Nat} {answers : chain.Answers} : Stepped cfg chain s (.resume i answers)
      { s with active := s.active.eraseIdx i }
  | moved {i : Nat} {answers : chain.Answers} {indexer : Indexer} {parameters : IndexerRunParameters} {awaited : Bool}
      {phase after : Phase indexer} (found : s.active[i]? = some ⟨indexer, parameters, awaited, phase⟩)
      (performed : Performed cfg chain answers s.store ⟨indexer, parameters, awaited, phase⟩ (.goesOn after)) :
      Stepped cfg chain s (.resume i answers)
        { s with active := s.active.set i ⟨indexer, parameters, awaited, after⟩ }
  | committed {i : Nat} {answers : chain.Answers} {indexer : Indexer} {parameters : IndexerRunParameters} {awaited : Bool}
      {range : BlockRange} {contracts : List Address} {logs : List indexer.Log} {store : Store}
      (found : s.active[i]? = some ⟨indexer, parameters, awaited, .writes range contracts logs⟩)
      (writes : writeBatch (chain.indexer cfg indexer) answers.packageMajorVersion parameters s.store range logs
        answers.services answers.transaction = .ok store) :
      Stepped cfg chain s (.resume i answers)
        { s with
          store
          active :=
            if range.keepRunning then s.active.set i ⟨indexer, parameters, awaited, .plans⟩ else s.active.eraseIdx i
          committed := s.committed ++ [(parameters.contractAddress, range)] }

theorem stepped_of_step {event : chain.Event} (done : chain.step cfg s event = some next) :
    Stepped cfg chain s event next := by
  have idle : ¬ s.active.any (·.awaited) → ∀ run ∈ s.active, ¬ run.awaited :=
    fun none run member awaited => none (List.any_eq_true.mpr ⟨run, member, awaited⟩)
  unfold Chain.step at done
  cases event with
  | start =>
      dsimp only at done
      split at done
      · rename_i notRunning
        cases done
        exact .entered _ _ (Or.inl (Option.isNone_iff_eq_none.mp notRunning))
      · cases done
  | throw =>
      dsimp only at done
      split at done
      · rename_i stopped
        cases done
        exact .stopped _ (idle stopped.2)
      · cases done
  | proceed =>
      dsimp only at done
      split at done
      · cases done
      · split at done
        · cases done
        · rename_i ended
          split at done
          · cases done
            exact .entered _ _ (Or.inr (idle ended))
          · cases done
            exact .stopped _ (idle ended)
  | resume i answers =>
      obtain ⟨run, found, done⟩ := Option.map_eq_some_iff.mp done
      subst done
      cases performed : chain.perform cfg answers s.store run with
      | error failure =>
          unfold Execution.after Execution.fails
          dsimp only
          split
          · rename_i awaited
            exact .failed found awaited
          · exact .ended
      | ok progress =>
          cases performed_of_perform performed with
          | started indexed => exact .moved found (.started indexed)
          | skipped => exact .ended
          | planned plans => exact .moved found (.planned plans)
          | finished => exact .ended
          | fetched => exact .moved found .fetched
          | wrote writes => exact .committed found writes

theorem reached_mono {allowed others : Execution → chain.Event → Prop}
    (allows : ∀ s event, allowed s event → others s event) (reached : chain.Reached cfg allowed s) :
    chain.Reached cfg others s := by
  induction reached with
  | migrated => exact .migrated
  | after event _ allowed stepped ih => exact .after event ih (allows _ _ allowed) stepped

theorem mem_set_cases {α : Type} {items : List α} {i : Nat} {new item : α} (member : item ∈ items.set i new) :
    item = new ∨ ∃ j ≠ i, items[j]? = some item := by
  obtain ⟨j, found⟩ := List.mem_iff_getElem?.mp member
  rw [List.getElem?_set] at found
  split at found
  · split at found
    · exact Or.inl (Option.some.inj found).symm
    · cases found
  · rename_i other
    exact Or.inr ⟨j, Ne.symm other, found⟩

theorem map_set_self {α β : Type} {f : α → β} {items : List α} {i : Nat} {old new : α} (found : items[i]? = some old)
    (same : f new = f old) : (items.set i new).map f = items.map f := by
  rw [List.map_set, same]
  obtain ⟨bound, rfl⟩ := List.getElem?_eq_some_iff.mp found
  rw [← List.getElem_map f (h := by rw [List.length_map]; exact bound), List.set_getElem_self]

theorem related_of_pairwise {α : Type} {R : α → α → Prop} (symm : ∀ a b, R a b → R b a) {items : List α}
    (pairwise : items.Pairwise R) {i j : Nat} (different : i ≠ j) {a b : α} (first : items[i]? = some a)
    (second : items[j]? = some b) : R a b := by
  obtain ⟨boundFirst, rfl⟩ := List.getElem?_eq_some_iff.mp first
  obtain ⟨boundSecond, rfl⟩ := List.getElem?_eq_some_iff.mp second
  have ordered := List.pairwise_iff_getElem.mp pairwise
  rcases Nat.lt_or_gt_of_ne different with before | after
  · exact ordered i j boundFirst boundSecond before
  · exact symm _ _ (ordered j i boundSecond boundFirst after)

end Steps

section Stages
variable {cfg : Deployment} {chain : Chain} {s next : Execution}

/-- The indexers that `execute` starts one run of and awaits alone. -/
def isActor : Indexer → Bool
  | .serviceRewardsActor => true
  | .streamWeightActor => true
  | .filecoinPayV1 => false
  | .auctionableToken => false

/-- The awaited runs are of the stage under way, and the run of an actor is always awaited and alone. -/
structure Stages (s : Execution) : Prop where
  stage : ∀ run ∈ s.active, run.awaited → s.stage = some run.indexer
  awaited : ∀ run ∈ s.active, isActor run.indexer → run.awaited
  alone : (s.active.map (·.indexer)).Pairwise fun indexer other => isActor indexer → indexer ≠ other

theorem Stages.different (stages : Stages s) {i j : Nat} (different : i ≠ j) {run other : ActiveRun}
    (found : s.active[i]? = some run) (foundToo : s.active[j]? = some other) (actor : isActor run.indexer) :
    run.indexer ≠ other.indexer := by
  refine related_of_pairwise ?_ stages.alone different (List.getElem?_map .. ▸ congrArg (Option.map _) found)
    (List.getElem?_map .. ▸ congrArg (Option.map _) foundToo) actor
  intro indexer other apart otherActor same
  exact apart (same ▸ otherActor) same.symm

theorem Stages.idle (stages : Stages s) (idle : s.stage = none ∨ ∀ run ∈ s.active, ¬ run.awaited) :
    ∀ run ∈ s.active, ¬ run.awaited := by
  rcases idle with none | idle
  · intro run member awaited
    rw [stages.stage run member awaited] at none
    cases none
  · exact idle

theorem indexers_enters (chain : Chain) (s : Execution) (indexer : Indexer) :
    (chain.enters s indexer).active.map (·.indexer) =
      s.active.map (·.indexer) ++ (chain.candidates s.store indexer).map fun _ => indexer := by
  unfold Chain.enters
  rw [List.map_append, List.map_map]
  rfl

theorem Stages.enters (stages : Stages s) (idle : ∀ run ∈ s.active, ¬ run.awaited) (indexer : Indexer) :
    Stages (chain.enters s indexer) := by
  have noActor : ∀ run ∈ s.active, ¬ isActor run.indexer := fun run member actor =>
    idle run member (stages.awaited run member actor)
  have cases : ∀ run ∈ (chain.enters s indexer).active, run ∈ s.active ∨ run.indexer = indexer ∧ run.awaited := by
    intro run member
    rcases List.mem_append.mp member with before | new
    · exact Or.inl before
    · obtain ⟨parameters, -, rfl⟩ := List.mem_map.mp new
      exact Or.inr ⟨rfl, rfl⟩
  constructor
  · intro run member awaited
    rcases cases run member with before | ⟨rfl, -⟩
    · exact absurd awaited (idle run before)
    · rfl
  · intro run member actor
    rcases cases run member with before | ⟨-, awaited⟩
    · exact absurd actor (noActor run before)
    · exact awaited
  · rw [indexers_enters, List.pairwise_append]
    refine ⟨stages.alone, ?_, ?_⟩
    · cases indexer with
      | serviceRewardsActor => exact List.pairwise_singleton _ _
      | streamWeightActor => exact List.pairwise_singleton _ _
      | filecoinPayV1 => exact List.pairwise_map.mpr (List.pairwise_of_forall fun _ _ => nofun)
      | auctionableToken => exact List.pairwise_map.mpr (List.pairwise_of_forall fun _ _ => nofun)
    · intro before member other _ actor
      obtain ⟨run, inActive, rfl⟩ := List.mem_map.mp member
      exact absurd actor (noActor run inActive)

theorem Stages.erase (stages : Stages s) (i : Nat) {store : Store} {committed : List (Address × BlockRange)} :
    Stages { s with store, active := s.active.eraseIdx i, committed } where
  stage := fun run member => stages.stage run (List.mem_of_mem_eraseIdx member)
  awaited := fun run member => stages.awaited run (List.mem_of_mem_eraseIdx member)
  alone := stages.alone.sublist ((List.eraseIdx_sublist _ _).map _)

theorem Stages.set (stages : Stages s) {i : Nat} {indexer : Indexer} {parameters : IndexerRunParameters} {awaited : Bool}
    {phase after : Phase indexer} (found : s.active[i]? = some ⟨indexer, parameters, awaited, phase⟩) {store : Store}
    {committed : List (Address × BlockRange)} :
    Stages { s with store, active := s.active.set i ⟨indexer, parameters, awaited, after⟩, committed } := by
  have before := List.mem_of_getElem? found
  constructor
  · intro run member
    rcases mem_set_cases member with rfl | ⟨j, -, there⟩
    · exact stages.stage ⟨indexer, parameters, awaited, phase⟩ before
    · exact stages.stage run (List.mem_of_getElem? there)
  · intro run member
    rcases mem_set_cases member with rfl | ⟨j, -, there⟩
    · exact stages.awaited ⟨indexer, parameters, awaited, phase⟩ before
    · exact stages.awaited run (List.mem_of_getElem? there)
  · have same : (s.active.set i ⟨indexer, parameters, awaited, after⟩).map (·.indexer) = s.active.map (·.indexer) :=
      map_set_self found rfl
    exact same.symm ▸ stages.alone

theorem Stages.failed (stages : Stages s) {i : Nat} {run : ActiveRun} (found : s.active[i]? = some run)
    (awaited : run.awaited) : Stages { s with stage := none, active := (s.active.eraseIdx i).map (·.unawaited) } := by
  have stage := stages.stage run (List.mem_of_getElem? found) awaited
  constructor
  · intro other member still
    obtain ⟨before, -, rfl⟩ := List.mem_map.mp member
    cases still
  · intro other member actor
    obtain ⟨before, inActive, rfl⟩ := List.mem_map.mp member
    obtain ⟨j, different, there⟩ := List.mem_eraseIdx_iff_getElem?.mp inActive
    have inStage := stages.stage before (List.mem_of_getElem? there)
      (stages.awaited before (List.mem_of_getElem? there) actor)
    rw [stage] at inStage
    exact absurd (Option.some.inj inStage).symm (stages.different different there found actor)
  · change ((((s.active.eraseIdx i).map (·.unawaited))).map (·.indexer)).Pairwise _
    rw [List.map_map]
    exact stages.alone.sublist ((List.eraseIdx_sublist _ _).map _)

theorem Stages.step (stages : Stages s) {event : chain.Event} (stepped : Stepped cfg chain s event next) :
    Stages next := by
  cases stepped with
  | entered _ indexer idle => exact stages.enters (stages.idle idle) indexer
  | stopped _ idle =>
      exact ⟨fun run member awaited => absurd awaited (idle run member), stages.awaited, stages.alone⟩
  | failed found awaited => exact stages.failed found awaited
  | ended => exact stages.erase _
  | moved found => exact stages.set found
  | @committed i answers indexer parameters awaited range contracts logs store found writes =>
      split
      · exact stages.set found
      · exact stages.erase i

end Stages

end Proof.Runs
end FpvIndexer
