import FpvIndexer.Proof.GateTargets

namespace FpvIndexer
open Relational

namespace Chain
variable (cfg : Deployment) (chain : Chain)

inductive Steps (allowed : Execution → chain.Event → Prop) (first : Execution) : Execution → Prop
  | none : Steps allowed first first
  | after {s next : Execution} (event : chain.Event) (steps : Steps allowed first s) (allows : allowed s event)
      (stepped : chain.step cfg s event = some next) : Steps allowed first next

/-- A step of a call in which no call of a node or of the database fails and all nodes have finalized this head. -/
def Undisturbed (head : Int) (s : Execution) : chain.Event → Prop
  | .resume i answers =>
      (∀ run, s.active[i]? = some run → ∃ progress, chain.perform cfg answers s.store run = .ok progress) ∧
        ∀ node finalizedHeight, answers.heads.finalizedHeight node = .ok finalizedHeight → head ≤ finalizedHeight
  | .proceed => True
  | .start => False
  | .throw => False

end Chain

def Indexer.stage : Indexer → Nat
  | serviceRewardsActor => 0
  | streamWeightActor => 1
  | filecoinPayV1 => 2
  | auctionableToken => 3

namespace Proof.WholeCalls
open Cursor Runs Commits Schedules

section Stages
variable {cfg : Deployment} {chain : Chain} {indexer : Indexer} {packageMajorVersion : Nat}
  {parameters : IndexerRunParameters} {range : BlockRange} {contracts : List Address} {store next : Store} {head : Int}

theorem stage_next {indexer following : Indexer} (next : indexer.next? = some following) :
    following.stage = indexer.stage + 1 := by
  cases indexer <;> cases next <;> rfl

theorem stage_last {indexer : Indexer} (last : indexer.next? = none) (other : Indexer) : other.stage ≤ indexer.stage := by
  cases indexer <;> cases last
  cases other <;> decide

theorem stage_injective {indexer other : Indexer} (same : indexer.stage = other.stage) : indexer = other := by
  cases indexer <;> cases other <;> first | rfl | cases same

theorem runsOf_committed
    (committed : Committed cfg chain store indexer packageMajorVersion parameters range contracts next)
    {earlier : Indexer} (stage : earlier.stage ≤ indexer.stage) : chain.runsOf next earlier = chain.runsOf store earlier := by
  obtain ⟨updated, applied, same⟩ := committed.updated
  cases earlier with
  | serviceRewardsActor => rfl
  | streamWeightActor => rfl
  | filecoinPayV1 =>
      have actor := actor_frame applied (fun same => by rw [same] at stage; exact absurd stage (by decide))
      have listed : next.filecoinPayContract = store.filecoinPayContract := by
        rw [same]
        exact congrArg (·.filecoinPayContract) actor
      unfold Chain.runsOf Chain.candidates filecoinPayContracts
      rw [listed]
  | auctionableToken =>
      have rails := (payments_frame applied (fun same => by rw [same] at stage; exact absurd stage (by decide))).1
      unfold Chain.runsOf Chain.candidates auctionableTokens
      rw [same, rails]

theorem NothingToIndex.later {lastRun : Option Int} {endBlock : Int} (nothing : NothingToIndex parameters lastRun head)
    (further : ∀ before, lastRun = some before → before ≤ endBlock) (started : parameters.minBlockNumber ≤ endBlock) :
    NothingToIndex parameters (some endBlock) head := by
  unfold NothingToIndex nextBlock at nothing ⊢
  cases lastRun with
  | none =>
      rcases nothing with stopped | beyond
      · cases given : parameters.maxBlockNumber with
        | none => simp [given] at stopped
        | some maxBlockNumber => simp [given] at stopped
      · change head < parameters.minBlockNumber at beyond
        exact Or.inr (show head < endBlock + 1 by omega)
  | some before =>
      have le := further before rfl
      refine nothing.imp ?_ fun beyond => ?_
      · cases parameters.maxBlockNumber with
        | none => exact id
        | some maxBlockNumber =>
            simp only [Option.any_some, decide_eq_true_iff]
            exact le.trans'
      · change head < before + 1 at beyond
        change head < endBlock + 1
        omega

theorem nothing_of_committed
    (committed : Committed cfg chain store indexer packageMajorVersion parameters range contracts next)
    (continues : range.fromBlock = chain.firstLeft store parameters.contractAddress) {other : IndexerRunParameters}
    (deployment : other.minBlockNumber = chain.getContractDeploymentEpoch other.contractAddress)
    (nothing : NothingToIndex other (store.lastRun other.contractAddress) head) :
    NothingToIndex other (next.lastRun other.contractAddress) head := by
  by_cases own : other.contractAddress = parameters.contractAddress
  · rw [own] at nothing deployment ⊢
    rw [committed.own]
    refine NothingToIndex.later nothing (fun endBlock last => ?_) (deployment ▸ committed.endsStarted)
    have nonempty := committed.nonempty
    unfold Chain.firstLeft at continues
    rw [last] at continues
    change range.fromBlock = endBlock + 1 at continues
    omega
  · rw [committed.others _ own]
    exact nothing

theorem rail_token_lower {ranges : List (Address × BlockRange)} (tables : Tables chain store ranges)
    {row : FilecoinPayRail} (stored : row ∈ store.filecoinPayRail.rows) : row.token.toLowerCase = row.token := by
  have own : row ∈ store.filecoinPayRail.rows.filter
      (·.filecoinPayContractAddress = row.filecoinPayContractAddress) := List.mem_filter.mpr ⟨stored, decide_eq_true rfl⟩
  rw [tables.rails _ (tables.railKinds row stored)] at own
  obtain ⟨log, -, built⟩ := List.mem_filterMap.mp own
  unfold railInput at built
  split at built
  · cases built
    exact Address.toLowerCase_toLowerCase _
  · cases built

theorem candidates_nodup (synced : ActorSynced cfg chain store) {ranges : List (Address × BlockRange)}
    (tables : Tables chain store ranges) (indexer : Indexer) :
    ((chain.candidates store indexer).map (·.contractAddress)).Nodup := by
  cases indexer with
  | serviceRewardsActor => exact List.nodup_singleton _
  | streamWeightActor => exact List.nodup_singleton _
  | filecoinPayV1 =>
      have same : (chain.candidates store .filecoinPayV1).map (·.contractAddress) =
          ((filecoinPayContracts store.toDB).filter fun c => chain.isAddress c.1.toLowerCase).map Prod.fst := by
        unfold Chain.candidates
        rw [List.map_map]
        refine List.map_congr_left fun entry member => ?_
        obtain ⟨c, inRows, address, -⟩ := mem_filecoinPayContracts (List.mem_of_mem_filter member)
        change entry.1.toLowerCase.toLowerCase = entry.1
        rw [Address.toLowerCase_toLowerCase, ← address, (synced.listed c inRows).1]
      rw [same]
      exact List.pairwise_map.mpr ((distinctOn_pairwise _ _).filter _)
  | auctionableToken =>
      have same : (chain.candidates store .auctionableToken).map (·.contractAddress) =
          (auctionableTokens store.toDB).filter fun token => chain.isAddress token.toLowerCase := by
        unfold Chain.candidates
        rw [List.map_map]
        refine (List.map_congr_left fun token member => ?_).trans (List.map_id _)
        obtain ⟨row, inRows, rfl⟩ := List.mem_map.mp (mem_distinctOn_id.mp (List.mem_of_mem_filter member))
        change row.token.toLowerCase.toLowerCase = row.token
        rw [Address.toLowerCase_toLowerCase, rail_token_lower tables (List.mem_of_mem_filter inRows)]
      rw [same]
      exact (distinctOn_pairwise _ _).filter _

theorem nothing_of_nextRange {config : IndexerConfig} {lastRun : Option Int} {heads : Heads}
    (finalized : ∀ node finalizedHeight, heads.finalizedHeight node = .ok finalizedHeight → head ≤ finalizedHeight)
    {range : Option BlockRange} (planned : nextRange config parameters lastRun heads = .ok range) :
    match range with
    | none => NothingToIndex parameters lastRun head
    | some range => range.keepRunning = false → head ≤ range.toBlock := by
  unfold nextRange at planned
  split at planned
  · rename_i stopped
    cases planned
    exact Or.inl stopped
  · obtain ⟨recentHead, -, planned⟩ := bind_eq_ok.mp planned
    obtain ⟨currentHeight, -, planned⟩ := bind_eq_ok.mp planned
    obtain ⟨finalizedHeight, height, planned⟩ := bind_eq_ok.mp planned
    have above : head ≤ config.finalizedHeightMaxDifference.elim finalizedHeight fun difference =>
        max finalizedHeight (currentHeight - difference) := by
      have le := finalized _ _ height
      cases config.finalizedHeightMaxDifference with
      | none => exact le
      | some difference => exact le.trans (le_max_left _ _)
    have ranged := pure_eq_ok.mp planned
    unfold batchRange at ranged
    split at ranged
    · rename_i empty
      subst ranged
      exact Or.inr (above.trans_lt empty)
    · subst ranged
      intro ended
      unfold BlockRange.keepRunning at ended
      have reached := not_not.mp (of_decide_eq_false ended)
      exact reached ▸ above

end Stages

section Calls
variable {cfg : Deployment} {chain : Chain} {head : Int} {s next : Execution}

structure OfCall (head : Int) (run : ActiveRun) : Prop where
  awaited : run.awaited
  last : ∀ range, run.range? = some range → range.keepRunning = false → head ≤ range.toBlock

/-- The contracts of the stages before this one are caught up, and those of this one are, but for its runs. -/
structure Progress (chain : Chain) (head : Int) (s : Execution) : Prop where
  runs : ∀ run ∈ s.active, OfCall head run
  distinct : (s.active.map (·.contractAddress)).Nodup
  continues : ∀ run ∈ s.active, Continues chain s.store run
  done : ∀ indexer, (∀ current, s.stage = some current → indexer.stage < current.stage) →
    ∀ parameters ∈ chain.runsOf s.store indexer,
      NothingToIndex parameters (s.store.lastRun parameters.contractAddress) head
  current : ∀ indexer, s.stage = some indexer → ∀ parameters ∈ chain.runsOf s.store indexer,
    parameters ∉ s.active.map (·.parameters) →
      NothingToIndex parameters (s.store.lastRun parameters.contractAddress) head

theorem caughtUp_of_progress (progress : Progress chain head s) (ended : s.stage = none) :
    chain.CaughtUp s.store head := by
  intro indexer parameters member
  refine progress.done indexer ?_ parameters member
  intro current running
  rw [ended] at running
  cases running

theorem Progress.enters (consistent : Consistent cfg chain s) (tables : Tables chain s.store s.committed)
    (ended : s.active = []) {indexer : Indexer}
    (done : ∀ earlier : Indexer, earlier.stage < indexer.stage → ∀ parameters ∈ chain.runsOf s.store earlier,
      NothingToIndex parameters (s.store.lastRun parameters.contractAddress) head) :
    Progress chain head (chain.enters s indexer) := by
  have active : (chain.enters s indexer).active = (chain.candidates s.store indexer).map fun parameters =>
      ⟨indexer, parameters, true, .starts⟩ := by
    unfold Chain.enters
    rw [ended]
    rfl
  constructor
  · intro run member
    rw [active] at member
    obtain ⟨parameters, -, rfl⟩ := List.mem_map.mp member
    exact ⟨rfl, nofun⟩
  · rw [active, List.map_map]
    exact candidates_nodup consistent.synced tables indexer
  · intro run member
    rw [active] at member
    obtain ⟨parameters, -, rfl⟩ := List.mem_map.mp member
    exact nofun
  · exact fun earlier before => done earlier (before indexer rfl)
  · intro current same parameters member left
    cases same
    rw [active, List.map_map] at left
    exact absurd (List.mem_map.mpr ⟨parameters, List.mem_of_mem_filter member, rfl⟩) left

theorem Progress.proceed (progress : Progress chain head s) (consistent : Consistent cfg chain s)
    (tables : Tables chain s.store s.committed) (stepped : chain.step cfg s .proceed = some next) :
    Progress chain head next := by
  unfold Chain.step at stepped
  dsimp only at stepped
  split at stepped
  · cases stepped
  rename_i indexer running
  split at stepped
  · cases stepped
  rename_i idle
  have ended : s.active = [] := List.eq_nil_iff_forall_not_mem.mpr fun run member =>
    idle (List.any_eq_true.mpr ⟨run, member, (progress.runs run member).awaited⟩)
  have finished : ∀ earlier : Indexer, earlier.stage ≤ indexer.stage → ∀ parameters ∈ chain.runsOf s.store earlier,
      NothingToIndex parameters (s.store.lastRun parameters.contractAddress) head := by
    intro earlier le parameters member
    rcases le.lt_or_eq with before | same
    · refine progress.done earlier (fun current runningToo => ?_) parameters member
      rw [running] at runningToo
      cases runningToo
      exact before
    · obtain rfl := stage_injective same
      refine progress.current earlier running parameters member ?_
      rw [ended]
      exact List.not_mem_nil
  split at stepped
  · rename_i following onward
    cases stepped
    refine Progress.enters consistent tables ended fun earlier before => finished earlier ?_
    rw [stage_next onward] at before
    exact Nat.le_of_lt_succ before
  · rename_i last
    cases stepped
    exact ⟨progress.runs, progress.distinct, progress.continues, fun earlier _ => finished earlier (stage_last last earlier),
      nofun⟩

section Resumed
variable {i : Nat} {indexer : Indexer} {parameters : IndexerRunParameters} {awaited : Bool} {phase after : Phase indexer}

theorem Progress.moved (progress : Progress chain head s) (found : s.active[i]? = some ⟨indexer, parameters, awaited, phase⟩)
    (own : OfCall head ⟨indexer, parameters, awaited, after⟩)
    (continues : ∀ run ∈ s.active.set i ⟨indexer, parameters, awaited, after⟩, Continues chain s.store run) :
    Progress chain head { s with active := s.active.set i ⟨indexer, parameters, awaited, after⟩ } where
  runs := by
    intro run member
    rcases mem_set_cases member with rfl | ⟨j, -, there⟩
    · exact own
    · exact progress.runs run (List.mem_of_getElem? there)
  distinct := by
    have same : (s.active.set i ⟨indexer, parameters, awaited, after⟩).map (·.contractAddress) =
        s.active.map (·.contractAddress) := map_set_self found rfl
    exact same.symm ▸ progress.distinct
  continues
  done := progress.done
  current := by
    intro current same other member gone
    have kept : (s.active.set i ⟨indexer, parameters, awaited, after⟩).map (·.parameters) =
        s.active.map (·.parameters) := map_set_self found rfl
    exact progress.current current same other member (kept ▸ gone)

theorem Progress.ended (progress : Progress chain head s) (stage : s.stage = some indexer)
    (found : s.active[i]? = some ⟨indexer, parameters, awaited, phase⟩)
    (nothing : parameters ∈ chain.runsOf s.store indexer →
      NothingToIndex parameters (s.store.lastRun parameters.contractAddress) head) :
    Progress chain head { s with active := s.active.eraseIdx i } where
  runs := fun run member => progress.runs run (List.mem_of_mem_eraseIdx member)
  distinct := progress.distinct.sublist ((List.eraseIdx_sublist _ _).map _)
  continues := fun run member => progress.continues run (List.mem_of_mem_eraseIdx member)
  done := progress.done
  current := by
    intro current same other member gone
    by_cases own : other = parameters
    · obtain rfl : current = indexer := Option.some.inj (same.symm.trans stage)
      rw [own] at member ⊢
      exact nothing member
    · refine progress.current current same other member fun listed => gone ?_
      obtain ⟨run, inActive, rfl⟩ := List.mem_map.mp listed
      obtain ⟨j, there⟩ := List.mem_iff_getElem?.mp inActive
      refine List.mem_map.mpr ⟨run, List.mem_eraseIdx_iff_getElem?.mpr ⟨j, ?_, there⟩, rfl⟩
      rintro rfl
      rw [found] at there
      cases there
      exact own rfl

theorem Progress.committed (progress : Progress chain head s) (consistent : Consistent cfg chain s) {range : BlockRange}
    {contracts : List Address} {logs : List indexer.Log} {packageMajorVersion : Nat} {store : Store}
    (found : s.active[i]? = some ⟨indexer, parameters, awaited, .writes range contracts logs⟩)
    (committed : Committed cfg chain s.store indexer packageMajorVersion parameters range contracts store) :
    Progress chain head
      { s with
        store
        active := s.active.set i ⟨indexer, parameters, awaited, .plans⟩
        committed := s.committed ++ [(parameters.contractAddress, range)] } := by
  have inActive := List.mem_of_getElem? found
  have awaits := (progress.runs _ inActive).awaited
  have stage := consistent.stages.stage _ inActive awaits
  have continues := progress.continues _ inActive range rfl
  have addresses : (s.active.set i ⟨indexer, parameters, awaited, .plans⟩).map (·.contractAddress) =
      s.active.map (·.contractAddress) := map_set_self found rfl
  have kept : (s.active.set i ⟨indexer, parameters, awaited, .plans⟩).map (·.parameters) =
      s.active.map (·.parameters) := map_set_self found rfl
  have keeps : ∀ earlier : Indexer, ∀ other ∈ chain.runsOf s.store earlier,
      NothingToIndex other (s.store.lastRun other.contractAddress) head →
      NothingToIndex other (store.lastRun other.contractAddress) head := by
    intro earlier other inRuns nothing
    obtain ⟨candidate, indexed⟩ := List.mem_filter.mp inRuns
    exact nothing_of_committed committed continues (consistent.synced.planned candidate indexed).deployment nothing
  constructor
  · intro run member
    rcases mem_set_cases member with rfl | ⟨j, -, there⟩
    · exact ⟨awaits, nofun⟩
    · exact progress.runs run (List.mem_of_getElem? there)
  · exact addresses.symm ▸ progress.distinct
  · intro run member
    rcases mem_set_cases member with rfl | ⟨j, different, there⟩
    · exact nofun
    · intro other planned
      have apart : run.contractAddress ≠ parameters.contractAddress := by
        have first : (s.active.map (·.contractAddress))[j]? = some run.contractAddress := by
          rw [List.getElem?_map, there]
          rfl
        have second : (s.active.map (·.contractAddress))[i]? = some parameters.contractAddress := by
          rw [List.getElem?_map, found]
          rfl
        exact related_of_pairwise (fun _ _ => Ne.symm) progress.distinct different first second
      unfold Chain.firstLeft
      rw [committed.others _ apart]
      exact progress.continues run (List.mem_of_getElem? there) other planned
  · intro earlier before other inRuns
    have lt := before indexer stage
    rw [runsOf_committed committed lt.le] at inRuns
    exact keeps earlier other inRuns (progress.done earlier before other inRuns)
  · intro current same other inRuns gone
    obtain rfl : current = indexer := Option.some.inj (same.symm.trans stage)
    rw [runsOf_committed committed le_rfl] at inRuns
    exact keeps current other inRuns (progress.current current same other inRuns (kept ▸ gone))

end Resumed

theorem Progress.step (progress : Progress chain head s) (consistent : Consistent cfg chain s)
    (tables : Tables chain s.store s.committed) {event : chain.Event} (undisturbed : chain.Undisturbed cfg head s event)
    (stepped : chain.step cfg s event = some next) : Progress chain head next := by
  cases event with
  | start => exact undisturbed.elim
  | throw => exact undisturbed.elim
  | proceed => exact progress.proceed consistent tables stepped
  | resume i answers =>
      obtain ⟨performs, finalized⟩ := undisturbed
      obtain ⟨run, found, rfl⟩ := Option.map_eq_some_iff.mp stepped
      obtain ⟨came, performed⟩ := performs run found
      rw [performed]
      have own := progress.runs run (List.mem_of_getElem? found)
      have ready := consistent.ready run (List.mem_of_getElem? found)
      have continues := progress.continues run (List.mem_of_getElem? found)
      have others : ∀ {after : ActiveRun}, Continues chain s.store after →
          ∀ other ∈ s.active.set i after, Continues chain s.store other := by
        intro after continuesToo other member
        rcases mem_set_cases member with rfl | ⟨j, -, there⟩
        · exact continuesToo
        · exact progress.continues other (List.mem_of_getElem? there)
      have stage := consistent.stages.stage run (List.mem_of_getElem? found) own.awaited
      cases performed_of_perform performed with
      | started => exact progress.moved found ⟨own.awaited, nofun⟩ (others nofun)
      | skipped other => exact progress.ended stage found fun member => absurd (List.mem_filter.mp member).2 other
      | planned plans =>
          refine progress.moved found ⟨own.awaited, fun range same => ?_⟩ (others fun range same => ?_)
          · cases same
            exact nothing_of_nextRange finalized plans
          · cases same
            exact (from_nextRange (ready.planned nofun) plans).1
      | finished plans => exact progress.ended stage found fun _ => nothing_of_nextRange finalized plans
      | fetched => exact progress.moved found ⟨own.awaited, own.last⟩ (others continues)
      | @wrote indexer parameters awaited range contracts logs store writes =>
          have committed := consistent.committed found writes
          have onward := progress.committed consistent found committed
          unfold Execution.after
          dsimp only
          split
          · exact onward
          · rename_i ended
            have last := own.last range rfl (Bool.eq_false_of_not_eq_true ended)
            have there := List.getElem?_set_self (a := (⟨indexer, parameters, awaited, .plans⟩ : ActiveRun))
              (List.getElem?_eq_some_iff.mp found).1
            have finished := onward.ended stage there fun _ => by
              rw [committed.own]
              exact Or.inr (Int.lt_add_one_of_le last)
            dsimp only at finished
            rwa [List.eraseIdx_set_eq] at finished

end Calls

section Call
variable (cfg : Deployment) (chain : Chain) (allowed : Execution → chain.Event → Prop) (head : Int)

theorem progress_of_steps {first final : Execution} (reached : chain.Reached cfg (fun _ _ => True) first)
    (progress : Progress chain head first) (steps : chain.Steps cfg (chain.Undisturbed cfg head) first final) :
    chain.Reached cfg (fun _ _ => True) final ∧ Progress chain head final := by
  induction steps with
  | none => exact ⟨reached, progress⟩
  | after event _ undisturbed stepped ih =>
      obtain ⟨before, progress⟩ := ih
      exact ⟨.after event before trivial stepped,
        progress.step (consistent_of_reached before) (tables_of_reached before) undisturbed stepped⟩

/-- Whatever was indexed before, a call that starts while no run of an earlier one is under way and that does not throw
catches every contract up, in whatever order its batches are committed. -/
theorem execute_catchesUp (s first final : Execution) (reached : chain.Reached cfg allowed s) (quiet : s.active = [])
    (started : chain.step cfg s .start = some first) (steps : chain.Steps cfg (chain.Undisturbed cfg head) first final)
    (ended : final.stage = none) : chain.CaughtUp final.store head := by
  have before := reached_mono (fun _ _ _ => trivial) reached
  have reachedFirst : chain.Reached cfg (fun _ _ => True) first := .after .start before trivial started
  unfold Chain.step at started
  dsimp only at started
  split at started
  · cases started
    have entered : Progress chain head (chain.enters s .serviceRewardsActor) :=
      Progress.enters (consistent_of_reached before) (tables_of_reached before) quiet
        fun earlier below => absurd below (Nat.not_lt_zero _)
    exact caughtUp_of_progress (progress_of_steps cfg chain head reachedFirst entered steps).2 ended
  · cases started

end Call

section Samples
open Removals GateTargets
variable (cfg : Deployment) (chain : Chain) (head : Int)

def finalizedBy : Except Failure Int → Bool
  | .ok finalizedHeight => head ≤ finalizedHeight
  | .error _ => true

def isUndisturbed (s : Execution) : chain.Event → Bool
  | .resume i answers =>
      s.active[i]?.all (fun run => (chain.perform cfg answers s.store run).isOk) &&
        (finalizedBy head (answers.heads.finalizedHeight .recent) &&
          finalizedBy head (answers.heads.finalizedHeight .archive))
  | .proceed => true
  | .start => false
  | .throw => false

variable {cfg chain head}

theorem le_of_finalizedBy {reported : Except Failure Int} (finalized : finalizedBy head reported) {height : Int}
    (same : reported = .ok height) : head ≤ height := by
  subst same
  exact of_decide_eq_true finalized

theorem undisturbed_of_check {s : Execution} {event : chain.Event} (checked : isUndisturbed cfg chain head s event) :
    chain.Undisturbed cfg head s event := by
  cases event with
  | proceed => trivial
  | start => cases checked
  | throw => cases checked
  | resume i answers =>
      obtain ⟨performs, finalized⟩ := Bool.and_eq_true_iff.mp checked
      obtain ⟨recent, archive⟩ := Bool.and_eq_true_iff.mp finalized
      refine ⟨fun run found => ?_, fun node height same => ?_⟩
      · rw [found] at performs
        exact exists_of_isOk performs
      · cases node with
        | recent => exact le_of_finalizedBy recent same
        | archive => exact le_of_finalizedBy archive same

theorem steps_of_drive {fuel : Nat} {first s final : Execution}
    (steps : chain.Steps cfg (chain.Undisturbed cfg head) first s) {heads : Indexer → Int}
    (run : drive cfg chain (isUndisturbed cfg chain head) heads fuel s = some final) :
    chain.Steps cfg (chain.Undisturbed cfg head) first final ∧ final.stage = none := by
  induction fuel generalizing s with
  | zero => cases run
  | succ fuel ih =>
      unfold drive at run
      split at run
      · rename_i ended
        cases run
        exact ⟨steps, Option.isNone_iff_eq_none.mp ended⟩
      · obtain ⟨next, stepped, onward⟩ := Option.bind_eq_some_iff.mp run
        obtain ⟨checked, stepped⟩ := step_of_guardedStep stepped
        exact ih (.after _ steps (undisturbed_of_check checked) stepped) onward

def quietFirst : Option (Execution × Execution) :=
  (quietSchedule [100]).bind fun s => (quietChain.step hundredEpochs s .start).map fun first => (s, first)

theorem quietCall_ends : (quietFirst.bind fun (s, first) =>
    (drive hundredEpochs quietChain (isUndisturbed hundredEpochs quietChain 300)
      (fun | .serviceRewardsActor => 320 | _ => 300) 40 first).map fun _ => s.active.isEmpty) = some true := by
  decide +kernel

theorem execute_catchesUp_quiet : ∃ final : Execution, quietChain.CaughtUp final.store 300 := by
  obtain ⟨⟨s, first⟩, start, call⟩ := Option.bind_eq_some_iff.mp quietCall_ends
  obtain ⟨final, run, quiet⟩ := Option.map_eq_some_iff.mp call
  obtain ⟨_, before, opened⟩ := Option.bind_eq_some_iff.mp start
  obtain ⟨_, started, same⟩ := Option.map_eq_some_iff.mp opened
  cases same
  obtain ⟨steps, ended⟩ := steps_of_drive .none run
  exact ⟨final, execute_catchesUp hundredEpochs quietChain _ 300 s first final (reached_of_quietSchedule before)
    (List.isEmpty_iff.mp quiet) started steps ended⟩

end Samples

end Proof.WholeCalls
end FpvIndexer
