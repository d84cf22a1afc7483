import FpvIndexer.Services.Postings
import FpvIndexer.Proof.GateTargets

namespace FpvIndexer
open Relational

def postingFor (quarterNum : Nat) (log : ServiceRewardsActorLog) : Option Posting :=
  match log.event with
  | .volumePosted q orchestrator volume =>
      if q = quarterNum then some ⟨orchestrator.toLowerCase, volume, false, log.blockNumber, log.transactionHash⟩ else none
  | .volumeCorrected q orchestrator volume =>
      if q = quarterNum then some ⟨orchestrator.toLowerCase, volume, true, log.blockNumber, log.transactionHash⟩ else none
  | _ => none

def admittedOrchestrator (log : ServiceRewardsActorLog) : Option Address :=
  match log.event with
  | .orchestratorAdmitted orch _ => some orch.toLowerCase
  | _ => none

namespace Chain
variable (chain : Chain)

def postings (store : Store) (q : QuarterNumber) : List Posting :=
  (chain.actorLogs store).filterMap (postingFor q.intValue)

/-- What each orchestrator posted last for a quarter, and what that makes together. -/
def reported (store : Store) (q : QuarterNumber) : Ledger Address Posting Int :=
  .ofHistory (·.serviceOrchestrator) (·.volumeAttoUsd) (chain.postings store q)

def Admits (store : Store) (orchestrator : Address) : Prop :=
  ∃ log ∈ chain.actorLogs store, admittedOrchestrator log = some orchestrator.toLowerCase

instance (store : Store) (orchestrator : Address) : Decidable (chain.Admits store orchestrator) :=
  inferInstanceAs (Decidable (∃ log ∈ chain.actorLogs store, _))

def postingsOf (store : Store) (q : QuarterNumber) (orchestrator : Address) : List Posting :=
  if chain.Admits store orchestrator then
    ((chain.postings store q).filter (·.serviceOrchestrator = orchestrator.toLowerCase)).map fun posting =>
      { posting with serviceOrchestrator := orchestrator }
  else []

def PostsUpTo (orchestrator : Address) (q : QuarterNumber) (block : Int) : Prop :=
  ∃ log ∈ (chain.logs .serviceRewardsActor chain.serviceRewardsActorAddress.toLowerCase).logs,
    ∃ posting, postingFor q.intValue log = some posting ∧ posting.serviceOrchestrator = orchestrator.toLowerCase ∧
      posting.postingEpoch ≤ block

end Chain

namespace Proof.Postings
open Handlers Replay Schedules Commits

section Tables
variable {cfg : Deployment} {db next : DB} {log : ServiceRewardsActorLog}

def volumeRow (log : ServiceRewardsActorLog) (q : Nat) (orchestrator : Address) (volume : Nat) (isCorrection : Bool) :
    ServiceOrchestratorQuarterlyVolume :=
  ⟨orchestrator.toLowerCase, q, volume, isCorrection, log.blockNumber, log.logIndex, log.transactionHash⟩

def postedRow (log : ServiceRewardsActorLog) : Option ServiceOrchestratorQuarterlyVolume :=
  match log.event with
  | .volumePosted q orchestrator volume => some (volumeRow log q orchestrator volume false)
  | .volumeCorrected q orchestrator volume => some (volumeRow log q orchestrator volume true)
  | _ => none

structure Recorded (db : DB) (log : ServiceRewardsActorLog) (next : DB) : Prop where
  volumes : next.serviceOrchestratorQuarterlyVolume.rows =
    db.serviceOrchestratorQuarterlyVolume.rows ++ (postedRow log).toList
  orchestrators : ∀ id, next.hasOrchestrator id ↔ db.hasOrchestrator id ∨ admittedOrchestrator log = some id

theorem postVolume_rows {q : Nat} {orchestrator : Address} {volume : Nat} {isCorrection : Bool}
    (posted : postVolume db log q orchestrator volume isCorrection = .ok next) :
    next.serviceOrchestrator = db.serviceOrchestrator ∧ next.serviceOrchestratorQuarterlyVolume.rows =
      db.serviceOrchestratorQuarterlyVolume.rows ++ [volumeRow log q orchestrator volume isCorrection] := by
  unfold postVolume at posted
  obtain ⟨quarterNum, fits, posted⟩ := bind_eq_ok.mp posted
  obtain ⟨stored, small, posted⟩ := bind_eq_ok.mp posted
  obtain ⟨volumes, added, posted⟩ := bind_eq_ok.mp posted
  rw [integer_eq_ok fits, decimal_eq_ok small] at added
  obtain rfl := pure_eq_ok.mp posted
  exact ⟨rfl, Table.insert?_rows (insert_ok added)⟩

theorem hasOrchestrator_insert (db : DB) (id other : Address)
    (admissions : Table ServiceOrchestratorAdmission ServiceOrchestratorAdmission.pkey) :
    ({ db with
        serviceOrchestrator := (db.serviceOrchestrator.insert? ⟨id⟩).getD db.serviceOrchestrator
        serviceOrchestratorAdmission := admissions } : DB).hasOrchestrator other ↔
      db.hasOrchestrator other ∨ id = other := by
  unfold DB.hasOrchestrator
  rw [decide_eq_true_iff, decide_eq_true_iff]
  dsimp only
  cases inserted : db.serviceOrchestrator.insert? ⟨id⟩ with
  | none =>
      have known : id ∈ db.serviceOrchestrator.rows.map (·.id) := Table.insert?_eq_none.mp inserted
      refine ⟨Or.inl, ?_⟩
      rintro (listed | rfl)
      · exact listed
      · exact known
  | some orchestrators =>
      rw [Option.getD_some, Table.insert?_rows inserted, List.map_append, List.mem_append, List.map_singleton,
        List.mem_singleton, eq_comm (a := other)]

theorem admitOrchestrator_orchestrators {orch wallet : Address}
    (admitted : admitOrchestrator db log orch wallet = .ok next) :
    next.serviceOrchestratorQuarterlyVolume = db.serviceOrchestratorQuarterlyVolume ∧
      ∀ id, next.hasOrchestrator id ↔ db.hasOrchestrator id ∨ orch.toLowerCase = id := by
  unfold admitOrchestrator at admitted
  dsimp only at admitted
  obtain ⟨admissions, -, admitted⟩ := bind_eq_ok.mp admitted
  split at admitted
  · cases admitted
  · obtain rfl := pure_eq_ok.mp admitted
    exact ⟨rfl, fun id => hasOrchestrator_insert db orch.toLowerCase id admissions⟩

theorem Recorded.of_frame (silent : postedRow log = none) (admits : admittedOrchestrator log = none)
    (volumes : next.serviceOrchestratorQuarterlyVolume = db.serviceOrchestratorQuarterlyVolume)
    (orchestrators : next.serviceOrchestrator = db.serviceOrchestrator) : Recorded db log next where
  volumes := by rw [silent, volumes, Option.toList_none, List.append_nil]
  orchestrators := by
    intro id
    unfold DB.hasOrchestrator
    rw [admits, orchestrators]
    simp

theorem recorded_of_handleLog {tokensMap : List (Address × ERC20Metadata)}
    (handled : ServiceRewardsActorIndexer.handleLog cfg tokensMap db log = .ok next) : Recorded db log next := by
  unfold ServiceRewardsActorIndexer.handleLog at handled
  cases event : log.event with
  | orchestratorAdmitted orch wallet =>
      rw [event] at handled
      obtain ⟨volumes, orchestrators⟩ := admitOrchestrator_orchestrators handled
      refine ⟨by simp [postedRow, event, volumes], fun id => ?_⟩
      simp [admittedOrchestrator, event, orchestrators]
  | volumePosted q orchestrator volume =>
      rw [event] at handled
      obtain ⟨orchestrators, volumes⟩ := postVolume_rows handled
      refine ⟨by simp [postedRow, event, volumes], fun id => ?_⟩
      simp [admittedOrchestrator, event, DB.hasOrchestrator, orchestrators]
  | volumeCorrected q orchestrator volume =>
      rw [event] at handled
      obtain ⟨orchestrators, volumes⟩ := postVolume_rows handled
      refine ⟨by simp [postedRow, event, volumes], fun id => ?_⟩
      simp [admittedOrchestrator, event, DB.hasOrchestrator, orchestrators]
  | orchestratorRemoved orch =>
      rw [event] at handled
      cases handled
      exact Recorded.of_frame (by simp [postedRow, event]) (by simp [admittedOrchestrator, event]) rfl rfl
  | orchestratorWalletReplaced oldOrch newWallet =>
      rw [event] at handled
      cases handled
      exact Recorded.of_frame (by simp [postedRow, event]) (by simp [admittedOrchestrator, event]) rfl rfl
  | bindingDeclared payer operator orchestrator =>
      rw [event] at handled
      obtain ⟨pairs, rfl⟩ := createBinding_frame handled
      exact Recorded.of_frame (by simp [postedRow, event]) (by simp [admittedOrchestrator, event]) rfl rfl
  | bindingReassigned payer operator orchestrator inherit =>
      rw [event] at handled
      obtain ⟨pairs, rfl⟩ := reassignBinding_frame handled
      exact Recorded.of_frame (by simp [postedRow, event]) (by simp [admittedOrchestrator, event]) rfl rfl
  | bindingCanceled payer operator orchestrator =>
      rw [event] at handled
      cases handled
      exact Recorded.of_frame (by simp [postedRow, event]) (by simp [admittedOrchestrator, event]) rfl rfl
  | admittedListsUpdated stablecoins filecoinPayContracts =>
      rw [event] at handled
      obtain ⟨contracts, tokens, mv, rfl, -⟩ := updatedAdmittedLists_spec handled
      exact Recorded.of_frame (by simp [postedRow, event]) (by simp [admittedOrchestrator, event]) rfl rfl
  | pricingParamsUpdated =>
      rw [event] at handled
      obtain ⟨parameters, mv, added, rfl, -⟩ := updatePricingParams_spec handled
      exact Recorded.of_frame (by simp [postedRow, event]) (by simp [admittedOrchestrator, event]) rfl rfl
  | sharesSubmitted q recipientCount totalUsd =>
      rw [event] at handled
      obtain ⟨volumes, mv, rfl, -⟩ := submitShares_spec handled
      exact Recorded.of_frame (by simp [postedRow, event]) (by simp [admittedOrchestrator, event]) rfl rfl

structure Replayed (logs : List ServiceRewardsActorLog) (db : DB) : Prop where
  volumes : db.serviceOrchestratorQuarterlyVolume.rows = logs.filterMap postedRow
  orchestrators : ∀ id, db.hasOrchestrator id ↔ ∃ log ∈ logs, admittedOrchestrator log = some id

theorem replayed_of_run {services : TokenServices} {logs : List ServiceRewardsActorLog}
    (run : logs.foldlM (handleOne cfg services) (DB.seeded cfg) = .ok next) : Replayed logs next := by
  refine foldlM_induction run Replayed ⟨rfl, fun id => ⟨nofun, fun ⟨_, member, _⟩ => nomatch member⟩⟩ ?_
  intro past log rest before after _ replayed handled
  obtain ⟨tokensMap, -, handled⟩ := handleOne_iff.mp handled
  have recorded := recorded_of_handleLog handled
  constructor
  · rw [recorded.volumes, replayed.volumes, List.filterMap_append]
    cases posted : postedRow log <;> simp [posted]
  · intro id
    rw [recorded.orchestrators, replayed.orchestrators]
    simp only [List.mem_append, List.mem_singleton, or_and_right, exists_or, exists_eq_left]

end Tables

section Rows
variable {chain : Chain} {store : Store} {q : QuarterNumber}

def shown (v : ServiceOrchestratorQuarterlyVolume) : Posting :=
  ⟨v.serviceOrchestratorId, v.volumeAttoUsd.num, v.isCorrection, v.postingEpoch, v.postingTxHash⟩

def underAddress (serviceOrchestrator : Address) (posting : Posting) : Posting := { posting with serviceOrchestrator }

structure Listed (rows : List ServiceOrchestratorQuarterlyVolume) (postings : List Posting) : Prop where
  shows : rows.map shown = postings
  ordered : rows.Pairwise fun a b => a.place < b.place
  whole : ∀ v ∈ rows, ∃ volume : Nat, v.volumeAttoUsd = volume

theorem mem_postedRow {log : ServiceRewardsActorLog} {v : ServiceOrchestratorQuarterlyVolume}
    (posted : postedRow log = some v) : v.place = log.position ∧ ∃ volume : Nat, v.volumeAttoUsd = volume := by
  unfold postedRow at posted
  split at posted
  · cases posted
    exact ⟨rfl, _, rfl⟩
  · cases posted
    exact ⟨rfl, _, rfl⟩
  · cases posted

theorem postingFor_eq (quarterNum : Nat) (log : ServiceRewardsActorLog) :
    postingFor quarterNum log = ((postedRow log).filter (·.quarterNum = quarterNum)).map shown := by
  unfold postingFor postedRow
  cases log.event with
  | volumePosted quarter orchestrator volume =>
      by_cases same : quarter = quarterNum <;> simp [Option.filter, volumeRow, shown, same]
  | volumeCorrected quarter orchestrator volume =>
      by_cases same : quarter = quarterNum <;> simp [Option.filter, volumeRow, shown, same]
  | _ => rfl

theorem actorLogs_ordered (chain : Chain) (store : Store) :
    (chain.actorLogs store).Pairwise fun a b => a.position < b.position := by
  unfold Chain.actorLogs Chain.upTo ChainLogs.upTo
  cases store.lastRun chain.serviceRewardsActorAddress.toLowerCase with
  | none => exact List.Pairwise.nil
  | some endBlock =>
      exact (chain.numbered .serviceRewardsActor chain.serviceRewardsActorAddress.toLowerCase).filter _

theorem listed_of_replayed {db : DB} (replayed : Replayed (chain.actorLogs store) db) (q : QuarterNumber) :
    Listed (db.serviceOrchestratorQuarterlyVolume.rows.filter (·.quarterNum = q.intValue)) (chain.postings store q) := by
  constructor
  · unfold Chain.postings
    rw [replayed.volumes, List.filter_filterMap, List.map_filterMap]
    exact List.filterMap_congr fun log _ => (postingFor_eq q.intValue log).symm
  · refine List.Pairwise.filter _ ?_
    rw [replayed.volumes, List.pairwise_filterMap]
    refine (actorLogs_ordered chain store).imp ?_
    intro a b before v fromA w fromB
    rw [(mem_postedRow fromA).1, (mem_postedRow fromB).1]
    exact before
  · intro v member
    have inRows := List.mem_of_mem_filter member
    rw [replayed.volumes] at inRows
    obtain ⟨log, -, posted⟩ := List.mem_filterMap.mp inRows
    exact (mem_postedRow posted).2

theorem posting_eq_ok (cfg : Deployment) {v : ServiceOrchestratorQuarterlyVolume}
    (whole : ∃ volume : Nat, v.volumeAttoUsd = volume) (serviceOrchestrator : Address) :
    v.posting cfg serviceOrchestrator = .ok (underAddress serviceOrchestrator (shown v)) := by
  obtain ⟨volume, same⟩ := whole
  have stored : cfg.numericToBigInt v.volumeAttoUsd = .ok v.volumeAttoUsd.num := by
    refine cfg.numericToBigInt_of_whole ?_
    rw [same]
    norm_cast
  unfold ServiceOrchestratorQuarterlyVolume.posting
  rw [stored, ok_bind]
  rfl

theorem replayed_of_reached {cfg : Deployment} {allowed : Execution → chain.Event → Prop} {s : Execution}
    (reached : chain.Reached cfg allowed s) : Replayed (chain.actorLogs s.store) s.store.toDB := by
  have replayed := replayed_of_run (consistent_of_reached reached).synced.actor
  exact ⟨replayed.volumes, replayed.orchestrators⟩

end Rows

section Totals

theorem postingResults_sorted (db : DB) (q : QuarterNumber) : ((postingResults db q).map shown).Pairwise fun a b =>
    a.serviceOrchestrator < b.serviceOrchestrator := by
  have sorted := (orderBy_sorted (fun v : ServiceOrchestratorQuarterlyVolume =>
    toLex (v.serviceOrchestratorId, OrderDual.toDual v.place)) _).sublist (distinctOn_sublist (·.serviceOrchestratorId)
      (orderBy _ (db.serviceOrchestratorQuarterlyVolume.rows.filter (·.quarterNum = q.intValue))))
  have strict := sorted.and (distinctOn_pairwise ServiceOrchestratorQuarterlyVolume.serviceOrchestratorId _)
  refine List.pairwise_map.mpr (strict.imp ?_)
  rintro a b ⟨le, differ⟩
  rcases Prod.Lex.toLex_le_toLex.mp le with before | ⟨same, -⟩
  · exact before
  · exact absurd same differ

variable (cfg : Deployment) {db : DB} {q : QuarterNumber} {postings : List Posting}
  (listed : Listed (db.serviceOrchestratorQuarterlyVolume.rows.filter (·.quarterNum = q.intValue)) postings)

include listed

theorem postingResults_perm :
    ((postingResults db q).map shown).Perm (distinctOn (·.serviceOrchestrator) postings.reverse) := by
  have shownOf : ∀ rows : List ServiceOrchestratorQuarterlyVolume, (distinctOn (·.serviceOrchestratorId) rows).map shown =
      distinctOn (·.serviceOrchestrator) (rows.map shown) := map_distinctOn _ _ shown fun _ => rfl
  have latest := (distinctOn_orderBy_perm (·.serviceOrchestratorId) listed.ordered).map shown
  rw [shownOf (List.reverse _), List.map_reverse, listed.shows] at latest
  exact latest

theorem getQuarterlyVolumePostings_eq (fits : q.intValue < 2 ^ 31) : getQuarterlyVolumePostings db q cfg = .ok
    { quarterNumber := q.intValue
      aggregatedVolumeAttoUsd := (((postingResults db q).map shown).map (·.volumeAttoUsd)).sum
      postings := (postingResults db q).map shown } := by
  have each : ∀ v ∈ postingResults db q, v.posting cfg v.serviceOrchestratorId = .ok (shown v) := fun v member =>
    posting_eq_ok cfg (listed.whole v (mem_of_mem_distinctOn_orderBy _ member)) v.serviceOrchestratorId
  unfold getQuarterlyVolumePostings
  rw [integer_of_lt fits, ok_bind, mapM_eq_ok_map each, ok_bind, List.sum_eq_foldl, List.foldl_map (f := Posting.volumeAttoUsd)]
  rfl

theorem mem_postingResults (posting : Posting) : posting ∈ (postingResults db q).map shown ↔
    (Ledger.ofHistory (·.serviceOrchestrator) (·.volumeAttoUsd) postings).held posting.serviceOrchestrator =
      some posting := by
  rw [(postingResults_perm listed).mem_iff, mem_distinctOn, Ledger.held_ofHistory, List.filter_reverse, List.head?_reverse]

theorem sum_postingResults : (((postingResults db q).map shown).map (·.volumeAttoUsd)).sum =
    (Ledger.ofHistory (·.serviceOrchestrator) (·.volumeAttoUsd) postings).total := by
  rw [Ledger.total_ofHistory]
  exact ((postingResults_perm listed).map _).sum_eq

end Totals

section Quarterly
variable (cfg : Deployment) (chain : Chain) (allowed : Execution → chain.Event → Prop) (s : Execution)
  (reached : chain.Reached cfg allowed s) (q : QuarterNumber)

include reached

end Quarterly

section Orchestrators
variable {db : DB} {q : QuarterNumber} {postings : List Posting}

theorem filter_key {α κ : Type} {key : α → κ} [DecidableEq κ] (t : Table α key) (k : κ) :
    t.rows.filter (key · = k) = (t.lookup? k).toList := by
  have nodup : (t.rows.filter (key · = k)).Nodup := t.rows_nodup.filter _
  cases found : t.lookup? k with
  | none =>
      refine List.filter_eq_nil_iff.mpr fun row member same => ?_
      have hit := Table.lookup?_eq_some.mpr ⟨member, of_decide_eq_true same⟩
      rw [found] at hit
      cases hit
  | some row =>
      refine List.perm_singleton.mp ((List.perm_ext_iff_of_nodup nodup (List.nodup_singleton row)).mpr fun other => ?_)
      rw [List.mem_filter, List.mem_singleton, decide_eq_true_iff, ← Table.lookup?_eq_some, found, Option.some_inj, eq_comm]

def volumesOf (db : DB) (q : QuarterNumber) (id : Address) : List ServiceOrchestratorQuarterlyVolume :=
  if db.hasOrchestrator id then
    (db.serviceOrchestratorQuarterlyVolume.rows.filter (·.quarterNum = q.intValue)).filter (·.serviceOrchestratorId = id)
  else []

theorem orchestratorVolumes_filter (db : DB) (q : QuarterNumber) (id : Address) :
    ((orchestratorVolumes db).filter fun result => result.2.any (·.quarterNum = q.intValue) && result.1.id = id) =
      (volumesOf db q id).map fun v => (⟨id⟩, some v) := by
  unfold orchestratorVolumes volumesOf
  rw [leftJoin_filter _ (fun o : ServiceOrchestrator => decide (o.id = id)), filter_key]
  have known : db.hasOrchestrator id ↔ ∃ o, db.serviceOrchestrator.lookup? id = some o := by
    unfold DB.hasOrchestrator
    rw [decide_eq_true_iff, List.mem_map]
    simp only [Table.lookup?_eq_some]
  cases found : db.serviceOrchestrator.lookup? id with
  | none =>
      rw [if_neg (by simp [known, found])]
      rfl
  | some o =>
      obtain ⟨-, rfl⟩ := Table.lookup?_eq_some.mp found
      rw [if_pos (by simp [known, found]), Option.toList_some, List.flatMap_singleton]

theorem filterMap_orderBy_postingOrder {id : Address} {rows : List ServiceOrchestratorQuarterlyVolume}
    (ordered : rows.Pairwise fun a b => a.place < b.place) :
    (orderBy postingOrder (rows.map fun v => ((⟨id⟩ : ServiceOrchestrator), some v))).filterMap (·.2) = rows.reverse := by
  have latestFirst : orderBy postingOrder (rows.map fun v => ((⟨id⟩ : ServiceOrchestrator), some v)) =
      (rows.map fun v => ((⟨id⟩ : ServiceOrchestrator), some v)).reverse := by
    refine orderBy_of_perm _ (List.reverse_perm _).symm (List.pairwise_reverse.mpr (List.pairwise_map.mpr ?_))
    exact ordered.imp fun before => WithTop.coe_lt_coe.mpr before
  rw [latestFirst, List.filterMap_reverse, List.filterMap_map]
  exact congrArg _ List.filterMap_some

theorem volumesOf_shown
    (listed : Listed (db.serviceOrchestratorQuarterlyVolume.rows.filter (·.quarterNum = q.intValue)) postings)
    (id : Address) : (volumesOf db q id).map shown =
      if db.hasOrchestrator id then postings.filter (·.serviceOrchestrator = id) else [] := by
  unfold volumesOf
  split
  · rw [← listed.shows, List.filter_map]
    rfl
  · rfl

theorem getServiceOrchestratorsQuarterlyVolumePostings_eq
    (listed : Listed (db.serviceOrchestratorQuarterlyVolume.rows.filter (·.quarterNum = q.intValue)) postings)
    {orchestrator : Address} {own : List Posting}
    (shows : ((volumesOf db q orchestrator.toLowerCase).map shown).map (underAddress orchestrator) = own)
    (cfg : Deployment) (postPeriod blockNumber : Int) (fits : q.intValue < 2 ^ 31) :
    getServiceOrchestratorsQuarterlyVolumePostings db q cfg postPeriod blockNumber orchestrator = .ok
      { serviceOrchestrator := orchestrator
        quarterNum := q.intValue
        volumeAttoUsd := (own.getLast?.filter (·.volumeAttoUsd ≠ 0)).map (·.volumeAttoUsd)
        corrected := own.reverse.any (·.correction)
        missed := own.head?.elim (cfg.quarterEndEpoch q.intValue + postPeriod < blockNumber : Bool) fun posting =>
          cfg.quarterEndEpoch q.intValue + postPeriod < posting.postingEpoch
        postingEpoch := (own.getLast?.filter (·.volumeAttoUsd ≠ 0)).map (·.postingEpoch)
        postingTxHash := (own.getLast?.filter (·.volumeAttoUsd ≠ 0)).map (·.postingTxHash)
        postings := own.reverse } := by
  have within : ∀ v ∈ volumesOf db q orchestrator.toLowerCase,
      v ∈ db.serviceOrchestratorQuarterlyVolume.rows.filter (·.quarterNum = q.intValue) := by
    intro v member
    unfold volumesOf at member
    split at member
    · exact List.mem_of_mem_filter member
    · cases member
  have ordered : (volumesOf db q orchestrator.toLowerCase).Pairwise fun a b => a.place < b.place := by
    unfold volumesOf
    split
    · exact listed.ordered.filter _
    · exact List.Pairwise.nil
  have each : ∀ v ∈ (volumesOf db q orchestrator.toLowerCase).reverse, v.posting cfg orchestrator =
      .ok (underAddress orchestrator (shown v)) := fun v member =>
    posting_eq_ok cfg (listed.whole v (within v (List.mem_reverse.mp member))) orchestrator
  have read : (volumesOf db q orchestrator.toLowerCase).reverse.map (fun v => underAddress orchestrator (shown v)) =
      own.reverse := by
    rw [← shows, List.map_map, List.map_reverse]
    rfl
  unfold getServiceOrchestratorsQuarterlyVolumePostings getQuarterByIndex
  rw [if_neg (by have := q.positive; omega), ok_bind, integer_of_lt fits, ok_bind]
  dsimp only
  rw [orchestratorVolumes_filter, filterMap_orderBy_postingOrder ordered, mapM_eq_ok_map each, ok_bind, read,
    List.head?_reverse, List.getLast?_reverse]
  rfl

end Orchestrators

section Epochs
variable {chain : Chain} {store : Store} {q : QuarterNumber} {orchestrator : Address}

theorem postingFor_epoch {quarterNum : Nat} {log : ServiceRewardsActorLog} {posting : Posting}
    (posted : postingFor quarterNum log = some posting) : posting.postingEpoch = log.blockNumber := by
  unfold postingFor at posted
  split at posted
  · split at posted
    · cases posted
      rfl
    · cases posted
  · split at posted
    · cases posted
      rfl
    · cases posted
  · cases posted

theorem postingsOf_ordered (chain : Chain) (store : Store) (q : QuarterNumber) (orchestrator : Address) :
    (chain.postingsOf store q orchestrator).Pairwise fun a b => a.postingEpoch ≤ b.postingEpoch := by
  have ordered : (chain.postings store q).Pairwise fun a b => a.postingEpoch ≤ b.postingEpoch := by
    refine List.pairwise_filterMap.mpr ((actorLogs_ordered chain store).imp ?_)
    intro a b before posting fromA other fromB
    rw [postingFor_epoch fromA, postingFor_epoch fromB]
    exact Prod.Lex.monotone_fst _ _ before.le
  unfold Chain.postingsOf
  split
  · exact List.pairwise_map.mpr (ordered.filter _)
  · exact List.Pairwise.nil

theorem mem_actorLogs {endBlock : Int}
    (last : store.lastRun chain.serviceRewardsActorAddress.toLowerCase = some endBlock) {log : ServiceRewardsActorLog} :
    log ∈ chain.actorLogs store ↔
      log ∈ (chain.logs .serviceRewardsActor chain.serviceRewardsActorAddress.toLowerCase).logs ∧
        log.blockNumber ≤ endBlock := by
  unfold Chain.actorLogs Chain.upTo ChainLogs.upTo
  rw [last]
  refine (@mem_between chain .serviceRewardsActor _ log _ _).trans (and_congr_right fun listed => ?_)
  exact and_iff_right (chain.deployed .serviceRewardsActor _ log listed)

theorem mem_postings {endBlock : Int}
    (last : store.lastRun chain.serviceRewardsActorAddress.toLowerCase = some endBlock) {posting : Posting} :
    posting ∈ chain.postings store q ↔
      ∃ log ∈ (chain.logs .serviceRewardsActor chain.serviceRewardsActorAddress.toLowerCase).logs,
        postingFor q.intValue log = some posting ∧ posting.postingEpoch ≤ endBlock := by
  unfold Chain.postings
  rw [List.mem_filterMap]
  constructor
  · rintro ⟨log, indexed, posted⟩
    obtain ⟨listed, within⟩ := (mem_actorLogs last).mp indexed
    exact ⟨log, listed, posted, (postingFor_epoch posted).trans_le within⟩
  · rintro ⟨log, listed, posted, within⟩
    exact ⟨log, (mem_actorLogs last).mpr ⟨listed, (postingFor_epoch posted).symm.trans_le within⟩, posted⟩

theorem first_after_iff {postings : List Posting} (ordered : postings.Pairwise fun a b => a.postingEpoch ≤ b.postingEpoch)
    (block : Int) : postings.head?.elim true (fun posting => decide (block < posting.postingEpoch)) ↔
      ∀ posting ∈ postings, block < posting.postingEpoch := by
  cases postings with
  | nil => simp
  | cons first rest =>
      rw [List.head?_cons, Option.elim_some, decide_eq_true_iff, List.forall_mem_cons]
      refine ⟨fun after => ⟨after, fun posting member => ?_⟩, And.left⟩
      exact after.trans_le (List.rel_of_pairwise_cons ordered member)

theorem exists_postingsOf_iff {endBlock block : Int}
    (last : store.lastRun chain.serviceRewardsActorAddress.toLowerCase = some endBlock) :
    (∃ posting ∈ chain.postingsOf store q orchestrator, posting.postingEpoch ≤ block) ↔
      chain.Admits store orchestrator ∧ chain.PostsUpTo orchestrator q (min block endBlock) := by
  unfold Chain.postingsOf Chain.PostsUpTo
  split
  · rename_i admits
    simp only [List.mem_map, List.mem_filter, mem_postings last, decide_eq_true_iff, admits, true_and, le_min_iff]
    constructor
    · rintro ⟨_, ⟨posting, ⟨⟨log, listed, posted, within⟩, own⟩, rfl⟩, upTo⟩
      exact ⟨log, listed, posting, posted, own, upTo, within⟩
    · rintro ⟨log, listed, posting, posted, own, upTo, within⟩
      exact ⟨_, ⟨posting, ⟨⟨log, listed, posted, within⟩, own⟩, rfl⟩, upTo⟩
  · rename_i never
    simp [never]

end Epochs

section Each
variable (cfg : Deployment) (chain : Chain) (allowed : Execution → chain.Event → Prop) (s : Execution)
  (reached : chain.Reached cfg allowed s) (q : QuarterNumber) (postPeriod blockNumber : Int) (orchestrator : Address)

include reached

theorem volumesOf_reached :
    ((volumesOf s.store.toDB q orchestrator.toLowerCase).map shown).map (underAddress orchestrator) =
      chain.postingsOf s.store q orchestrator := by
  have replayed := replayed_of_reached reached
  have known : s.store.toDB.hasOrchestrator orchestrator.toLowerCase ↔ chain.Admits s.store orchestrator :=
    replayed.orchestrators _
  rw [volumesOf_shown (listed_of_replayed replayed q)]
  unfold Chain.postingsOf
  by_cases admits : chain.Admits s.store orchestrator
  · rw [if_pos (known.mpr admits), if_pos admits]
    rfl
  · rw [if_neg (fun has => admits (known.mp has)), if_neg admits]
    rfl

/-- Once the window is closed, the verdict is that of the chain up to the cursor or to the end of the window. -/
theorem missed_iff (fits : q.intValue < 2 ^ 31) (endBlock : Int)
    (last : s.store.lastRun chain.serviceRewardsActorAddress.toLowerCase = some endBlock)
    (closed : cfg.quarterEndEpoch q.intValue + postPeriod < blockNumber) : ∃ answer,
    getServiceOrchestratorsQuarterlyVolumePostings s.store.toDB q cfg postPeriod blockNumber orchestrator = .ok answer ∧
    (answer.missed ↔ ¬ (chain.Admits s.store orchestrator ∧
      chain.PostsUpTo orchestrator q (min (cfg.quarterEndEpoch q.intValue + postPeriod) endBlock))) := by
  have listed := listed_of_replayed (replayed_of_reached reached) q
  have shows := volumesOf_reached cfg chain allowed s reached q orchestrator
  refine ⟨_, getServiceOrchestratorsQuarterlyVolumePostings_eq listed shows cfg postPeriod blockNumber fits, ?_⟩
  rw [← exists_postingsOf_iff last, decide_eq_true closed, first_after_iff (postingsOf_ordered _ _ _ _)]
  simp only [not_exists, not_and, not_le]

end Each

section Samples
open GateTargets

def firstQuarter : QuarterNumber := ⟨1, by decide⟩

theorem mem_quietChain {log : ServiceRewardsActorLog} (member : log ∈ [(⟨50, 0, "0x1", .admittedListsUpdated ["0xd"] ["0xf"]⟩ :
      ServiceRewardsActorLog), ⟨50, 1, "0x1", .orchestratorAdmitted "0xc" "0xc"⟩, ⟨210, 0, "0x2", .volumePosted 1 "0xc" 5⟩,
      ⟨215, 3, "0x3", .volumeCorrected 1 "0xC" 7⟩]) :
    log ∈ (quietChain.logs .serviceRewardsActor quietChain.serviceRewardsActorAddress.toLowerCase).logs := by
  rw [quiet_toLowerCase.1]
  exact member

theorem postings_quiet {store : Store}
    (last : store.lastRun quietChain.serviceRewardsActorAddress.toLowerCase = some 300) :
    quietChain.postings store firstQuarter = [⟨"0xc", 5, false, 210, "0x2"⟩, ⟨"0xc", 7, true, 215, "0x3"⟩] := by
  unfold Chain.postings Chain.actorLogs Chain.upTo
  rw [last]
  decide +kernel

theorem admits_quiet {store : Store}
    (last : store.lastRun quietChain.serviceRewardsActorAddress.toLowerCase = some 300) :
    quietChain.Admits store "0xC" := by
  exact ⟨⟨50, 1, "0x1", .orchestratorAdmitted "0xc" "0xc"⟩,
    (mem_actorLogs last).mpr ⟨mem_quietChain (by decide), by decide⟩, by decide +kernel⟩

theorem missed_iff_quiet : ∃ (s : Execution) (answer : _),
    getServiceOrchestratorsQuarterlyVolumePostings s.store.toDB firstQuarter hundredEpochs 12 300 "0xC" = .ok answer ∧
      answer.missed = false := by
  obtain ⟨s, reached, last, -⟩ := exists_quiet
  obtain ⟨answer, got, verdict⟩ :=
    missed_iff _ _ _ s reached firstQuarter 12 300 "0xC" (by decide) 300 last (by decide)
  refine ⟨s, answer, got, Bool.eq_false_iff.mpr fun missed => verdict.mp missed ⟨admits_quiet last, ?_⟩⟩
  exact ⟨⟨210, 0, "0x2", .volumePosted 1 "0xc" 5⟩, mem_quietChain (by decide), ⟨"0xc", 5, false, 210, "0x2"⟩,
    by decide +kernel, by decide +kernel, by decide⟩

end Samples

end Proof.Postings
end FpvIndexer
