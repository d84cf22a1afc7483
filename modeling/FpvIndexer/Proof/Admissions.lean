import FpvIndexer.Services.ServiceOrchestrators
import FpvIndexer.Proof.Rosters
import FpvIndexer.Proof.GateTargets

namespace FpvIndexer
open Relational Proof

def AdmissionPeriod.span (period : AdmissionPeriod) : Lifespan Position :=
  ⟨⟨period.admissionEpoch, period.admissionLogIndex⟩, stopPosition period.removalEpoch period.removalLogIndex⟩

namespace Proof.Admissions
open Schedules Rosters

def Admitted (logs : List ServiceRewardsActorLog) (id : Address) : Prop :=
  ∃ log ∈ logs, ∃ orch wallet, log.event = .orchestratorAdmitted orch wallet ∧ orch.toLowerCase = id

structure Shows (t : Tenure Position Address) (periods : List AdmissionPeriod) : Prop where
  wallet : ∀ x wallet, (∃ period ∈ periods, period.span.Covers x ∧ period.wallet = wallet) ↔ t.holder x = some wallet
  current : ∀ wallet, (∃ period ∈ periods, period.removalEpoch = none ∧ period.wallet = wallet) ↔
    t.current.map Prod.fst = some wallet
  apart : periods.Pairwise fun a b => a.span.Apart b.span

section Logs
variable {services : TokenServices}

theorem known_handle (roster : Roster) (log : ServiceRewardsActorLog) (id : Address) :
    ((roster.handle services log).wallets id).Known ↔ (roster.wallets id).Known ∨ Admitted [log] id := by
  have admits : ∀ orch wallet, log.event = .orchestratorAdmitted orch wallet →
      (Admitted [log] id ↔ orch.toLowerCase = id) := by
    intro orch wallet event
    constructor
    · rintro ⟨other, member, orch', wallet', eventToo, rfl⟩
      rw [List.mem_singleton.mp member, event] at eventToo
      cases eventToo
      rfl
    · exact fun same => ⟨log, List.mem_singleton_self _, orch, wallet, event, same⟩
  have other : (∀ orch wallet, log.event ≠ .orchestratorAdmitted orch wallet) → ¬ Admitted [log] id := by
    rintro no ⟨_, member, orch, wallet, event, -⟩
    rw [List.mem_singleton.mp member] at event
    exact no orch wallet event
  have updated : ∀ (orch : Address) (t : Tenure Position Address), (t.Known ↔ (roster.wallets orch).Known) →
      ((Function.update roster.wallets orch t id).Known ↔ (roster.wallets id).Known) := by
    intro orch t same
    by_cases own : id = orch
    · subst own
      rw [Function.update_self, same]
    · rw [Function.update_of_ne own]
  unfold Roster.handle
  cases event : log.event with
  | orchestratorAdmitted orch wallet =>
      rw [admits orch wallet event]
      dsimp only
      by_cases own : id = orch.toLowerCase
      · subst own
        rw [Function.update_self]
        exact iff_of_true (Tenure.known_take _ _ _) (Or.inr rfl)
      · rw [Function.update_of_ne own]
        exact (or_iff_left (Ne.symm own)).symm
  | orchestratorRemoved orch =>
      rw [or_iff_left (other fun _ _ => by rw [event]; nofun)]
      exact updated _ _ (Tenure.known_close _ _)
  | orchestratorWalletReplaced oldOrch newWallet =>
      rw [or_iff_left (other fun _ _ => by rw [event]; nofun)]
      exact updated _ _ (Tenure.known_pass _ _)
  | _ => exact (or_iff_left (other fun _ _ => by rw [event]; nofun)).symm

variable (services) in
theorem known_iff (logs : List ServiceRewardsActorLog) (id : Address) :
    ((logs.foldl (Roster.handle services) .empty).wallets id).Known ↔ Admitted logs id := by
  induction logs using List.reverseRecOn with
  | nil => exact iff_of_false Tenure.not_known_vacant fun ⟨_, member, _⟩ => nomatch member
  | append_singleton past log ih =>
      rw [List.foldl_append, List.foldl_cons, List.foldl_nil, known_handle, ih]
      unfold Admitted
      simp only [List.mem_append, or_and_right, exists_or]

end Logs

theorem exists_after (logs : List ServiceRewardsActorLog) : ∃ now, ∀ log ∈ logs, log.position < now := by
  induction logs with
  | nil => exact ⟨⟨0, 0⟩, nofun⟩
  | cons log rest ih =>
      obtain ⟨now, later⟩ := ih
      refine ⟨max log.position.next now, List.forall_mem_cons.mpr ⟨?_, fun other member => ?_⟩⟩
      · exact lt_max_of_lt_left log.position.lt_next
      · exact lt_max_of_lt_right (later other member)

section Periods
variable {past : List ServiceRewardsActorLog} {db : DB} {roster : Roster} {admissions : List ServiceOrchestratorAdmission}

theorem shows_of_rostered (rostered : Rostered past db roster)
    (read : admissions.Perm db.serviceOrchestratorAdmission.rows) (id : Address) :
    Shows (roster.wallets id) ((admissions.filter (·.serviceOrchestratorId = id)).map (·.period)) := by
  have tells := rostered.wallets id
  have own : ∀ p : AdmissionPeriod → Prop,
      (∃ period ∈ (admissions.filter (·.serviceOrchestratorId = id)).map (·.period), p period) ↔
        ∃ a ∈ db.serviceOrchestratorAdmission.rows, admissionTable.key a = id ∧ p a.period := by
    intro p
    simp only [List.mem_map, List.mem_filter, read.mem_iff, decide_eq_true_eq, and_assoc]
    constructor
    · rintro ⟨_, ⟨a, member, isOwn, rfl⟩, holds⟩
      exact ⟨a, member, isOwn, holds⟩
    · rintro ⟨a, member, isOwn, holds⟩
      exact ⟨a.period, ⟨a, member, isOwn, rfl⟩, holds⟩
  refine ⟨fun x wallet => (own _).trans (tells.holder x wallet), fun wallet => (own _).trans ?_, ?_⟩
  · rw [Option.map_eq_some_iff]
    constructor
    · rintro ⟨a, member, isOwn, isOpen, rfl⟩
      exact ⟨_, tells.current_of_open member isOwn (stop_of_admission isOpen), rfl⟩
    · rintro ⟨⟨_, start⟩, claimed, rfl⟩
      obtain ⟨a, member, isOwn, isOpen, holds, -⟩ := (tells.current _ start).mp claimed
      exact ⟨a, member, isOwn, (admission_stop_iff rostered member).mp isOpen, holds⟩
  · obtain ⟨now, later⟩ := exists_after past
    have apart := (rostered.dated now later).apart
    have readApart := (read.pairwise_iff fun {a b} apart same => (apart same.symm).symm).mpr apart
    refine List.pairwise_map.mpr ((readApart.filter _).imp_of_mem fun {a b} ofA ofB apart => apart ?_)
    have keyA : a.serviceOrchestratorId = id := of_decide_eq_true (List.mem_filter.mp ofA).2
    have keyB : b.serviceOrchestratorId = id := of_decide_eq_true (List.mem_filter.mp ofB).2
    exact keyA.trans keyB.symm

end Periods

section Reached
variable (cfg : Deployment) (chain : Chain) (allowed : Execution → chain.Event → Prop) (s : Execution)
  (reached : chain.Reached cfg allowed s)

include reached

/-- The response has one entry for each orchestrator that the indexed logs ever admit, and its periods are apart and
say of every position which wallet the orchestrator is admitted with. -/
theorem serviceOrchestrators_of_reached
    (scan : List ServiceOrchestratorAdmission → List ServiceOrchestratorAdmission)
    (scans : ∀ rows, (scan rows).Perm rows) :
    ((getServiceOrchestrators scan s.store.toDB).map (·.id)).Nodup ∧
      (∀ id, id ∈ (getServiceOrchestrators scan s.store.toDB).map (·.id) ↔ Admitted (chain.actorLogs s.store) id) ∧
      ∀ entry ∈ getServiceOrchestrators scan s.store.toDB,
        Shows ((chain.roster s.store).wallets entry.id) entry.admissionPeriods := by
  have rostered := rostered_of_reached reached
  have ids : (getServiceOrchestrators scan s.store.toDB).map (·.id) =
      (groupBy (·.serviceOrchestratorId) (scan s.store.serviceOrchestratorAdmission.rows)).map Prod.fst := by
    unfold getServiceOrchestrators
    rw [List.map_map]
    rfl
  refine ⟨?_, fun id => ?_, fun entry member => ?_⟩
  · rw [ids]
    exact groupBy_keys_nodup _ _
  · rw [ids, groupBy_keys, mem_distinctOn_id, List.mem_map,
      ← known_iff chain.tokenServices (chain.actorLogs s.store) id]
    refine Iff.trans ?_ (rostered.wallets id).known_iff.symm
    exact exists_congr fun a => and_congr_left fun _ => (scans _).mem_iff
  · obtain ⟨⟨id, admissions⟩, grouped, rfl⟩ := List.mem_map.mp member
    have members := ((mem_groupBy _).mp grouped).2
    dsimp only at members ⊢
    rw [members]
    exact shows_of_rostered rostered (scans _) id

end Reached

section Samples
open Removals GateTargets

def readmitted : Chain :=
  chainOf
    [⟨50, 0, "0x1", .admittedListsUpdated ["0xd"] ["0xf"]⟩, ⟨50, 1, "0x1", .orchestratorAdmitted "0xC" "0x5"⟩,
      ⟨60, 0, "0x2", .orchestratorAdmitted "0xe" "0x8"⟩, ⟨70, 0, "0x3", .orchestratorWalletReplaced "0xC" "0x6"⟩,
      ⟨120, 0, "0x4", .orchestratorRemoved "0xc"⟩, ⟨150, 0, "0x5", .orchestratorAdmitted "0xc" "0x7"⟩]
    []
    [⟨"0xf", 55, 0, "0x6", .railCreated 1 "0x1" "0x3" "0xd" "0x2" "0x4"⟩]
    (by intro indexer; cases indexer <;> decide) (by intro indexer; cases indexer <;> decide) (by decide +kernel)
    (by decide +kernel)

def readmittedSchedule (heads : List Int) : Option Execution :=
  schedule hundredEpochs readmitted isApart (heads.map fun head _ => head)

def readmittedPeriods : List AdmissionPeriod :=
  [⟨"0x7", 150, 0, "0x5", none, none, none⟩, ⟨"0x6", 50, 1, "0x1", some 120, some 0, some "0x4"⟩]

theorem readmitted_answer : (readmittedSchedule [100, 300]).map (fun s =>
      getServiceOrchestrators List.reverse s.store.toDB) =
    some [⟨"0xc", readmittedPeriods⟩, ⟨"0xe", [⟨"0x8", 60, 0, "0x2", none, none, none⟩]⟩] := by decide +kernel

theorem serviceOrchestrators_of_reached_readmitted : ∃ s : Execution,
    Shows ((readmitted.roster s.store).wallets "0xc") readmittedPeriods := by
  obtain ⟨s, run, answer⟩ := Option.map_eq_some_iff.mp readmitted_answer
  have reached := reached_of_schedule apart_of_check run
  obtain ⟨-, -, shows⟩ := serviceOrchestrators_of_reached _ _ _ s reached List.reverse List.reverse_perm
  rw [answer] at shows
  exact ⟨s, shows _ List.mem_cons_self⟩

end Samples

end Proof.Admissions
end FpvIndexer
