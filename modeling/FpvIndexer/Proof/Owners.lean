import FpvIndexer.Proof.Attribution
import FpvIndexer.Proof.Reachable

namespace FpvIndexer
open Relational Proof

section Covers
variable {sp : ServicePair} {x : Position}

theorem ServicePair.covers_of_open (isOpen : sp.toEpoch = none) : sp.covers x ↔ sp.span.start ≤ x := by
  simp only [ServicePair.covers, inForce, ServicePair.span, isOpen, Option.all_none, and_true, Position.le_iff,
    decide_eq_true_eq]
  omega

theorem ServicePair.release_covers (log : ServiceRewardsActorLog) (isOpen : sp.toEpoch = none) :
    (sp.release log).covers x ↔ sp.covers x ∧ x ≤ log.position := by
  rw [ServicePair.covers_of_open isOpen]
  simp only [ServicePair.covers, inForce, ServicePair.span, ServicePair.release, Option.all_some, Option.any_some,
    Position.le_iff, ServiceRewardsActorLog.position, decide_eq_true_eq]
  omega

end Covers

def DB.binds (db : DB) (pair : Address × Address) : Bool := db.servicePair.rows.any (·.isActive pair.1 pair.2)

namespace Proof.Owners
open Bindings Effects

def Attributed (rows : List ServicePair) (pair : Address × Address) (x : Position) (orchestrator : Address) : Prop :=
  ∃ sp ∈ rows, sp.pair = pair ∧ sp.covers x ∧ sp.serviceOrchestratorId = orchestrator

def Covered (rows : List ServicePair) (pair : Address × Address) (x : Position) : Prop :=
  ∃ sp ∈ rows, sp.pair = pair ∧ sp.covers x

section Rows
variable {past : List ServiceRewardsActorLog} {log : ServiceRewardsActorLog} {rows : List ServicePair}
  {pair : Address × Address} {x : Position} {orchestrator : Address} {isHeld : ServicePair → Bool}

theorem covered_iff : Covered rows pair x ↔ ∃ orchestrator, Attributed rows pair x orchestrator := by
  constructor
  · rintro ⟨sp, member, own, covers⟩
    exact ⟨_, sp, member, own, covers, rfl⟩
  · rintro ⟨_, sp, member, own, covers, -⟩
    exact ⟨sp, member, own, covers⟩

theorem attributed_append {row : ServicePair} : Attributed (rows ++ [row]) pair x orchestrator ↔
    Attributed rows pair x orchestrator ∨ row.pair = pair ∧ row.covers x ∧ row.serviceOrchestratorId = orchestrator := by
  simp only [Attributed, List.mem_append, List.mem_singleton, or_and_right, exists_or, exists_eq_left]

theorem attributed_release (log : ServiceRewardsActorLog) (held : ∀ sp, isHeld sp → sp.toEpoch = none) :
    Attributed (rows.map fun sp => if isHeld sp then sp.release log else sp) pair x orchestrator ↔
      ∃ sp ∈ rows, sp.pair = pair ∧ sp.covers x ∧ sp.serviceOrchestratorId = orchestrator ∧
        (isHeld sp → x ≤ log.position) := by
  constructor
  · rintro ⟨sp, member, own, covers, owner⟩
    obtain ⟨before, inRows, ⟨holds, rfl⟩ | ⟨kept, rfl⟩⟩ := mem_release_map member
    · obtain ⟨covered, upTo⟩ := (ServicePair.release_covers log (held before holds)).mp covers
      exact ⟨before, inRows, own, covered, owner, fun _ => upTo⟩
    · exact ⟨sp, inRows, own, covers, owner, fun holds => absurd holds (by simp [kept])⟩
  · rintro ⟨sp, member, own, covers, owner, upTo⟩
    refine ⟨_, List.mem_map_of_mem member, ?_⟩
    split
    · rename_i holds
      exact ⟨own, (ServicePair.release_covers log (held sp holds)).mpr ⟨covers, upTo holds⟩, owner⟩
    · exact ⟨own, covers, owner⟩

theorem startsAfter_iff {sp : ServicePair} : sp.startsAfter log.blockNumber log.logIndex ↔ log.position < sp.span.start := by
  simp only [ServicePair.startsAfter, decide_eq_true_eq, Position.lt_iff, ServiceRewardsActorLog.position,
    ServicePair.span]
  omega

theorem attributed_dropAndRelease (log : ServiceRewardsActorLog) (held : ∀ sp, isHeld sp → sp.toEpoch = none) :
    Attributed ((rows.filter fun sp => !(isHeld sp && sp.startsAfter log.blockNumber log.logIndex)).map fun sp =>
        if isHeld sp then sp.release log else sp) pair x orchestrator ↔
      ∃ sp ∈ rows, sp.pair = pair ∧ sp.covers x ∧ sp.serviceOrchestratorId = orchestrator ∧
        (isHeld sp → x ≤ log.position) := by
  rw [attributed_release log held]
  refine exists_congr fun sp => ?_
  rw [List.mem_filter, and_assoc]
  refine and_congr_right fun _ => ⟨And.right, fun attributed => ⟨?_, attributed⟩⟩
  obtain ⟨-, covers, -, upTo⟩ := attributed
  -- what starts after the log does not cover what the log leaves
  cases holds : isHeld sp with
  | false => rfl
  | true =>
      have started := (ServicePair.covers_of_open (held sp holds)).mp covers
      have early : sp.startsAfter log.blockNumber log.logIndex = false := by
        rw [← Bool.not_eq_true, startsAfter_iff, not_lt]
        exact started.trans (upTo holds)
      rw [early]
      rfl

theorem not_covers_of_closed (holds : Invariant past rows) (later : ∀ earlier ∈ past, earlier.position < log.position)
    {sp : ServicePair} (member : sp ∈ rows) (closed : sp.toEpoch ≠ none) (after : log.position ≤ x) : ¬ sp.covers x := by
  intro covers
  obtain ⟨stop, ended⟩ := holds.stop_of_closed member closed
  obtain ⟨earlier, before, rfl⟩ := holds.ended sp member stop ended
  have upTo := ((ServicePair.covers_iff (holds.together sp member) x).mp covers).2 _ ended
  exact absurd (after.trans upTo) (not_le.mpr (later earlier before))

end Rows

theorem binds_iff {db : DB} {pair : Address × Address} :
    db.binds pair ↔ ∃ sp ∈ db.servicePair.rows, sp.pair = pair ∧ sp.toEpoch = none := by
  unfold DB.binds
  rw [List.any_eq_true]
  exact exists_congr fun sp => and_congr_right fun _ => ServicePair.isActive_iff

section Releases
variable {cfg : Deployment} {db : DB} {past : List ServiceRewardsActorLog} {log : ServiceRewardsActorLog}
  {rows : List ServicePair}

def releases (log : ServiceRewardsActorLog) (sp : ServicePair) : Bool :=
  match log.event with
  | .bindingCanceled payer operator orchestrator =>
      sp.isActive payer.toLowerCase operator.toLowerCase && sp.serviceOrchestratorId = orchestrator.toLowerCase
  | .orchestratorRemoved orch => sp.serviceOrchestratorId = orch.toLowerCase && sp.toEpoch = none
  | _ => false

def IsRelease (log : ServiceRewardsActorLog) : Prop :=
  (∃ payer operator orchestrator, log.event = .bindingCanceled payer operator orchestrator) ∨
    ∃ orch, log.event = .orchestratorRemoved orch

/-- A release takes the positions after it from the pairs that it releases, and nothing else. -/
structure CutsAtLog (log : ServiceRewardsActorLog) (before after : List ServicePair) : Prop where
  released : ∀ sp ∈ before, releases log sp → ∀ x orchestrator,
    Attributed after sp.pair x orchestrator ↔ x ≤ log.position ∧ Attributed before sp.pair x orchestrator
  others : ∀ pair, (∀ sp ∈ before, sp.pair = pair → ¬ releases log sp) → ∀ x orchestrator,
    Attributed after pair x orchestrator ↔ Attributed before pair x orchestrator
  none_active : ∀ sp ∈ after, ¬ releases log sp

theorem releases_open {sp : ServicePair} (held : releases log sp) : sp.toEpoch = none := by
  unfold releases at held
  split at held
  · rw [Bool.and_eq_true, ServicePair.isActive_iff] at held
    exact held.1.2
  · rw [Bool.and_eq_true, decide_eq_true_eq, decide_eq_true_eq] at held
    exact held.2
  · cases held

theorem handleLog_release (cfg : Deployment) (db : DB) (tokensMap : List (Address × ERC20Metadata)) (isRelease : IsRelease log) :
    ∃ next, ServiceRewardsActorIndexer.handleLog cfg tokensMap db log = .ok next ∧ next.servicePair.rows =
      (db.servicePair.rows.filter fun sp =>
        !(releases log sp && sp.startsAfter log.blockNumber log.logIndex)).map fun sp =>
          if releases log sp then sp.release log else sp := by
  unfold ServiceRewardsActorIndexer.handleLog releases
  rcases isRelease with ⟨payer, operator, orchestrator, event⟩ | ⟨orch, event⟩
  · rw [event]
    exact ⟨_, rfl, rfl⟩
  · rw [event]
    exact ⟨_, rfl, rfl⟩

theorem cutsAtLog (holds : Invariant past rows) (later : ∀ earlier ∈ past, earlier.position < log.position) :
    CutsAtLog log rows ((rows.filter fun sp =>
      !(releases log sp && sp.startsAfter log.blockNumber log.logIndex)).map fun sp =>
        if releases log sp then sp.release log else sp) where
  released := by
    intro sp member held x orchestrator
    rw [attributed_dropAndRelease log fun _ => releases_open]
    constructor
    · rintro ⟨other, inRows, own, covers, owner, upTo⟩
      refine ⟨?_, other, inRows, own, covers, owner⟩
      by_cases isOpen : other.toEpoch = none
      · have active : other.isActive sp.payer sp.operator := ServicePair.isActive_iff.mpr ⟨own, isOpen⟩
        have activeToo : sp.isActive sp.payer sp.operator := ServicePair.isActive_iff.mpr ⟨rfl, releases_open held⟩
        exact upTo (holds.active_unique inRows member active activeToo ▸ held)
      · by_contra after
        exact not_covers_of_closed holds later inRows isOpen (not_le.mp after).le covers
    · rintro ⟨upTo, other, inRows, attributed⟩
      exact ⟨other, inRows, attributed.1, attributed.2.1, attributed.2.2, fun _ => upTo⟩
  others := by
    intro pair unheld x orchestrator
    rw [attributed_dropAndRelease log fun _ => releases_open]
    refine exists_congr fun sp => and_congr_right fun member => and_congr_right fun own => ?_
    exact and_congr_right fun _ => and_iff_left fun held => absurd held (unheld sp member own)
  none_active := by
    intro sp member held
    obtain ⟨before, -, ⟨-, rfl⟩ | ⟨kept, rfl⟩⟩ := mem_release_map member
    · cases releases_open held
    · rw [kept] at held
      cases held

theorem handleLog_cutsAtLog {history : History} (reached : history.Reaches cfg db)
    (later : ∀ earlier ∈ history.batches.flatMap Batch.serviceRewardsActorLogs, earlier.position < log.position)
    (isRelease : IsRelease log) (tokensMap : List (Address × ERC20Metadata)) :
    ∃ next, ServiceRewardsActorIndexer.handleLog cfg tokensMap db log = .ok next ∧
      CutsAtLog log db.servicePair.rows next.servicePair.rows := by
  obtain ⟨next, handled, rows⟩ := handleLog_release cfg db tokensMap isRelease
  refine ⟨next, handled, ?_⟩
  rw [rows]
  exact cutsAtLog (Reachable.invariants_reached reached).bindings later

end Releases

section Reassignments
variable {cfg : Deployment} {db next : DB} {past : List ServiceRewardsActorLog} {log : ServiceRewardsActorLog}
  {rows : List ServicePair} {sp : ServicePair} {x : Position}

def KeepsCoverage (cfg : Deployment) (pair : Address × Address) (before after : List ServicePair) : Prop :=
  ∀ x : Position, cfg.activationEpoch ≤ x.epoch → (Covered after pair x ↔ Covered before pair x)

/-- The binding has started when the log has passed, or with the activation. -/
def InTime (cfg : Deployment) (log : ServiceRewardsActorLog) (sp : ServicePair) : Prop :=
  sp.span.start ≤ max ⟨cfg.activationEpoch, 0⟩ log.position.next

theorem activation_le_iff {x : Position} : (⟨cfg.activationEpoch, 0⟩ : Position) ≤ x ↔ cfg.activationEpoch ≤ x.epoch := by
  rw [Position.le_iff, ← le_iff_lt_or_eq.trans (or_congr_right (and_iff_left (Nat.zero_le x.logIndex)).symm)]

theorem covered_map {pair : Address × Address} {f : ServicePair → ServicePair} (own : ∀ sp, (f sp).pair = sp.pair)
    (covers : ∀ sp, (f sp).covers x = sp.covers x) : Covered (rows.map f) pair x ↔ Covered rows pair x := by
  simp only [Covered, List.mem_map, exists_exists_and_eq_and, own, covers]

theorem covered_bound (holds : Invariant past rows) (member : sp ∈ rows) (isOpen : sp.toEpoch = none) :
    Covered rows sp.pair x ↔
      (∃ row ∈ rows, row.pair = sp.pair ∧ row.toEpoch ≠ none ∧ row.covers x) ∨ sp.span.start ≤ x := by
  constructor
  · rintro ⟨row, inRows, own, covers⟩
    by_cases rowOpen : row.toEpoch = none
    · have active : row.isActive sp.payer sp.operator := ServicePair.isActive_iff.mpr ⟨own, rowOpen⟩
      have activeToo : sp.isActive sp.payer sp.operator := ServicePair.isActive_iff.mpr ⟨rfl, isOpen⟩
      obtain rfl := holds.active_unique inRows member active activeToo
      exact Or.inr ((ServicePair.covers_of_open isOpen).mp covers)
    · exact Or.inl ⟨row, inRows, own, rowOpen, covers⟩
  · rintro (⟨row, inRows, own, -, covers⟩ | started)
    · exact ⟨row, inRows, own, covers⟩
    · exact ⟨sp, member, rfl, (ServicePair.covers_of_open isOpen).mpr started⟩

theorem covered_handOver (holds : Invariant past rows) (member : sp ∈ rows) (isOpen : sp.toEpoch = none)
    (orchestrator : Address) :
    Covered ((rows.map fun row => if row.isActive sp.payer sp.operator then row.release log else row) ++
        [registration log sp.payer sp.operator orchestrator]) sp.pair x ↔
      (∃ row ∈ rows, row.pair = sp.pair ∧ row.toEpoch ≠ none ∧ row.covers x) ∨
        (sp.span.start ≤ x ∧ x ≤ log.position) ∨ log.position.next ≤ x := by
  have heldOpen : ∀ row : ServicePair, row.isActive sp.payer sp.operator → row.toEpoch = none :=
    fun row active => (ServicePair.isActive_iff.mp active).2
  have new : (registration log sp.payer sp.operator orchestrator).covers x ↔ log.position.next ≤ x :=
    ServicePair.covers_of_open rfl
  simp only [covered_iff, attributed_append, attributed_release log heldOpen, exists_or, new]
  rw [← or_assoc]
  refine or_congr ?_ ⟨fun ⟨_, _, started, _⟩ => started, fun started => ⟨orchestrator, rfl, started, rfl⟩⟩
  constructor
  · rintro ⟨_, row, inRows, own, covers, -, upTo⟩
    rcases (covered_bound holds member isOpen).mp ⟨row, inRows, own, covers⟩ with closed | started
    · exact Or.inl closed
    · by_cases rowOpen : row.toEpoch = none
      · exact Or.inr ⟨started, upTo (ServicePair.isActive_iff.mpr ⟨own, rowOpen⟩)⟩
      · exact Or.inl ⟨row, inRows, own, rowOpen, covers⟩
  · rintro (⟨row, inRows, own, closed, covers⟩ | ⟨started, upTo⟩)
    · exact ⟨_, row, inRows, own, covers, rfl, fun active => absurd (heldOpen row active) closed⟩
    · exact ⟨_, sp, member, rfl, (ServicePair.covers_of_open isOpen).mpr started, rfl, fun _ => upTo⟩

/-- A binding handed over at the log is followed from right after it on, whether it had started or not. -/
theorem handOver_keepsCoverage_iff (holds : Invariant past rows)
    (later : ∀ earlier ∈ past, earlier.position < log.position) (member : sp ∈ rows) (isOpen : sp.toEpoch = none)
    (orchestrator : Address) :
    KeepsCoverage cfg sp.pair rows
        ((rows.map fun row => if row.isActive sp.payer sp.operator then row.release log else row) ++
          [registration log sp.payer sp.operator orchestrator]) ↔ InTime cfg log sp := by
  constructor
  · intro kept
    -- the first position from the activation on that the new binding covers
    have gained := (kept (max ⟨cfg.activationEpoch, 0⟩ log.position.next) (activation_le_iff.mp (le_max_left _ _))).mp
      ((covered_handOver holds member isOpen orchestrator).mpr (Or.inr (Or.inr (le_max_right _ _))))
    rcases (covered_bound holds member isOpen).mp gained with ⟨row, inRows, -, closed, covers⟩ | started
    · have after := log.position.lt_next.le.trans (le_max_right ⟨cfg.activationEpoch, 0⟩ log.position.next)
      exact absurd covers (not_covers_of_closed holds later inRows closed after)
    · exact started
  · intro inTime x activated
    rw [covered_handOver holds member isOpen, covered_bound holds member isOpen]
    refine or_congr_right ⟨?_, fun started => ?_⟩
    · rintro (⟨started, -⟩ | after)
      · exact started
      · exact inTime.trans (max_le (activation_le_iff.mpr activated) after)
    · exact (le_or_gt x log.position).imp (fun upTo => ⟨started, upTo⟩) Position.next_le_iff.mpr

theorem inTime_of_settled (early : sp.fromEpoch < logQuarterStartEpoch cfg log.blockNumber) : InTime cfg log sp := by
  rw [logQuarterStartEpoch_eq] at early
  refine le_max_iff.mpr ?_
  by_cases fromQ1 : 1 ≤ cfg.quarterNum log.blockNumber
  · have started := (cfg.le_quarterNum_iff fromQ1 log.blockNumber).mp le_rfl
    rw [max_eq_left fromQ1] at early
    have before : sp.span.start < log.position := Position.lt_of_epoch_lt (early.trans_le started)
    exact Or.inr (before.trans log.position.lt_next).le
  · rw [max_eq_right (by omega), Config.quarterStartEpoch, sub_self, mul_zero, add_zero] at early
    exact Or.inl (Position.lt_of_epoch_lt early).le

theorem reassign_keepsCoverage_iff (holds : Invariant past db.servicePair.rows)
    (later : ∀ earlier ∈ past, earlier.position < log.position) {payer operator orchestrator : Address} {inherit : Bool}
    (member : sp ∈ db.servicePair.rows) (own : sp.pair = (payer.toLowerCase, operator.toLowerCase))
    (isOpen : sp.toEpoch = none) (reassigned : reassignBinding cfg db log payer operator orchestrator inherit = .ok next) :
    KeepsCoverage cfg sp.pair db.servicePair.rows next.servicePair.rows ↔ inherit = true ∨ InTime cfg log sp := by
  obtain ⟨samePayer, sameOperator⟩ := Prod.mk.inj own
  have isActive : sp.isActive payer.toLowerCase operator.toLowerCase := ServicePair.isActive_iff.mpr ⟨own, isOpen⟩
  rcases reassignBinding_spec reassigned with ⟨-, rows, inherits⟩ | ⟨settled, rows⟩
  · refine iff_of_true (fun x _ => ?_) (Or.inl inherits)
    rw [rows]
    refine covered_map (fun sp => ?_) (fun sp => ?_)
    · split <;> rfl
    · split <;> rfl
  · rw [rows, ← samePayer, ← sameOperator, handOver_keepsCoverage_iff holds later member isOpen]
    constructor
    · exact Or.inr
    · rintro (inherits | inTime)
      · exact inTime_of_settled (settled inherits sp member isActive)
      · exact inTime

theorem reassignment_keepsCoverage_iff {history : History} (reached : history.Reaches cfg db)
    (later : ∀ earlier ∈ history.batches.flatMap Batch.serviceRewardsActorLogs, earlier.position < log.position)
    {payer operator orchestrator : Address} {inherit : Bool}
    (event : log.event = .bindingReassigned payer operator orchestrator inherit)
    (bound : db.binds (payer.toLowerCase, operator.toLowerCase)) {tokensMap : List (Address × ERC20Metadata)}
    (handled : ServiceRewardsActorIndexer.handleLog cfg tokensMap db log = .ok next) :
    KeepsCoverage cfg (payer.toLowerCase, operator.toLowerCase) db.servicePair.rows next.servicePair.rows ↔
      inherit = true ∨ ∀ sp ∈ db.servicePair.rows, sp.isActive payer.toLowerCase operator.toLowerCase →
        InTime cfg log sp := by
  have holds := (Reachable.invariants_reached reached).bindings
  obtain ⟨sp, member, own, isOpen⟩ := binds_iff.mp bound
  have isActive : sp.isActive payer.toLowerCase operator.toLowerCase := ServicePair.isActive_iff.mpr ⟨own, isOpen⟩
  unfold ServiceRewardsActorIndexer.handleLog at handled
  rw [event] at handled
  rw [← own, reassign_keepsCoverage_iff holds later member own isOpen handled]
  refine or_congr_right ⟨fun inTime other inRows active => ?_, fun all => all sp member isActive⟩
  rwa [holds.active_unique inRows member active isActive]

end Reassignments

section Pending

def pendingPair : History where
  batches := [.serviceRewardsActor .offline [⟨10, 0, "0x1", .orchestratorAdmitted "0xa" "0xa"⟩,
    ⟨10, 1, "0x1", .orchestratorAdmitted "0xb" "0xb"⟩, ⟨50, 0, "0x1", .pricingParamsUpdated 10 1 1 1000 10⟩,
    ⟨195, 0, "0x2", .bindingDeclared "0xP" "0xO" "0xa"⟩]]
  ordered := by unfold ChainOrdered; decide

theorem pendingPair_reached : pendingPair.Reaches hundredEpochs (pendingPair.database hundredEpochs) :=
  History.reaches_database (by decide +kernel)

theorem handleLog_cutsAtLog_pending : ∃ next,
    ServiceRewardsActorIndexer.handleLog hundredEpochs [] (pendingPair.database hundredEpochs)
      ⟨197, 0, "0x3", .bindingCanceled "0xP" "0xO" "0xa"⟩ = .ok next ∧
    CutsAtLog ⟨197, 0, "0x3", .bindingCanceled "0xP" "0xO" "0xa"⟩
      (pendingPair.database hundredEpochs).servicePair.rows next.servicePair.rows :=
  handleLog_cutsAtLog pendingPair_reached (by decide) (Or.inl ⟨_, _, _, rfl⟩) []

def pendingHandedOver : ServiceRewardsActorLog := ⟨196, 0, "0x3", .bindingReassigned "0xP" "0xO" "0xb" false⟩

theorem pendingPair_binds : (pendingPair.database hundredEpochs).binds
    (Address.toLowerCase "0xP", Address.toLowerCase "0xO") := by
  decide +kernel

def startedHandedOver : ServiceRewardsActorLog := ⟨205, 0, "0x3", .bindingReassigned "0xP" "0xO" "0xb" false⟩

theorem reassignment_keepsCoverage_iff_started : ∃ next,
    ServiceRewardsActorIndexer.handleLog hundredEpochs [] (pendingPair.database hundredEpochs) startedHandedOver =
      .ok next ∧
    KeepsCoverage hundredEpochs (Address.toLowerCase "0xP", Address.toLowerCase "0xO")
      (pendingPair.database hundredEpochs).servicePair.rows next.servicePair.rows := by
  obtain ⟨next, handled⟩ : ∃ next, ServiceRewardsActorIndexer.handleLog hundredEpochs []
      (pendingPair.database hundredEpochs) startedHandedOver = .ok next := exists_of_isOk (by decide +kernel)
  refine ⟨next, handled, ?_⟩
  refine (reassignment_keepsCoverage_iff pendingPair_reached (by decide) rfl pendingPair_binds handled).mpr (Or.inr ?_)
  have inTime : ∀ sp ∈ (pendingPair.database hundredEpochs).servicePair.rows,
      sp.span.start ≤ max ⟨hundredEpochs.activationEpoch, 0⟩ startedHandedOver.position.next := by decide +kernel
  exact fun sp member _ => inTime sp member

theorem pendingHandedOver_covered : pendingPair.Reaches hundredEpochs (pendingPair.database hundredEpochs) ∧
    (∀ earlier ∈ pendingPair.batches.flatMap Batch.serviceRewardsActorLogs,
      earlier.position < pendingHandedOver.position) ∧
    (pendingPair.database hundredEpochs).binds (Address.toLowerCase "0xP", Address.toLowerCase "0xO") ∧
    ∃ next, ServiceRewardsActorIndexer.handleLog hundredEpochs [] (pendingPair.database hundredEpochs)
        pendingHandedOver = .ok next ∧
      ¬ KeepsCoverage hundredEpochs (Address.toLowerCase "0xP", Address.toLowerCase "0xO")
        (pendingPair.database hundredEpochs).servicePair.rows next.servicePair.rows := by
  obtain ⟨next, handled⟩ : ∃ next, ServiceRewardsActorIndexer.handleLog hundredEpochs []
      (pendingPair.database hundredEpochs) pendingHandedOver = .ok next := exists_of_isOk (by decide +kernel)
  refine ⟨pendingPair_reached, by decide, pendingPair_binds, next, handled, ?_⟩
  have holds := (Reachable.invariants_reached pendingPair_reached).bindings
  obtain ⟨sp, member, own, isOpen⟩ := binds_iff.mp pendingPair_binds
  have reassigned : reassignBinding hundredEpochs (pendingPair.database hundredEpochs) pendingHandedOver "0xP" "0xO"
      "0xb" false = .ok next := handled
  rw [← own, reassign_keepsCoverage_iff holds (by decide) member own isOpen reassigned, not_or]
  have late : ∀ sp ∈ (pendingPair.database hundredEpochs).servicePair.rows,
      ¬ sp.span.start ≤ max ⟨hundredEpochs.activationEpoch, 0⟩ pendingHandedOver.position.next := by
    decide +kernel
  exact ⟨Bool.false_ne_true, late sp member⟩

end Pending

end Proof.Owners
end FpvIndexer
