import FpvIndexer.Proof.Handlers
import FpvIndexer.Proof.Intervals

namespace FpvIndexer
open Relational Proof

def ServicePair.span (sp : ServicePair) : Lifespan Position :=
  ⟨⟨sp.fromEpoch, sp.fromLogIndex⟩, stopPosition sp.toEpoch sp.toLogIndex⟩

theorem ServicePair.release_span (log : ServiceRewardsActorLog) {sp : ServicePair} (isOpen : sp.toEpoch = none) :
    (sp.release log).span = sp.span.closeAt log.position := by
  unfold ServicePair.span ServicePair.release Lifespan.closeAt
  rw [isOpen]
  rfl

theorem ServicePair.isActive_iff {sp : ServicePair} {payer operator : Address} :
    sp.isActive payer operator = true ↔ sp.pair = (payer, operator) ∧ sp.toEpoch = none := by
  unfold ServicePair.isActive ServicePair.pair
  simp only [decide_eq_true_eq, Prod.mk.injEq]
  constructor
  · rintro ⟨operator, payer, isOpen⟩
    exact ⟨⟨payer, operator⟩, isOpen⟩
  · rintro ⟨⟨payer, operator⟩, isOpen⟩
    exact ⟨operator, payer, isOpen⟩

namespace Proof.Bindings
open Handlers

def declaration (log : ServiceRewardsActorLog) (payer operator orchestrator : Address) (start : Int × Nat) :
    ServicePair where
  serviceOrchestratorId := orchestrator
  payer := payer
  operator := operator
  fromEpoch := start.1
  fromLogIndex := start.2
  toEpoch := none
  toLogIndex := none
  bindingEpoch := log.blockNumber
  bindingTxHash := log.transactionHash.toLower
  unbindingEpoch := none
  unbindingTxHash := none

inductive Change (cfg : Deployment) (db : DB) (log : ServiceRewardsActorLog) : List ServicePair → Prop
  | keep : Change cfg db log db.servicePair.rows
  | declare (payer operator orchestrator : Address) (cutoffStart : Int)
      (unbound : ∀ sp ∈ db.servicePair.rows, ¬ sp.isActive payer operator)
      (cutoff : ∃ pairTupleString, cutoffStartEpoch cfg db pairTupleString log.blockNumber = .ok cutoffStart) :
      Change cfg db log (db.servicePair.rows ++ [declaration log payer operator orchestrator
        (bindingStart cfg log.blockNumber cutoffStart (previousBinding db payer operator))])
  | move (payer operator orchestrator : Address)
      (moved : ∃ sp ∈ db.servicePair.rows, sp.isActive payer operator ∧
        logQuarterStartEpoch cfg log.blockNumber ≤ sp.fromEpoch) :
      Change cfg db log (db.servicePair.rows.map fun sp =>
        if sp.isActive payer operator && (logQuarterStartEpoch cfg log.blockNumber ≤ sp.fromEpoch : Bool)
        then sp.reassign orchestrator else sp)
  | handOver (payer operator orchestrator : Address) (inherit : Bool)
      (settled : inherit = true → ∀ sp ∈ db.servicePair.rows, sp.isActive payer operator →
        sp.fromEpoch < logQuarterStartEpoch cfg log.blockNumber) :
      Change cfg db log ((db.servicePair.rows.map fun sp =>
        if sp.isActive payer operator then sp.release log else sp) ++
          [registration log payer operator orchestrator])
  | release (isHeld : ServicePair → Bool) (held : ∀ sp, isHeld sp → sp.toEpoch = none) :
      Change cfg db log ((db.servicePair.rows.filter fun sp =>
        !(isHeld sp && sp.startsAfter log.blockNumber log.logIndex)).map fun sp =>
          if isHeld sp then sp.release log else sp)

section Inversion
variable {cfg : Deployment} {db next : DB} {log : ServiceRewardsActorLog}

theorem createBinding_spec {payer operator orchestrator : Address}
    (created : createBinding cfg db log payer operator orchestrator = .ok next) :
    (∀ sp ∈ db.servicePair.rows, ¬ sp.isActive payer.toLowerCase operator.toLowerCase) ∧
      ∃ pairTupleString cutoffStart, cutoffStartEpoch cfg db pairTupleString log.blockNumber = .ok cutoffStart ∧
        next.servicePair.rows = db.servicePair.rows ++ [declaration log payer.toLowerCase operator.toLowerCase
          orchestrator.toLowerCase (bindingStart cfg log.blockNumber cutoffStart
            (previousBinding db payer.toLowerCase operator.toLowerCase))] := by
  unfold createBinding at created
  dsimp only at created
  split at created
  · cases created
  · rename_i unbound
    split at created
    · cases created
    · obtain ⟨cutoffStart, cutoff, inserted⟩ := bind_eq_ok.mp created
      obtain ⟨pairs, rfl, rows⟩ := insertPair_spec inserted
      refine ⟨?_, _, cutoffStart, cutoff, rows⟩
      intro sp member active
      exact unbound (List.any_eq_true.mpr ⟨sp, member, active⟩)

theorem createBinding_rows {payer operator orchestrator : Address}
    (created : createBinding cfg db log payer operator orchestrator = .ok next) :
    Change cfg db log next.servicePair.rows := by
  obtain ⟨unbound, pairTupleString, cutoffStart, cutoff, rows⟩ := createBinding_spec created
  rw [rows]
  exact Change.declare _ _ _ cutoffStart unbound ⟨pairTupleString, cutoff⟩

section Settled
variable {isActive : ServicePair → Bool} {start : Int} {rows : List ServicePair}

theorem early_of_settled (settled : ¬ rows.any fun sp => isActive sp && (start ≤ sp.fromEpoch : Bool)) :
    ∀ sp ∈ rows, isActive sp → sp.fromEpoch < start := by
  intro sp member active
  by_contra late
  refine settled (List.any_eq_true.mpr ⟨sp, member, ?_⟩)
  rw [active, Bool.true_and]
  exact decide_eq_true (not_lt.mp late)

theorem release_early (log : ServiceRewardsActorLog) (early : ∀ sp ∈ rows, isActive sp → sp.fromEpoch < start) :
    (rows.map fun sp => if isActive sp && (sp.fromEpoch < start : Bool) then sp.release log else sp) =
      rows.map fun sp => if isActive sp then sp.release log else sp := by
  refine List.map_congr_left fun sp member => ?_
  by_cases active : isActive sp
  · simp [active, early sp member active]
  · simp [active]

end Settled

theorem reassignBinding_spec {payer operator orchestrator : Address} {inherit : Bool}
    (reassigned : reassignBinding cfg db log payer operator orchestrator inherit = .ok next) :
    (∃ sp ∈ db.servicePair.rows, sp.isActive payer.toLowerCase operator.toLowerCase ∧
        logQuarterStartEpoch cfg log.blockNumber ≤ sp.fromEpoch) ∧
      next.servicePair.rows = db.servicePair.rows.map (fun sp =>
        if sp.isActive payer.toLowerCase operator.toLowerCase &&
          (logQuarterStartEpoch cfg log.blockNumber ≤ sp.fromEpoch : Bool)
        then sp.reassign orchestrator.toLowerCase else sp) ∧ inherit = true ∨
    (inherit = true → ∀ sp ∈ db.servicePair.rows, sp.isActive payer.toLowerCase operator.toLowerCase →
        sp.fromEpoch < logQuarterStartEpoch cfg log.blockNumber) ∧
      next.servicePair.rows = (db.servicePair.rows.map fun sp =>
        if sp.isActive payer.toLowerCase operator.toLowerCase then sp.release log else sp) ++
          [registration log payer.toLowerCase operator.toLowerCase orchestrator.toLowerCase] := by
  unfold reassignBinding at reassigned
  dsimp only at reassigned
  cases inherit with
  | false =>
      rw [if_neg (by simp)] at reassigned
      obtain ⟨pairs, rfl, rows⟩ := insertPair_spec reassigned
      exact Or.inr ⟨nofun, rows⟩
  | true =>
      rw [if_pos rfl] at reassigned
      split at reassigned
      · rename_i moved
        unfold DB.reassignPairs at reassigned
        split at reassigned
        · cases reassigned
          obtain ⟨sp, member, movable⟩ := List.any_eq_true.mp moved
          rw [Bool.and_eq_true, decide_eq_true_eq] at movable
          exact Or.inl ⟨⟨sp, member, movable⟩, rfl, rfl⟩
        · cases reassigned
      · rename_i settled
        -- every active binding of the pair started before the quarter of the event
        have early := early_of_settled settled
        obtain ⟨pairs, rfl, rows⟩ := insertPair_spec reassigned
        exact Or.inr ⟨fun _ => early, rows.trans (congrArg (· ++ _) (release_early log early))⟩

theorem reassignBinding_rows {payer operator orchestrator : Address} {inherit : Bool}
    (reassigned : reassignBinding cfg db log payer operator orchestrator inherit = .ok next) :
    Change cfg db log next.servicePair.rows := by
  rcases reassignBinding_spec reassigned with ⟨moved, rows, -⟩ | ⟨settled, rows⟩
  · rw [rows]
    exact Change.move _ _ _ moved
  · rw [rows]
    exact Change.handOver _ _ _ inherit settled

theorem cancelBinding_rows (payer operator orchestrator : Address) :
    Change cfg db log (cancelBinding db log payer operator orchestrator).servicePair.rows := by
  refine Change.release (fun sp => sp.isActive payer.toLowerCase operator.toLowerCase &&
    sp.serviceOrchestratorId = orchestrator.toLowerCase) ?_
  intro sp held
  rw [Bool.and_eq_true, ServicePair.isActive_iff] at held
  exact held.1.2

theorem removeOrchestrator_rows (orch : Address) :
    Change cfg db log (removeOrchestrator db log orch).servicePair.rows := by
  refine Change.release (fun sp => sp.serviceOrchestratorId = orch.toLowerCase && sp.toEpoch = none) ?_
  intro sp held
  rw [Bool.and_eq_true, decide_eq_true_eq, decide_eq_true_eq] at held
  exact held.2

theorem handleLog_change {tokensMap : List (Address × ERC20Metadata)}
    (handled : ServiceRewardsActorIndexer.handleLog cfg tokensMap db log = .ok next) :
    Change cfg db log next.servicePair.rows := by
  unfold ServiceRewardsActorIndexer.handleLog at handled
  split at handled
  · obtain ⟨_, _, rfl⟩ := admitOrchestrator_spec handled
    exact Change.keep
  · cases handled
    exact removeOrchestrator_rows _
  · cases handled
    exact Change.keep
  · exact createBinding_rows handled
  · exact reassignBinding_rows handled
  · cases handled
    exact cancelBinding_rows _ _ _
  · obtain ⟨_, _, _, rfl, -⟩ := updatedAdmittedLists_spec handled
    exact Change.keep
  · obtain ⟨_, _, _, rfl, -⟩ := updatePricingParams_spec handled
    exact Change.keep
  · obtain ⟨_, rfl⟩ := postVolume_spec handled
    exact Change.keep
  · obtain ⟨_, rfl⟩ := postVolume_spec handled
    exact Change.keep
  · obtain ⟨_, _, rfl, -⟩ := submitShares_spec handled
    exact Change.keep

end Inversion

section Start
variable {cfg : Deployment} {log : ServiceRewardsActorLog}

theorem logQuarterStartEpoch_eq (blockNumber : Int) : logQuarterStartEpoch cfg blockNumber =
    cfg.quarterStartEpoch (max (cfg.quarterNum blockNumber) 1) := by
  unfold logQuarterStartEpoch Config.quarterStartEpoch
  rw [cfg.getQuarterForEpoch_eq]

theorem logQuarterEndEpoch_eq (blockNumber : Int) : logQuarterEndEpoch cfg blockNumber =
    cfg.quarterEndEpoch (max (cfg.quarterNum blockNumber) 1) := by
  unfold logQuarterEndEpoch Config.quarterEndEpoch
  rw [logQuarterStartEpoch_eq]

theorem le_logQuarterEndEpoch (blockNumber : Int) : blockNumber ≤ logQuarterEndEpoch cfg blockNumber := by
  have counted : 0 ≤ max (cfg.quarterNum blockNumber) 1 := by omega
  have bound := (cfg.quarterNum_le_iff counted blockNumber).mp (le_max_left _ _)
  unfold Config.quarterEndEpoch at bound
  unfold logQuarterEndEpoch
  rwa [logQuarterStartEpoch_eq]

theorem lt_logQuarterStartEpoch {releaseEpoch blockNumber : Int}
    (earlier : cfg.quarterNum releaseEpoch < cfg.quarterNum blockNumber) :
    releaseEpoch < logQuarterStartEpoch cfg blockNumber := by
  have nonneg := cfg.quarterNum_nonneg releaseEpoch
  rw [logQuarterStartEpoch_eq, max_eq_left (by omega)]
  exact (cfg.quarterNum_lt_iff (by omega) releaseEpoch).mp earlier

def inCutoff (cfg : Deployment) (db : DB) (epoch : Int) : Bool :=
  1 ≤ cfg.quarterNum epoch &&
    ((registrationCutoff db (cfg.quarterStartEpoch (cfg.quarterNum epoch))).bind cfg.toBigInt).any fun cutoff =>
      cfg.quarterEndEpoch (cfg.quarterNum epoch) - cutoff < epoch

theorem cutoffStart_le_iff {db : DB} {pairTupleString : String} {blockNumber cutoffStart : Int}
    (cutoff : cutoffStartEpoch cfg db pairTupleString blockNumber = .ok cutoffStart) :
    cutoffStart ≤ blockNumber ↔ inCutoff cfg db blockNumber := by
  unfold cutoffStartEpoch at cutoff
  dsimp only at cutoff
  rw [cfg.getQuarterForEpoch_eq, logQuarterEndEpoch_eq, logQuarterStartEpoch_eq] at cutoff
  unfold inCutoff
  split at cutoff
  · rename_i fromQ1
    rw [max_eq_left fromQ1] at cutoff
    rw [decide_eq_true fromQ1, Bool.true_and]
    cases value : registrationCutoff db (cfg.quarterStartEpoch (cfg.quarterNum blockNumber)) with
    | none =>
        rw [value] at cutoff
        cases cutoff
    | some cutoffEpochs =>
        rw [value, Option.map_some] at cutoff
        cases whole : cfg.toBigInt cutoffEpochs with
        | none =>
            rw [whole] at cutoff
            cases cutoff
        | some epochs =>
            rw [whole] at cutoff
            dsimp only at cutoff
            split at cutoff
            · cases cutoff
            · cases cutoff
              rw [Option.bind_some, whole, Option.any_some, decide_eq_true_eq]
              omega
  · rename_i beforeQ1
    cases cutoff
    have bound : blockNumber ≤ logQuarterEndEpoch cfg blockNumber := le_logQuarterEndEpoch blockNumber
    rw [logQuarterEndEpoch_eq] at bound
    rw [decide_eq_false beforeQ1, Bool.false_and]
    exact iff_of_false (by omega) Bool.false_ne_true

/-- Where a binding starts: where a log left it, with the activation, or after the quarter of a late registration. -/
inductive Begun (cfg : Deployment) (db : DB) (past : List ServiceRewardsActorLog) (start : Position) : Prop
  | placed (earlier : ServiceRewardsActorLog) (member : earlier ∈ past) (upTo : start ≤ earlier.position.next)
  | activated (same : start = ⟨cfg.activationEpoch, 0⟩)
  | postponed (earlier : ServiceRewardsActorLog) (member : earlier ∈ past) (late : inCutoff cfg db earlier.blockNumber)
      (same : start = ⟨cfg.quarterStartEpoch (cfg.quarterNum earlier.blockNumber + 1), 0⟩)

theorem Begun.mono {db next : DB} {past more : List ServiceRewardsActorLog} {start : Position}
    (begun : Begun cfg db past start) (sub : past ⊆ more)
    (window : ∀ earlier ∈ past, inCutoff cfg next earlier.blockNumber = inCutoff cfg db earlier.blockNumber) :
    Begun cfg next more start := by
  cases begun with
  | placed earlier before upTo => exact .placed earlier (sub before) upTo
  | activated same => exact .activated same
  | postponed earlier before late same => exact .postponed earlier (sub before) ((window earlier before).trans late) same

end Start

/-- The closed bindings ended at past logs, and bindings of one pair have lifespans apart. -/
structure Invariant (past : List ServiceRewardsActorLog) (rows : List ServicePair) : Prop where
  together : ∀ sp ∈ rows, FilledTogether sp.toEpoch sp.toLogIndex
  ended : ∀ sp ∈ rows, ∀ stop ∈ sp.span.stop, ∃ log ∈ past, log.position = stop
  apart : Separated ServicePair.pair ServicePair.span rows

theorem invariant_nil : Invariant [] [] := ⟨by simp, by simp, List.Pairwise.nil⟩

theorem Invariant.sublist {past : List ServiceRewardsActorLog} {rows kept : List ServicePair}
    (holds : Invariant past rows) (sub : kept.Sublist rows) : Invariant past kept :=
  ⟨fun sp member => holds.together sp (sub.subset member), fun sp member => holds.ended sp (sub.subset member),
    holds.apart.sublist sub⟩

section Step
variable {cfg : Deployment} {db : DB} {past : List ServiceRewardsActorLog} {log : ServiceRewardsActorLog}

theorem previousBinding_cases (holds : Invariant past db.servicePair.rows) (payer operator : Address) :
    (previousBinding db payer operator = none ∧
      ∀ sp ∈ db.servicePair.rows, sp.pair = (payer, operator) → sp.span.stop = none) ∨
    ∃ previous ∈ db.servicePair.rows, ∃ stop, previousBinding db payer operator = some previous ∧
      previous.pair = (payer, operator) ∧ previous.span.stop = some stop ∧ previous.toEpoch = some stop.epoch ∧
      previous.toLogIndex = some stop.logIndex ∧
      ∀ sp ∈ db.servicePair.rows, sp.pair = (payer, operator) → ∀ t ∈ sp.span.stop, t ≤ stop := by
  have closed : ∀ sp ∈ db.servicePair.rows, ∀ t ∈ sp.span.stop, sp.toEpoch = some t.epoch ∧ sp.toLogIndex = some t.logIndex := by
    intro sp member t ended
    rcases (holds.together sp member).cases with ⟨isOpen, -⟩ | ⟨stop, epoch, logIndex⟩
    · rw [ServicePair.span, isOpen] at ended
      cases ended
    · rw [ServicePair.span, epoch, logIndex] at ended
      cases ended
      exact ⟨epoch, logIndex⟩
  have candidate : ∀ sp ∈ db.servicePair.rows, sp.pair = (payer, operator) → ∀ t ∈ sp.span.stop,
      sp ∈ db.servicePair.rows.filter fun sp => sp.operator = operator ∧ sp.payer = payer ∧ sp.toEpoch ≠ none := by
    intro sp member pair t ended
    rw [ServicePair.pair, Prod.mk.injEq] at pair
    refine List.mem_filter.mpr ⟨member, decide_eq_true ⟨pair.2, pair.1, ?_⟩⟩
    rw [(closed sp member t ended).1]
    simp
  cases head : previousBinding db payer operator with
  | none =>
      refine Or.inl ⟨rfl, fun sp member pair => ?_⟩
      cases ended : sp.span.stop with
      | none => rfl
      | some t =>
          have listed := candidate sp member pair t ended
          unfold previousBinding at head
          rw [head?_orderBy_eq_none] at head
          rw [head] at listed
          cases listed
  | some previous =>
      have chosen : (orderBy (·.releaseOrder) (db.servicePair.rows.filter fun sp =>
        sp.operator = operator ∧ sp.payer = payer ∧ sp.toEpoch ≠ none)).head? = some previous := head
      have found := mem_of_head?_orderBy _ chosen
      rw [List.mem_filter, decide_eq_true_eq] at found
      rcases (holds.together previous found.1).cases with ⟨isOpen, -⟩ | ⟨stop, epoch, logIndex⟩
      · exact absurd isOpen found.2.2.2
      · refine Or.inr ⟨previous, found.1, stop, rfl, ?_, by rw [ServicePair.span, epoch, logIndex]; rfl, epoch, logIndex, ?_⟩
        · exact Prod.ext found.2.2.1 found.2.1
        · intro sp member pair t ended
          have latest : sp.releaseOrder.ofDual ≤ previous.releaseOrder.ofDual :=
            le_of_head?_orderBy (·.releaseOrder) chosen (candidate sp member pair t ended)
          obtain ⟨toEpoch, toLogIndex⟩ := closed sp member t ended
          rw [ServicePair.releaseOrder, ServicePair.releaseOrder, toEpoch, toLogIndex, epoch, logIndex] at latest
          have lex : t.epoch < stop.epoch ∨ t.epoch = stop.epoch ∧ t.logIndex + 1 ≤ stop.logIndex + 1 :=
            Prod.Lex.toLex_le_toLex.mp latest
          rw [Position.le_iff]
          omega

def startAfter (cfg : Deployment) (blockNumber cutoffStart : Int) (release : Option Position) : Position :=
  if cutoffStart ≤ blockNumber then ⟨logQuarterEndEpoch cfg blockNumber + 1, 0⟩
  else
    match release.filter fun r => cfg.quarterNum r.epoch = cfg.quarterNum blockNumber with
    | none => ⟨logQuarterStartEpoch cfg blockNumber, 0⟩
    | some r => r.next

theorem bindingStart_eq (blockNumber cutoffStart : Int) (previous : Option ServicePair) (release : Option Position)
    (toEpoch : previous.bind (·.toEpoch) = release.map (·.epoch))
    (toLogIndex : previous.bind (·.toLogIndex) = release.map (·.logIndex)) :
    (⟨(bindingStart cfg blockNumber cutoffStart previous).1, (bindingStart cfg blockNumber cutoffStart previous).2⟩ :
      Position) = startAfter cfg blockNumber cutoffStart release := by
  unfold bindingStart startAfter
  rw [toEpoch, toLogIndex]
  split
  · rfl
  · cases release with
    | none => rfl
    | some r =>
        simp only [Option.map_some, Option.elim_some, cfg.getQuarterForEpoch_eq, Option.filter_some, decide_eq_true_eq]
        by_cases same : cfg.quarterNum r.epoch = cfg.quarterNum blockNumber
        · simp only [same, ne_eq, not_true_eq_false, if_false, if_true]
          rfl
        · simp only [same, ne_eq, not_false_eq_true, if_true, if_false]

theorem exists_startAfter (cfg : Deployment) (holds : Invariant past db.servicePair.rows) (payer operator : Address)
    (blockNumber cutoffStart : Int) : ∃ release : Option Position,
      (∀ r ∈ release, ∃ earlier ∈ past, earlier.position = r) ∧
      (⟨(bindingStart cfg blockNumber cutoffStart (previousBinding db payer operator)).1,
        (bindingStart cfg blockNumber cutoffStart (previousBinding db payer operator)).2⟩ : Position) =
          startAfter cfg blockNumber cutoffStart release ∧
      (∀ sp ∈ db.servicePair.rows, sp.pair = (payer, operator) → ∀ t ∈ sp.span.stop, ∃ r ∈ release, t ≤ r) ∧
      ∀ r ∈ release, ∃ sp ∈ db.servicePair.rows, sp.pair = (payer, operator) ∧ sp.span.stop = some r := by
  rcases previousBinding_cases holds payer operator with ⟨none, isOpen⟩ |
    ⟨previous, inRows, release, found, pair, ended, toEpoch, toLogIndex, latest⟩
  · refine ⟨Option.none, nofun, ?_, ?_, nofun⟩
    · rw [none]
      exact bindingStart_eq _ _ Option.none Option.none rfl rfl
    · intro sp member pair t closed
      rw [isOpen sp member pair] at closed
      cases closed
  · refine ⟨some release, ?_, ?_, fun sp member pair t closed => ⟨release, rfl, latest sp member pair t closed⟩, ?_⟩
    · rintro r ⟨⟩
      exact holds.ended previous inRows release ended
    · rw [found]
      exact bindingStart_eq _ _ (some previous) (some release) toEpoch toLogIndex
    · rintro r ⟨⟩
      exact ⟨previous, inRows, pair, ended⟩

theorem begun_startAfter {pairTupleString : String} {cutoffStart : Int}
    (cutoff : cutoffStartEpoch cfg db pairTupleString log.blockNumber = .ok cutoffStart) {release : Option Position}
    (released : ∀ r ∈ release, ∃ earlier ∈ past, earlier.position = r) :
    Begun cfg db (past ++ [log]) (startAfter cfg log.blockNumber cutoffStart release) := by
  have here : log ∈ past ++ [log] := List.mem_append_right _ (List.mem_singleton_self _)
  unfold startAfter
  split
  · rename_i late
    have window := (cutoffStart_le_iff cutoff).mp late
    have fromQ1 := of_decide_eq_true (Bool.and_eq_true_iff.mp window).1
    refine .postponed log here window ?_
    rw [logQuarterEndEpoch_eq, max_eq_left fromQ1, cfg.quarterStartEpoch_succ]
  · split
    · rw [logQuarterStartEpoch_eq]
      by_cases fromQ1 : 1 ≤ cfg.quarterNum log.blockNumber
      · rw [max_eq_left fromQ1]
        refine .placed log here (Position.le_iff.mpr ?_)
        have started := (cfg.le_quarterNum_iff fromQ1 log.blockNumber).mp le_rfl
        exact (lt_or_eq_of_le started).imp_right fun same => ⟨same, Nat.zero_le _⟩
      · rw [max_eq_right (by omega)]
        exact .activated (by simp [Config.quarterStartEpoch])
    · rename_i r kept
      obtain ⟨earlier, before, same⟩ := released r (Option.filter_eq_some_iff.mp kept).1
      exact .placed earlier (List.mem_append_left _ before) (by rw [same])

theorem ended_before_start {payer operator : Address} {cutoffStart : Int}
    (holds : Invariant past db.servicePair.rows) (later : ∀ earlier ∈ past, earlier.position < log.position)
    {sp : ServicePair} (member : sp ∈ db.servicePair.rows) (pair : sp.pair = (payer, operator)) {stop : Position}
    (closed : sp.span.stop = some stop) :
    stop < ⟨(bindingStart cfg log.blockNumber cutoffStart (previousBinding db payer operator)).1,
      (bindingStart cfg log.blockNumber cutoffStart (previousBinding db payer operator)).2⟩ := by
  obtain ⟨release, placed, start, latest, -⟩ :=
    exists_startAfter cfg holds payer operator log.blockNumber cutoffStart
  obtain ⟨last, isLast, order⟩ := latest sp member pair stop closed
  rw [Option.mem_def] at isLast
  rw [start, isLast]
  obtain ⟨earlier, before, same⟩ := placed last isLast
  have released : last < log.position := same ▸ later earlier before
  unfold startAfter
  split
  · -- past the cutoff: the next quarter starts after every log of this one
    exact Position.lt_of_epoch_lt ((Position.epoch_le_of_le (order.trans released.le)).trans_lt
      (Int.lt_add_one_of_le (le_logQuarterEndEpoch log.blockNumber)))
  · rw [Option.filter_some]
    by_cases same : cfg.quarterNum last.epoch = cfg.quarterNum log.blockNumber
    · rw [if_pos (decide_eq_true same)]
      exact order.trans_lt last.lt_next
    · rw [if_neg (by simpa using same)]
      have earlier : cfg.quarterNum last.epoch < cfg.quarterNum log.blockNumber :=
        lt_of_le_of_ne (cfg.quarterNum_mono (Position.epoch_le_of_le released.le)) same
      exact Position.lt_of_epoch_lt ((Position.epoch_le_of_le order).trans_lt (lt_logQuarterStartEpoch earlier))

theorem mem_release_map {isHeld : ServicePair → Bool} {rows : List ServicePair} {sp : ServicePair}
    (member : sp ∈ rows.map fun sp => if isHeld sp then sp.release log else sp) :
    ∃ before ∈ rows, (isHeld before = true ∧ sp = before.release log) ∨ (isHeld before = false ∧ sp = before) := by
  obtain ⟨before, inRows, rfl⟩ := List.mem_map.mp member
  refine ⟨before, inRows, ?_⟩
  cases held : isHeld before with
  | true => exact Or.inl ⟨rfl, by simp⟩
  | false => exact Or.inr ⟨rfl, by simp⟩

theorem Invariant.release (log : ServiceRewardsActorLog) {rows : List ServicePair} (holds : Invariant past rows)
    (isHeld : ServicePair → Bool) (held : ∀ sp, isHeld sp → sp.toEpoch = none) :
    Invariant (past ++ [log]) (rows.map fun sp => if isHeld sp then sp.release log else sp) where
  together := fun sp member => by
    obtain ⟨before, inRows, ⟨-, rfl⟩ | ⟨-, rfl⟩⟩ := mem_release_map member
    · rfl
    · exact holds.together _ inRows
  ended := fun sp member stop closed => by
    obtain ⟨before, inRows, ⟨-, rfl⟩ | ⟨-, rfl⟩⟩ := mem_release_map member
    · cases closed
      exact ⟨log, by simp, rfl⟩
    · obtain ⟨earlier, before, same⟩ := holds.ended _ inRows stop closed
      exact ⟨earlier, List.mem_append_left _ before, same⟩
  apart := by
    refine holds.apart.map _ (fun sp => by split <;> rfl) ?_
    intro a b apart
    cases heldA : isHeld a with
    | true =>
        rw [if_pos rfl, ServicePair.release_span log (held a heldA)]
        cases heldB : isHeld b with
        | true =>
            rw [if_pos rfl, ServicePair.release_span log (held b heldB)]
            exact (((apart.closeAt_left _).symm).closeAt_left _).symm
        | false => exact apart.closeAt_left _
    | false =>
        cases heldB : isHeld b with
        | true =>
            rw [if_pos rfl, ServicePair.release_span log (held b heldB)]
            exact ((apart.symm).closeAt_left _).symm
        | false => exact apart

theorem Invariant.append {rows : List ServicePair} (holds : Invariant past rows) {row : ServicePair}
    (isOpen : row.toEpoch = none ∧ row.toLogIndex = none)
    (closed : ∀ sp ∈ rows, sp.pair = row.pair → ∃ stop, sp.span.stop = some stop ∧ stop < row.span.start) :
    Invariant past (rows ++ [row]) where
  together := fun sp member => by
    rcases List.mem_append.mp member with before | new
    · exact holds.together sp before
    · rw [List.mem_singleton.mp new, isOpen.1, isOpen.2]
      rfl
  ended := fun sp member stop ended => by
    rcases List.mem_append.mp member with before | new
    · exact holds.ended sp before stop ended
    · rw [List.mem_singleton.mp new, ServicePair.span, isOpen.1] at ended
      cases ended
  apart := holds.apart.append fun sp member same => by
    obtain ⟨stop, ended, before⟩ := closed sp member same
    exact Lifespan.apart_of_lt ended before

theorem Invariant.mono {rows : List ServicePair} {more : List ServiceRewardsActorLog} (holds : Invariant past rows)
    (sub : past ⊆ more) : Invariant more rows :=
  ⟨holds.together, fun sp member stop closed => by
    obtain ⟨earlier, before, same⟩ := holds.ended sp member stop closed
    exact ⟨earlier, sub before, same⟩, holds.apart⟩

theorem Invariant.weaken {rows : List ServicePair} (holds : Invariant past rows) : Invariant (past ++ [log]) rows :=
  holds.mono (List.subset_append_left _ _)

theorem Invariant.stop_of_closed {rows : List ServicePair} (holds : Invariant past rows) {sp : ServicePair}
    (member : sp ∈ rows) (closed : sp.toEpoch ≠ none) : ∃ stop, sp.span.stop = some stop := by
  rcases (holds.together sp member).cases with ⟨isOpen, -⟩ | ⟨stop, epoch, logIndex⟩
  · exact absurd isOpen closed
  · exact ⟨stop, by rw [ServicePair.span, epoch, logIndex]; rfl⟩

theorem Invariant.active_unique {rows : List ServicePair} (holds : Invariant past rows) {payer operator : Address}
    {a b : ServicePair} (ha : a ∈ rows) (hb : b ∈ rows) (activeA : a.isActive payer operator)
    (activeB : b.isActive payer operator) : a = b := by
  obtain ⟨pairA, openA⟩ := ServicePair.isActive_iff.mp activeA
  obtain ⟨pairB, openB⟩ := ServicePair.isActive_iff.mp activeB
  by_contra differ
  refine (holds.apart.apart_of_ne ha hb differ (pairA.trans pairB.symm)).not_both_open ⟨?_, ?_⟩
  · rw [ServicePair.span, openA, stopPosition_none]
  · rw [ServicePair.span, openB, stopPosition_none]

theorem Invariant.step {rows : List ServicePair} (holds : Invariant past db.servicePair.rows)
    (later : ∀ earlier ∈ past, earlier.position < log.position) (change : Change cfg db log rows) :
    Invariant (past ++ [log]) rows := by
  cases change with
  | keep => exact holds.weaken
  | declare payer operator orchestrator cutoffStart unbound cutoff =>
      refine holds.weaken.append ⟨rfl, rfl⟩ ?_
      intro sp member same
      have closed : sp.toEpoch ≠ none := fun isOpen =>
        unbound sp member (ServicePair.isActive_iff.mpr ⟨same, isOpen⟩)
      obtain ⟨stop, ended⟩ := holds.stop_of_closed member closed
      exact ⟨stop, ended, ended_before_start holds later member same ended⟩
  | move payer operator orchestrator moved =>
      refine ⟨?_, ?_, ?_⟩
      · intro sp member
        obtain ⟨before, inRows, rfl⟩ := List.mem_map.mp member
        split
        · exact holds.together before inRows
        · exact holds.together before inRows
      · intro sp member stop closed
        obtain ⟨before, inRows, rfl⟩ := List.mem_map.mp member
        refine holds.weaken.ended before inRows stop ?_
        split at closed
        · exact closed
        · exact closed
      · refine holds.apart.map _ (fun sp => by split <;> rfl) ?_
        intro a b apart
        have same : ∀ sp : ServicePair, (if sp.isActive payer operator &&
            (logQuarterStartEpoch cfg log.blockNumber ≤ sp.fromEpoch : Bool) then sp.reassign orchestrator
            else sp).span = sp.span := by
          intro sp
          split <;> rfl
        rw [same, same]
        exact apart
  | handOver payer operator orchestrator inherit settled =>
      have released := holds.release log (fun sp => sp.isActive payer operator)
        (fun sp active => (ServicePair.isActive_iff.mp active).2)
      refine released.append ⟨rfl, rfl⟩ ?_
      intro sp member same
      obtain ⟨before, inRows, ⟨active, rfl⟩ | ⟨inactive, rfl⟩⟩ := mem_release_map member
      · refine ⟨log.position, rfl, ?_⟩
        rw [Position.lt_iff]
        exact Or.inr ⟨rfl, Nat.lt_succ_self _⟩
      · have closed : sp.toEpoch ≠ none := fun isOpen => by
          have active : sp.isActive payer operator = true := ServicePair.isActive_iff.mpr ⟨same, isOpen⟩
          rw [active] at inactive
          cases inactive
        obtain ⟨stop, ended⟩ := holds.stop_of_closed inRows closed
        obtain ⟨earlier, inPast, position⟩ := holds.ended sp inRows stop ended
        refine ⟨stop, ended, (position ▸ later earlier inPast).trans ?_⟩
        rw [Position.lt_iff]
        exact Or.inr ⟨rfl, Nat.lt_succ_self _⟩
  | release isHeld held =>
      exact (holds.sublist List.filter_sublist).release log isHeld held

end Step
end Proof.Bindings
end FpvIndexer
