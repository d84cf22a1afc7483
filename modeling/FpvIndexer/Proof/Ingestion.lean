import FpvIndexer.Proof.Bindings

namespace FpvIndexer.Proof.Ingestion
open Relational Bindings Handlers

/-- The admitted orchestrators and the holder of every pair, as the contract keeps them. -/
structure ActorState where
  admitted : List Address
  holder : Address × Address → Option Address

namespace ActorState

def initial : ActorState := ⟨[], fun _ => none⟩

def bind (s : ActorState) (pair : Address × Address) (orchestrator : Option Address) : ActorState :=
  { s with holder := Function.update s.holder pair orchestrator }

/-- The logs the contract can emit in a state, and the state after them. -/
def apply (s : ActorState) (log : ServiceRewardsActorLog) : Option ActorState :=
  match log.event with
  | .orchestratorAdmitted orch _ =>
      if orch.toLowerCase ∈ s.admitted then none else some { s with admitted := orch.toLowerCase :: s.admitted }
  | .orchestratorRemoved orch => some
      { admitted := s.admitted.filter (· ≠ orch.toLowerCase)
        holder := fun pair => if s.holder pair = some orch.toLowerCase then none else s.holder pair }
  | .bindingDeclared payer operator orchestrator =>
      if s.holder (payer.toLowerCase, operator.toLowerCase) = none ∧ orchestrator.toLowerCase ∈ s.admitted then
        some (s.bind (payer.toLowerCase, operator.toLowerCase) (some orchestrator.toLowerCase))
      else none
  | .bindingReassigned payer operator orchestrator _ =>
      if s.holder (payer.toLowerCase, operator.toLowerCase) ≠ none ∧ orchestrator.toLowerCase ∈ s.admitted then
        some (s.bind (payer.toLowerCase, operator.toLowerCase) (some orchestrator.toLowerCase))
      else none
  | .bindingCanceled payer operator orchestrator =>
      if s.holder (payer.toLowerCase, operator.toLowerCase) = some orchestrator.toLowerCase then
        some (s.bind (payer.toLowerCase, operator.toLowerCase) none)
      else none
  | _ => none

end ActorState

def LegalHistory (logs : List ServiceRewardsActorLog) : Prop :=
  ∃ s, logs.foldlM ActorState.apply .initial = some s

structure CutoffsSet (cfg : Deployment) (parameters : List ServiceRewardsActorParameter) : Prop where
  fits : ∀ p ∈ parameters, p.parameterType = .registrationCutoffEpochs →
    ∃ n : Nat, p.parameterValue = n ∧ (n : Int) ≤ cfg.epochsPerQuarter
  early : ∃ p ∈ parameters, p.parameterType = .registrationCutoffEpochs ∧ p.updateEpoch < cfg.quarterStartEpoch 1

def withParameters (cfg : Deployment)
    (parameters : Table ServiceRewardsActorParameter ServiceRewardsActorParameter.pkey) : DB :=
  { DB.seeded cfg with serviceRewardsActorParameter := parameters }

/-- The log takes a pair away, without inheritance, before its binding has started. -/
def HandsOverPending (db : DB) (log : ServiceRewardsActorLog) : Prop :=
  ∃ payer operator orchestrator, log.event = .bindingReassigned payer operator orchestrator false ∧
    ∃ sp ∈ db.servicePair.rows, sp.isActive payer.toLowerCase operator.toLowerCase ∧
      sp.startsAfter log.blockNumber log.logIndex

section Rows
variable {cfg : Deployment} {past : List ServiceRewardsActorLog} {log : ServiceRewardsActorLog} {rows : List ServicePair}

structure Prompt (cfg : Deployment) (past : List ServiceRewardsActorLog) (rows : List ServicePair) : Prop where
  begun : ∀ sp ∈ rows, (∃ log ∈ past, sp.span.start ≤ ⟨log.blockNumber, log.logIndex + 1⟩) ∨
    cfg.activationEpoch ≤ sp.fromEpoch
  lasted : ∀ sp ∈ rows, ∀ stop ∈ sp.span.stop, sp.span.start ≤ stop

theorem Prompt.weaken (prompt : Prompt cfg past rows) : Prompt cfg (past ++ [log]) rows :=
  ⟨fun sp member => (prompt.begun sp member).imp_left fun ⟨earlier, before, start⟩ =>
    ⟨earlier, List.mem_append_left _ before, start⟩, prompt.lasted⟩

theorem Prompt.sublist {kept : List ServicePair} (prompt : Prompt cfg past rows) (sub : kept.Sublist rows) :
    Prompt cfg past kept :=
  ⟨fun sp member => prompt.begun sp (sub.subset member), fun sp member => prompt.lasted sp (sub.subset member)⟩

theorem Prompt.append (prompt : Prompt cfg past rows) {row : ServicePair} (isOpen : row.toEpoch = none)
    (begun : (∃ log ∈ past, row.span.start ≤ ⟨log.blockNumber, log.logIndex + 1⟩) ∨
      cfg.activationEpoch ≤ row.fromEpoch) : Prompt cfg past (rows ++ [row]) where
  begun := fun sp member => by
    rcases List.mem_append.mp member with before | new
    · exact prompt.begun sp before
    · exact List.mem_singleton.mp new ▸ begun
  lasted := fun sp member stop closed => by
    rcases List.mem_append.mp member with before | new
    · exact prompt.lasted sp before stop closed
    · rw [List.mem_singleton.mp new, ServicePair.span, isOpen] at closed
      cases closed

theorem Prompt.release (prompt : Prompt cfg past rows) (isHeld : ServicePair → Bool)
    (started : ∀ sp ∈ rows, isHeld sp → sp.span.start ≤ log.position) :
    Prompt cfg past (rows.map fun sp => if isHeld sp then sp.release log else sp) where
  begun := fun sp member => by
    obtain ⟨before, inRows, ⟨-, rfl⟩ | ⟨-, rfl⟩⟩ := mem_release_map member
    · exact prompt.begun before inRows
    · exact prompt.begun _ inRows
  lasted := fun sp member stop closed => by
    obtain ⟨before, inRows, ⟨held, rfl⟩ | ⟨-, rfl⟩⟩ := mem_release_map member
    · cases closed
      exact started before inRows held
    · exact prompt.lasted _ inRows stop closed

def HeldBy (rows : List ServicePair) (pair : Address × Address) (orchestrator : Address) : Prop :=
  ∃ sp ∈ rows, sp.pair = pair ∧ sp.toEpoch = none ∧ sp.serviceOrchestratorId = orchestrator

theorem heldBy_append {row : ServicePair} (isOpen : row.toEpoch = none) {pair : Address × Address}
    {orchestrator : Address} : HeldBy (rows ++ [row]) pair orchestrator ↔
      HeldBy rows pair orchestrator ∨ row.pair = pair ∧ row.serviceOrchestratorId = orchestrator := by
  constructor
  · rintro ⟨sp, member, held⟩
    rcases List.mem_append.mp member with before | new
    · exact Or.inl ⟨sp, before, held⟩
    · rw [List.mem_singleton.mp new] at held
      exact Or.inr ⟨held.1, held.2.2⟩
  · rintro (⟨sp, before, held⟩ | ⟨pair, owner⟩)
    · exact ⟨sp, List.mem_append_left _ before, held⟩
    · exact ⟨row, by simp, pair, isOpen, owner⟩

theorem heldBy_release {isHeld : ServicePair → Bool} {pair : Address × Address} {orchestrator : Address} :
    HeldBy (rows.map fun sp => if isHeld sp then sp.release log else sp) pair orchestrator ↔
      HeldBy (rows.filter fun sp => !isHeld sp) pair orchestrator := by
  constructor
  · rintro ⟨sp, member, held⟩
    obtain ⟨before, inRows, ⟨-, rfl⟩ | ⟨kept, rfl⟩⟩ := mem_release_map member
    · cases held.2.1
    · exact ⟨sp, List.mem_filter.mpr ⟨inRows, by simp [kept]⟩, held⟩
  · rintro ⟨sp, member, held⟩
    obtain ⟨inRows, kept⟩ := List.mem_filter.mp member
    rw [Bool.not_eq_true'] at kept
    exact ⟨sp, List.mem_map.mpr ⟨sp, inRows, by simp [kept]⟩, held⟩

theorem start_le_of_not_startsAfter {sp : ServicePair} (started : ¬ sp.startsAfter log.blockNumber log.logIndex) :
    sp.span.start ≤ log.position := by
  unfold ServicePair.startsAfter at started
  rw [decide_eq_true_eq] at started
  rw [Position.le_iff]
  change sp.fromEpoch < log.blockNumber ∨ sp.fromEpoch = log.blockNumber ∧ sp.fromLogIndex ≤ log.logIndex
  omega

end Rows

structure PairsReady (cfg : Deployment) (past : List ServiceRewardsActorLog)
    (holder : Address × Address → Option Address) (rows : List ServicePair) : Prop where
  bindings : Invariant past rows
  prompt : Prompt cfg past rows
  held : ∀ pair orchestrator, holder pair = some orchestrator ↔ HeldBy rows pair orchestrator

structure OrchestratorsReady (past : List ServiceRewardsActorLog) (admitted : List Address)
    (orchestrators : List ServiceOrchestrator) (admissions : List ServiceOrchestratorAdmission) : Prop where
  known : ∀ id ∈ admitted, id ∈ orchestrators.map (·.id)
  open_admitted : ∀ a ∈ admissions, a.removalEpoch = none → a.serviceOrchestratorId ∈ admitted
  admitted_past : ∀ a ∈ admissions, ∃ log ∈ past,
    a.admissionEpoch = log.blockNumber ∧ a.admissionLogIndex = log.logIndex

/-- The database follows the contract, so that no legal log can fail on it. -/
structure Ready (cfg : Deployment) (parameters : Table ServiceRewardsActorParameter ServiceRewardsActorParameter.pkey)
    (past : List ServiceRewardsActorLog) (s : ActorState) (db : DB) : Prop where
  pairs : PairsReady cfg past s.holder db.servicePair.rows
  orchestrators : OrchestratorsReady past s.admitted db.serviceOrchestrator.rows
    db.serviceOrchestratorAdmission.rows
  parameters : db.serviceRewardsActorParameter = parameters

theorem ready_initial (cfg : Deployment)
    (parameters : Table ServiceRewardsActorParameter ServiceRewardsActorParameter.pkey) :
    Ready cfg parameters [] .initial (withParameters cfg parameters) where
  pairs := ⟨invariant_nil, ⟨fun _ absurd => (by cases absurd), fun _ absurd => (by cases absurd)⟩,
    fun _ _ => ⟨fun absurd => (by cases absurd), fun ⟨_, absurd, _⟩ => (by cases absurd)⟩⟩
  orchestrators := ⟨fun _ absurd => (by cases absurd), fun _ absurd => (by cases absurd),
    fun _ absurd => (by cases absurd)⟩
  parameters := rfl

section Pairs
variable {cfg : Deployment} {past : List ServiceRewardsActorLog} {log : ServiceRewardsActorLog}
  {holder : Address × Address → Option Address} {rows : List ServicePair}

theorem OrchestratorsReady.weaken {admitted : List Address} {orchestrators : List ServiceOrchestrator}
    {admissions : List ServiceOrchestratorAdmission} (ready : OrchestratorsReady past admitted orchestrators admissions) :
    OrchestratorsReady (past ++ [log]) admitted orchestrators admissions :=
  ⟨ready.known, ready.open_admitted, fun a member => by
    obtain ⟨earlier, before, place⟩ := ready.admitted_past a member
    exact ⟨earlier, List.mem_append_left _ before, place⟩⟩

theorem PairsReady.weaken (ready : PairsReady cfg past holder rows) : PairsReady cfg (past ++ [log]) holder rows :=
  ⟨ready.bindings.weaken, ready.prompt.weaken, ready.held⟩

theorem PairsReady.stop_lt (ready : PairsReady cfg past holder rows)
    (later : ∀ earlier ∈ past, earlier.position < log.position) {sp : ServicePair} (member : sp ∈ rows)
    {stop : Position} (closed : sp.span.stop = some stop) : stop < log.position := by
  obtain ⟨earlier, before, rfl⟩ := ready.bindings.ended sp member stop closed
  exact later earlier before

theorem PairsReady.not_active (ready : PairsReady cfg past holder rows) {payer operator : Address}
    (unheld : holder (payer, operator) = none) : ∀ sp ∈ rows, ¬ sp.isActive payer operator := by
  intro sp member active
  obtain ⟨pair, isOpen⟩ := ServicePair.isActive_iff.mp active
  have held := (ready.held (payer, operator) sp.serviceOrchestratorId).mpr ⟨sp, member, pair, isOpen, rfl⟩
  rw [unheld] at held
  cases held

theorem PairsReady.append (ready : PairsReady cfg past holder rows) (row : ServicePair) (isOpen : row.toEpoch = none)
    (unheld : holder row.pair = none)
    (begun : (∃ earlier ∈ past, row.span.start ≤ ⟨earlier.blockNumber, earlier.logIndex + 1⟩) ∨
      cfg.activationEpoch ≤ row.fromEpoch) (invariant : Invariant past (rows ++ [row])) :
    PairsReady cfg past (Function.update holder row.pair (some row.serviceOrchestratorId)) (rows ++ [row]) where
  bindings := invariant
  prompt := ready.prompt.append isOpen begun
  held := fun pair orchestrator => by
    rw [heldBy_append isOpen, ← ready.held, Function.update_apply]
    by_cases own : pair = row.pair
    · rw [own, if_pos rfl, unheld, Option.some.injEq]
      simp
    · rw [if_neg own]
      simp [Ne.symm own]

theorem PairsReady.release (ready : PairsReady cfg past holder rows) {kept : List ServicePair}
    (sub : kept.Sublist rows) (isHeld : ServicePair → Bool) (held : ∀ sp, isHeld sp → sp.toEpoch = none)
    (started : ∀ sp ∈ kept, isHeld sp → sp.span.start ≤ log.position)
    {holder' : Address × Address → Option Address}
    (remain : ∀ pair orchestrator, holder' pair = some orchestrator ↔
      HeldBy (kept.filter fun sp => !isHeld sp) pair orchestrator) :
    PairsReady cfg (past ++ [log]) holder' (kept.map fun sp => if isHeld sp then sp.release log else sp) where
  bindings := (ready.bindings.sublist sub).release log isHeld held
  prompt := ((ready.prompt.sublist sub).release isHeld started).weaken
  held := fun pair orchestrator => by rw [remain, heldBy_release]

theorem heldBy_filter {keep : ServicePair → Bool} {pair : Address × Address} {orchestrator : Address} :
    HeldBy (rows.filter keep) pair orchestrator ↔
      ∃ sp ∈ rows, keep sp ∧ sp.pair = pair ∧ sp.toEpoch = none ∧ sp.serviceOrchestratorId = orchestrator := by
  constructor
  · rintro ⟨sp, member, held⟩
    obtain ⟨inRows, kept⟩ := List.mem_filter.mp member
    exact ⟨sp, inRows, kept, held⟩
  · rintro ⟨sp, inRows, kept, held⟩
    exact ⟨sp, List.mem_filter.mpr ⟨inRows, kept⟩, held⟩

theorem PairsReady.dropAndRelease (ready : PairsReady cfg past holder rows) (isHeld : ServicePair → Bool)
    (held : ∀ sp, isHeld sp → sp.toEpoch = none) {holder' : Address × Address → Option Address}
    (remain : ∀ pair orchestrator, holder' pair = some orchestrator ↔
      HeldBy (rows.filter fun sp => !isHeld sp) pair orchestrator) :
    PairsReady cfg (past ++ [log]) holder' ((rows.filter fun sp =>
      !(isHeld sp && sp.startsAfter log.blockNumber log.logIndex)).map fun sp =>
        if isHeld sp then sp.release log else sp) := by
  refine ready.release List.filter_sublist isHeld held ?_ ?_
  · intro sp member owned
    have kept := (List.mem_filter.mp member).2
    rw [owned, Bool.true_and, Bool.not_eq_true'] at kept
    exact start_le_of_not_startsAfter (by rw [kept]; exact Bool.false_ne_true)
  · intro pair orchestrator
    have same : (rows.filter fun sp => !(isHeld sp && sp.startsAfter log.blockNumber log.logIndex)).filter
        (fun sp => !isHeld sp) = rows.filter fun sp => !isHeld sp := by
      rw [List.filter_filter]
      refine List.filter_congr fun sp _ => ?_
      cases isHeld sp <;> rfl
    rw [same]
    exact remain pair orchestrator

end Pairs

section Step
variable {cfg : Deployment} {parameters : Table ServiceRewardsActorParameter ServiceRewardsActorParameter.pkey}
  {past : List ServiceRewardsActorLog} {log : ServiceRewardsActorLog} {s : ActorState} {db : DB}

theorem insertPair_ok (db : DB) (row : ServicePair) (fresh : row.pkey ∉ db.servicePair.rows.map (·.pkey))
    (known : db.hasOrchestrator row.serviceOrchestratorId) :
    ∃ pairs, db.insertPair row = .ok { db with servicePair := pairs } ∧ pairs.rows = db.servicePair.rows ++ [row] := by
  obtain ⟨pairs, inserted, rows⟩ := exists_insert "service_pair_pkey" db.servicePair row fresh
  refine ⟨pairs, ?_, rows⟩
  unfold DB.insertPair
  rw [inserted]
  exact if_pos known

theorem pkey_fresh {rows : List ServicePair} {row : ServicePair}
    (later : ∀ sp ∈ rows, sp.pair = row.pair → sp.span.start < row.span.start) :
    row.pkey ∉ rows.map (·.pkey) := by
  intro taken
  obtain ⟨sp, member, same⟩ := List.mem_map.mp taken
  rw [ServicePair.pkey, ServicePair.pkey, Prod.mk.injEq, Prod.mk.injEq, Prod.mk.injEq] at same
  obtain ⟨payer, operator, epoch, logIndex⟩ := same
  have before := later sp member (by rw [ServicePair.pair, ServicePair.pair, payer, operator])
  rw [ServicePair.span, ServicePair.span, epoch, logIndex] at before
  exact lt_irrefl _ before

theorem activation_le_logQuarterStartEpoch (cfg : Deployment) (blockNumber : Int) :
    cfg.activationEpoch ≤ logQuarterStartEpoch cfg blockNumber := by
  have := Int.mul_nonneg (a := cfg.epochsPerQuarter) (b := max (cfg.getQuarterForEpoch blockNumber) 1 - 1)
    (by have := cfg.epochsPerQuarter_pos; omega) (by omega)
  unfold logQuarterStartEpoch
  omega

theorem cutoffStartEpoch_ok (cutoffs : CutoffsSet cfg parameters.rows)
    (same : db.serviceRewardsActorParameter = parameters) (pairTupleString : String) (blockNumber : Int) :
    ∃ cutoffStart, cutoffStartEpoch cfg db pairTupleString blockNumber = .ok cutoffStart := by
  unfold cutoffStartEpoch
  dsimp only
  split
  · rename_i fromQ1
    rw [cfg.getQuarterForEpoch_eq] at fromQ1
    obtain ⟨p, member, type, early⟩ := cutoffs.early
    have before : cfg.quarterStartEpoch 1 ≤ logQuarterStartEpoch cfg blockNumber := by
      have := activation_le_logQuarterStartEpoch cfg blockNumber
      unfold Config.quarterStartEpoch
      omega
    unfold registrationCutoff
    rw [same]
    have listed : p ∈ parameters.rows.filter fun p =>
        p.parameterType = .registrationCutoffEpochs ∧ p.updateEpoch < logQuarterStartEpoch cfg blockNumber :=
      List.mem_filter.mpr ⟨member, decide_eq_true ⟨type, early.trans_le before⟩⟩
    cases head : (orderBy (fun p : ServiceRewardsActorParameter => OrderDual.toDual p.position)
        (parameters.rows.filter fun p => p.parameterType = .registrationCutoffEpochs ∧
          p.updateEpoch < logQuarterStartEpoch cfg blockNumber)).head? with
    | none =>
        rw [head?_orderBy_eq_none] at head
        rw [head] at listed
        cases listed
    | some latest =>
        have found := mem_of_head?_orderBy _ head
        rw [List.mem_filter, decide_eq_true_eq] at found
        obtain ⟨n, value, fits⟩ := cutoffs.fits latest found.1 found.2.1
        have whole : cfg.toBigInt latest.parameterValue = some (n : Int) :=
          cfg.toBigInt_of_whole (by rw [value, Int.cast_natCast])
        simp only [Option.map_some, whole]
        rw [if_neg (not_lt.mpr fits)]
        exact ⟨_, rfl⟩
  · exact ⟨_, rfl⟩

theorem start_begun {holder : Address × Address → Option Address}
    (ready : PairsReady cfg past holder db.servicePair.rows) {payer operator : Address} {cutoffStart : Int} :
    (∃ earlier ∈ past,
      (⟨(bindingStart cfg log.blockNumber cutoffStart (previousBinding db payer operator)).1,
        (bindingStart cfg log.blockNumber cutoffStart (previousBinding db payer operator)).2⟩ : Position) ≤
          ⟨earlier.blockNumber, earlier.logIndex + 1⟩) ∨
      cfg.activationEpoch ≤ (bindingStart cfg log.blockNumber cutoffStart (previousBinding db payer operator)).1 := by
  have activated := activation_le_logQuarterStartEpoch cfg log.blockNumber
  obtain ⟨release, placed, start, -⟩ :=
    exists_startAfter cfg ready.bindings payer operator log.blockNumber cutoffStart
  have epoch := congrArg Position.epoch start
  dsimp only at epoch
  rw [start, epoch]
  unfold startAfter
  split
  · refine Or.inr ?_
    have pos := cfg.epochsPerQuarter_pos
    unfold logQuarterEndEpoch
    dsimp only
    omega
  · split
    · exact Or.inr activated
    · rename_i r kept
      obtain ⟨earlier, before, rfl⟩ := placed r (Option.filter_eq_some_iff.mp kept).1
      exact Or.inl ⟨earlier, before, le_rfl⟩

theorem not_released_later {holder : Address × Address → Option Address}
    (ready : PairsReady cfg past holder db.servicePair.rows)
    (later : ∀ earlier ∈ past, earlier.position < log.position) (payer operator : Address) :
    ¬ (((previousBinding db payer operator).bind (·.toEpoch)).any (log.blockNumber < ·) ||
      (previousBinding db payer operator).bind (·.toEpoch) = some log.blockNumber &&
        ((previousBinding db payer operator).bind (·.toLogIndex)).any (log.logIndex ≤ ·)) := by
  rcases previousBinding_cases ready.bindings payer operator with ⟨none, -⟩ |
    ⟨previous, member, stop, some, -, closed, epoch, logIndex, -⟩
  · simp [none]
  · have before := Position.lt_iff.mp (ready.stop_lt later member closed)
    change stop.epoch < log.blockNumber ∨ stop.epoch = log.blockNumber ∧ stop.logIndex < log.logIndex at before
    simp only [some, Option.bind_some, epoch, logIndex, Option.any_some, Option.some.injEq, Bool.or_eq_true,
      Bool.and_eq_true, decide_eq_true_eq]
    omega

theorem createBinding_ready (ready : Ready cfg parameters past s db) (cutoffs : CutoffsSet cfg parameters.rows)
    (later : ∀ earlier ∈ past, earlier.position < log.position) {payer operator orchestrator : Address}
    (unheld : s.holder (payer.toLowerCase, operator.toLowerCase) = none)
    (admitted : orchestrator.toLowerCase ∈ s.admitted) :
    ∃ next, createBinding cfg db log payer operator orchestrator = .ok next ∧
      Ready cfg parameters (past ++ [log])
        (s.bind (payer.toLowerCase, operator.toLowerCase) (some orchestrator.toLowerCase)) next := by
  have inactive := ready.pairs.not_active unheld
  obtain ⟨cutoffStart, cutoff⟩ := cutoffStartEpoch_ok cutoffs ready.parameters
    s!"(operator: {operator}, payer: {payer})" log.blockNumber
  let row := declaration log payer.toLowerCase operator.toLowerCase orchestrator.toLowerCase
    (bindingStart cfg log.blockNumber cutoffStart (previousBinding db payer.toLowerCase operator.toLowerCase))
  have afterAll : ∀ sp ∈ db.servicePair.rows, sp.pair = row.pair → sp.span.start < row.span.start := by
    intro sp member pair
    have closed : sp.toEpoch ≠ none := fun isOpen => inactive sp member (ServicePair.isActive_iff.mpr ⟨pair, isOpen⟩)
    obtain ⟨stop, ended⟩ := ready.pairs.bindings.stop_of_closed member closed
    exact (ready.pairs.prompt.lasted sp member stop ended).trans_lt
      (ended_before_start ready.pairs.bindings later member pair ended)
  obtain ⟨pairs, inserted, rows⟩ := insertPair_ok db row (pkey_fresh afterAll)
    (decide_eq_true (ready.orchestrators.known _ admitted))
  have created : createBinding cfg db log payer operator orchestrator = .ok { db with servicePair := pairs } := by
    unfold createBinding
    dsimp only
    rw [if_neg fun active => ?_, if_neg (not_released_later ready.pairs later _ _)]
    · rw [cutoff]
      exact inserted
    · obtain ⟨sp, member, holds⟩ := List.any_eq_true.mp active
      exact inactive sp member holds
  have invariant := ready.pairs.bindings.step later (createBinding_rows created)
  refine ⟨_, created, ?_, ready.orchestrators.weaken, ready.parameters⟩
  change Invariant _ pairs.rows at invariant
  change PairsReady cfg (past ++ [log]) _ pairs.rows
  rw [rows] at invariant ⊢
  exact ready.pairs.weaken.append row rfl unheld (start_begun ready.pairs.weaken) invariant

theorem started_of_early {holder : Address × Address → Option Address}
    (ready : PairsReady cfg past holder db.servicePair.rows)
    (later : ∀ earlier ∈ past, earlier.position < log.position) {sp : ServicePair}
    (member : sp ∈ db.servicePair.rows) (early : sp.fromEpoch < logQuarterStartEpoch cfg log.blockNumber) :
    sp.span.start ≤ log.position := by
  rcases ready.prompt.begun sp member with ⟨earlier, before, begun⟩ | activated
  · refine begun.trans ?_
    have place := Position.lt_iff.mp (later earlier before)
    change earlier.blockNumber < log.blockNumber ∨ earlier.blockNumber = log.blockNumber ∧
      earlier.logIndex < log.logIndex at place
    rw [Position.le_iff]
    change earlier.blockNumber < log.blockNumber ∨ earlier.blockNumber = log.blockNumber ∧
      earlier.logIndex + 1 ≤ log.logIndex
    omega
  · refine (Position.lt_of_epoch_lt ?_).le
    change sp.fromEpoch < log.blockNumber
    -- before the activation the quarter of a log starts with it
    by_cases before : log.blockNumber < cfg.activationEpoch
    · have first : logQuarterStartEpoch cfg log.blockNumber = cfg.activationEpoch := by
        rw [logQuarterStartEpoch_eq, Config.quarterNum, if_pos before]
        simp [Config.quarterStartEpoch]
      omega
    · have q1 : 1 ≤ cfg.quarterNum log.blockNumber := by
        rw [cfg.le_quarterNum_iff le_rfl]
        simp only [Config.quarterStartEpoch]
        omega
      have begins := (cfg.le_quarterNum_iff q1 log.blockNumber).mp le_rfl
      rw [logQuarterStartEpoch_eq, max_eq_left q1] at early
      omega

theorem handOver_ready (ready : Ready cfg parameters past s db)
    (later : ∀ earlier ∈ past, earlier.position < log.position) {payer operator orchestrator : Address}
    (admitted : orchestrator ∈ s.admitted)
    (started : ∀ sp ∈ db.servicePair.rows, sp.isActive payer operator → sp.span.start ≤ log.position)
    (released : Table ServicePair ServicePair.pkey)
    (rows : released.rows = db.servicePair.rows.map fun sp =>
      if sp.isActive payer operator then sp.release log else sp) :
    ∃ next, ({ db with servicePair := released } : DB).insertPair (registration log payer operator orchestrator)
        = .ok next ∧ Ready cfg parameters (past ++ [log]) (s.bind (payer, operator) (some orchestrator)) next := by
  let row := registration log payer operator orchestrator
  have nextPosition : log.position < row.span.start := by
    rw [Position.lt_iff]
    exact Or.inr ⟨rfl, Nat.lt_succ_self _⟩
  have freed : PairsReady cfg (past ++ [log]) (Function.update s.holder (payer, operator) none)
      (db.servicePair.rows.map fun sp => if sp.isActive payer operator then sp.release log else sp) := by
    refine ready.pairs.release (List.Sublist.refl _) (fun sp => sp.isActive payer operator)
      (fun sp active => (ServicePair.isActive_iff.mp active).2) started ?_
    intro pair other
    rw [heldBy_filter, Function.update_apply]
    by_cases own : pair = (payer, operator)
    · rw [if_pos own]
      constructor
      · intro absurd
        cases absurd
      · rintro ⟨sp, -, inactive, samePair, isOpen, -⟩
        rw [Bool.not_eq_true', ← Bool.not_eq_true] at inactive
        exact absurd (ServicePair.isActive_iff.mpr ⟨samePair.trans own, isOpen⟩) inactive
    · rw [if_neg own, ready.pairs.held]
      constructor
      · rintro ⟨sp, member, samePair, isOpen, owner⟩
        refine ⟨sp, member, ?_, samePair, isOpen, owner⟩
        rw [Bool.not_eq_true', ← Bool.not_eq_true]
        exact fun active => own (samePair.symm.trans (ServicePair.isActive_iff.mp active).1)
      · rintro ⟨sp, member, -, held⟩
        exact ⟨sp, member, held⟩
  have afterAll : ∀ sp ∈ released.rows, sp.pair = row.pair → sp.span.start < row.span.start := by
    intro sp member pair
    rw [rows] at member
    obtain ⟨before, inRows, ⟨active, rfl⟩ | ⟨inactive, rfl⟩⟩ := mem_release_map member
    · exact (started before inRows active).trans_lt nextPosition
    · have closed : sp.toEpoch ≠ none := fun isOpen => by
        have active : sp.isActive payer operator = true := ServicePair.isActive_iff.mpr ⟨pair, isOpen⟩
        rw [active] at inactive
        cases inactive
      obtain ⟨stop, ended⟩ := ready.pairs.bindings.stop_of_closed inRows closed
      exact ((ready.pairs.prompt.lasted sp inRows stop ended).trans_lt (ready.pairs.stop_lt later inRows ended)).trans
        nextPosition
  obtain ⟨pairs, inserted, pairRows⟩ := insertPair_ok { db with servicePair := released } row
    (pkey_fresh afterAll) (decide_eq_true (ready.orchestrators.known _ admitted))
  refine ⟨_, inserted, ?_, ready.orchestrators.weaken, ready.parameters⟩
  change PairsReady cfg (past ++ [log]) _ pairs.rows
  change pairs.rows = released.rows ++ [row] at pairRows
  rw [pairRows, rows]
  have handedOver : Change cfg db log _ :=
    .handOver payer operator orchestrator false fun absurd => by cases absurd
  have bound := freed.append row rfl (Function.update_self _ _ _)
    (Or.inl ⟨log, by simp, le_rfl⟩)
    (ready.pairs.bindings.step later handedOver)
  rwa [show row.pair = (payer, operator) from rfl, Function.update_idem] at bound

theorem move_ready (ready : Ready cfg parameters past s db)
    (later : ∀ earlier ∈ past, earlier.position < log.position) {payer operator orchestrator : Address}
    (moved : ∃ sp ∈ db.servicePair.rows, sp.isActive payer operator ∧
      logQuarterStartEpoch cfg log.blockNumber ≤ sp.fromEpoch) :
    PairsReady cfg (past ++ [log]) (Function.update s.holder (payer, operator) (some orchestrator))
      (db.servicePair.rows.map fun sp =>
        if sp.isActive payer operator && (logQuarterStartEpoch cfg log.blockNumber ≤ sp.fromEpoch : Bool)
        then sp.reassign orchestrator else sp) := by
  have isMoved : Change cfg db log _ := .move payer operator orchestrator moved
  have invariant := ready.pairs.bindings.step later isMoved
  obtain ⟨sp, member, active, inQuarter⟩ := moved
  have movable : ∀ other ∈ db.servicePair.rows, (other.isActive payer operator &&
      (logQuarterStartEpoch cfg log.blockNumber ≤ other.fromEpoch : Bool)) = other.isActive payer operator := by
    intro other inRows
    cases activeToo : other.isActive payer operator with
    | false => rfl
    | true =>
        rw [Bool.true_and, ready.pairs.bindings.active_unique inRows member activeToo active]
        exact decide_eq_true inQuarter
  have same : (db.servicePair.rows.map fun sp =>
      if sp.isActive payer operator && (logQuarterStartEpoch cfg log.blockNumber ≤ sp.fromEpoch : Bool)
      then sp.reassign orchestrator else sp) =
      db.servicePair.rows.map fun sp => if sp.isActive payer operator then sp.reassign orchestrator else sp :=
    List.map_congr_left fun other inRows => by simp only [movable other inRows]
  rw [same] at invariant ⊢
  have image : ∀ other : ServicePair, (if other.isActive payer operator then other.reassign orchestrator
      else other).span = other.span := by
    intro other
    split <;> rfl
  refine ⟨invariant, Prompt.weaken ⟨?_, ?_⟩, ?_⟩
  · intro after inMap
    obtain ⟨before, inRows, rfl⟩ := List.mem_map.mp inMap
    have begun := ready.pairs.prompt.begun before inRows
    rw [image]
    refine begun.imp_right fun activated => ?_
    split <;> exact activated
  · intro after inMap stop closed
    obtain ⟨before, inRows, rfl⟩ := List.mem_map.mp inMap
    rw [image] at closed ⊢
    exact ready.pairs.prompt.lasted before inRows stop closed
  · intro pair other
    rw [Function.update_apply]
    by_cases own : pair = (payer, operator)
    · rw [if_pos own, Option.some.injEq]
      constructor
      · rintro rfl
        refine ⟨_, List.mem_map.mpr ⟨sp, member, rfl⟩, ?_⟩
        rw [if_pos active]
        obtain ⟨samePair, isOpen⟩ := ServicePair.isActive_iff.mp active
        exact ⟨samePair.trans own.symm, isOpen, rfl⟩
      · rintro ⟨_, inMap, samePair, isOpen, owner⟩
        obtain ⟨before, inRows, rfl⟩ := List.mem_map.mp inMap
        by_cases activeToo : before.isActive payer operator
        · rw [if_pos activeToo] at owner
          exact owner
        · rw [if_neg activeToo] at samePair isOpen
          exact absurd (ServicePair.isActive_iff.mpr ⟨samePair.trans own, isOpen⟩) activeToo
    · rw [if_neg own, ready.pairs.held]
      constructor
      · rintro ⟨before, inRows, samePair, held⟩
        refine ⟨before, List.mem_map.mpr ⟨before, inRows, if_neg fun activeToo => own ?_⟩, samePair, held⟩
        exact samePair.symm.trans (ServicePair.isActive_iff.mp activeToo).1
      · rintro ⟨_, inMap, samePair, held⟩
        obtain ⟨before, inRows, rfl⟩ := List.mem_map.mp inMap
        by_cases activeToo : before.isActive payer operator
        · rw [if_pos activeToo] at samePair
          exact absurd (samePair.symm.trans (ServicePair.isActive_iff.mp activeToo).1) own
        · rw [if_neg activeToo] at samePair held
          exact ⟨before, inRows, samePair, held⟩

theorem reassignBinding_ready (ready : Ready cfg parameters past s db)
    (later : ∀ earlier ∈ past, earlier.position < log.position) {payer operator orchestrator : Address} {inherit : Bool}
    (admitted : orchestrator.toLowerCase ∈ s.admitted)
    (started : inherit = false → ∀ sp ∈ db.servicePair.rows,
      sp.isActive payer.toLowerCase operator.toLowerCase → ¬ sp.startsAfter log.blockNumber log.logIndex) :
    ∃ next, reassignBinding cfg db log payer operator orchestrator inherit = .ok next ∧
      Ready cfg parameters (past ++ [log])
        (s.bind (payer.toLowerCase, operator.toLowerCase) (some orchestrator.toLowerCase)) next := by
  unfold reassignBinding
  dsimp only
  cases inherit with
  | false =>
      rw [if_neg Bool.false_ne_true]
      exact handOver_ready ready later admitted
        (fun sp member active => start_le_of_not_startsAfter (started rfl sp member active)) _ rfl
  | true =>
      rw [if_pos rfl]
      split
      · rename_i moved
        obtain ⟨sp, member, movable⟩ := List.any_eq_true.mp moved
        rw [Bool.and_eq_true, decide_eq_true_eq] at movable
        have known : db.hasOrchestrator orchestrator.toLowerCase = true :=
          decide_eq_true (ready.orchestrators.known _ admitted)
        unfold DB.reassignPairs
        rw [if_pos known]
        exact ⟨_, rfl, move_ready ready later ⟨sp, member, movable⟩, ready.orchestrators.weaken, ready.parameters⟩
      · rename_i settled
        have early := early_of_settled settled
        exact handOver_ready ready later admitted
          (fun sp member active => started_of_early ready.pairs later member (early sp member active)) _
          (release_early log early)

theorem cancelBinding_ready (ready : Ready cfg parameters past s db) {payer operator orchestrator : Address}
    (held : s.holder (payer.toLowerCase, operator.toLowerCase) = some orchestrator.toLowerCase) :
    Ready cfg parameters (past ++ [log]) (s.bind (payer.toLowerCase, operator.toLowerCase) none)
      (cancelBinding db log payer operator orchestrator) where
  pairs := by
    refine ready.pairs.dropAndRelease (fun sp => sp.isActive payer.toLowerCase operator.toLowerCase &&
      sp.serviceOrchestratorId = orchestrator.toLowerCase) ?_ ?_
    · intro sp owned
      rw [Bool.and_eq_true, ServicePair.isActive_iff] at owned
      exact owned.1.2
    · intro pair other
      change Function.update s.holder _ none pair = some other ↔ _
      rw [heldBy_filter, Function.update_apply]
      by_cases own : pair = (payer.toLowerCase, operator.toLowerCase)
      · rw [if_pos own]
        constructor
        · intro absurd
          cases absurd
        · rintro ⟨sp, member, kept, samePair, isOpen, -⟩
          have active := ServicePair.isActive_iff.mpr ⟨samePair.trans own, isOpen⟩
          have owner := (ready.pairs.held pair sp.serviceOrchestratorId).mpr ⟨sp, member, samePair, isOpen, rfl⟩
          rw [own, held, Option.some.injEq] at owner
          simp [active, owner.symm] at kept
      · rw [if_neg own, ready.pairs.held]
        constructor
        · rintro ⟨sp, member, samePair, rest⟩
          refine ⟨sp, member, ?_, samePair, rest⟩
          have inactive : sp.isActive payer.toLowerCase operator.toLowerCase = false := by
            rw [← Bool.not_eq_true]
            exact fun active => own (samePair.symm.trans (ServicePair.isActive_iff.mp active).1)
          simp [inactive]
        · rintro ⟨sp, member, -, rest⟩
          exact ⟨sp, member, rest⟩
  orchestrators := ready.orchestrators.weaken
  parameters := ready.parameters

theorem removeOrchestrator_ready (ready : Ready cfg parameters past s db) (orch : Address) :
    Ready cfg parameters (past ++ [log])
      { admitted := s.admitted.filter (· ≠ orch.toLowerCase)
        holder := fun pair => if s.holder pair = some orch.toLowerCase then none else s.holder pair }
      (removeOrchestrator db log orch) where
  pairs := by
    refine ready.pairs.dropAndRelease
      (fun sp => sp.serviceOrchestratorId = orch.toLowerCase && sp.toEpoch = none) ?_ ?_
    · intro sp owned
      rw [Bool.and_eq_true, decide_eq_true_eq, decide_eq_true_eq] at owned
      exact owned.2
    · intro pair other
      rw [heldBy_filter]
      dsimp only
      by_cases removed : s.holder pair = some orch.toLowerCase
      · rw [if_pos removed]
        constructor
        · intro absurd
          cases absurd
        · rintro ⟨sp, member, kept, samePair, isOpen, owner⟩
          have holds := (ready.pairs.held pair sp.serviceOrchestratorId).mpr ⟨sp, member, samePair, isOpen, rfl⟩
          rw [removed, Option.some.injEq] at holds
          simp [holds.symm, isOpen] at kept
      · rw [if_neg removed, ready.pairs.held]
        constructor
        · rintro ⟨sp, member, samePair, isOpen, owner⟩
          refine ⟨sp, member, ?_, samePair, isOpen, owner⟩
          have other_ : sp.serviceOrchestratorId ≠ orch.toLowerCase := fun same =>
            removed ((ready.pairs.held pair _).mpr ⟨sp, member, samePair, isOpen, same⟩)
          simp [other_]
        · rintro ⟨sp, member, -, rest⟩
          exact ⟨sp, member, rest⟩
  orchestrators := by
    have kept : ∀ a ∈ (removeOrchestrator db log orch).serviceOrchestratorAdmission.rows,
        ∃ before ∈ db.serviceOrchestratorAdmission.rows, before.serviceOrchestratorId = a.serviceOrchestratorId ∧
          before.admissionEpoch = a.admissionEpoch ∧ before.admissionLogIndex = a.admissionLogIndex ∧
          (a.removalEpoch = none → before.removalEpoch = none ∧ before.isActive orch.toLowerCase = false) := by
      intro a member
      obtain ⟨before, inRows, rfl⟩ := List.mem_map.mp member
      refine ⟨before, inRows, ?_⟩
      by_cases active : before.isActive orch.toLowerCase
      · rw [if_pos active]
        exact ⟨rfl, rfl, rfl, fun absurd => by cases absurd⟩
      · rw [if_neg active]
        exact ⟨rfl, rfl, rfl, fun isOpen => ⟨isOpen, Bool.not_eq_true _ ▸ active⟩⟩
    refine ⟨fun id member => ready.orchestrators.known id (List.mem_of_mem_filter member), ?_, ?_⟩
    · intro a member isOpen
      obtain ⟨before, inRows, id, -, -, stays⟩ := kept a member
      obtain ⟨wasOpen, inactive⟩ := stays isOpen
      rw [← id]
      refine List.mem_filter.mpr ⟨ready.orchestrators.open_admitted before inRows wasOpen, ?_⟩
      refine decide_eq_true fun same => ?_
      rw [ServiceOrchestratorAdmission.isActive, decide_eq_false_iff_not] at inactive
      exact inactive ⟨same, wasOpen⟩
    · intro a member
      obtain ⟨before, inRows, -, epoch, logIndex, -⟩ := kept a member
      rw [← epoch, ← logIndex]
      exact ready.orchestrators.weaken.admitted_past before inRows
  parameters := ready.parameters

theorem admission_fresh (ready : Ready cfg parameters past s db)
    (later : ∀ earlier ∈ past, earlier.position < log.position) (orch wallet : Address) :
    (admission log orch wallet).pkey ∉ db.serviceOrchestratorAdmission.rows.map (·.pkey) := by
  intro taken
  obtain ⟨a, member, same⟩ := List.mem_map.mp taken
  obtain ⟨earlier, before, epoch, logIndex⟩ := ready.orchestrators.admitted_past a member
  obtain ⟨sameEpoch, sameIndex⟩ := Prod.mk.inj (Prod.mk.inj same).2
  apply (later earlier before).ne
  exact Position.ext (epoch.symm.trans sameEpoch) (logIndex.symm.trans sameIndex)

theorem admitOrchestrator_ready (ready : Ready cfg parameters past s db)
    (later : ∀ earlier ∈ past, earlier.position < log.position) {orch wallet : Address}
    (unadmitted : orch.toLowerCase ∉ s.admitted) :
    ∃ next, admitOrchestrator db log orch wallet = .ok next ∧
      Ready cfg parameters (past ++ [log]) { s with admitted := orch.toLowerCase :: s.admitted } next := by
  obtain ⟨admissions, inserted, rows⟩ := exists_insert "service_orchestrator_admission_pkey"
    db.serviceOrchestratorAdmission _ (admission_fresh ready later orch.toLowerCase wallet.toLowerCase)
  have inactive : ¬ db.serviceOrchestratorAdmission.rows.any (·.isActive orch.toLowerCase) := by
    intro active
    obtain ⟨a, member, isActive⟩ := List.any_eq_true.mp active
    obtain ⟨id, isOpen⟩ := of_decide_eq_true isActive
    exact unadmitted (id ▸ ready.orchestrators.open_admitted a member isOpen)
  unfold admitOrchestrator
  dsimp only
  rw [inserted]
  refine ⟨_, if_neg inactive, ready.pairs.weaken, ?_, ready.parameters⟩
  refine ⟨?_, ?_, ?_⟩
  · intro id member
    rcases List.mem_cons.mp member with rfl | earlier
    · exact db.serviceOrchestrator.key_mem_getD_insert? ⟨orch.toLowerCase⟩
    · exact List.map_subset _ (db.serviceOrchestrator.subset_getD_insert? ⟨orch.toLowerCase⟩)
        (ready.orchestrators.known id earlier)
  · intro a member isOpen
    change a ∈ admissions.rows at member
    rw [rows, List.mem_append, List.mem_singleton] at member
    rcases member with before | rfl
    · exact List.mem_cons_of_mem _ (ready.orchestrators.open_admitted a before isOpen)
    · exact List.mem_cons_self
  · intro a member
    change a ∈ admissions.rows at member
    rw [rows, List.mem_append, List.mem_singleton] at member
    rcases member with before | rfl
    · exact ready.orchestrators.weaken.admitted_past a before
    · exact ⟨log, by simp, rfl, rfl⟩

theorem handleLog_ready (ready : Ready cfg parameters past s db) (cutoffs : CutoffsSet cfg parameters.rows)
    (later : ∀ earlier ∈ past, earlier.position < log.position) {t : ActorState} (legal : s.apply log = some t)
    (started : ¬ HandsOverPending db log) (tokensMap : List (Address × ERC20Metadata)) :
    ∃ next, ServiceRewardsActorIndexer.handleLog cfg tokensMap db log = .ok next ∧
      Ready cfg parameters (past ++ [log]) t next := by
  unfold ServiceRewardsActorIndexer.handleLog
  unfold ActorState.apply at legal
  cases event : log.event with
  | orchestratorAdmitted orch wallet =>
      simp only [event, Option.ite_none_left_eq_some, Option.some.injEq] at legal
      obtain ⟨unadmitted, rfl⟩ := legal
      exact admitOrchestrator_ready ready later unadmitted
  | orchestratorRemoved orch =>
      simp only [event, Option.some.injEq] at legal
      subst legal
      exact ⟨_, rfl, removeOrchestrator_ready ready orch⟩
  | bindingDeclared payer operator orchestrator =>
      simp only [event, Option.ite_none_right_eq_some, Option.some.injEq] at legal
      obtain ⟨⟨unheld, admitted⟩, rfl⟩ := legal
      exact createBinding_ready ready cutoffs later unheld admitted
  | bindingReassigned payer operator orchestrator inherit =>
      simp only [event, Option.ite_none_right_eq_some, Option.some.injEq] at legal
      obtain ⟨⟨-, admitted⟩, rfl⟩ := legal
      refine reassignBinding_ready ready later admitted fun alone sp member active pending => started ?_
      exact ⟨payer, operator, orchestrator, by rw [event, alone], sp, member, active, pending⟩
  | bindingCanceled payer operator orchestrator =>
      simp only [event, Option.ite_none_right_eq_some, Option.some.injEq] at legal
      obtain ⟨held, rfl⟩ := legal
      exact ⟨_, rfl, cancelBinding_ready ready held⟩
  | orchestratorWalletReplaced _ _ => simp [event] at legal
  | admittedListsUpdated _ _ => simp [event] at legal
  | pricingParamsUpdated _ _ _ _ _ => simp [event] at legal
  | volumePosted _ _ _ => simp [event] at legal
  | volumeCorrected _ _ _ => simp [event] at legal
  | sharesSubmitted _ _ _ => simp [event] at legal

end Step

theorem foldlM_apply_append {logs : List ServiceRewardsActorLog} {log : ServiceRewardsActorLog}
    {rest : List ServiceRewardsActorLog} {s t : ActorState} (legal : (logs ++ log :: rest).foldlM ActorState.apply s = some t) :
    ∃ mid next, logs.foldlM ActorState.apply s = some mid ∧ mid.apply log = some next := by
  rw [List.foldlM_append, Option.bind_eq_bind, Option.bind_eq_some_iff] at legal
  obtain ⟨mid, front, back⟩ := legal
  rw [List.foldlM_cons, Option.bind_eq_bind, Option.bind_eq_some_iff] at back
  obtain ⟨next, applied, -⟩ := back
  exact ⟨mid, next, front, applied⟩

theorem fetchTokensMap_legal (services : TokenServices) {logs : List ServiceRewardsActorLog}
    (legal : LegalHistory logs) : fetchTokensMap services logs = .ok [] := by
  have silent : announcedTokens logs = [] := by
    refine List.flatMap_eq_nil_iff.mpr fun log member => ?_
    obtain ⟨front, back, rfl⟩ := List.append_of_mem member
    obtain ⟨t, run⟩ := legal
    obtain ⟨s, next, -, applied⟩ := foldlM_apply_append run
    unfold ActorState.apply at applied
    split
    · rename_i event
      simp [event] at applied
    · rfl
  unfold fetchTokensMap
  rw [silent]
  rfl

/-- A legal history is ingested whole as long as no pair is taken away, without inheritance, from a binding
that has not started. -/
theorem updateDb_legal (cfg : Deployment) (services : TokenServices)
    (parameters : Table ServiceRewardsActorParameter ServiceRewardsActorParameter.pkey)
    (cutoffs : CutoffsSet cfg parameters.rows) (logs : List ServiceRewardsActorLog) (ordered : ChainOrdered logs)
    (legal : LegalHistory logs)
    (started : ∀ past log rest db, logs = past ++ log :: rest →
      ServiceRewardsActorIndexer.updateDb cfg services (withParameters cfg parameters) past = .ok db →
      ¬ HandsOverPending db log) :
    ∃ db, ServiceRewardsActorIndexer.updateDb cfg services (withParameters cfg parameters) logs = .ok db := by
  have unfolded : ∀ past rest, logs = past ++ rest →
      ServiceRewardsActorIndexer.updateDb cfg services (withParameters cfg parameters) past =
        past.foldlM (ServiceRewardsActorIndexer.handleLog cfg []) (withParameters cfg parameters) := by
    intro past rest whole
    have legalPast : LegalHistory past := by
      obtain ⟨t, run⟩ := legal
      rw [whole, List.foldlM_append, Option.bind_eq_bind, Option.bind_eq_some_iff] at run
      exact ⟨_, run.choose_spec.1⟩
    unfold ServiceRewardsActorIndexer.updateDb
    rw [fetchTokensMap_legal services legalPast]
    rfl
  obtain ⟨t, run⟩ := legal
  rw [unfolded logs [] (List.append_nil logs).symm]
  refine (exists_foldlM_of_forall logs
    (fun past db => ∃ s, past.foldlM ActorState.apply .initial = some s ∧ Ready cfg parameters past s db)
    (withParameters cfg parameters) ⟨.initial, rfl, ready_initial cfg parameters⟩ ?_).imp fun _ => And.left
  rintro past log rest db whole reached ⟨s, legalPast, ready⟩
  have legalLog := run
  rw [whole] at legalLog
  obtain ⟨mid, next, front, applied⟩ := foldlM_apply_append legalLog
  obtain rfl : s = mid := Option.some.inj (legalPast.symm.trans front)
  have later : ∀ earlier ∈ past, earlier.position < log.position := by
    intro earlier before
    rw [whole, ChainOrdered, List.pairwise_append] at ordered
    exact ordered.2.2 earlier before log List.mem_cons_self
  have safe := started past log rest db whole ((unfolded past _ whole).trans reached)
  obtain ⟨after, handled, kept⟩ := handleLog_ready ready cutoffs later applied safe []
  exact ⟨after, handled, next, by rw [List.foldlM_append, front]; simpa using applied, kept⟩

section Runs
open ServiceRewardsActorIndexer

def cutoffOfTen : Table ServiceRewardsActorParameter ServiceRewardsActorParameter.pkey where
  rows := [⟨.registrationCutoffEpochs, 10, 50, 0, "0x0"⟩]
  nodup := List.nodup_singleton _

theorem cutoffsSet_cutoffOfTen : CutoffsSet hundredEpochs cutoffOfTen.rows where
  fits := fun p member _ => ⟨10, by rw [List.mem_singleton.mp member]; rfl, by decide⟩
  early := ⟨_, List.mem_singleton_self _, rfl, by decide⟩

def takesPending (db : DB) (log : ServiceRewardsActorLog) : Bool :=
  match log.event with
  | .bindingReassigned payer operator _ false => db.servicePair.rows.any fun sp =>
      sp.isActive payer.toLowerCase operator.toLowerCase && sp.startsAfter log.blockNumber log.logIndex
  | _ => false

theorem takesPending_of_handsOver {db : DB} {log : ServiceRewardsActorLog} (handsOver : HandsOverPending db log) :
    takesPending db log := by
  obtain ⟨payer, operator, orchestrator, event, sp, member, active, pending⟩ := handsOver
  unfold takesPending
  rw [event]
  exact List.any_eq_true.mpr ⟨sp, member, Bool.and_eq_true_iff.mpr ⟨active, pending⟩⟩

def startsBefore (logs : List ServiceRewardsActorLog) (i : Nat) : Bool :=
  match logs[i]?, updateDb hundredEpochs .offline (withParameters hundredEpochs cutoffOfTen) (logs.take i) with
  | some log, .ok db => !takesPending db log
  | _, _ => true

theorem started_of_startsBefore {logs : List ServiceRewardsActorLog}
    (each : ∀ i < logs.length, startsBefore logs i) (past : List ServiceRewardsActorLog) (log : ServiceRewardsActorLog)
    (rest : List ServiceRewardsActorLog) (db : DB) (whole : logs = past ++ log :: rest)
    (ingested : updateDb hundredEpochs .offline (withParameters hundredEpochs cutoffOfTen) past = .ok db) :
    ¬ HandsOverPending db log := by
  intro handsOver
  have bound : past.length < logs.length := by
    rw [whole, List.length_append, List.length_cons]
    omega
  have here : logs[past.length]? = some log := by
    rw [whole, List.getElem?_append_right le_rfl, Nat.sub_self]
    rfl
  have before : logs.take past.length = past := by
    rw [whole, List.take_left]
  have starts := each past.length bound
  unfold startsBefore at starts
  rw [here, before, ingested] at starts
  exact absurd (takesPending_of_handsOver handsOver) (Bool.not_eq_true' _ |>.mp starts ▸ nofun)

def handedOnAndRemoved : List ServiceRewardsActorLog :=
  [⟨10, 0, "0x1", .orchestratorAdmitted "0xA" "0xA"⟩, ⟨10, 1, "0x1", .orchestratorAdmitted "0xB" "0xB"⟩,
    ⟨110, 0, "0x2", .bindingDeclared "0xP" "0xO" "0xA"⟩, ⟨120, 0, "0x3", .bindingReassigned "0xP" "0xO" "0xB" false⟩,
    ⟨130, 0, "0x4", .bindingCanceled "0xP" "0xO" "0xB"⟩, ⟨140, 0, "0x5", .bindingDeclared "0xP" "0xO" "0xA"⟩,
    ⟨195, 0, "0x6", .bindingDeclared "0xQ" "0xO" "0xA"⟩, ⟨196, 0, "0x7", .bindingReassigned "0xQ" "0xO" "0xB" true⟩,
    ⟨210, 0, "0x8", .orchestratorRemoved "0xA"⟩]

theorem updateDb_legal_handedOnAndRemoved :
    ∃ db, updateDb hundredEpochs .offline (withParameters hundredEpochs cutoffOfTen) handedOnAndRemoved = .ok db :=
  updateDb_legal hundredEpochs .offline cutoffOfTen cutoffsSet_cutoffOfTen handedOnAndRemoved
    (by unfold ChainOrdered; decide) (Option.isSome_iff_exists.mp (by decide +kernel))
    (started_of_startsBefore (by decide +kernel))

def declaredInCutoff : List ServiceRewardsActorLog :=
  [⟨10, 0, "0x1", .orchestratorAdmitted "0xA" "0xA"⟩, ⟨10, 1, "0x1", .orchestratorAdmitted "0xB" "0xB"⟩,
    ⟨195, 0, "0x2", .bindingDeclared "0xP" "0xO" "0xA"⟩]

def declaredAgain : List ServiceRewardsActorLog :=
  declaredInCutoff ++ [⟨196, 0, "0x3", .bindingReassigned "0xP" "0xO" "0xB" false⟩,
    ⟨197, 0, "0x4", .bindingCanceled "0xP" "0xO" "0xB"⟩, ⟨198, 0, "0x5", .bindingDeclared "0xP" "0xO" "0xA"⟩]

theorem declaredAgain_stuck : ChainOrdered declaredAgain ∧ LegalHistory declaredAgain ∧
    CutoffsSet hundredEpochs cutoffOfTen.rows ∧
    ¬ ∃ db, updateDb hundredEpochs .offline (withParameters hundredEpochs cutoffOfTen) declaredAgain = .ok db := by
  refine ⟨by unfold ChainOrdered; decide, Option.isSome_iff_exists.mp (by decide +kernel), cutoffsSet_cutoffOfTen, ?_⟩
  have collides : (updateDb hundredEpochs .offline (withParameters hundredEpochs cutoffOfTen) declaredAgain).map
      (fun _ => ()) = .error (.uniqueViolation "service_pair_pkey") := by decide +kernel
  rintro ⟨db, ingested⟩
  rw [ingested] at collides
  cases collides

end Runs

end FpvIndexer.Proof.Ingestion
