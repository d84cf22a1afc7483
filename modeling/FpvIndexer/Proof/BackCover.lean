import FpvIndexer.Proof.Owners
import FpvIndexer.Proof.Ingestion

namespace FpvIndexer
open Relational Proof

/-- The position of the last log that left a pair unbound. -/
def lastRelease (cfg : Deployment) (pair : Address × Address) (db : DB) : List Step → Option Position
  | [] => none
  | step :: rest =>
      match step.apply cfg db with
      | .error _ => none
      | .ok next =>
          (lastRelease cfg pair next rest).or
            (if db.binds pair && !next.binds pair then step.serviceRewardsActorLog?.map (·.position) else none)

namespace Proof.BackCover
open Bindings Effects Owners

section Changes
variable {cfg : Deployment} {db : DB} {past : List ServiceRewardsActorLog} {log : ServiceRewardsActorLog}
  {rows : List ServicePair}

theorem keeps_closed (change : Change cfg db log rows) {sp : ServicePair} (member : sp ∈ db.servicePair.rows)
    (closed : sp.toEpoch ≠ none) : sp ∈ rows := by
  have inactive : ∀ payer operator, sp.isActive payer operator = false := by
    intro payer operator
    rw [← Bool.not_eq_true, ServicePair.isActive_iff]
    exact fun active => closed active.2
  cases change with
  | keep => exact member
  | declare => exact List.mem_append_left _ member
  | move => exact List.mem_map.mpr ⟨sp, member, by simp [inactive]⟩
  | handOver => exact List.mem_append_left _ (List.mem_map.mpr ⟨sp, member, by simp [inactive]⟩)
  | release isHeld held =>
      have unheld : isHeld sp = false := by
        rw [← Bool.not_eq_true]
        exact fun holds => closed (held sp holds)
      exact List.mem_map.mpr ⟨sp, List.mem_filter.mpr ⟨member, by simp [unheld]⟩, by simp [unheld]⟩

theorem closed_origin (change : Change cfg db log rows) {sp : ServicePair} (member : sp ∈ rows) {stop : Position}
    (ended : sp.span.stop = some stop) : sp ∈ db.servicePair.rows ∨
      stop = log.position ∧ ∃ before ∈ db.servicePair.rows, before.pair = sp.pair ∧ before.toEpoch = none := by
  have notOpen : sp.toEpoch ≠ none := by
    intro isOpen
    rw [ServicePair.span, isOpen, stopPosition_none] at ended
    cases ended
  have released : ∀ {isHeld : ServicePair → Bool} {kept : List ServicePair}, (∀ sp, isHeld sp → sp.toEpoch = none) →
      kept ⊆ db.servicePair.rows → (sp ∈ kept.map fun sp => if isHeld sp then sp.release log else sp) →
        sp ∈ db.servicePair.rows ∨
          stop = log.position ∧ ∃ before ∈ db.servicePair.rows, before.pair = sp.pair ∧ before.toEpoch = none := by
    intro isHeld kept held sub inMap
    obtain ⟨before, inKept, ⟨holds, rfl⟩ | ⟨-, rfl⟩⟩ := mem_release_map inMap
    · cases ended
      exact Or.inr ⟨rfl, before, sub inKept, rfl, held before holds⟩
    · exact Or.inl (sub inKept)
  cases change with
  | keep => exact Or.inl member
  | declare =>
      rcases List.mem_append.mp member with before | new
      · exact Or.inl before
      · rw [List.mem_singleton.mp new] at notOpen
        exact absurd rfl notOpen
  | move payer operator orchestrator =>
      obtain ⟨before, inRows, rfl⟩ := List.mem_map.mp member
      split at notOpen
      · rename_i movable
        exact absurd (ServicePair.isActive_iff.mp (Bool.and_eq_true_iff.mp movable).1).2 notOpen
      · rename_i stays
        rw [if_neg stays]
        exact Or.inl inRows
  | handOver =>
      rcases List.mem_append.mp member with inMap | new
      · exact released (fun sp active => (ServicePair.isActive_iff.mp active).2) (List.Subset.refl _) inMap
      · rw [List.mem_singleton.mp new] at notOpen
        exact absurd rfl notOpen
  | release isHeld held => exact released held List.filter_sublist.subset member

theorem inCutoff_of_le {epoch later : Int} (late : inCutoff cfg db epoch) (le : epoch ≤ later)
    (early : later < cfg.quarterStartEpoch (cfg.quarterNum epoch + 1)) : inCutoff cfg db later := by
  have nonneg := cfg.quarterNum_nonneg epoch
  have same : cfg.quarterNum later = cfg.quarterNum epoch :=
    le_antisymm (Int.lt_add_one_iff.mp ((cfg.quarterNum_lt_iff (by omega) later).mpr early)) (cfg.quarterNum_mono le)
  unfold inCutoff at late ⊢
  rw [same]
  obtain ⟨fromQ1, window⟩ := Bool.and_eq_true_iff.mp late
  obtain ⟨cutoff, found, lt⟩ := (Option.any_eq_true _ _).mp window
  refine Bool.and_eq_true_iff.mpr ⟨fromQ1, (Option.any_eq_true _ _).mpr ⟨cutoff, found, decide_eq_true ?_⟩⟩
  exact (of_decide_eq_true lt).trans_le (Int.cast_le.mpr le)

theorem released_row (change : Change cfg db log rows) (later : ∀ earlier ∈ past, earlier.position < log.position)
    {sp : ServicePair} (member : sp ∈ db.servicePair.rows) (isOpen : sp.toEpoch = none)
    (begun : Begun cfg db past sp.span.start) (unbound : ∀ row ∈ rows, row.pair = sp.pair → row.toEpoch ≠ none) :
    log.blockNumber < cfg.activationEpoch ∨ inCutoff cfg db log.blockNumber ∨
      ∃ row ∈ rows, row.pair = sp.pair ∧ row.span.stop = some log.position := by
  cases change with
  | keep => exact absurd isOpen (unbound sp member rfl)
  | declare => exact absurd isOpen (unbound sp (List.mem_append_left _ member) rfl)
  | move =>
      refine absurd isOpen ?_
      have moved := unbound _ (List.mem_map_of_mem member)
      split at moved
      · exact moved rfl
      · exact moved rfl
  | handOver payer operator orchestrator =>
      by_cases active : sp.isActive payer operator
      · exact absurd rfl (unbound (registration log payer operator orchestrator)
          (List.mem_append_right _ (List.mem_singleton_self _)) (ServicePair.isActive_iff.mp active).1.symm)
      · have stays := List.mem_map_of_mem
          (f := fun sp => if sp.isActive payer operator then sp.release log else sp) member
        rw [if_neg active] at stays
        exact absurd isOpen (unbound sp (List.mem_append_left _ stays) rfl)
  | release isHeld held =>
      cases holds : isHeld sp with
      | false =>
          refine absurd isOpen (unbound sp (List.mem_map.mpr ⟨sp, List.mem_filter.mpr ⟨member, ?_⟩, ?_⟩) rfl)
          · simp [holds]
          · simp [holds]
      | true =>
          by_cases pending : sp.startsAfter log.blockNumber log.logIndex
          · have after := startsAfter_iff.mp pending
            cases begun with
            | placed earlier before upTo =>
                exact absurd (after.trans_le (upTo.trans (Position.next_le_iff.mpr (later earlier before)))) (lt_irrefl _)
            | activated same =>
                rw [same, Position.lt_iff] at after
                exact Or.inl (after.resolve_right fun at0 => absurd at0.2 (Nat.not_lt_zero _))
            | postponed earlier before late same =>
                rw [same, Position.lt_iff] at after
                have early : log.blockNumber < cfg.quarterStartEpoch (cfg.quarterNum earlier.blockNumber + 1) :=
                  after.resolve_right fun at0 => absurd at0.2 (Nat.not_lt_zero _)
                exact Or.inr (Or.inl (inCutoff_of_le late (Position.epoch_le_of_le (later earlier before).le) early))
          · refine Or.inr (Or.inr ⟨sp.release log, List.mem_map.mpr ⟨sp, List.mem_filter.mpr ⟨member, ?_⟩, ?_⟩, rfl, rfl⟩)
            · simp [pending]
            · simp [holds]

theorem begun_step (change : Change cfg db log rows) (holds : Invariant past db.servicePair.rows)
    (begun : ∀ sp ∈ db.servicePair.rows, Begun cfg db past sp.span.start) :
    ∀ sp ∈ rows, Begun cfg db (past ++ [log]) sp.span.start := by
  have kept : ∀ sp ∈ db.servicePair.rows, Begun cfg db (past ++ [log]) sp.span.start := by
    intro sp member
    exact (begun sp member).mono (List.subset_append_left _ _) fun _ _ => rfl
  have released : ∀ {isHeld : ServicePair → Bool} {rows : List ServicePair}, rows ⊆ db.servicePair.rows →
      ∀ sp ∈ rows.map fun sp => if isHeld sp then sp.release log else sp, Begun cfg db (past ++ [log]) sp.span.start := by
    intro isHeld rows sub sp member
    obtain ⟨before, inRows, ⟨-, rfl⟩ | ⟨-, rfl⟩⟩ := mem_release_map member
    · exact kept before (sub inRows)
    · exact kept sp (sub inRows)
  intro sp member
  cases change with
  | keep => exact kept sp member
  | declare payer operator orchestrator cutoffStart unbound cutoff =>
      rcases List.mem_append.mp member with before | new
      · exact kept sp before
      · obtain ⟨_, cutoff⟩ := cutoff
        obtain ⟨release, placed, start, -⟩ := exists_startAfter cfg holds payer operator log.blockNumber cutoffStart
        have begins : Begun cfg db (past ++ [log]) _ := begun_startAfter cutoff placed
        rw [← start] at begins
        rw [List.mem_singleton.mp new]
        exact begins
  | move =>
      obtain ⟨before, inRows, rfl⟩ := List.mem_map.mp member
      split
      · exact kept before inRows
      · exact kept before inRows
  | handOver =>
      rcases List.mem_append.mp member with inMap | new
      · exact released (List.Subset.refl _) sp inMap
      · rw [List.mem_singleton.mp new]
        exact .placed log (List.mem_append_right _ (List.mem_singleton_self _)) le_rfl
  | release => exact released List.filter_sublist.subset sp member

end Changes

section Runs
variable {cfg : Deployment} {db next : DB} {past : List ServiceRewardsActorLog} {log : ServiceRewardsActorLog}

theorem inCutoff_parameters {added : List ServiceRewardsActorParameter}
    (rows : next.serviceRewardsActorParameter.rows = db.serviceRewardsActorParameter.rows ++ added)
    (fresh : ∀ row ∈ added, row.position = log.position) {epoch : Int} (le : epoch ≤ log.blockNumber) :
    inCutoff cfg next epoch = inCutoff cfg db epoch := by
  unfold inCutoff
  by_cases fromQ1 : 1 ≤ cfg.quarterNum epoch
  · have started := (cfg.le_quarterNum_iff fromQ1 epoch).mp le_rfl
    have none : (added.filter fun p => p.parameterType = .registrationCutoffEpochs ∧
        p.updateEpoch < cfg.quarterStartEpoch (cfg.quarterNum epoch)) = [] := by
      refine List.filter_eq_nil_iff.mpr fun row member early => ?_
      have placed : row.updateEpoch = log.blockNumber := congrArg Position.epoch (fresh row member)
      have := (of_decide_eq_true early).2
      omega
    unfold registrationCutoff
    rw [rows, List.filter_append, none, List.append_nil]
  · rw [decide_eq_false fromQ1, Bool.false_and, Bool.false_and]

theorem lastRelease_concat {pair : Address × Address} {steps : List Step} {step : Step} {mid : DB}
    (run : steps.foldlM (Step.apply cfg) db = .ok mid) (applied : step.apply cfg mid = .ok next) :
    lastRelease cfg pair db (steps ++ [step]) =
      (if mid.binds pair && !next.binds pair then step.serviceRewardsActorLog?.map (·.position) else none).or
        (lastRelease cfg pair db steps) := by
  induction steps generalizing db with
  | nil =>
      obtain rfl := pure_eq_ok.mp run
      simp only [List.nil_append, lastRelease, applied, Option.none_or, Option.or_none]
  | cons first rest ih =>
      rw [List.foldlM_cons, bind_eq_ok] at run
      obtain ⟨after, done, onward⟩ := run
      simp only [List.cons_append, lastRelease, done, ih onward, Option.or_assoc]

structure Tracked (cfg : Deployment) (past : List ServiceRewardsActorLog) (db : DB)
    (released : Address × Address → Option Position) : Prop where
  bindings : Invariant past db.servicePair.rows
  begun : ∀ sp ∈ db.servicePair.rows, Begun cfg db past sp.span.start
  placed : ∀ pair, ∀ r ∈ released pair, ∃ earlier ∈ past, earlier.position = r
  -- while a pair is bound, its last binding may have been closed after its last release
  latest : ∀ pair, ¬ db.binds pair → ∀ sp ∈ db.servicePair.rows, sp.pair = pair →
    ∀ stop ∈ sp.span.stop, ∃ r ∈ released pair, stop ≤ r
  known : ∀ pair, ∀ r ∈ released pair, r.epoch < cfg.activationEpoch ∨ inCutoff cfg db r.epoch ∨
    ∃ sp ∈ db.servicePair.rows, sp.pair = pair ∧ sp.span.stop = some r

theorem tracked_seeded (cfg : Deployment) : Tracked cfg [] (DB.seeded cfg) fun _ => none where
  bindings := invariant_nil
  begun := fun _ member => absurd member List.not_mem_nil
  placed := nofun
  latest := fun _ _ _ member => absurd member List.not_mem_nil
  known := nofun

section Step
variable {released : Address × Address → Option Position}

theorem Tracked.bindingsStep (tracked : Tracked cfg past db released)
    (later : ∀ earlier ∈ past, earlier.position < log.position)
    (change : Change cfg db log next.servicePair.rows)
    (parameters : next.serviceRewardsActorParameter = db.serviceRewardsActorParameter) :
    Tracked cfg (past ++ [log]) next fun pair =>
      (if db.binds pair && !next.binds pair then some log.position else none).or (released pair) := by
  have window : ∀ epoch, inCutoff cfg next epoch = inCutoff cfg db epoch := by
    intro epoch
    unfold inCutoff registrationCutoff
    rw [parameters]
  have invariant := tracked.bindings.step later change
  have here : log ∈ past ++ [log] := List.mem_append_right _ (List.mem_singleton_self _)
  have now : ∀ stop : Position, (∃ earlier ∈ past ++ [log], earlier.position = stop) → stop ≤ log.position := by
    rintro stop ⟨earlier, member, rfl⟩
    rcases List.mem_append.mp member with before | new
    · exact (later earlier before).le
    · rw [List.mem_singleton.mp new]
  refine ⟨invariant, ?_, ?_, ?_, ?_⟩
  · intro sp member
    exact (begun_step change tracked.bindings tracked.begun sp member).mono (List.Subset.refl _) fun _ _ => window _
  · intro pair r known
    split at known
    · cases known
      exact ⟨log, here, rfl⟩
    · obtain ⟨earlier, before, same⟩ := tracked.placed pair r known
      exact ⟨earlier, List.mem_append_left _ before, same⟩
  · intro pair unbound sp member own stop ended
    by_cases bound : db.binds pair
    · refine ⟨log.position, ?_, now stop (invariant.ended sp member stop ended)⟩
      simp [bound, unbound]
    · have before : sp ∈ db.servicePair.rows := by
        refine (closed_origin change member ended).resolve_right ?_
        rintro ⟨-, old, inRows, same, isOpen⟩
        exact bound (binds_iff.mpr ⟨old, inRows, same.trans own, isOpen⟩)
      obtain ⟨r, last, upTo⟩ := tracked.latest pair bound sp before own stop ended
      exact ⟨r, by simpa [bound] using last, upTo⟩
  · intro pair r known
    split at known
    · rename_i unbound
      obtain ⟨bound, unbound⟩ := Bool.and_eq_true_iff.mp unbound
      cases known
      obtain ⟨sp, member, rfl, isOpen⟩ := binds_iff.mp bound
      have closed : ∀ row ∈ next.servicePair.rows, row.pair = sp.pair → row.toEpoch ≠ none := by
        intro row inRows own stillOpen
        rw [binds_iff.mpr ⟨row, inRows, own, stillOpen⟩] at unbound
        cases unbound
      rw [window]
      exact released_row change later member isOpen (tracked.begun sp member) closed
    · rw [window]
      refine (tracked.known pair r known).imp_right (Or.imp_right ?_)
      rintro ⟨sp, member, own, ended⟩
      refine ⟨sp, keeps_closed change member fun isOpen => ?_, own, ended⟩
      rw [ServicePair.span, isOpen, stopPosition_none] at ended
      cases ended

theorem Tracked.other (tracked : Tracked cfg past db released) (more : List ServiceRewardsActorLog)
    (pairs : next.servicePair = db.servicePair)
    (window : ∀ earlier ∈ past, inCutoff cfg next earlier.blockNumber = inCutoff cfg db earlier.blockNumber) :
    Tracked cfg (past ++ more) next released where
  bindings := by
    rw [pairs]
    exact tracked.bindings.mono (List.subset_append_left _ _)
  begun := by
    rw [pairs]
    intro sp member
    exact (tracked.begun sp member).mono (List.subset_append_left _ _) window
  placed := by
    intro pair r known
    obtain ⟨earlier, before, same⟩ := tracked.placed pair r known
    exact ⟨earlier, List.mem_append_left _ before, same⟩
  latest := by
    unfold DB.binds
    rw [pairs]
    exact tracked.latest
  known := by
    rw [pairs]
    intro pair r known
    obtain ⟨earlier, before, rfl⟩ := tracked.placed pair r known
    rw [show inCutoff cfg next earlier.position.epoch = _ from window earlier before]
    exact tracked.known pair _ known

theorem Tracked.step (tracked : Tracked cfg past db released) {step : Step}
    (later : ∀ log, step.serviceRewardsActorLog? = some log → ∀ earlier ∈ past, earlier.position < log.position)
    (applied : step.apply cfg db = .ok next) :
    Tracked cfg (past ++ step.serviceRewardsActorLog?.toList) next fun pair =>
      (if db.binds pair && !next.binds pair then step.serviceRewardsActorLog?.map (·.position) else none).or
        (released pair) := by
  have unchanged : next.servicePair = db.servicePair → (fun pair =>
      (if db.binds pair && !next.binds pair then step.serviceRewardsActorLog?.map (·.position) else none).or
        (released pair)) = released := by
    intro same
    funext pair
    unfold DB.binds
    rw [same, Bool.and_not_self]
    rfl
  cases apply_effect applied with
  | bindings tokensMap log orchestrators admissions pairs change =>
      exact tracked.bindingsStep (later log rfl) change rfl
  | postings tokensMap log =>
      rw [unchanged rfl]
      exact tracked.other _ rfl fun _ _ => rfl
  | lists tokensMap log =>
      rw [unchanged rfl]
      exact tracked.other _ rfl fun _ _ => rfl
  | parameters tokensMap log parameters mv added rows fresh =>
      rw [unchanged rfl]
      refine tracked.other _ rfl fun earlier before => ?_
      exact inCutoff_parameters rows (fun row member => (fresh row member).1)
        (Position.epoch_le_of_le (later log rfl earlier before).le)
  | shares tokensMap log =>
      rw [unchanged rfl]
      exact tracked.other _ rfl fun _ _ => rfl
  | rail =>
      rw [unchanged rfl]
      exact tracked.other _ rfl fun _ _ => rfl
  | payment =>
      rw [unchanged rfl]
      exact tracked.other _ rfl fun _ _ => rfl
  | auction =>
      rw [unchanged rfl]
      exact tracked.other _ rfl fun _ _ => rfl
  | nothing =>
      rw [unchanged rfl]
      exact tracked.other _ rfl fun _ _ => rfl

theorem tracked_of_run {steps : List Step} (run : steps.foldlM (Step.apply cfg) (DB.seeded cfg) = .ok db)
    (ordered : ChainOrdered (steps.filterMap Step.serviceRewardsActorLog?)) :
    Tracked cfg (steps.filterMap Step.serviceRewardsActorLog?) db
      fun pair => lastRelease cfg pair (DB.seeded cfg) steps := by
  refine (foldlM_induction run (fun past db => past.foldlM (Step.apply cfg) (DB.seeded cfg) = .ok db ∧
    Tracked cfg (past.filterMap Step.serviceRewardsActorLog?) db
      fun pair => lastRelease cfg pair (DB.seeded cfg) past) ⟨rfl, tracked_seeded cfg⟩ ?_).2
  intro past step rest before after whole ⟨reached, tracked⟩ applied
  refine ⟨foldlM_append_eq_ok.mpr ⟨before, reached, (foldlM_singleton _ _ _).trans applied⟩, ?_⟩
  have later : ∀ log, step.serviceRewardsActorLog? = some log →
      ∀ earlier ∈ past.filterMap Step.serviceRewardsActorLog?, earlier.position < log.position := by
    intro log isLog earlier member
    rw [whole, List.filterMap_append, ChainOrdered, List.pairwise_append] at ordered
    exact ordered.2.2 earlier member log (by rw [List.filterMap_cons_some isLog]; exact List.mem_cons_self)
  have next := tracked.step later applied
  simp only [← lastRelease_concat reached applied] at next
  rw [List.filterMap_append]
  have single : [step].filterMap Step.serviceRewardsActorLog? = step.serviceRewardsActorLog?.toList := by
    cases isLog : step.serviceRewardsActorLog? with
    | none => simp [isLog]
    | some log => simp [isLog]
  rw [single]
  exact next

end Step

end Runs

section Declarations
variable {cfg : Deployment} {db next : DB} {past : List ServiceRewardsActorLog} {log : ServiceRewardsActorLog} {x : Position}

def declarationStart (cfg : Deployment) (db : DB) (blockNumber : Int) (release : Option Position) : Position :=
  if inCutoff cfg db blockNumber then ⟨cfg.quarterStartEpoch (cfg.quarterNum blockNumber + 1), 0⟩
  else
    let quarterStart : Position := ⟨cfg.quarterStartEpoch (max (cfg.quarterNum blockNumber) 1), 0⟩
    release.elim quarterStart fun r => max quarterStart r.next

/-- From the start on, all positions go from nobody to the orchestrator, and the others stay. -/
structure BackCovers (cfg : Deployment) (pair : Address × Address) (orchestrator : Address) (start : Position)
    (before after : List ServicePair) : Prop where
  declared : ∀ x, cfg.activationEpoch ≤ x.epoch →
    (Attributed after pair x orchestrator ↔ Attributed before pair x orchestrator ∨ start ≤ x)
  free : ∀ x, cfg.activationEpoch ≤ x.epoch → start ≤ x → ¬ Covered before pair x
  kept : ∀ x owner, cfg.activationEpoch ≤ x.epoch → x < start ∨ owner ≠ orchestrator →
    (Attributed after pair x owner ↔ Attributed before pair x owner)
  others : ∀ other, other ≠ pair → ∀ x owner, Attributed after other x owner ↔ Attributed before other x owner

theorem quarterStart_le (fromQ1 : 1 ≤ cfg.quarterNum x.epoch) :
    (⟨cfg.quarterStartEpoch (cfg.quarterNum x.epoch), 0⟩ : Position) ≤ x := by
  rw [Position.le_iff]
  have started := (cfg.le_quarterNum_iff fromQ1 x.epoch).mp le_rfl
  exact (lt_or_eq_of_le started).imp_right fun same => ⟨same, Nat.zero_le _⟩

theorem declarationStart_le_iff {release : Option Position} (early : ¬ inCutoff cfg db log.blockNumber) :
    declarationStart cfg db log.blockNumber release ≤ x ↔
      ⟨cfg.quarterStartEpoch (max (cfg.quarterNum log.blockNumber) 1), 0⟩ ≤ x ∧ ∀ r ∈ release, r < x := by
  unfold declarationStart
  rw [if_neg early]
  cases release with
  | none => simp
  | some r =>
      rw [Option.elim_some, max_le_iff, Position.next_le_iff]
      exact and_congr_right fun _ => ⟨fun before _ same => Option.some.inj same ▸ before, fun all => all r rfl⟩

theorem startAfter_le_iff {cutoffStart : Int} {release : Option Position} (early : ¬ cutoffStart ≤ log.blockNumber)
    (released : ∀ r ∈ release, r < log.position) (activated : cfg.activationEpoch ≤ x.epoch) :
    startAfter cfg log.blockNumber cutoffStart release ≤ x ↔
      ⟨cfg.quarterStartEpoch (max (cfg.quarterNum log.blockNumber) 1), 0⟩ ≤ x ∧ ∀ r ∈ release, r < x := by
  unfold startAfter
  rw [if_neg early, ← logQuarterStartEpoch_eq]
  cases release with
  | none => simp
  | some r =>
      have before := Position.epoch_le_of_le (released r rfl).le
      have each : (∀ s ∈ some r, s < x) ↔ r < x :=
        ⟨fun all => all r rfl, fun before _ same => Option.some.inj same ▸ before⟩
      rw [each, Option.filter_some]
      by_cases same : cfg.quarterNum r.epoch = cfg.quarterNum log.blockNumber
      · rw [if_pos (decide_eq_true same)]
        refine Position.next_le_iff.trans ⟨fun after => ⟨?_, after⟩, And.right⟩
        rw [logQuarterStartEpoch_eq, ← same]
        by_cases fromQ1 : 1 ≤ cfg.quarterNum r.epoch
        · rw [max_eq_left fromQ1]
          exact (quarterStart_le fromQ1).trans after.le
        · rw [max_eq_right (by omega), Config.quarterStartEpoch, sub_self, mul_zero, add_zero]
          exact activation_le_iff.mpr activated
      · rw [if_neg (by simpa using same)]
        refine ⟨fun started => ⟨started, ?_⟩, And.left⟩
        -- a release of an earlier quarter is before this one starts
        have earlier := lt_logQuarterStartEpoch (lt_of_le_of_ne (cfg.quarterNum_mono before) same)
        have ended : r < ⟨logQuarterStartEpoch cfg log.blockNumber, 0⟩ := Position.lt_of_epoch_lt earlier
        exact ended.trans_le started

theorem Tracked.lt_quarterStart {released : Address × Address → Option Position} (tracked : Tracked cfg past db released)
    (later : ∀ earlier ∈ past, earlier.position < log.position) (early : ¬ inCutoff cfg db log.blockNumber)
    {pair : Address × Address} {r : Position} (known : r ∈ released pair) :
    r < ⟨cfg.quarterStartEpoch (max (cfg.quarterNum log.blockNumber) 1), 0⟩ ∨
      ∃ sp ∈ db.servicePair.rows, sp.pair = pair ∧ sp.span.stop = some r := by
  obtain ⟨earlier, before, same⟩ := tracked.placed pair r known
  rcases tracked.known pair r known with beforeQ1 | late | row
  · refine Or.inl (Position.lt_of_epoch_lt (beforeQ1.trans_le ?_))
    rw [← logQuarterStartEpoch_eq]
    exact Ingestion.activation_le_logQuarterStartEpoch cfg log.blockNumber
  · have upTo : r.epoch ≤ log.blockNumber := Position.epoch_le_of_le (same ▸ (later earlier before).le)
    refine Or.inl (Position.lt_of_epoch_lt ?_)
    rw [← logQuarterStartEpoch_eq]
    refine lt_logQuarterStartEpoch (lt_of_le_of_ne (cfg.quarterNum_mono upTo) fun sameQuarter => early ?_)
    -- a registration after a late one of the same quarter is late too
    refine inCutoff_of_le late upTo ?_
    rw [sameQuarter]
    exact (cfg.quarterNum_lt_iff (by have := cfg.quarterNum_nonneg log.blockNumber; omega) _).mp (lt_add_one _)
  · exact Or.inr row

theorem Tracked.start_le_iff {released : Address × Address → Option Position} (tracked : Tracked cfg past db released)
    (later : ∀ earlier ∈ past, earlier.position < log.position) {payer operator : Address}
    (unbound : ¬ db.binds (payer, operator)) {pairTupleString : String} {cutoffStart : Int}
    (cutoff : cutoffStartEpoch cfg db pairTupleString log.blockNumber = .ok cutoffStart)
    (activated : cfg.activationEpoch ≤ x.epoch) :
    (⟨(bindingStart cfg log.blockNumber cutoffStart (previousBinding db payer operator)).1,
        (bindingStart cfg log.blockNumber cutoffStart (previousBinding db payer operator)).2⟩ : Position) ≤ x ↔
      declarationStart cfg db log.blockNumber (released (payer, operator)) ≤ x := by
  obtain ⟨stored, placed, start, latest, stop⟩ :=
    exists_startAfter cfg tracked.bindings payer operator log.blockNumber cutoffStart
  rw [start]
  by_cases late : cutoffStart ≤ log.blockNumber
  · have window := (cutoffStart_le_iff cutoff).mp late
    have fromQ1 := of_decide_eq_true (Bool.and_eq_true_iff.mp window).1
    unfold startAfter declarationStart
    rw [if_pos late, if_pos window, logQuarterEndEpoch_eq, max_eq_left fromQ1, cfg.quarterStartEpoch_succ]
  · have early : ¬ inCutoff cfg db log.blockNumber := fun window => late ((cutoffStart_le_iff cutoff).mpr window)
    have before : ∀ r ∈ stored, r < log.position := by
      intro r known
      obtain ⟨earlier, member, rfl⟩ := placed r known
      exact later earlier member
    rw [startAfter_le_iff late before activated, declarationStart_le_iff early]
    refine and_congr_right fun started => ⟨fun all r known => ?_, fun all t known => ?_⟩
    · rcases tracked.lt_quarterStart later early known with ended | ⟨sp, member, own, ended⟩
      · exact ended.trans_le started
      · obtain ⟨t, isStored, upTo⟩ := latest sp member own r ended
        exact upTo.trans_lt (all t isStored)
    · obtain ⟨sp, member, own, ended⟩ := stop t known
      obtain ⟨r, last, upTo⟩ := tracked.latest _ unbound sp member own t ended
      exact upTo.trans_lt (all r last)

theorem Tracked.free {released : Address × Address → Option Position} (tracked : Tracked cfg past db released)
    (later : ∀ earlier ∈ past, earlier.position < log.position) {pair : Address × Address} (unbound : ¬ db.binds pair)
    (started : declarationStart cfg db log.blockNumber (released pair) ≤ x) :
    ¬ Covered db.servicePair.rows pair x := by
  rintro ⟨sp, member, own, covers⟩
  have closed : sp.toEpoch ≠ none := fun isOpen => unbound (binds_iff.mpr ⟨sp, member, own, isOpen⟩)
  obtain ⟨t, ended⟩ := tracked.bindings.stop_of_closed member closed
  obtain ⟨r, last, upTo⟩ := tracked.latest pair unbound sp member own t ended
  have within := ((ServicePair.covers_iff (tracked.bindings.together sp member) x).mp covers).2 t ended
  have after : r < x := by
    by_cases late : inCutoff cfg db log.blockNumber
    · obtain ⟨earlier, before, rfl⟩ := tracked.placed pair r last
      have early : log.position < ⟨cfg.quarterStartEpoch (cfg.quarterNum log.blockNumber + 1), 0⟩ :=
        Position.lt_of_epoch_lt ((cfg.quarterNum_lt_iff (by have := cfg.quarterNum_nonneg log.blockNumber; omega) _).mp
          (lt_add_one _))
      unfold declarationStart at started
      rw [if_pos late] at started
      exact (later earlier before).trans (early.trans_le started)
    · exact ((declarationStart_le_iff late).mp started).2 r last
  exact absurd (within.trans upTo) (not_le.mpr after)

theorem declaration_backCovers {history : History} (reached : history.Reaches cfg db)
    (later : ∀ earlier ∈ history.batches.flatMap Batch.serviceRewardsActorLogs, earlier.position < log.position)
    {payer operator orchestrator : Address} (event : log.event = .bindingDeclared payer operator orchestrator)
    {tokensMap : List (Address × ERC20Metadata)}
    (handled : ServiceRewardsActorIndexer.handleLog cfg tokensMap db log = .ok next) :
    BackCovers cfg (payer.toLowerCase, operator.toLowerCase) orchestrator.toLowerCase
      (declarationStart cfg db log.blockNumber
        (lastRelease cfg (payer.toLowerCase, operator.toLowerCase) (DB.seeded cfg) history.steps))
      db.servicePair.rows next.servicePair.rows := by
  obtain ⟨run, logs⟩ := reached.run
  have ordered := history.ordered
  rw [← logs] at ordered later
  have tracked := tracked_of_run run ordered
  unfold ServiceRewardsActorIndexer.handleLog at handled
  rw [event] at handled
  obtain ⟨inactive, pairTupleString, cutoffStart, cutoff, rows⟩ := createBinding_spec handled
  have unbound : ¬ db.binds (payer.toLowerCase, operator.toLowerCase) := by
    intro bound
    obtain ⟨sp, member, own, isOpen⟩ := binds_iff.mp bound
    exact inactive sp member (ServicePair.isActive_iff.mpr ⟨own, isOpen⟩)
  have new : ∀ (x : Position) owner, cfg.activationEpoch ≤ x.epoch →
      (Attributed next.servicePair.rows (payer.toLowerCase, operator.toLowerCase) x owner ↔
        Attributed db.servicePair.rows (payer.toLowerCase, operator.toLowerCase) x owner ∨
          declarationStart cfg db log.blockNumber (lastRelease cfg (payer.toLowerCase, operator.toLowerCase)
            (DB.seeded cfg) history.steps) ≤ x ∧ orchestrator.toLowerCase = owner) := by
    intro x owner activated
    rw [rows, attributed_append]
    have start := tracked.start_le_iff later unbound cutoff activated
    refine or_congr_right ⟨fun ⟨_, covers, own⟩ => ⟨?_, own⟩, fun ⟨started, own⟩ => ⟨rfl, ?_, own⟩⟩
    · exact start.mp ((ServicePair.covers_of_open rfl).mp covers)
    · exact (ServicePair.covers_of_open rfl).mpr (start.mpr started)
  constructor
  · intro x activated
    rw [new x _ activated, and_iff_left rfl]
  · intro x _ started
    exact tracked.free later unbound started
  · intro x owner activated other
    rw [new x _ activated]
    refine or_iff_left fun ⟨started, own⟩ => ?_
    exact other.elim (fun before => absurd started (not_le.mpr before)) fun differs => differs own.symm
  · intro other differs x owner
    rw [rows, attributed_append]
    exact or_iff_left fun ⟨own, _⟩ => differs own.symm

end Declarations

section Redeclared

def cancelledPair : History where
  batches := [.serviceRewardsActor .offline [⟨10, 0, "0x1", .orchestratorAdmitted "0xa" "0xa"⟩,
    ⟨50, 0, "0x1", .pricingParamsUpdated 10 1 1 1000 10⟩, ⟨120, 0, "0x2", .bindingDeclared "0xp" "0xo" "0xa"⟩,
    ⟨150, 3, "0x3", .bindingCanceled "0xp" "0xo" "0xa"⟩]]
  ordered := by unfold ChainOrdered; decide

theorem cancelledPair_reached : cancelledPair.Reaches hundredEpochs (cancelledPair.database hundredEpochs) :=
  History.reaches_database (by decide +kernel)

def redeclared : ServiceRewardsActorLog := ⟨160, 0, "0x4", .bindingDeclared "0xp" "0xo" "0xa"⟩

def redeclaredStart : Position :=
  declarationStart hundredEpochs (cancelledPair.database hundredEpochs) redeclared.blockNumber
    (lastRelease hundredEpochs (Address.toLowerCase "0xp", Address.toLowerCase "0xo") (DB.seeded hundredEpochs)
      cancelledPair.steps)

theorem declaration_backCovers_redeclared : redeclaredStart = ⟨150, 4⟩ ∧
    ∃ next, ServiceRewardsActorIndexer.handleLog hundredEpochs [] (cancelledPair.database hundredEpochs) redeclared =
        .ok next ∧
      BackCovers hundredEpochs (Address.toLowerCase "0xp", Address.toLowerCase "0xo") (Address.toLowerCase "0xa")
        redeclaredStart (cancelledPair.database hundredEpochs).servicePair.rows next.servicePair.rows := by
  obtain ⟨next, handled⟩ := exists_of_isOk (x := ServiceRewardsActorIndexer.handleLog hundredEpochs []
    (cancelledPair.database hundredEpochs) redeclared) (by decide +kernel)
  exact ⟨by decide +kernel, next, handled, declaration_backCovers cancelledPair_reached (by decide) rfl handled⟩

end Redeclared

end Proof.BackCover
end FpvIndexer
