import FpvIndexer.Indexers.ServiceRewardsActor
import FpvIndexer.Indexers.FilecoinPayV1
import FpvIndexer.Indexers.AuctionableToken
import FpvIndexer.Relational.Fallible

namespace FpvIndexer

inductive Batch
  | serviceRewardsActor (services : TokenServices) (logs : List ServiceRewardsActorLog)
  | filecoinPayV1 (logs : List FilecoinPayV1Log)
  | auctionableToken (services : AuctionServices) (logs : List TransferLog)

namespace Batch

def serviceRewardsActorLogs : Batch → List ServiceRewardsActorLog
  | serviceRewardsActor _ logs => logs
  | _ => []

end Batch

def index (cfg : Deployment) (db : DB) : Batch → Except Failure DB
  | .serviceRewardsActor services logs => ServiceRewardsActorIndexer.updateDb cfg services db logs
  | .filecoinPayV1 logs => FilecoinPayV1Indexer.updateDb db logs
  | .auctionableToken services logs => AuctionableTokenIndexer.updateDb services db logs

def indexAll (cfg : Deployment) (db : DB) (batches : List Batch) : Except Failure DB :=
  batches.foldlM (index cfg) db

def ChainOrdered (logs : List ServiceRewardsActorLog) : Prop :=
  logs.Pairwise fun earlier later => earlier.position < later.position

def announcedContracts (log : ServiceRewardsActorLog) : List Address :=
  match log.event with
  | .admittedListsUpdated _ filecoinPayContracts => filecoinPayContracts.map (·.toLowerCase)
  | _ => []

structure History where
  batches : List Batch
  ordered : ChainOrdered (batches.flatMap Batch.serviceRewardsActorLogs)

/-- The database of a history indexed into a freshly migrated database. -/
def History.Reaches (cfg : Deployment) (history : History) (db : DB) : Prop :=
  indexAll cfg (DB.seeded cfg) history.batches = .ok db

def History.database (cfg : Deployment) (history : History) : DB :=
  match indexAll cfg (DB.seeded cfg) history.batches with
  | .ok db => db
  | .error _ => DB.seeded cfg

theorem History.reaches_database {cfg : Deployment} {history : History}
    (ok : (indexAll cfg (DB.seeded cfg) history.batches).isOk) : history.Reaches cfg (history.database cfg) := by
  unfold History.Reaches History.database
  split
  · assumption
  · rename_i failed
    rw [failed] at ok
    cases ok

/-- The logs of the Service Rewards Actor handled one by one, up to the first that throws. -/
def handleLogs (cfg : Deployment) (services : ServiceRewardsActorLog → TokenServices) (db : DB) :
    List ServiceRewardsActorLog → DB
  | [] => db
  | log :: rest =>
      match ServiceRewardsActorIndexer.updateDb cfg (services log) db [log] with
      | .ok next => handleLogs cfg services next rest
      | .error _ => db

inductive Step
  | actor (tokensMap : List (Address × ERC20Metadata)) (log : ServiceRewardsActorLog)
  | rail (row : FilecoinPayRail)
  | payment (input : FilecoinPayPaymentInput)
  | transfer (services : AuctionServices) (log : TransferLog)

namespace Step

def apply (cfg : Deployment) (db : DB) : Step → Except Failure DB
  | actor tokensMap log => ServiceRewardsActorIndexer.handleLog cfg tokensMap db log
  | rail row => db.insertRail row
  | payment input => db.insertPayment input
  | transfer services log => AuctionableTokenIndexer.handleLog services db log

def serviceRewardsActorLog? : Step → Option ServiceRewardsActorLog
  | actor _ log => some log
  | _ => none

end Step

def Batch.steps : Batch → Except Failure (List Step)
  | serviceRewardsActor services logs => do
      let tokensMap ← fetchTokensMap services logs
      return logs.map (Step.actor tokensMap)
  | filecoinPayV1 logs => .ok ((getRailsInputs logs).map Step.rail ++ (getPaymentsInputs logs).map Step.payment)
  | auctionableToken services logs => .ok (logs.map (Step.transfer services))

theorem mem_steps_actor {batch : Batch} {steps : List Step} (listed : batch.steps = .ok steps)
    {tokensMap : List (Address × ERC20Metadata)} {log : ServiceRewardsActorLog} (member : Step.actor tokensMap log ∈ steps) :
    ∃ services logs, batch = .serviceRewardsActor services logs ∧ fetchTokensMap services logs = .ok tokensMap := by
  cases batch with
  | serviceRewardsActor services logs =>
      obtain ⟨fetched, got, mapped⟩ := Relational.bind_eq_ok.mp listed
      rw [← Relational.pure_eq_ok.mp mapped] at member
      obtain ⟨_, -, same⟩ := List.mem_map.mp member
      cases same
      exact ⟨services, logs, rfl, got⟩
  | filecoinPayV1 logs =>
      cases listed
      simp at member
  | auctionableToken services logs =>
      cases listed
      simp at member

private theorem foldlM_map_steps {ι : Type} (cfg : Deployment) (step : DB → ι → Except Failure DB) (wrap : ι → Step)
    (same : ∀ db item, (wrap item).apply cfg db = step db item) (db : DB) (items : List ι) :
    (items.map wrap).foldlM (Step.apply cfg) db = items.foldlM step db := by
  rw [List.foldlM_map]
  congr
  funext db item
  exact same db item

theorem index_eq_steps (cfg : Deployment) (db : DB) (batch : Batch) :
    index cfg db batch = batch.steps >>= fun steps => steps.foldlM (Step.apply cfg) db := by
  cases batch with
  | serviceRewardsActor services logs =>
      change ServiceRewardsActorIndexer.updateDb cfg services db logs = _
      unfold ServiceRewardsActorIndexer.updateDb
      cases fetched : fetchTokensMap services logs with
      | error failure => simp [Batch.steps, fetched, bind, Except.bind]
      | ok tokensMap =>
          simp only [Batch.steps, fetched, bind, Except.bind, pure, Except.pure]
          exact (foldlM_map_steps cfg _ (Step.actor tokensMap) (fun _ _ => rfl) db logs).symm
  | filecoinPayV1 logs =>
      change FilecoinPayV1Indexer.updateDb db logs = _
      rw [show (Batch.filecoinPayV1 logs).steps =
        .ok ((getRailsInputs logs).map Step.rail ++ (getPaymentsInputs logs).map Step.payment) from rfl]
      change _ = List.foldlM (Step.apply cfg) db _
      rw [List.foldlM_append, foldlM_map_steps cfg DB.insertRail _ (fun _ _ => rfl)]
      unfold FilecoinPayV1Indexer.updateDb
      congr
      funext mid
      exact (foldlM_map_steps cfg _ Step.payment (fun _ _ => rfl) mid _).symm
  | auctionableToken services logs =>
      exact (foldlM_map_steps cfg _ (Step.transfer services) (fun _ _ => rfl) db logs).symm

theorem indexAll_steps {cfg : Deployment} {db final : DB} {batches : List Batch}
    (indexed : indexAll cfg db batches = .ok final) :
    ∃ stepss : List (List Step), List.Forall₂ (fun batch steps => batch.steps = .ok steps) batches stepss ∧
      stepss.flatten.foldlM (Step.apply cfg) db = .ok final := by
  unfold indexAll at indexed
  induction batches generalizing db with
  | nil => exact ⟨[], .nil, indexed⟩
  | cons batch rest ih =>
      rw [List.foldlM_cons, Relational.bind_eq_ok] at indexed
      obtain ⟨next, first, later⟩ := indexed
      rw [index_eq_steps, Relational.bind_eq_ok] at first
      obtain ⟨steps, listed, run⟩ := first
      obtain ⟨stepss, matched, onward⟩ := ih later
      exact ⟨steps :: stepss, .cons listed matched,
        Relational.foldlM_append_eq_ok.mpr ⟨next, run, onward⟩⟩

theorem steps_logs {batch : Batch} {steps : List Step} (listed : batch.steps = .ok steps) :
    steps.filterMap Step.serviceRewardsActorLog? = batch.serviceRewardsActorLogs := by
  cases batch with
  | serviceRewardsActor services logs =>
      obtain ⟨tokensMap, -, mapped⟩ := Relational.bind_eq_ok.mp listed
      rw [← Relational.pure_eq_ok.mp mapped, List.filterMap_map]
      exact List.filterMap_some
  | filecoinPayV1 logs =>
      cases listed
      rw [List.filterMap_append, List.filterMap_map, List.filterMap_map]
      simp [Function.comp_def, Step.serviceRewardsActorLog?, Batch.serviceRewardsActorLogs]
  | auctionableToken services logs =>
      cases listed
      rw [List.filterMap_map]
      simp [Function.comp_def, Step.serviceRewardsActorLog?, Batch.serviceRewardsActorLogs]

theorem stepss_logs {batches : List Batch} {stepss : List (List Step)}
    (matched : List.Forall₂ (fun batch steps => batch.steps = .ok steps) batches stepss) :
    stepss.flatten.filterMap Step.serviceRewardsActorLog? = batches.flatMap Batch.serviceRewardsActorLogs := by
  induction matched with
  | nil => rfl
  | cons listed _ ih => rw [List.flatten_cons, List.filterMap_append, steps_logs listed, ih, List.flatMap_cons]

def History.steps (history : History) : List Step :=
  match history.batches.mapM Batch.steps with
  | .ok stepss => stepss.flatten
  | .error _ => []

theorem History.Reaches.run {cfg : Deployment} {history : History} {db : DB} (reached : history.Reaches cfg db) :
    history.steps.foldlM (Step.apply cfg) (DB.seeded cfg) = .ok db ∧
      history.steps.filterMap Step.serviceRewardsActorLog? = history.batches.flatMap Batch.serviceRewardsActorLogs := by
  obtain ⟨stepss, matched, run⟩ := indexAll_steps reached
  unfold History.steps
  rw [Relational.mapM_eq_ok.mpr matched]
  exact ⟨run, stepss_logs matched⟩

theorem run_invariant {cfg : Deployment} {steps : List Step} {start final : DB}
    (run : steps.foldlM (Step.apply cfg) start = .ok final)
    (ordered : ChainOrdered (steps.filterMap Step.serviceRewardsActorLog?))
    (Inv : List ServiceRewardsActorLog → DB → Prop) (initial : Inv [] start)
    (logs : ∀ past tokensMap log db next, Step.actor tokensMap log ∈ steps →
      (∀ earlier ∈ past, earlier.position < log.position) → Inv past db →
      ServiceRewardsActorIndexer.handleLog cfg tokensMap db log = .ok next → Inv (past ++ [log]) next)
    (others : ∀ past step db next, step ∈ steps → step.serviceRewardsActorLog? = none → Inv past db →
      step.apply cfg db = .ok next → Inv past next) :
    Inv (steps.filterMap Step.serviceRewardsActorLog?) final := by
  refine Relational.foldlM_induction run
    (fun past db => Inv (past.filterMap Step.serviceRewardsActorLog?) db) initial ?_
  intro past step rest db next whole holds applied
  have member : step ∈ steps := by simp [whole]
  rw [List.filterMap_append]
  cases step with
  | actor tokensMap log =>
      refine logs _ tokensMap log db next member ?_ holds applied
      intro earlier before
      rw [whole, List.filterMap_append, ChainOrdered, List.pairwise_append] at ordered
      exact ordered.2.2 earlier before log List.mem_cons_self
  | rail row =>
      change Inv (_ ++ []) next
      rw [List.append_nil]
      exact others _ _ db next member rfl holds applied
  | payment input =>
      change Inv (_ ++ []) next
      rw [List.append_nil]
      exact others _ _ db next member rfl holds applied
  | transfer services log =>
      change Inv (_ ++ []) next
      rw [List.append_nil]
      exact others _ _ db next member rfl holds applied

end FpvIndexer
