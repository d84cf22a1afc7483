import FpvIndexer.Proof.Tenancy
import FpvIndexer.Proof.MissedAuctions

namespace FpvIndexer
open Relational Proof

/-- What the logs of the actor say of the tokens, the contracts and the orchestrators. -/
structure Roster where
  tokens : Address → Tenure Position ERC20Metadata
  contracts : Address → Tenure Position Unit
  wallets : Address → Tenure Position Address

namespace Roster

def empty : Roster := ⟨fun _ => .vacant, fun _ => .vacant, fun _ => .vacant⟩

def handle (services : TokenServices) (roster : Roster) (log : ServiceRewardsActorLog) : Roster :=
  let setWallet := fun orch t => { roster with wallets := Function.update roster.wallets orch t }
  match log.event with
  | .admittedListsUpdated stablecoins filecoinPayContracts =>
      { roster with
        -- a token without metadata is passed over
        tokens := fun token => (roster.tokens token).relist log.position (token ∈ stablecoins.map (·.toLowerCase))
          (Replay.metadata? services token)
        contracts := fun contract => (roster.contracts contract).relist log.position
          (contract ∈ filecoinPayContracts.map (·.toLowerCase)) (some ()) }
  | .orchestratorAdmitted orch wallet =>
      setWallet orch.toLowerCase ((roster.wallets orch.toLowerCase).take wallet.toLowerCase log.position)
  | .orchestratorRemoved orch => setWallet orch.toLowerCase ((roster.wallets orch.toLowerCase).close log.position)
  | .orchestratorWalletReplaced oldOrch newWallet =>
      setWallet oldOrch.toLowerCase ((roster.wallets oldOrch.toLowerCase).pass newWallet.toLowerCase)
  | _ => roster

end Roster

namespace Chain
variable (chain : Chain)

def roster (store : Store) : Roster := (chain.actorLogs store).foldl (Roster.handle chain.tokenServices) .empty

end Chain

def ServiceOrchestratorAdmission.span (a : ServiceOrchestratorAdmission) : Lifespan Position :=
  ⟨⟨a.admissionEpoch, a.admissionLogIndex⟩, stopPosition a.removalEpoch a.removalLogIndex⟩

namespace Proof.Rosters
open Handlers Replay Schedules Commits

def tokenTable : Temporal WhitelistedToken Address Position ERC20Metadata :=
  ⟨WhitelistedToken.tokenAddress, fun t => t.listing.span, fun t => ⟨t.tokenDecimals, t.tokenSymbol⟩⟩

def contractTable : Temporal FilecoinPayContract Address Position Unit :=
  ⟨FilecoinPayContract.contractAddress, fun c => c.listing.span, fun _ => ()⟩

def admissionTable : Temporal ServiceOrchestratorAdmission Address Position Address :=
  ⟨ServiceOrchestratorAdmission.serviceOrchestratorId, ServiceOrchestratorAdmission.span,
    ServiceOrchestratorAdmission.wallet⟩

section Listings
variable {α β : Type} {table : Temporal α Address Position β} {listing : α → Listing} {leave : α → α}
  {past : List ServiceRewardsActorLog} {log : ServiceRewardsActorLog} {before : List α}

theorem dated_of_listings (reads : ∀ row, table.key row = (listing row).address ∧ table.span row = (listing row).span)
    (inv : Lists.Invariant past (before.map listing)) (later : ∀ earlier ∈ past, earlier.position < log.position) :
    table.Dated log.position before where
  apart := by
    refine (List.pairwise_map.mp inv.apart).imp fun {a b} apart same => ?_
    rw [(reads a).1, (reads b).1] at same
    rw [(reads a).2, (reads b).2]
    exact apart same
  before := by
    intro row member stop ended
    rw [(reads row).2] at ended
    obtain ⟨earlier, inPast, rfl⟩ := inv.ended (listing row) (List.mem_map_of_mem member) stop ended
    exact later earlier inPast

theorem listing_open_iff (inv : Lists.Invariant past (before.map listing)) {row : α} (member : row ∈ before) :
    (listing row).span.stop = none ↔ (listing row).removalEpoch = none :=
  stopPosition_eq_none (inv.together (listing row) (List.mem_map_of_mem member))

def Updated (listing : α → Listing) (leave : α → α) (new : Address → β → α) (value : Address → Option β)
    (announced : List Address) (before after : List α) : Prop :=
  ∃ whitelisted : List Address,
    (∀ a, a ∈ whitelisted ↔
      ∃ row ∈ before, (listing row).removalEpoch = none ∧ (listing row).address.toLowerCase = a) ∧
    after = (before.map fun row => if decide ((listing row).address ∈ whitelisted.filter (· ∉ announced) ∧
        (listing row).removalEpoch = none) then leave row else row) ++
      (announced.filter (· ∉ whitelisted)).filterMap fun a => (value a).map (new a)

theorem tells_of_updated {t : Tenure Position β} {a : Address} {announced : List Address} {value : Address → Option β}
    {new : Address → β → α} {after : List α} (tells : table.Tells before a t)
    (reads : ∀ row, table.key row = (listing row).address ∧ table.span row = (listing row).span)
    (admits : ∀ a v, table.key (new a v) = a ∧ table.span (new a v) = ⟨log.position, none⟩ ∧ table.holder (new a v) = v)
    (closes : table.Closes log.position leave) (inv : Lists.Invariant past (before.map listing))
    (later : ∀ earlier ∈ past, earlier.position < log.position)
    (updated : Updated listing leave new value announced before after) :
    table.Tells after a (t.relist log.position (a ∈ announced) (value a)) := by
  obtain ⟨whitelisted, known, rfl⟩ := updated
  have vacant : t.current = none ↔ a ∉ whitelisted := by
    rw [tells.vacant_iff, known]
    constructor
    · rintro closed ⟨row, member, isOpen, same⟩
      rw [inv.lower _ (List.mem_map_of_mem member)] at same
      refine closed row member ((reads row).1.trans same) ?_
      rw [(reads row).2, listing_open_iff inv member]
      exact isOpen
    · intro none row member own isOpen
      rw [(reads row).2, listing_open_iff inv member] at isOpen
      rw [(reads row).1] at own
      exact none ⟨row, member, isOpen, (inv.lower _ (List.mem_map_of_mem member)).trans own⟩
  have inAdded : ∀ row ∈ (announced.filter (· ∉ whitelisted)).filterMap (fun a => (value a).map (new a)),
      table.key row = a → a ∈ announced ∧ a ∉ whitelisted ∧ ∃ v, value a = some v ∧ row = new a v := by
    intro row member own
    obtain ⟨address, fresh, built⟩ := List.mem_filterMap.mp member
    obtain ⟨v, found, rfl⟩ := Option.map_eq_some_iff.mp built
    obtain rfl : address = a := (admits address v).1.symm.trans own
    obtain ⟨isAnnounced, unknown⟩ := List.mem_filter.mp fresh
    exact ⟨isAnnounced, of_decide_eq_true unknown, v, found, rfl⟩
  refine tells.relist closes (dated_of_listings reads inv later) ?_ ?_ ?_ ?_ ?_
  · intro row isHeld
    rw [(reads row).2, Listing.span, (of_decide_eq_true isHeld).2, stopPosition_none]
  · intro row member own isOpen
    rw [(reads row).1] at own
    rw [(reads row).2, listing_open_iff inv member] at isOpen
    rw [decide_eq_true_eq, decide_eq_false_iff_not, own, List.mem_filter, decide_eq_true_eq]
    refine ⟨fun dropped => dropped.1.2, fun unannounced => ⟨⟨?_, unannounced⟩, isOpen⟩⟩
    exact (known a).mpr ⟨row, member, isOpen, (inv.lower _ (List.mem_map_of_mem member)).trans own⟩
  · intro row member own
    obtain ⟨-, -, v, found, rfl⟩ := inAdded row member own
    exact ⟨(admits a v).2.1, found.trans (congrArg some (admits a v).2.2.symm)⟩
  · intro row member other inToo own isOwn
    obtain ⟨-, -, v, found, rfl⟩ := inAdded row member own
    obtain ⟨-, -, w, foundToo, rfl⟩ := inAdded other inToo isOwn
    rw [Option.some.inj (found.symm.trans foundToo)]
  · rw [decide_eq_true_eq, vacant]
    constructor
    · rintro ⟨row, member, own⟩
      obtain ⟨isAnnounced, unknown, v, found, -⟩ := inAdded row member own
      exact ⟨isAnnounced, unknown, by rw [found]; rfl⟩
    · rintro ⟨isAnnounced, unknown, some⟩
      obtain ⟨v, found⟩ := Option.isSome_iff_exists.mp some
      refine ⟨new a v, List.mem_filterMap.mpr ⟨a, List.mem_filter.mpr ⟨isAnnounced, decide_eq_true unknown⟩, ?_⟩,
        (admits a v).1⟩
      rw [found]
      rfl

end Listings

section Steps
variable {cfg : Deployment} {db next : DB} {past : List ServiceRewardsActorLog} {log : ServiceRewardsActorLog}
  {services : TokenServices} {roster : Roster}

structure Rostered (past : List ServiceRewardsActorLog) (db : DB) (roster : Roster) : Prop where
  tokens : ∀ token, tokenTable.Tells db.whitelistedToken.rows token (roster.tokens token)
  contracts : ∀ contract, contractTable.Tells db.filecoinPayContract.rows contract (roster.contracts contract)
  wallets : ∀ orch, admissionTable.Tells db.serviceOrchestratorAdmission.rows orch (roster.wallets orch)
  dated : ∀ now, (∀ earlier ∈ past, earlier.position < now) →
    admissionTable.Dated now db.serviceOrchestratorAdmission.rows
  together : ∀ a ∈ db.serviceOrchestratorAdmission.rows, FilledTogether a.removalEpoch a.removalLogIndex

theorem rostered_seeded (cfg : Deployment) : Rostered [] (DB.seeded cfg) .empty where
  tokens := fun _ => Temporal.tells_nil
  contracts := fun _ => Temporal.tells_nil
  wallets := fun _ => Temporal.tells_nil
  dated := fun _ _ => ⟨List.Pairwise.nil, fun _ member => absurd member List.not_mem_nil⟩
  together := fun _ member => absurd member List.not_mem_nil

theorem tokens_updated {tokensMap : List (Address × ERC20Metadata)} {stablecoins filecoinPayContracts : List Address}
    (updated : updatedAdmittedLists tokensMap db log stablecoins filecoinPayContracts = .ok next) :
    Updated WhitelistedToken.listing (WhitelistedToken.remove log) (admittedToken log)
        (fun token => tokensMap.lookup token) (stablecoins.map (·.toLowerCase)) db.whitelistedToken.rows
        next.whitelistedToken.rows ∧
      Updated FilecoinPayContract.listing (FilecoinPayContract.remove log) (fun a _ => admittedContract log a)
        (fun _ => some ()) (filecoinPayContracts.map (·.toLowerCase)) db.filecoinPayContract.rows
        next.filecoinPayContract.rows ∧
      next.serviceOrchestratorAdmission = db.serviceOrchestratorAdmission := by
  obtain ⟨contracts, tokens, mv, rfl, contractRows, tokenRows, -⟩ := updatedAdmittedLists_spec updated
  refine ⟨⟨db.whitelistedTokensAddresses, fun a => ?_, ?_⟩, ⟨db.whitelistedContractsAddresses, fun a => ?_, ?_⟩, rfl⟩
  · simp only [DB.whitelistedTokensAddresses, List.mem_map, List.mem_filter, decide_eq_true_eq, and_assoc]
    exact Iff.rfl
  · dsimp only
    rw [tokenRows, addedTokenRows]
    congr 1
    refine List.map_congr_left fun t _ => ?_
    simp only [removedToken, decide_eq_true_eq]
    rfl
  · simp only [DB.whitelistedContractsAddresses, List.mem_map, List.mem_filter, decide_eq_true_eq, and_assoc]
    exact Iff.rfl
  · dsimp only
    rw [contractRows]
    congr 1
    · refine List.map_congr_left fun c _ => ?_
      simp only [removedContract, decide_eq_true_eq]
      rfl
    · exact (List.filterMap_eq_map (f := admittedContract log)).symm ▸ rfl

theorem remove_closes (log : ServiceRewardsActorLog) :
    admissionTable.Closes log.position (ServiceOrchestratorAdmission.remove log) where
  key := fun _ => rfl
  span := by
    intro a isOpen
    change (⟨_, some log.position⟩ : Lifespan Position) = a.span.closeAt log.position
    rw [Lifespan.closeAt, show a.span.stop = none from isOpen]
    rfl
  holder := fun _ => rfl

theorem removeToken_closes (log : ServiceRewardsActorLog) :
    tokenTable.Closes log.position (WhitelistedToken.remove log) where
  key := fun _ => rfl
  span := by
    intro t isOpen
    change (⟨_, some log.position⟩ : Lifespan Position) = t.listing.span.closeAt log.position
    rw [Lifespan.closeAt, show t.listing.span.stop = none from isOpen]
    rfl
  holder := fun _ => rfl

theorem removeContract_closes (log : ServiceRewardsActorLog) :
    contractTable.Closes log.position (FilecoinPayContract.remove log) where
  key := fun _ => rfl
  span := by
    intro c isOpen
    change (⟨_, some log.position⟩ : Lifespan Position) = c.listing.span.closeAt log.position
    rw [Lifespan.closeAt, show c.listing.span.stop = none from isOpen]
    rfl
  holder := fun _ => rfl

section Kept
variable (kept : Rostered past db roster) (later : ∀ earlier ∈ past, earlier.position < log.position)

include kept

theorem Rostered.of_frame (tokens : next.whitelistedToken = db.whitelistedToken)
    (contracts : next.filecoinPayContract = db.filecoinPayContract)
    (admissions : next.serviceOrchestratorAdmission = db.serviceOrchestratorAdmission) :
    Rostered (past ++ [log]) next roster where
  tokens := tokens ▸ kept.tokens
  contracts := contracts ▸ kept.contracts
  wallets := admissions ▸ kept.wallets
  dated := by
    rw [admissions]
    exact fun now upTo => kept.dated now fun earlier before => upTo earlier (List.mem_append_left _ before)
  together := admissions ▸ kept.together

include later

theorem rostered_of_lists {tokensMap : List (Address × ERC20Metadata)} {stablecoins filecoinPayContracts : List Address}
    (event : log.event = .admittedListsUpdated stablecoins filecoinPayContracts)
    (fetched : fetchTokensMap services [log] = .ok tokensMap) (listed : Agreement.Listed past db)
    (updated : updatedAdmittedLists tokensMap db log stablecoins filecoinPayContracts = .ok next) :
    Rostered (past ++ [log]) next (roster.handle services log) := by
  obtain ⟨tokens, contracts, admissions⟩ := tokens_updated updated
  have lookup : ∀ token ∈ stablecoins.map (·.toLowerCase), tokensMap.lookup token = metadata? services token := by
    obtain ⟨rfl, -⟩ := fetchTokensMap_iff.mp fetched
    have announced : announcedTokens [log] = stablecoins.map (·.toLowerCase) := by
      simp [announcedTokens, event]
    intro token member
    rw [lookup_metadataOf, announced, if_pos (mem_distinctOn_id.mpr member)]
  have framed : Rostered (past ++ [log])
      { db with serviceOrchestratorAdmission := next.serviceOrchestratorAdmission } roster :=
    kept.of_frame rfl rfl admissions
  unfold Roster.handle
  rw [event]
  refine ⟨fun token => ?_, fun contract => ?_, framed.wallets, framed.dated, framed.together⟩
  · have told := tells_of_updated (kept.tokens token) (fun _ => ⟨rfl, rfl⟩) (fun _ _ => ⟨rfl, rfl, rfl⟩)
      (removeToken_closes log) listed.tokens later tokens
    rw [Tenure.relist_congr _ fun isListed => lookup token (of_decide_eq_true isListed)] at told
    exact told
  · exact tells_of_updated (kept.contracts contract) (fun _ => ⟨rfl, rfl⟩) (fun _ _ => ⟨rfl, rfl, rfl⟩)
      (removeContract_closes log) listed.contracts later contracts

omit kept later in
theorem stop_of_admission {a : ServiceOrchestratorAdmission} (isOpen : a.removalEpoch = none) :
    (admissionTable.span a).stop = none := by
  change stopPosition a.removalEpoch a.removalLogIndex = none
  rw [isOpen, stopPosition_none]

omit later in
theorem admission_stop_iff {a : ServiceOrchestratorAdmission} (member : a ∈ db.serviceOrchestratorAdmission.rows) :
    (admissionTable.span a).stop = none ↔ a.removalEpoch = none :=
  stopPosition_eq_none (kept.together a member)

omit later in
theorem isActive_iff {a : ServiceOrchestratorAdmission} (member : a ∈ db.serviceOrchestratorAdmission.rows)
    {orch : Address} (own : admissionTable.key a = orch) : a.isActive orch ↔ (admissionTable.span a).stop = none := by
  rw [admission_stop_iff kept member, ServiceOrchestratorAdmission.isActive, decide_eq_true_eq]
  exact and_iff_right own

omit kept later in
theorem inactive_of_other {a row : ServiceOrchestratorAdmission} {orch : Address} (other : admissionTable.key a ≠ orch)
    (same : admissionTable.key row = admissionTable.key a) : row.isActive orch = false := by
  rw [← Bool.not_eq_true, ServiceOrchestratorAdmission.isActive, decide_eq_true_eq]
  exact fun active => other (same.symm.trans active.1)

omit later in
theorem Rostered.setWallet {orch : Address} {t : Tenure Position Address}
    (tokens : next.whitelistedToken = db.whitelistedToken)
    (contracts : next.filecoinPayContract = db.filecoinPayContract)
    (own : admissionTable.Tells next.serviceOrchestratorAdmission.rows orch t)
    (others : ∀ a, admissionTable.key a ≠ orch →
      (a ∈ next.serviceOrchestratorAdmission.rows ↔ a ∈ db.serviceOrchestratorAdmission.rows))
    (dated : ∀ now, (∀ earlier ∈ past, earlier.position < now) → log.position < now →
      admissionTable.Dated now next.serviceOrchestratorAdmission.rows)
    (together : ∀ a ∈ next.serviceOrchestratorAdmission.rows, FilledTogether a.removalEpoch a.removalLogIndex) :
    Rostered (past ++ [log]) next { roster with wallets := Function.update roster.wallets orch t } where
  tokens := tokens ▸ kept.tokens
  contracts := contracts ▸ kept.contracts
  wallets := by
    intro other
    by_cases same : other = orch
    · subst same
      dsimp only
      rw [Function.update_self]
      exact own
    · dsimp only
      rw [Function.update_of_ne same]
      exact (kept.wallets other).of_same fun a isOther => others a fun isOwn => same (isOther.symm.trans isOwn)
  dated := fun now upTo => dated now (fun earlier before => upTo earlier (List.mem_append_left _ before))
    (upTo log (List.mem_append_right _ (List.mem_singleton_self _)))
  together := together

theorem rostered_of_admitted {orch wallet : Address} (event : log.event = .orchestratorAdmitted orch wallet)
    (admitted : admitOrchestrator db log orch wallet = .ok next) :
    Rostered (past ++ [log]) next (roster.handle services log) := by
  unfold admitOrchestrator at admitted
  dsimp only at admitted
  obtain ⟨admissions, inserted, admitted⟩ := bind_eq_ok.mp admitted
  split at admitted
  · cases admitted
  · rename_i unadmitted
    obtain rfl := pure_eq_ok.mp admitted
    have rows := Table.insert?_rows (insert_ok inserted)
    have closed : ∀ a ∈ db.serviceOrchestratorAdmission.rows, admissionTable.key a = orch.toLowerCase →
        (admissionTable.span a).stop ≠ none := by
      intro a member own isOpen
      exact unadmitted (List.any_eq_true.mpr ⟨a, member, (isActive_iff kept member own).mpr isOpen⟩)
    have tells := kept.wallets orch.toLowerCase
    unfold Roster.handle
    rw [event]
    refine kept.setWallet rfl rfl ?_ ?_ ?_ ?_
    · dsimp only
      rw [rows]
      refine tells.take (admission log orch.toLowerCase wallet.toLowerCase) rfl rfl (tells.vacant_iff.mpr closed) ?_
      rintro x owner ⟨a, member, own, covers, -⟩
      exact (kept.dated log.position later).covers_early member (closed a member own) covers
    · intro a other
      dsimp only
      rw [rows, List.mem_append, List.mem_singleton]
      exact or_iff_left fun same => other (same ▸ rfl)
    · intro now upTo before
      dsimp only
      rw [rows]
      exact ((kept.dated log.position later).append (admission log orch.toLowerCase wallet.toLowerCase) rfl le_rfl
        closed).mono before.le
    · intro a member
      dsimp only at member
      rw [rows] at member
      rcases List.mem_append.mp member with old | new
      · exact kept.together a old
      · rw [List.mem_singleton.mp new]
        rfl

theorem rostered_of_removed {orch : Address} (event : log.event = .orchestratorRemoved orch) :
    Rostered (past ++ [log]) (removeOrchestrator db log orch) (roster.handle services log) := by
  have held : ∀ a : ServiceOrchestratorAdmission, a.isActive orch.toLowerCase → (admissionTable.span a).stop = none := by
    intro a active
    exact stop_of_admission (of_decide_eq_true active).2
  have rows : (removeOrchestrator db log orch).serviceOrchestratorAdmission.rows =
      db.serviceOrchestratorAdmission.rows.map fun a => if a.isActive orch.toLowerCase then a.remove log else a :=
    Table.update_rows _ _ _ (ServiceOrchestratorAdmission.remove_pkey log)
  unfold Roster.handle
  rw [event]
  refine kept.setWallet rfl rfl ?_ ?_ ?_ ?_
  · rw [rows]
    exact (kept.wallets orch.toLowerCase).close (remove_closes log) (kept.dated log.position later) held
      fun a member own => (isActive_iff kept member own).mpr
  · intro a other
    rw [rows]
    exact Temporal.mem_map_other (remove_closes log).key fun row _ => inactive_of_other other
  · intro now upTo before
    rw [rows]
    exact (kept.dated log.position later).ended (remove_closes log) held before
  · intro a member
    rw [rows] at member
    obtain ⟨earlier, inRows, rfl⟩ := List.mem_map.mp member
    split
    · rfl
    · exact kept.together earlier inRows

theorem rostered_of_replaced {oldOrch newWallet : Address}
    (event : log.event = .orchestratorWalletReplaced oldOrch newWallet) :
    Rostered (past ++ [log]) (replaceWallet db oldOrch newWallet) (roster.handle services log) := by
  let change := fun a : ServiceOrchestratorAdmission => { a with wallet := newWallet.toLowerCase }
  have handsOn : admissionTable.HandsOn change newWallet.toLowerCase := ⟨fun _ => rfl, fun _ => rfl, fun _ => rfl⟩
  have rows : (replaceWallet db oldOrch newWallet).serviceOrchestratorAdmission.rows =
      db.serviceOrchestratorAdmission.rows.map fun a => if a.isActive oldOrch.toLowerCase then change a else a :=
    Table.update_rows _ _ change fun _ => rfl
  unfold Roster.handle
  rw [event]
  refine kept.setWallet rfl rfl ?_ ?_ ?_ ?_
  · rw [rows]
    exact (kept.wallets oldOrch.toLowerCase).pass handsOn (kept.dated log.position later)
      fun a member own => isActive_iff kept member own
  · intro a other
    rw [rows]
    exact Temporal.mem_map_other handsOn.key fun row _ => inactive_of_other other
  · intro now upTo before
    rw [rows]
    exact ((kept.dated log.position later).handOn handsOn).mono before.le
  · intro a member
    rw [rows] at member
    obtain ⟨earlier, inRows, rfl⟩ := List.mem_map.mp member
    split
    · exact kept.together earlier inRows
    · exact kept.together earlier inRows

end Kept

theorem rostered_of_handleLog {tokensMap : List (Address × ERC20Metadata)}
    (kept : Rostered past db roster) (later : ∀ earlier ∈ past, earlier.position < log.position)
    (fetched : fetchTokensMap services [log] = .ok tokensMap) (listed : Agreement.Listed past db)
    (handled : ServiceRewardsActorIndexer.handleLog cfg tokensMap db log = .ok next) :
    Rostered (past ++ [log]) next (roster.handle services log) := by
  unfold ServiceRewardsActorIndexer.handleLog at handled
  have frame : roster.handle services log = roster → next.whitelistedToken = db.whitelistedToken →
      next.filecoinPayContract = db.filecoinPayContract →
      next.serviceOrchestratorAdmission = db.serviceOrchestratorAdmission →
        Rostered (past ++ [log]) next (roster.handle services log) := by
    intro same tokens contracts admissions
    rw [same]
    exact kept.of_frame tokens contracts admissions
  cases event : log.event with
  | admittedListsUpdated stablecoins filecoinPayContracts =>
      rw [event] at handled
      exact rostered_of_lists kept later event fetched listed handled
  | orchestratorAdmitted orch wallet =>
      rw [event] at handled
      exact rostered_of_admitted kept later event handled
  | orchestratorRemoved orch =>
      rw [event] at handled
      cases handled
      exact rostered_of_removed kept later event
  | orchestratorWalletReplaced oldOrch newWallet =>
      rw [event] at handled
      cases handled
      exact rostered_of_replaced kept later event
  | bindingDeclared payer operator orchestrator =>
      rw [event] at handled
      obtain ⟨_, rfl⟩ := createBinding_frame handled
      exact frame (by simp only [Roster.handle, event]) rfl rfl rfl
  | bindingReassigned payer operator orchestrator inherit =>
      rw [event] at handled
      obtain ⟨_, rfl⟩ := reassignBinding_frame handled
      exact frame (by simp only [Roster.handle, event]) rfl rfl rfl
  | bindingCanceled payer operator orchestrator =>
      rw [event] at handled
      cases handled
      exact frame (by simp only [Roster.handle, event]) rfl rfl rfl
  | pricingParamsUpdated minLotFloor minLotAlphaNum minLotAlphaDen priceBand registrationCutoff =>
      rw [event] at handled
      obtain ⟨_, _, _, rfl, -⟩ := updatePricingParams_spec handled
      exact frame (by simp only [Roster.handle, event]) rfl rfl rfl
  | volumePosted q orchestrator volume =>
      rw [event] at handled
      obtain ⟨_, rfl⟩ := postVolume_spec handled
      exact frame (by simp only [Roster.handle, event]) rfl rfl rfl
  | volumeCorrected q orchestrator volume =>
      rw [event] at handled
      obtain ⟨_, rfl⟩ := postVolume_spec handled
      exact frame (by simp only [Roster.handle, event]) rfl rfl rfl
  | sharesSubmitted q recipientCount totalUsd =>
      rw [event] at handled
      obtain ⟨_, _, rfl, -⟩ := submitShares_spec handled
      exact frame (by simp only [Roster.handle, event]) rfl rfl rfl

theorem rostered_of_run {logs : List ServiceRewardsActorLog}
    (run : logs.foldlM (handleOne cfg services) (DB.seeded cfg) = .ok db)
    (ordered : logs.Pairwise fun a b => a.position < b.position) :
    Rostered logs db (logs.foldl (Roster.handle services) .empty) := by
  refine (foldlM_induction run (fun past db => past.foldlM (handleOne cfg services) (DB.seeded cfg) = .ok db ∧
    Rostered past db (past.foldl (Roster.handle services) .empty)) ⟨rfl, rostered_seeded cfg⟩ ?_).2
  intro past log rest before after whole ⟨earlier, kept⟩ handled
  refine ⟨foldlM_append_eq_ok.mpr ⟨before, earlier, (foldlM_singleton _ _ _).trans handled⟩, ?_⟩
  obtain ⟨tokensMap, fetched, handled⟩ := handleOne_iff.mp handled
  rw [whole, List.pairwise_append] at ordered
  have listed := MissedAuctions.listed_of_replay ordered.1 earlier
  rw [List.foldl_append]
  exact rostered_of_handleLog kept (fun other member => ordered.2.2 other member log List.mem_cons_self) fetched listed
    handled

end Steps

section Reached
variable {cfg : Deployment} {chain : Chain} {allowed : Execution → chain.Event → Prop} {s : Execution}
  (reached : chain.Reached cfg allowed s)

include reached

theorem rostered_of_reached : Rostered (chain.actorLogs s.store) s.store.toDB.actor (chain.roster s.store) :=
  rostered_of_run (consistent_of_reached reached).synced.actor (Postings.actorLogs_ordered chain s.store)

theorem listed_of_reached : Agreement.Listed (chain.actorLogs s.store) s.store.toDB.actor :=
  MissedAuctions.listed_of_replay (Postings.actorLogs_ordered chain s.store) (consistent_of_reached reached).synced.actor

theorem tokenHeld_iff (token : Address) (x : Position) (metadata : ERC20Metadata) :
    (∃ t ∈ s.store.whitelistedToken.rows, t.tokenAddress = token ∧ t.covers x ∧ ⟨t.tokenDecimals, t.tokenSymbol⟩ = metadata) ↔
      ((chain.roster s.store).tokens token).holder x = some metadata := by
  rw [← ((rostered_of_reached reached).tokens token).holder]
  exact exists_congr fun t => and_congr_right fun member => and_congr_right fun _ => and_congr_left fun _ =>
    Lists.covers_iff (listed_of_reached reached).tokens member x

theorem contractHeld_iff (contract : Address) (x : Position) :
    (∃ c ∈ s.store.filecoinPayContract.rows, c.contractAddress = contract ∧ c.covers x) ↔
      ((chain.roster s.store).contracts contract).holder x = some () := by
  rw [← ((rostered_of_reached reached).contracts contract).holder]
  refine exists_congr fun c => and_congr_right fun member => and_congr_right fun _ => ?_
  have together := (listed_of_reached reached).contracts.together c.listing (List.mem_map_of_mem member)
  exact (inForce_iff together x).trans (and_iff_left rfl).symm

end Reached

end Proof.Rosters
end FpvIndexer
