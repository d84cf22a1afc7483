import FpvIndexer.Proof.Agreement

namespace FpvIndexer
namespace Proof.ListUpdates
open Relational Handlers Agreement

section Installs
variable {α : Type} {address : α → Address} {isOpen : α → Prop} {remove : α → α}

structure Installs (address : α → Address) (isOpen : α → Prop) (remove : α → α) (installed : Address → Prop)
    (before after : List α) : Prop where
  opened : ∀ a, installed a ↔ ∃ row ∈ after, isOpen row ∧ address row = a
  single : ∀ row ∈ after, ∀ other ∈ after, isOpen row → isOpen other → address row = address other → row = other
  kept : ∀ row ∈ before, isOpen row → installed (address row) → row ∈ after
  dropped : ∀ row ∈ before, isOpen row → ¬ installed (address row) → remove row ∈ after
  closed : ∀ row ∈ before, ¬ isOpen row → row ∈ after

theorem installs_of_rows [DecidablePred isOpen] {installed : Address → Prop} {before new : List α}
    {dropped : List Address} (closes : ∀ row, ¬ isOpen (remove row))
    (leaves : ∀ row ∈ before, isOpen row → (address row ∈ dropped ↔ ¬ installed (address row)))
    (single : ∀ row ∈ before, ∀ other ∈ before, isOpen row → isOpen other → address row = address other → row = other)
    (fresh : ∀ row ∈ new, isOpen row ∧ installed (address row) ∧ ∀ old ∈ before, isOpen old → address old ≠ address row)
    (distinct : (new.map address).Nodup)
    (covered : ∀ a, installed a → (∃ row ∈ before, isOpen row ∧ address row = a) ∨ ∃ row ∈ new, address row = a) :
    Installs address isOpen remove installed before
      ((before.map fun row => if address row ∈ dropped ∧ isOpen row then remove row else row) ++ new) := by
  have stays : ∀ row ∈ before, isOpen row → installed (address row) →
      row ∈ (before.map fun row => if address row ∈ dropped ∧ isOpen row then remove row else row) ++ new := by
    intro row member rowOpen here
    refine List.mem_append_left _ (List.mem_map.mpr ⟨row, member, if_neg fun leaving => ?_⟩)
    exact (leaves row member rowOpen).mp leaving.1 here
  have origin : ∀ row ∈ (before.map fun row => if address row ∈ dropped ∧ isOpen row then remove row else row) ++ new,
      isOpen row → row ∈ before ∧ installed (address row) ∨ row ∈ new := by
    intro row member rowOpen
    rcases List.mem_append.mp member with old | added
    · obtain ⟨source, inRows, rfl⟩ := List.mem_map.mp old
      split at rowOpen
      · exact absurd rowOpen (closes source)
      · rename_i remains
        rw [if_neg remains]
        refine Or.inl ⟨inRows, not_not.mp fun gone => remains ⟨?_, rowOpen⟩⟩
        exact (leaves source inRows rowOpen).mpr gone
    · exact Or.inr added
  constructor
  · intro a
    constructor
    · intro here
      rcases covered a here with ⟨row, member, rowOpen, rfl⟩ | ⟨row, member, rfl⟩
      · exact ⟨row, stays row member rowOpen here, rowOpen, rfl⟩
      · exact ⟨row, List.mem_append_right _ member, (fresh row member).1, rfl⟩
    · rintro ⟨row, member, rowOpen, rfl⟩
      rcases origin row member rowOpen with ⟨-, here⟩ | added
      · exact here
      · exact (fresh row added).2.1
  · intro row member other memberToo rowOpen otherOpen same
    rcases origin row member rowOpen with ⟨old, -⟩ | new
    · rcases origin other memberToo otherOpen with ⟨oldToo, -⟩ | newToo
      · exact single row old other oldToo rowOpen otherOpen same
      · exact absurd same ((fresh other newToo).2.2 row old rowOpen)
    · rcases origin other memberToo otherOpen with ⟨oldToo, -⟩ | newToo
      · exact absurd same.symm ((fresh row new).2.2 other oldToo otherOpen)
      · exact List.inj_on_of_nodup_map distinct new newToo same
  · exact stays
  · intro row member rowOpen gone
    refine List.mem_append_left _ (List.mem_map.mpr ⟨row, member, if_pos ⟨?_, rowOpen⟩⟩)
    exact (leaves row member rowOpen).mpr gone
  · intro row member rowClosed
    exact List.mem_append_left _ (List.mem_map.mpr ⟨row, member, if_neg fun leaving => rowClosed leaving.2⟩)

theorem installs_of_announced [DecidablePred isOpen] {installed : Address → Prop} (known : Address → Prop)
    (announced : List Address) {before new : List α} (closes : ∀ row, ¬ isOpen (remove row))
    (here : ∀ a, installed a ↔ a ∈ announced ∧ ((∃ row ∈ before, isOpen row ∧ address row = a) ∨ known a))
    (lower : ∀ row ∈ before, (address row).toLowerCase = address row)
    (single : ∀ row ∈ before, ∀ other ∈ before, isOpen row → isOpen other → address row = address other → row = other)
    (opens : ∀ row ∈ new, isOpen row) (distinct : (new.map address).Nodup)
    (added : ∀ a, (∃ row ∈ new, address row = a) ↔ a ∈ announced ∧ known a ∧
      a ∉ (before.filter isOpen).map fun row => (address row).toLowerCase) :
    Installs address isOpen remove installed before
      ((before.map fun row => if address row ∈ ((before.filter isOpen).map fun row => (address row).toLowerCase).filter
        (· ∉ announced) ∧ isOpen row then remove row else row) ++ new) := by
  have whitelisted : ∀ a, a ∈ (before.filter isOpen).map (fun row => (address row).toLowerCase) ↔
      ∃ row ∈ before, isOpen row ∧ address row = a := by
    intro a
    constructor
    · intro listed
      obtain ⟨row, inRows, rfl⟩ := List.mem_map.mp listed
      obtain ⟨member, rowOpen⟩ := List.mem_filter.mp inRows
      exact ⟨row, member, of_decide_eq_true rowOpen, (lower row member).symm⟩
    · rintro ⟨row, member, rowOpen, rfl⟩
      exact List.mem_map.mpr ⟨row, List.mem_filter.mpr ⟨member, decide_eq_true rowOpen⟩, lower row member⟩
  apply installs_of_rows closes
  · intro row member rowOpen
    rw [List.mem_filter, decide_eq_true_eq, and_iff_right ((whitelisted _).mpr ⟨row, member, rowOpen, rfl⟩), here]
    exact not_congr (and_iff_left (Or.inl ⟨row, member, rowOpen, rfl⟩)).symm
  · exact single
  · intro row member
    obtain ⟨listed, isKnown, unlisted⟩ := (added _).mp ⟨row, member, rfl⟩
    refine ⟨opens row member, (here _).mpr ⟨listed, Or.inr isKnown⟩, fun old inRows oldOpen same => unlisted ?_⟩
    exact (whitelisted _).mpr ⟨old, inRows, oldOpen, same⟩
  · exact distinct
  · intro a member
    obtain ⟨listed, openOrKnown⟩ := (here a).mp member
    by_cases before : a ∈ (before.filter isOpen).map fun row => (address row).toLowerCase
    · exact Or.inl ((whitelisted a).mp before)
    · refine Or.inr ((added a).mpr ⟨listed, ?_, before⟩)
      exact openOrKnown.resolve_left fun rowOpen => before ((whitelisted a).mpr rowOpen)

end Installs

section Keys
variable {α : Type} {key : α → Address × Int × Nat} {listing : α → Listing} {log : ServiceRewardsActorLog}

theorem keys_nodup_iff {rows added : List α}
    (keyed : ∀ row, key row = ((listing row).address, (listing row).start.epoch, (listing row).start.logIndex))
    (nodup : (rows.map key).Nodup) (other : ∀ row ∈ rows, (listing row).start ≠ log.position)
    (here : ∀ row ∈ added, (listing row).start = log.position) :
    ((rows ++ added).map key).Nodup ↔ (added.map fun row => (listing row).address).Nodup := by
  rw [List.map_append, List.nodup_append', Reachable.keys_eq keyed here]
  constructor
  · rintro ⟨-, distinct, -⟩
    exact distinct.of_map _
  · intro distinct
    refine ⟨nodup, distinct.map fun a b same => congrArg Prod.fst same, ?_⟩
    intro k old new
    obtain ⟨row, member, rfl⟩ := List.mem_map.mp old
    obtain ⟨a, -, same⟩ := List.mem_map.mp new
    obtain ⟨epoch, logIndex⟩ := Prod.mk.inj (congrArg Prod.snd (same.trans (keyed row)))
    exact other row member (Position.ext epoch logIndex).symm

theorem start_ne_of_left {past : List ServiceRewardsActorLog} {rows : List α} {removed : List Address} {leave : α → α}
    (holds : Lists.Invariant past (rows.map listing)) (later : ∀ earlier ∈ past, earlier.position < log.position)
    (leaves : ∀ row, listing (leave row) = (listing row).remove log removed) :
    ∀ row ∈ rows.map leave, (listing row).start ≠ log.position := by
  intro row member
  obtain ⟨old, inRows, rfl⟩ := List.mem_map.mp member
  obtain ⟨before, listed, -, start, -⟩ := Lists.mem_remove (List.mem_map_of_mem (List.mem_map_of_mem inRows))
  obtain ⟨earlier, inPast, same⟩ := holds.started before listed
  rw [leaves, start, same]
  exact (later earlier inPast).ne

end Keys

section Success
variable {db : DB} {log : ServiceRewardsActorLog} {tokensMap : List (Address × ERC20Metadata)}

def ViewTakes (db : DB) : Prop := ((getQualifyingPricePeriods db).map PricePeriod.ukey).Nodup

theorem refresh_ok_iff : (∃ next, db.refreshQualifiedPricePeriodsMv = .ok next) ↔ ViewTakes db := by
  constructor
  · rintro ⟨next, refreshed⟩
    obtain ⟨mv, -, rows⟩ := refresh_eq_ok refreshed
    rw [ViewTakes, ← rows]
    exact mv.nodup
  · intro takes
    obtain ⟨mv, built, -⟩ := Table.exists_ofRows? takes
    exact ⟨_, by unfold DB.refreshQualifiedPricePeriodsMv; rw [built]⟩

theorem removeTokens_ok_iff (removed : List Address) : (∃ next, db.removeTokens log removed = .ok next) ↔
    (removed ≠ [] → ∀ tokens : Table WhitelistedToken WhitelistedToken.pkey,
      tokens.rows = db.whitelistedToken.rows.map (removedToken log removed) →
        ViewTakes { db with whitelistedToken := tokens }) := by
  have rows : (db.whitelistedToken.update (fun t => t.tokenAddress ∈ removed ∧ t.removalEpoch = none)
      (WhitelistedToken.remove log) (WhitelistedToken.remove_pkey log)).rows =
        db.whitelistedToken.rows.map (removedToken log removed) :=
    List.map_congr_left fun t _ => by simp [removedToken]
  unfold DB.removeTokens
  split
  · rename_i none
    exact iff_of_true ⟨db, rfl⟩ fun some => absurd none some
  · rename_i some
    refine refresh_ok_iff.trans ⟨fun takes _ tokens same => ?_, fun takes => takes some _ rows⟩
    rwa [Table.ext (same.trans rows.symm)]

theorem addContracts_ok_iff (added : List Address) : (∃ next, db.addContracts log added = .ok next) ↔
    ((db.filecoinPayContract.rows ++ added.map (admittedContract log)).map (·.pkey)).Nodup := by
  constructor
  · rintro ⟨next, done⟩
    obtain ⟨contracts, -, rows⟩ := addContracts_spec done
    rw [← rows]
    exact contracts.nodup
  · intro distinct
    obtain ⟨contracts, inserted, -⟩ := exists_insertAll "filecoin_pay_contract_pkey" db.filecoinPayContract _ distinct
    exact ⟨_, by unfold DB.addContracts; rw [inserted]; rfl⟩

theorem insertToken_ok_iff (t : WhitelistedToken) : (∃ next, insertToken db t = .ok next) ↔
    t.pkey ∉ db.whitelistedToken.rows.map (·.pkey) ∧ ∀ tokens : Table WhitelistedToken WhitelistedToken.pkey,
      tokens.rows = db.whitelistedToken.rows ++ [t] → ViewTakes { db with whitelistedToken := tokens } := by
  constructor
  · rintro ⟨next, inserted⟩
    obtain ⟨table, added, refreshed⟩ := bind_eq_ok.mp inserted
    refine ⟨Table.insert?_fresh (insert_ok added), fun tokens rows => ?_⟩
    rw [Table.ext (rows.trans (Table.insert?_rows (insert_ok added)).symm)]
    exact refresh_ok_iff.mp ⟨next, refreshed⟩
  · rintro ⟨fresh, takes⟩
    obtain ⟨table, added, here⟩ := exists_insert "whitelisted_token_pkey" db.whitelistedToken t fresh
    obtain ⟨next, refreshed⟩ := refresh_ok_iff.mpr (takes table here)
    exact ⟨next, bind_eq_ok.mpr ⟨table, added, refreshed⟩⟩

theorem insertTokens_ok_iff (new : List WhitelistedToken) : (∃ next, new.foldlM insertToken db = .ok next) ↔
    ((db.whitelistedToken.rows ++ new).map (·.pkey)).Nodup ∧
      ∀ count, 0 < count → count ≤ new.length → ∀ tokens : Table WhitelistedToken WhitelistedToken.pkey,
        tokens.rows = db.whitelistedToken.rows ++ new.take count → ViewTakes { db with whitelistedToken := tokens } := by
  induction new generalizing db with
  | nil =>
      refine iff_of_true ⟨db, rfl⟩ ⟨?_, fun count counted none => absurd counted (not_lt.mpr none)⟩
      rw [List.append_nil]
      exact db.whitelistedToken.nodup
  | cons t rest ih =>
      rw [List.foldlM_cons]
      constructor
      · rintro ⟨next, done⟩
        obtain ⟨mid, inserted, later⟩ := bind_eq_ok.mp done
        obtain ⟨-, takes⟩ := (insertToken_ok_iff t).mp ⟨mid, inserted⟩
        obtain ⟨table, mv, rfl, here, -⟩ := insertToken_spec inserted
        obtain ⟨distinct, onward⟩ := ih.mp ⟨next, later⟩
        dsimp only at distinct onward
        rw [here, List.append_assoc] at distinct
        refine ⟨distinct, fun count counted upTo tokens same => ?_⟩
        obtain ⟨count, rfl⟩ := Nat.exists_eq_succ_of_ne_zero counted.ne'
        rw [List.take_succ_cons] at same
        rcases Nat.eq_zero_or_pos count with rfl | more
        · exact takes tokens same
        · refine onward count more (Nat.le_of_succ_le_succ upTo) tokens ?_
          rw [same, here, List.append_assoc]
          rfl
      · rintro ⟨distinct, takes⟩
        have fresh : t.pkey ∉ db.whitelistedToken.rows.map (·.pkey) := by
          rw [List.map_append, List.nodup_append] at distinct
          exact fun taken => distinct.2.2 _ taken _ (by simp) rfl
        obtain ⟨mid, inserted⟩ := (insertToken_ok_iff t).mpr ⟨fresh, takes 1 one_pos (by simp)⟩
        obtain ⟨table, mv, rfl, here, -⟩ := insertToken_spec inserted
        have onward : ∃ next, rest.foldlM insertToken
            { db with whitelistedToken := table, qualifiedPricePeriodsMv := mv } = .ok next := by
          refine ih.mpr ⟨?_, fun count counted upTo tokens same => ?_⟩
          · dsimp only
            rw [here, List.append_assoc]
            exact distinct
          · refine takes (count + 1) (Nat.succ_pos count) (Nat.succ_le_succ upTo) tokens ?_
            dsimp only at same
            rw [same, here, List.append_assoc]
            rfl
        obtain ⟨next, later⟩ := onward
        exact ⟨next, bind_eq_ok.mpr ⟨_, inserted, later⟩⟩

end Success

section Updates

def admittedContracts (update : ListUpdate) : List Address := update.filecoinPayContracts.map (·.toLowerCase)

def admittedTokens (update : ListUpdate) : List Address := update.stablecoins.map (·.toLowerCase)

def addedContracts (db : DB) (update : ListUpdate) : List Address :=
  (admittedContracts update).filter (· ∉ db.whitelistedContractsAddresses)

def addedTokens (db : DB) (update : ListUpdate) : List WhitelistedToken :=
  addedTokenRows update.tokensMap update.log ((admittedTokens update).filter (· ∉ db.whitelistedTokensAddresses))

def removedTokens (db : DB) (update : ListUpdate) : List Address :=
  db.whitelistedTokensAddresses.filter (· ∉ admittedTokens update)

def contractsLeft (db : DB) (update : ListUpdate) : List FilecoinPayContract :=
  db.filecoinPayContract.rows.map
    (removedContract update.log (db.whitelistedContractsAddresses.filter (· ∉ admittedContracts update)))

def tokensLeft (db : DB) (update : ListUpdate) : List WhitelistedToken :=
  db.whitelistedToken.rows.map (removedToken update.log (removedTokens db update))

/-- The states in which an update has the view refreshed: after the removal of tokens, and after each admission. -/
inductive Refreshed (db : DB) (update : ListUpdate) : DB → Prop
  | removal (contracts : Table FilecoinPayContract FilecoinPayContract.pkey)
      (tokens : Table WhitelistedToken WhitelistedToken.pkey) (some : removedTokens db update ≠ [])
      (contractRows : contracts.rows = contractsLeft db update) (tokenRows : tokens.rows = tokensLeft db update) :
      Refreshed db update { db with filecoinPayContract := contracts, whitelistedToken := tokens }
  | admission (contracts : Table FilecoinPayContract FilecoinPayContract.pkey)
      (tokens : Table WhitelistedToken WhitelistedToken.pkey) (count : Nat) (positive : 0 < count)
      (upTo : count ≤ (addedTokens db update).length)
      (contractRows : contracts.rows =
        contractsLeft db update ++ (addedContracts db update).map (admittedContract update.log))
      (tokenRows : tokens.rows = tokensLeft db update ++ (addedTokens db update).take count) :
      Refreshed db update { db with filecoinPayContract := contracts, whitelistedToken := tokens }

/-- Nothing is announced anew twice, and the view takes the price periods under the lists of every refresh. -/
structure GoesThrough (db : DB) (update : ListUpdate) : Prop where
  contracts : (addedContracts db update).Nodup
  tokens : ((addedTokens db update).map (·.tokenAddress)).Nodup
  refreshes : ∀ refreshed, Refreshed db update refreshed → ViewTakes refreshed

variable {db : DB} {update : ListUpdate} {past : List ServiceRewardsActorLog}

variable (listed : Listed past db) (later : ∀ earlier ∈ past, earlier.position < update.log.position)
include listed later

theorem contracts_keys_iff {contracts : Table FilecoinPayContract FilecoinPayContract.pkey}
    (rows : contracts.rows = contractsLeft db update) :
    ((contracts.rows ++ (addedContracts db update).map (admittedContract update.log)).map (·.pkey)).Nodup ↔
      (addedContracts db update).Nodup := by
  have elsewhere : ∀ c ∈ contracts.rows, c.listing.start ≠ update.log.position := by
    rw [rows]
    exact start_ne_of_left listed.contracts later (removedContract_listing _ _)
  refine (keys_nodup_iff (fun c => rfl) contracts.nodup elsewhere ?_).trans ?_
  · intro c member
    obtain ⟨a, -, rfl⟩ := List.mem_map.mp member
    rfl
  · rw [List.map_map]
    exact iff_of_eq (congrArg List.Nodup (List.map_id _))

theorem tokens_keys_iff {tokens : Table WhitelistedToken WhitelistedToken.pkey}
    (rows : tokens.rows = tokensLeft db update) :
    ((tokens.rows ++ addedTokens db update).map (·.pkey)).Nodup ↔
      ((addedTokens db update).map (·.tokenAddress)).Nodup := by
  have elsewhere : ∀ t ∈ tokens.rows, t.listing.start ≠ update.log.position := by
    rw [rows]
    exact start_ne_of_left listed.tokens later (removedToken_listing _ _)
  apply keys_nodup_iff (fun t => rfl) tokens.nodup elsewhere
  intro t member
  obtain ⟨a, -, found⟩ := List.mem_filterMap.mp member
  obtain ⟨metadata, -, rfl⟩ := Option.map_eq_some_iff.mp found
  rfl

omit listed later in
theorem apply_eq (db : DB) (update : ListUpdate) : ∃ left : Table FilecoinPayContract FilecoinPayContract.pkey,
    left.rows = contractsLeft db update ∧ update.apply db = (do
      let afterTokens ← { db with filecoinPayContract := left : DB }.removeTokens update.log (removedTokens db update)
      let afterContracts ← afterTokens.addContracts update.log (addedContracts db update)
      (addedTokens db update).foldlM insertToken afterContracts) := by
  obtain ⟨left, removal, rows⟩ := removeContracts_spec db update.log
    (db.whitelistedContractsAddresses.filter (· ∉ admittedContracts update))
  refine ⟨left, rows, ?_⟩
  unfold addedTokens
  simp only [← addTokens_eq]
  rw [← removal]
  rfl

theorem goesThrough_of_apply {next : DB} (applied : update.apply db = .ok next) : GoesThrough db update := by
  obtain ⟨left, leftRows, run⟩ := apply_eq db update
  rw [run] at applied
  obtain ⟨afterTokens, tokensRemoved, applied⟩ := bind_eq_ok.mp applied
  obtain ⟨afterContracts, contractsAdded, tokensAdded⟩ := bind_eq_ok.mp applied
  have firstTakes := removeTokens_ok_iff _ |>.mp ⟨afterTokens, tokensRemoved⟩
  obtain ⟨tokens, mv, rfl, tokenRows, -⟩ := removeTokens_spec tokensRemoved
  have contractsDistinct := addContracts_ok_iff _ |>.mp ⟨afterContracts, contractsAdded⟩
  obtain ⟨contracts, rfl, contractRows⟩ := addContracts_spec contractsAdded
  obtain ⟨tokensDistinct, takes⟩ := (insertTokens_ok_iff _).mp ⟨next, tokensAdded⟩
  refine ⟨(contracts_keys_iff listed later leftRows).mp contractsDistinct,
    (tokens_keys_iff listed later tokenRows).mp tokensDistinct, ?_⟩
  intro refreshed fired
  cases fired with
  | removal contracts' tokens' some contractRows' tokenRows' =>
      rw [Table.ext (contractRows'.trans leftRows.symm)]
      exact firstTakes some tokens' tokenRows'
  | admission contracts' tokens' count positive upTo contractRows' tokenRows' =>
      rw [Table.ext (contractRows'.trans (by rw [contractRows, leftRows]))]
      exact takes count positive upTo tokens' (tokenRows'.trans (by rw [tokenRows]; rfl))

theorem apply_of_goesThrough (through : GoesThrough db update) : ∃ next, update.apply db = .ok next := by
  obtain ⟨left, leftRows, run⟩ := apply_eq db update
  have removable : ∃ next, { db with filecoinPayContract := left : DB }.removeTokens update.log
      (removedTokens db update) = .ok next := by
    refine (removeTokens_ok_iff _).mpr fun some tokens rows => ?_
    exact through.refreshes _ (.removal left tokens some leftRows rows)
  obtain ⟨afterTokens, tokensRemoved⟩ := removable
  obtain ⟨tokens, mv, rfl, tokenRows, -⟩ := removeTokens_spec tokensRemoved
  have contractsAdmissible : ∃ next, DB.addContracts { db with
      filecoinPayContract := left, whitelistedToken := tokens, qualifiedPricePeriodsMv := mv } update.log
        (addedContracts db update) = .ok next :=
    (addContracts_ok_iff _).mpr ((contracts_keys_iff listed later leftRows).mpr through.contracts)
  obtain ⟨afterContracts, contractsAdded⟩ := contractsAdmissible
  obtain ⟨contracts, rfl, contractRows⟩ := addContracts_spec contractsAdded
  have takes : ∀ count, 0 < count → count ≤ (addedTokens db update).length →
      ∀ admitted : Table WhitelistedToken WhitelistedToken.pkey,
        admitted.rows = tokens.rows ++ (addedTokens db update).take count →
          ViewTakes { db with filecoinPayContract := contracts, whitelistedToken := admitted } := by
    intro count positive upTo admitted rows
    rw [tokenRows] at rows
    rw [leftRows] at contractRows
    exact through.refreshes _ (.admission contracts admitted count positive upTo contractRows rows)
  have tokensAdmissible : ∃ next, (addedTokens db update).foldlM insertToken { db with
      filecoinPayContract := contracts, whitelistedToken := tokens, qualifiedPricePeriodsMv := mv } = .ok next :=
    (insertTokens_ok_iff _).mpr ⟨(tokens_keys_iff listed later tokenRows).mpr through.tokens, takes⟩
  obtain ⟨next, tokensAdded⟩ := tokensAdmissible
  rw [run]
  exact ⟨next, bind_eq_ok.mpr ⟨_, tokensRemoved, bind_eq_ok.mpr ⟨_, contractsAdded, tokensAdded⟩⟩⟩

theorem apply_ok_iff : (∃ next, update.apply db = .ok next) ↔ GoesThrough db update :=
  ⟨fun ⟨_, applied⟩ => goesThrough_of_apply listed later applied, apply_of_goesThrough listed later⟩

/-- The announced lists are the ones that are open afterwards: all contracts, and of the tokens those that were open
or whose metadata is known. -/
structure InstallsLists (db : DB) (update : ListUpdate) (next : DB) : Prop where
  contracts : Installs (·.contractAddress) (·.removalEpoch = none) (·.remove update.log) (· ∈ admittedContracts update)
    db.filecoinPayContract.rows next.filecoinPayContract.rows
  tokens : Installs (·.tokenAddress) (·.removalEpoch = none) (·.remove update.log)
    (fun a => a ∈ admittedTokens update ∧ ((∃ t ∈ db.whitelistedToken.rows, t.removalEpoch = none ∧ t.tokenAddress = a) ∨
      (update.tokensMap.lookup a).isSome)) db.whitelistedToken.rows next.whitelistedToken.rows

omit listed later in
theorem open_unique {α : Type} {listing : α → Listing} {rows : List α} (holds : Lists.Invariant past (rows.map listing)) :
    ∀ row ∈ rows, ∀ other ∈ rows, (listing row).removalEpoch = none → (listing other).removalEpoch = none →
      (listing row).address = (listing other).address → row = other := by
  intro row member other memberToo isOpen otherOpen same
  by_contra differ
  have separated : Separated (fun a => (listing a).address) (fun a => (listing a).span) rows :=
    List.pairwise_map.mp holds.apart
  apply (separated.apart_of_ne member memberToo differ same).not_both_open
  constructor
  · exact (stopPosition_eq_none (holds.together _ (List.mem_map_of_mem member))).mpr isOpen
  · exact (stopPosition_eq_none (holds.together _ (List.mem_map_of_mem memberToo))).mpr otherOpen

omit listed later in
theorem mem_addedTokens_iff {a : Address} : (∃ t ∈ addedTokens db update, t.tokenAddress = a) ↔
    a ∈ admittedTokens update ∧ (update.tokensMap.lookup a).isSome ∧ a ∉ db.whitelistedTokensAddresses := by
  constructor
  · rintro ⟨t, member, rfl⟩
    obtain ⟨a, announced, found⟩ := List.mem_filterMap.mp member
    obtain ⟨metadata, known, rfl⟩ := Option.map_eq_some_iff.mp found
    obtain ⟨here, unlisted⟩ := List.mem_filter.mp announced
    exact ⟨here, Option.isSome_iff_exists.mpr ⟨metadata, known⟩, of_decide_eq_true unlisted⟩
  · rintro ⟨here, known, unlisted⟩
    obtain ⟨metadata, known⟩ := Option.isSome_iff_exists.mp known
    refine ⟨admittedToken update.log a metadata, List.mem_filterMap.mpr ⟨a, ?_, by rw [known]; rfl⟩, rfl⟩
    exact List.mem_filter.mpr ⟨here, decide_eq_true unlisted⟩

theorem installs_of_apply {next : DB} (applied : update.apply db = .ok next) : InstallsLists db update next := by
  have through := goesThrough_of_apply listed later applied
  obtain ⟨contracts, tokens, mv, rfl, contractRows, tokenRows, -⟩ := updatedAdmittedLists_spec applied
  constructor
  · dsimp only
    rw [contractRows]
    apply installs_of_announced (fun _ => True) (admittedContracts update)
    · intro c
      simp [FilecoinPayContract.remove]
    · simp
    · exact fun c member => listed.contracts.lower _ (List.mem_map_of_mem member)
    · exact open_unique listed.contracts
    · intro c member
      obtain ⟨a, -, rfl⟩ := List.mem_map.mp member
      rfl
    · rw [List.map_map]
      exact through.contracts.map fun a b same => same
    · intro a
      constructor
      · rintro ⟨c, member, rfl⟩
        obtain ⟨a, announced, rfl⟩ := List.mem_map.mp member
        obtain ⟨here, unlisted⟩ := List.mem_filter.mp announced
        exact ⟨here, trivial, of_decide_eq_true unlisted⟩
      · rintro ⟨here, -, unlisted⟩
        exact ⟨_, List.mem_map_of_mem (List.mem_filter.mpr ⟨here, decide_eq_true unlisted⟩), rfl⟩
  · dsimp only
    rw [tokenRows]
    apply installs_of_announced (fun a => (update.tokensMap.lookup a).isSome) (admittedTokens update)
    · intro t
      simp [WhitelistedToken.remove]
    · exact fun a => Iff.rfl
    · exact fun t member => listed.tokens.lower _ (List.mem_map_of_mem member)
    · exact open_unique listed.tokens
    · intro t member
      obtain ⟨a, -, found⟩ := List.mem_filterMap.mp member
      obtain ⟨metadata, -, rfl⟩ := Option.map_eq_some_iff.mp found
      rfl
    · exact through.tokens
    · exact fun a => mem_addedTokens_iff

end Updates

section Relisted

end Relisted

end Proof.ListUpdates
end FpvIndexer
