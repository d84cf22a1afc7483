import FpvIndexer.Proof.GateTargets

namespace FpvIndexer
namespace Proof.Confluence
open Relational Handlers Schedules Commits GateTargets

section Tables
variable {cfg : Deployment} {chain : Chain} {allowed others : Execution → chain.Event → Prop} {s s' : Execution}
  {store other : Store}

theorem filter_eq_nil_of_kinds {α : Type} {contract : α → Address} {rows : List α}
    (kinds : ∀ row ∈ rows, chain.indexerOf (contract row) = .filecoinPayV1) {address : Address}
    (no : chain.indexerOf address ≠ .filecoinPayV1) : rows.filter (contract · = address) = [] := by
  refine List.filter_eq_nil_iff.mpr fun row member same => no ?_
  rw [← of_decide_eq_true same]
  exact kinds row member

theorem upTo_eq (cursors : ∀ address, store.lastRun address = other.lastRun address) (indexer : Indexer)
    (address : Address) : chain.upTo indexer store address = chain.upTo indexer other address := by
  unfold Chain.upTo
  rw [cursors]

variable (apart : ∀ s event, allowed s event → Execution.Apart s) (apart' : ∀ s event, others s event → Execution.Apart s)
  (reached : chain.Reached cfg allowed s) (reached' : chain.Reached cfg others s')
  (cursors : ∀ address, s.store.lastRun address = s'.store.lastRun address)
include apart apart' reached reached' cursors

theorem rails_perm : s.store.filecoinPayRail.rows.Perm s'.store.filecoinPayRail.rows := by
  refine perm_of_groups (·.filecoinPayContractAddress) fun address => List.Perm.of_eq ?_
  by_cases pays : chain.indexerOf address = .filecoinPayV1
  · rw [(synced_of_reached apart reached).rails address pays, (synced_of_reached apart' reached').rails address pays,
      upTo_eq cursors]
  · rw [filter_eq_nil_of_kinds (tables_of_reached reached).railKinds pays,
      filter_eq_nil_of_kinds (tables_of_reached reached').railKinds pays]

theorem payments_perm : (s.store.filecoinPayPayment.rows.map (·.toFilecoinPayPaymentInput)).Perm
    (s'.store.filecoinPayPayment.rows.map (·.toFilecoinPayPaymentInput)) := by
  refine perm_of_groups (·.filecoinPayContractAddress) fun address => List.Perm.of_eq ?_
  rw [List.filter_map, List.filter_map]
  by_cases pays : chain.indexerOf address = .filecoinPayV1
  · exact (((synced_of_reached apart reached).payments address pays).trans (congrArg _ (upTo_eq cursors _ _))).trans
      ((synced_of_reached apart' reached').payments address pays).symm
  · exact congrArg _ ((filter_eq_nil_of_kinds (tables_of_reached reached).paymentKinds pays).trans
      (filter_eq_nil_of_kinds (tables_of_reached reached').paymentKinds pays).symm)

end Tables

section Cursors
variable (cfg : Deployment) (chain : Chain) (allowed others : Execution → chain.Event → Prop) (s s' : Execution)

def cursorsAt (heads : List Int) : Option (List IndexerState) :=
  (quietSchedule heads).map fun s => s.store.indexerState.rows

theorem cursors_quiet : cursorsAt [100, 300] =
    some [⟨"0xa", 300, 1⟩, ⟨"0xb", 300, 1⟩, ⟨"0xf", 300, 1⟩, ⟨"0xd", 300, 1⟩] ∧ cursorsAt [100, 300] = cursorsAt [300] := by
  decide +kernel

end Cursors

end Proof.Confluence
end FpvIndexer
