import FpvIndexer.Proof.Handlers
import FpvIndexer.Proof.Intervals

namespace FpvIndexer
open Relational Proof

structure Listing where
  address : Address
  start : Position
  removalEpoch : Option Int
  removalLogIndex : Option Nat
deriving DecidableEq

namespace Listing

def span (l : Listing) : Lifespan Position := ⟨l.start, stopPosition l.removalEpoch l.removalLogIndex⟩

def remove (log : ServiceRewardsActorLog) (removed : List Address) (l : Listing) : Listing :=
  if l.address ∈ removed ∧ l.removalEpoch = none then
    { l with removalEpoch := some log.blockNumber, removalLogIndex := some log.logIndex }
  else l

def admitted (log : ServiceRewardsActorLog) (address : Address) : Listing := ⟨address, log.position, none, none⟩

end Listing

def WhitelistedToken.listing (t : WhitelistedToken) : Listing where
  address := t.tokenAddress
  start := ⟨t.admittanceEpoch, t.admittanceLogIndex⟩
  removalEpoch := t.removalEpoch
  removalLogIndex := t.removalLogIndex

def FilecoinPayContract.listing (c : FilecoinPayContract) : Listing where
  address := c.contractAddress
  start := ⟨c.admittanceEpoch, c.admittanceLogIndex⟩
  removalEpoch := c.removalEpoch
  removalLogIndex := c.removalLogIndex

namespace Proof.Lists
open Handlers

structure Invariant (past : List ServiceRewardsActorLog) (listings : List Listing) : Prop where
  lower : ∀ l ∈ listings, l.address.toLowerCase = l.address
  together : ∀ l ∈ listings, FilledTogether l.removalEpoch l.removalLogIndex
  started : ∀ l ∈ listings, ∃ log ∈ past, l.start = log.position
  ended : ∀ l ∈ listings, ∀ stop ∈ l.span.stop, ∃ log ∈ past, stop = log.position
  apart : Separated Listing.address Listing.span listings

theorem invariant_nil : Invariant [] [] :=
  ⟨by simp, by simp, by simp, by simp, List.Pairwise.nil⟩

section Step
variable {past : List ServiceRewardsActorLog} {log : ServiceRewardsActorLog} {listings : List Listing}

theorem Invariant.weaken (holds : Invariant past listings) : Invariant (past ++ [log]) listings where
  lower := holds.lower
  together := holds.together
  started := fun l member => by
    obtain ⟨earlier, inPast, same⟩ := holds.started l member
    exact ⟨earlier, List.mem_append_left _ inPast, same⟩
  ended := fun l member stop closed => by
    obtain ⟨earlier, inPast, same⟩ := holds.ended l member stop closed
    exact ⟨earlier, List.mem_append_left _ inPast, same⟩
  apart := holds.apart

theorem mem_remove {removed : List Address} {l : Listing} (member : l ∈ listings.map (Listing.remove log removed)) :
    ∃ before ∈ listings, l.address = before.address ∧ l.start = before.start ∧
      (l = before ∧ ¬ (before.address ∈ removed ∧ before.removalEpoch = none) ∨
        before.removalEpoch = none ∧ before.address ∈ removed ∧ l.removalEpoch = some log.blockNumber ∧
          l.removalLogIndex = some log.logIndex) := by
  obtain ⟨before, inRows, rfl⟩ := List.mem_map.mp member
  refine ⟨before, inRows, ?_⟩
  unfold Listing.remove
  split
  · rename_i dropped
    exact ⟨rfl, rfl, Or.inr ⟨dropped.2, dropped.1, rfl, rfl⟩⟩
  · rename_i stays
    exact ⟨rfl, rfl, Or.inl ⟨rfl, stays⟩⟩

theorem remove_span {removed : List Address} (l : Listing) : (l.remove log removed).span =
    if l.address ∈ removed ∧ l.removalEpoch = none then l.span.closeAt log.position else l.span := by
  unfold Listing.remove
  split
  · rename_i dropped
    unfold Listing.span Lifespan.closeAt
    rw [dropped.2]
    rfl
  · rfl

theorem Invariant.remove (holds : Invariant past listings) (log : ServiceRewardsActorLog) (removed : List Address) :
    Invariant (past ++ [log]) (listings.map (Listing.remove log removed)) where
  lower := by
    intro l member
    obtain ⟨before, inRows, address, -⟩ := mem_remove member
    rw [address]
    exact holds.lower before inRows
  together := by
    intro l member
    obtain ⟨before, inRows, -, -, ⟨rfl, -⟩ | ⟨-, -, epoch, logIndex⟩⟩ := mem_remove member
    · exact holds.together _ inRows
    · rw [epoch, logIndex]
      rfl
  started := by
    intro l member
    obtain ⟨before, inRows, -, start, -⟩ := mem_remove member
    obtain ⟨earlier, inPast, same⟩ := holds.started before inRows
    exact ⟨earlier, List.mem_append_left _ inPast, start.trans same⟩
  ended := by
    intro l member stop closed
    obtain ⟨before, inRows, -, -, ⟨rfl, -⟩ | ⟨-, -, epoch, logIndex⟩⟩ := mem_remove member
    · obtain ⟨earlier, inPast, same⟩ := holds.ended _ inRows stop closed
      exact ⟨earlier, List.mem_append_left _ inPast, same⟩
    · rw [Listing.span, epoch, logIndex] at closed
      cases closed
      exact ⟨log, by simp, rfl⟩
  apart := by
    apply holds.apart.map
    · intro l
      unfold Listing.remove
      split <;> rfl
    · intro a b apart
      rw [remove_span, remove_span]
      split
      · split
        · exact ((apart.closeAt_left _).symm.closeAt_left _).symm
        · exact apart.closeAt_left _
      · split
        · exact (apart.symm.closeAt_left _).symm
        · exact apart

theorem Invariant.admit (holds : Invariant past listings) (later : ∀ earlier ∈ past, earlier.position < log.position)
    {removed added : List Address} (lower : ∀ a ∈ added, a.toLowerCase = a) (nodup : added.Nodup)
    (free : ∀ l ∈ listings, l.removalEpoch = none → l.address ∉ added) :
    Invariant (past ++ [log]) (listings.map (Listing.remove log removed) ++ added.map (Listing.admitted log)) := by
  have removal := holds.remove log removed
  refine ⟨?_, ?_, ?_, ?_, ?_⟩
  · intro l member
    rcases List.mem_append.mp member with before | new
    · exact removal.lower l before
    · obtain ⟨a, inAdded, rfl⟩ := List.mem_map.mp new
      exact lower a inAdded
  · intro l member
    rcases List.mem_append.mp member with before | new
    · exact removal.together l before
    · obtain ⟨a, -, rfl⟩ := List.mem_map.mp new
      rfl
  · intro l member
    rcases List.mem_append.mp member with before | new
    · exact removal.started l before
    · obtain ⟨a, -, rfl⟩ := List.mem_map.mp new
      exact ⟨log, by simp, rfl⟩
  · intro l member stop closed
    rcases List.mem_append.mp member with before | new
    · exact removal.ended l before stop closed
    · obtain ⟨a, -, rfl⟩ := List.mem_map.mp new
      cases closed
  · apply List.pairwise_append.mpr
    refine ⟨removal.apart, ?_, ?_⟩
    · apply List.pairwise_map.mpr
      exact nodup.imp fun differ same => absurd same differ
    · intro l before m new same
      obtain ⟨a, inAdded, rfl⟩ := List.mem_map.mp new
      obtain ⟨row, inRows, address, -, ⟨rfl, -⟩ | ⟨isOpen, -⟩⟩ := mem_remove before
      · cases closed : l.span.stop with
        | none =>
            exact absurd (same ▸ inAdded)
              (free l inRows ((stopPosition_eq_none (holds.together l inRows)).mp closed))
        | some stop =>
            obtain ⟨earlier, inPast, rfl⟩ := holds.ended l inRows stop closed
            exact Lifespan.apart_of_lt closed (later earlier inPast)
      · exact absurd (address.symm.trans same ▸ inAdded) (free row inRows isOpen)

end Step

section Open
variable {past : List ServiceRewardsActorLog}

theorem covers_iff {tokens : List WhitelistedToken} (holds : Invariant past (tokens.map (·.listing)))
    {t : WhitelistedToken} (member : t ∈ tokens) (position : Position) :
    t.covers position ↔ t.listing.span.Covers position :=
  inForce_iff (holds.together t.listing (List.mem_map_of_mem member)) position

theorem one_open {tokens : List WhitelistedToken} (holds : Invariant past (tokens.map (·.listing))) (token : Address)
    (position : Position) : (tokens.filter fun t => token = t.tokenAddress ∧ t.covers position).length ≤ 1 := by
  have separated : Separated (fun t : WhitelistedToken => t.tokenAddress) (fun t => t.listing.span) tokens :=
    List.pairwise_map.mp holds.apart
  have spans : (tokens.filter fun t => token = t.tokenAddress ∧ t.covers position) =
      tokens.filter fun t => token = t.tokenAddress ∧ t.listing.span.Covers position := by
    apply List.filter_congr
    intro t member
    rw [decide_eq_decide, covers_iff holds member position]
  rw [spans]
  apply separated.filter_length_le_one
  · intro a b ha hb
    exact (of_decide_eq_true ha).1.symm.trans (of_decide_eq_true hb).1
  · intro a b ha hb apart
    exact apart.disjoint position (of_decide_eq_true ha).2 (of_decide_eq_true hb).2

end Open

end Proof.Lists
end FpvIndexer
