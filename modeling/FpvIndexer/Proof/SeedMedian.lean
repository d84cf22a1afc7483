import FpvIndexer.Proof.PriceBand

namespace FpvIndexer

def SubstantialAuction.price (s : SubstantialAuction) : ℚ := s.lotAttoUsd / s.claimAttoFil

def RankedSeed.price (s : RankedSeed) : ℚ := s.lotAttoUsd / s.claimAttoFil

namespace Proof.SeedMedian
open Relational PriceBand

structure RankedByPrice (seeds : List SubstantialAuction) : Prop where
  numbers : ((rankSeeds seeds).map (·.rankPos)).Perm (List.range' 1 seeds.length)
  sorts : ∀ s r t q, (s, r) ∈ seeds.zip (rankSeeds seeds) → (t, q) ∈ seeds.zip (rankSeeds seeds) →
    (r.rankPos < q.rankPos ↔ s.price < t.price ∨ s.price = t.price ∧ s.auctionNum < t.auctionNum)
  priced : ∀ s r, (s, r) ∈ seeds.zip (rankSeeds seeds) → r.price = s.price
  median : seeds.length = 5 → ∃ m, (rankSeeds seeds).filter (·.rankPos = 3) = [m] ∧
    3 ≤ seeds.countP (·.price ≤ m.price) ∧ 3 ≤ seeds.countP (m.price ≤ ·.price)

variable {seeds : List SubstantialAuction} {s t : SubstantialAuction} {r : RankedSeed}

theorem mem_zip_rankSeeds (ranked : (s, r) ∈ seeds.zip (rankSeeds seeds)) :
    s ∈ seeds ∧ r = ⟨s.lotAttoUsd, s.claimAttoFil, seeds.countP (rankedUpTo s)⟩ := by
  unfold rankSeeds at ranked
  rw [← List.map_prod_left_eq_zip] at ranked
  obtain ⟨seed, member, same⟩ := List.mem_map.mp ranked
  cases same
  exact ⟨member, rfl⟩

theorem rank_lt_iff (positive : ∀ s ∈ seeds, 0 < s.claimAttoFil) (inS : s ∈ seeds) (inT : t ∈ seeds) :
    seeds.countP (rankedUpTo s) < seeds.countP (rankedUpTo t) ↔
      s.price < t.price ∨ s.price = t.price ∧ s.auctionNum < t.auctionNum := by
  rw [countP_rankedUpTo positive inS, countP_rankedUpTo positive inT, rank_lt_rank_iff seedKey s inT]
  exact Prod.Lex.toLex_lt_toLex

theorem rankedByPrice_of_positive (seeds : List SubstantialAuction) (distinct : (seeds.map (·.auctionNum)).Nodup)
    (positive : ∀ s ∈ seeds, 0 < s.lotAttoUsd ∧ 0 < s.claimAttoFil) : RankedByPrice seeds := by
  have claims : ∀ s ∈ seeds, 0 < s.claimAttoFil := fun s member => (positive s member).2
  have keys := seedKey_distinct (List.pairwise_map.mp distinct)
  refine ⟨rankSeeds_perm claims keys, ?_, ?_, ?_⟩
  · intro s r t q ranked rankedToo
    obtain ⟨inS, rfl⟩ := mem_zip_rankSeeds ranked
    obtain ⟨inT, rfl⟩ := mem_zip_rankSeeds rankedToo
    exact rank_lt_iff claims inS inT
  · intro s r ranked
    obtain ⟨-, rfl⟩ := mem_zip_rankSeeds ranked
    rfl
  · intro five
    obtain ⟨m, -, third, below, above⟩ := rankSeeds_third claims keys five
    exact ⟨_, third, below, above⟩

section Seeds

def seed (lot claim : ℚ) (auctionNum : Nat) : SubstantialAuction where
  quarterNum := 1
  lotAttoUsd := lot
  claimAttoFil := claim
  claimTxHash := "0x1"
  auctionedAtEpoch := 100
  logIndex := auctionNum
  auctionNum

def fiveSeeds : List SubstantialAuction := [seed 100 1 1, seed 6 2 2, seed 1 1 3, seed 3 1 4, seed 8 2 5]

example : (rankSeeds fiveSeeds).map (·.rankPos) = [5, 2, 1, 3, 4] := by decide +kernel

theorem rankedByPrice_fiveSeeds : RankedByPrice fiveSeeds :=
  rankedByPrice_of_positive fiveSeeds (by decide) (by decide +kernel)

end Seeds

end Proof.SeedMedian
end FpvIndexer
