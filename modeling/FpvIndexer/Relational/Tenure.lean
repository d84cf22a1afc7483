import FpvIndexer.Relational.Lifespan
import Mathlib.Order.Bounds.Basic
import Mathlib.Data.Set.Finite.Lemmas

/-!
# Tenures

Who holds a thing at each place of a line, where a claim may reach back or wait for its start, and the rows of a
temporal table that record it.
-/

namespace Relational

/-- The holder at each place, the present holder with the start of its claim, and where a claim was last closed. -/
structure Tenure (P β : Type) where
  holder : P → Option β
  current : Option (β × P)
  released : Option P

namespace Tenure
variable {P β : Type} [LinearOrder P]

def vacant : Tenure P β := ⟨fun _ => none, none, none⟩

section Operations
variable (t : Tenure P β)

def take (owner : β) (start : P) : Tenure P β where
  holder x := if start ≤ x then some owner else t.holder x
  current := some (owner, start)
  released := t.released

/-- What was claimed is held up to here; what had not started is given up. -/
def leave (now : P) : Tenure P β where
  holder x := if now < x then none else t.holder x
  current := none
  released := if t.current.any (·.2 ≤ now) then some now else t.released

def leaveIf (leaves : β → Bool) (now : P) : Tenure P β :=
  if t.current.any (leaves ·.1) then t.leave now else t

def close (now : P) : Tenure P β where
  holder x := if now < x then none else t.holder x
  current := none
  released := if t.current.isSome then some now else t.released

def relist (now : P) (listed : Bool) (value : Option β) : Tenure P β :=
  if listed then if t.current.isSome then t else value.elim t (t.take · now) else t.close now

def pass (owner : β) : Tenure P β :=
  match t.current with
  | none => t
  | some (_, start) => t.take owner start

def Known : Prop := t.current.isSome ∨ t.released.isSome

omit [LinearOrder P] in
theorem not_known_vacant : ¬ (vacant : Tenure P β).Known := by
  rintro (claimed | closed)
  · cases claimed
  · cases closed

theorem known_take (owner : β) (start : P) : (t.take owner start).Known := Or.inl rfl

theorem known_close (now : P) : (t.close now).Known ↔ t.Known := by
  unfold Known close
  cases t.current <;> simp

theorem known_pass (owner : β) : (t.pass owner).Known ↔ t.Known := by
  unfold Known pass
  cases claimed : t.current with
  | none => rw [claimed]
  | some claim => simp [take]

theorem relist_congr {now : P} {listed : Bool} {value other : Option β} (same : listed = true → value = other) :
    t.relist now listed value = t.relist now listed other := by
  unfold relist
  cases listed with
  | false => rfl
  | true => rw [same rfl]

/-- From here on, whoever has the claim holds. -/
def Steady (now : P) : Prop := ∀ x, now < x → t.holder x = t.current.map Prod.fst

def relists (value : Option β) (updates : List (P × Bool)) : Tenure P β :=
  updates.foldl (fun t update => t.relist update.1 update.2 value) t

end Operations

section Relisted
variable {t : Tenure P β} {now x : P} {listed : Bool} {value : Option β} {updates : List (P × Bool)}

theorem relist_early (early : x < now) : (t.relist now listed value).holder x = t.holder x := by
  unfold relist
  cases listed with
  | false => exact if_neg (not_lt.mpr early.le)
  | true =>
      rw [if_pos rfl]
      split
      · rfl
      · cases value with
        | none => rfl
        | some v => exact if_neg (not_le.mpr early)

theorem Steady.relist {earlier : P} (steady : t.Steady earlier) (le : earlier ≤ now) :
    (t.relist now listed value).Steady now := by
  intro x after
  unfold Tenure.relist
  cases listed with
  | false => exact if_pos after
  | true =>
      rw [if_pos rfl]
      split
      · exact steady x (le.trans_lt after)
      · cases value with
        | none => exact steady x (le.trans_lt after)
        | some v => exact if_pos after.le

theorem relist_claimed : (t.relist now listed value).current.isSome ↔ listed ∧ (t.current.isSome ∨ value.isSome) := by
  unfold relist
  cases listed with
  | false => exact iff_of_false nofun fun claimed => nomatch claimed.1
  | true =>
      rw [if_pos rfl]
      split
      · rename_i claimed
        exact iff_of_true claimed ⟨rfl, Or.inl claimed⟩
      · rename_i unclaimed
        cases value with
        | none => exact ⟨fun claimed => absurd claimed unclaimed, fun claimed => claimed.2.resolve_right nofun⟩
        | some v => exact iff_of_true rfl ⟨rfl, Or.inr rfl⟩

theorem relists_concat (update : P × Bool) : t.relists value (updates ++ [update]) =
    (t.relists value updates).relist update.1 update.2 value := by
  unfold relists
  rw [List.foldl_append]
  rfl

theorem relists_claimed : (vacant.relists value updates).current.isSome ↔
    updates.getLast?.any (·.2) ∧ value.isSome := by
  induction updates using List.reverseRecOn with
  | nil => exact iff_of_false nofun fun claimed => nomatch claimed.1
  | append_singleton past update ih =>
      rw [relists_concat, relist_claimed, ih, List.getLast?_concat, Option.any_some]
      refine and_congr_right fun _ => ⟨?_, Or.inr⟩
      rintro (⟨-, some⟩ | some)
      · exact some
      · exact some

theorem relists_steady (le : ∀ update ∈ updates, update.1 ≤ now)
    (sorted : updates.Pairwise fun a b => a.1 < b.1) : (vacant.relists value updates).Steady now := by
  induction updates using List.reverseRecOn generalizing now with
  | nil => exact fun _ _ => rfl
  | append_singleton past update ih =>
      obtain ⟨pastSorted, -, before⟩ := List.pairwise_append.mp sorted
      have upTo : ∀ earlier ∈ past, earlier.1 ≤ update.1 :=
        fun earlier member => (before earlier member update (List.mem_singleton_self _)).le
      rw [relists_concat]
      intro x after
      exact (ih upTo pastSorted).relist le_rfl x
        ((le update (List.mem_append_right _ (List.mem_singleton_self _))).trans_lt after)

theorem relists_holder (sorted : updates.Pairwise fun a b => a.1 < b.1) (apart : ∀ update ∈ updates, update.1 ≠ x) :
    ((vacant.relists value updates).holder x).isSome ↔
      (updates.filter (·.1 < x)).getLast?.any (·.2) ∧ value.isSome := by
  induction updates using List.reverseRecOn with
  | nil => exact iff_of_false nofun fun held => nomatch held.1
  | append_singleton past update ih =>
      obtain ⟨pastSorted, -, before⟩ := List.pairwise_append.mp sorted
      have last := List.mem_append_right past (List.mem_singleton_self update)
      rcases lt_or_gt_of_ne (apart update last) with behind | ahead
      · have all : ∀ earlier ∈ past ++ [update], earlier.1 ≤ update.1 := by
          intro earlier member
          rcases List.mem_append.mp member with old | new
          · exact (before earlier old update (List.mem_singleton_self _)).le
          · rw [List.mem_singleton.mp new]
        have kept : (past ++ [update]).filter (fun update => update.1 < x) = past ++ [update] :=
          List.filter_eq_self.mpr fun earlier member => decide_eq_true ((all earlier member).trans_lt behind)
        rw [relists_steady all sorted x behind, Option.isSome_map, relists_claimed, kept]
      · have dropped : (past ++ [update]).filter (fun update => update.1 < x) = past.filter (·.1 < x) := by
          rw [List.filter_append, List.filter_singleton, decide_eq_false (not_lt.mpr ahead.le)]
          exact List.append_nil _
        rw [relists_concat, relist_early ahead, dropped]
        exact ih pastSorted fun earlier member => apart earlier (List.mem_append_left _ member)

end Relisted

end Tenure

/-- How a row of a temporal table is read: what it is about, when it is in force, and who holds it. -/
structure Temporal (α κ P β : Type) where
  key : α → κ
  span : α → Lifespan P
  holder : α → β

namespace Temporal
variable {α κ P β : Type} [LinearOrder P] (table : Temporal α κ P β)

def HeldBy (rows : List α) (k : κ) (x : P) (holder : β) : Prop :=
  ∃ row ∈ rows, table.key row = k ∧ (table.span row).Covers x ∧ table.holder row = holder

def stops (rows : List α) (k : κ) : Set P :=
  { stop | ∃ row ∈ rows, table.key row = k ∧ (table.span row).stop = some stop }

/-- The rows of a key say what its tenure says. -/
structure Tells (rows : List α) (k : κ) (t : Tenure P β) : Prop where
  holder : ∀ x holder, table.HeldBy rows k x holder ↔ t.holder x = some holder
  current : ∀ holder start, t.current = some (holder, start) ↔ ∃ row ∈ rows, table.key row = k ∧
    (table.span row).stop = none ∧ table.holder row = holder ∧ (table.span row).start = start
  released : ∀ r, t.released = some r ↔ IsGreatest (table.stops rows k) r

structure Dated (now : P) (rows : List α) : Prop where
  apart : Separated table.key table.span rows
  before : ∀ row ∈ rows, ∀ stop ∈ (table.span row).stop, stop < now

structure Closes (now : P) (cut : α → α) : Prop where
  key : ∀ row, table.key (cut row) = table.key row
  span : ∀ row, (table.span row).stop = none → table.span (cut row) = (table.span row).closeAt now
  holder : ∀ row, table.holder (cut row) = table.holder row

structure HandsOn (handOn : α → α) (holder : β) : Prop where
  key : ∀ row, table.key (handOn row) = table.key row
  span : ∀ row, table.span (handOn row) = table.span row
  holder : ∀ row, table.holder (handOn row) = holder

variable {table} {rows next : List α} {k : κ} {t : Tenure P β} {now : P} {cut : α → α}

section Reading

theorem covers_of_open {row : α} (isOpen : (table.span row).stop = none) (x : P) :
    (table.span row).Covers x ↔ (table.span row).start ≤ x := by
  refine and_iff_left fun stop closed => ?_
  rw [isOpen] at closed
  cases closed

theorem covers_closed (closes : table.Closes now cut) {row : α} (isOpen : (table.span row).stop = none) (x : P) :
    (table.span (cut row)).Covers x ↔ (table.span row).Covers x ∧ x ≤ now := by
  rw [closes.span row isOpen, covers_of_open isOpen, Lifespan.Covers, Lifespan.closeAt, isOpen]
  refine and_congr_right fun _ => ⟨fun upTo => upTo now rfl, ?_⟩
  rintro upTo _ ⟨⟩
  exact upTo

omit [LinearOrder P] in
theorem stop_closed (closes : table.Closes now cut) {row : α} (isOpen : (table.span row).stop = none) :
    (table.span (cut row)).stop = some now := by
  rw [closes.span row isOpen, Lifespan.closeAt, isOpen]
  rfl

theorem Dated.one_open (dated : table.Dated now rows) {a b : α} (inRowsA : a ∈ rows) (inRowsB : b ∈ rows)
    (same : table.key a = table.key b) (openA : (table.span a).stop = none) (openB : (table.span b).stop = none) :
    a = b := by
  by_contra differ
  exact (dated.apart.apart_of_ne inRowsA inRowsB differ same).not_both_open ⟨openA, openB⟩

theorem Dated.covers_early (dated : table.Dated now rows) {row : α} (member : row ∈ rows)
    (closed : (table.span row).stop ≠ none) {x : P} (covers : (table.span row).Covers x) : x < now := by
  obtain ⟨stop, ended⟩ := Option.ne_none_iff_exists'.mp closed
  exact (covers.2 stop ended).trans_lt (dated.before row member stop ended)

theorem tells_nil : table.Tells [] k .vacant where
  holder := fun _ _ => iff_of_false (fun ⟨_, member, _⟩ => nomatch member) nofun
  current := fun _ _ => iff_of_false nofun (fun ⟨_, member, _⟩ => nomatch member)
  released := fun _ => iff_of_false nofun (fun ⟨⟨_, member, _⟩, _⟩ => nomatch member)

theorem Tells.of_same (tells : table.Tells rows k t) (same : ∀ row, table.key row = k → (row ∈ next ↔ row ∈ rows)) :
    table.Tells next k t := by
  have own : ∀ p : α → Prop, (∃ row ∈ next, table.key row = k ∧ p row) ↔ ∃ row ∈ rows, table.key row = k ∧ p row := by
    intro p
    refine exists_congr fun row => ?_
    constructor
    · exact fun ⟨member, isOwn, holds⟩ => ⟨(same row isOwn).mp member, isOwn, holds⟩
    · exact fun ⟨member, isOwn, holds⟩ => ⟨(same row isOwn).mpr member, isOwn, holds⟩
  refine ⟨fun x holder => (own _).trans (tells.holder x holder),
    fun holder start => (tells.current holder start).trans (own _).symm, fun r => ?_⟩
  have stops : table.stops next k = table.stops rows k := Set.ext fun stop => own _
  rw [stops]
  exact tells.released r

theorem Tells.current_of_open (tells : table.Tells rows k t) {row : α} (member : row ∈ rows) (own : table.key row = k)
    (isOpen : (table.span row).stop = none) : t.current = some (table.holder row, (table.span row).start) :=
  (tells.current _ _).mpr ⟨row, member, own, isOpen, rfl, rfl⟩

theorem Tells.closed_of_vacant (tells : table.Tells rows k t) (vacant : t.current = none) {row : α} (member : row ∈ rows)
    (own : table.key row = k) : (table.span row).stop ≠ none := by
  intro isOpen
  have claim := tells.current_of_open member own isOpen
  rw [vacant] at claim
  cases claim

theorem Tells.vacant_iff (tells : table.Tells rows k t) :
    t.current = none ↔ ∀ row ∈ rows, table.key row = k → (table.span row).stop ≠ none := by
  refine ⟨fun vacant _ member own => tells.closed_of_vacant vacant member own, fun closed => ?_⟩
  cases claimed : t.current with
  | none => rfl
  | some claim =>
      obtain ⟨row, member, own, isOpen, -⟩ := (tells.current claim.1 claim.2).mp claimed
      exact absurd isOpen (closed row member own)

theorem Tells.claimed_iff (tells : table.Tells rows k t) :
    t.current.isSome ↔ ∃ row ∈ rows, table.key row = k ∧ (table.span row).stop = none := by
  constructor
  · intro claimed
    obtain ⟨claim, claimed⟩ := Option.isSome_iff_exists.mp claimed
    obtain ⟨row, member, own, isOpen, -⟩ := (tells.current claim.1 claim.2).mp claimed
    exact ⟨row, member, own, isOpen⟩
  · rintro ⟨row, member, own, isOpen⟩
    rw [tells.current_of_open member own isOpen]
    rfl

omit [LinearOrder P] in
theorem stops_finite : (table.stops rows k).Finite := by
  refine (List.finite_toSet (rows.filterMap fun row => (table.span row).stop)).subset ?_
  rintro stop ⟨row, member, -, ended⟩
  exact List.mem_filterMap.mpr ⟨row, member, ended⟩

theorem Tells.known_iff (tells : table.Tells rows k t) : t.Known ↔ ∃ row ∈ rows, table.key row = k := by
  constructor
  · rintro (claimed | closed)
    · obtain ⟨row, member, own, -⟩ := tells.claimed_iff.mp claimed
      exact ⟨row, member, own⟩
    · obtain ⟨r, closed⟩ := Option.isSome_iff_exists.mp closed
      obtain ⟨⟨row, member, own, -⟩, -⟩ := (tells.released r).mp closed
      exact ⟨row, member, own⟩
  · rintro ⟨row, member, own⟩
    cases ended : (table.span row).stop with
    | none => exact Or.inl (tells.claimed_iff.mpr ⟨row, member, own, ended⟩)
    | some stop =>
        have nonempty : (table.stops rows k).Nonempty := ⟨stop, row, member, own, ended⟩
        obtain ⟨last, isStop, greatest⟩ := Set.exists_max_image _ id stops_finite nonempty
        have closed := (tells.released last).mpr ⟨isStop, greatest⟩
        exact Or.inr (closed ▸ rfl)

theorem Tells.holder_after (tells : table.Tells rows k t) (dated : table.Dated now rows) (vacant : t.current = none)
    {x : P} (after : now < x) : t.holder x = none := by
  cases held : t.holder x with
  | none => rfl
  | some holder =>
      obtain ⟨row, member, own, covers, -⟩ := (tells.holder x holder).mpr held
      exact absurd (dated.covers_early member (tells.closed_of_vacant vacant member own) covers) (not_lt.mpr after.le)

theorem Dated.mono (dated : table.Dated now rows) {later : P} (le : now ≤ later) : table.Dated later rows :=
  ⟨dated.apart, fun row member stop closed => (dated.before row member stop closed).trans_le le⟩

theorem Dated.append (dated : table.Dated now rows) (row : α) (isOpen : (table.span row).stop = none)
    (from_now : now ≤ (table.span row).start)
    (closed : ∀ other ∈ rows, table.key other = table.key row → (table.span other).stop ≠ none) :
    table.Dated now (rows ++ [row]) where
  apart := dated.apart.append fun other member same => by
    obtain ⟨stop, ended⟩ := Option.ne_none_iff_exists'.mp (closed other member same)
    exact Lifespan.apart_of_lt ended ((dated.before other member stop ended).trans_le from_now)
  before := by
    intro other member stop ended
    rcases List.mem_append.mp member with before | new
    · exact dated.before other before stop ended
    · rw [List.mem_singleton.mp new, isOpen] at ended
      cases ended

theorem Dated.ended (dated : table.Dated now rows) {isHeld : α → Bool} {later : P} (closes : table.Closes now cut)
    (held : ∀ row, isHeld row → (table.span row).stop = none) (lt : now < later) :
    table.Dated later (rows.map fun row => if isHeld row then cut row else row) where
  apart := by
    have span : ∀ row, table.span (if isHeld row then cut row else row) =
        if isHeld row then (table.span row).closeAt now else table.span row := by
      intro row
      split
      · rename_i holds
        exact closes.span row (held row holds)
      · rfl
    refine dated.apart.map _ (fun row => ?_) fun a b apart => ?_
    · split
      · exact closes.key row
      · rfl
    · rw [span, span]
      split
      · split
        · exact ((apart.closeAt_left _).symm.closeAt_left _).symm
        · exact apart.closeAt_left _
      · split
        · exact (apart.symm.closeAt_left _).symm
        · exact apart
  before := by
    intro row member stop closed
    obtain ⟨before, inRows, rfl⟩ := List.mem_map.mp member
    split at closed
    · rename_i holds
      rw [stop_closed closes (held before holds)] at closed
      cases closed
      exact lt
    · exact (dated.before before inRows stop closed).trans lt

theorem Dated.handOn (dated : table.Dated now rows) {handOn : α → α} {heir : β} {moves : α → Bool}
    (handsOn : table.HandsOn handOn heir) : table.Dated now (rows.map fun row => if moves row then handOn row else row) := by
  have same : ∀ row, table.key (if moves row then handOn row else row) = table.key row ∧
      table.span (if moves row then handOn row else row) = table.span row := by
    intro row
    split
    · exact ⟨handsOn.key row, handsOn.span row⟩
    · exact ⟨rfl, rfl⟩
  constructor
  · refine dated.apart.map _ (fun row => (same row).1) fun a b apart => ?_
    rw [(same a).2, (same b).2]
    exact apart
  · intro row member stop closed
    obtain ⟨before, inRows, rfl⟩ := List.mem_map.mp member
    rw [(same before).2] at closed
    exact dated.before before inRows stop closed

end Reading

section Taking

theorem Tells.take (tells : table.Tells rows k t) (row : α) (own : table.key row = k)
    (isOpen : (table.span row).stop = none) (vacant : t.current = none)
    (after : ∀ x holder, table.HeldBy rows k x holder → x < (table.span row).start) :
    table.Tells (rows ++ [row]) k (t.take (table.holder row) (table.span row).start) where
  holder := by
    intro x holder
    have added : table.HeldBy (rows ++ [row]) k x holder ↔
        table.HeldBy rows k x holder ∨ (table.span row).start ≤ x ∧ table.holder row = holder := by
      simp only [HeldBy, List.mem_append, List.mem_singleton, or_and_right, exists_or, exists_eq_left, own, true_and,
        covers_of_open isOpen]
    unfold Tenure.take
    rw [added]
    dsimp only
    split
    · rename_i started
      rw [Option.some_inj]
      constructor
      · rintro (before | ⟨-, same⟩)
        · exact absurd (after x holder before) (not_lt.mpr started)
        · exact same
      · exact fun same => Or.inr ⟨started, same⟩
    · rename_i early
      rw [← tells.holder]
      exact or_iff_left fun ⟨started, _⟩ => early started
  current := by
    intro holder start
    unfold Tenure.take
    simp only [Option.some_inj, Prod.mk.injEq, List.mem_append, List.mem_singleton, or_and_right, exists_or,
      exists_eq_left]
    constructor
    · rintro ⟨holder, place⟩
      exact Or.inr ⟨own, isOpen, holder, place⟩
    · rintro (⟨other, member, isOwn, otherOpen, -⟩ | ⟨-, -, holder, place⟩)
      · exact absurd otherOpen (tells.closed_of_vacant vacant member isOwn)
      · exact ⟨holder, place⟩
  released := by
    intro r
    have stops : table.stops (rows ++ [row]) k = table.stops rows k := by
      refine Set.ext fun stop => ⟨?_, ?_⟩
      · rintro ⟨other, member, isOwn, ended⟩
        rcases List.mem_append.mp member with before | new
        · exact ⟨other, before, isOwn, ended⟩
        · rw [List.mem_singleton.mp new, isOpen] at ended
          cases ended
      · rintro ⟨other, member, isOwn, ended⟩
        exact ⟨other, List.mem_append_left _ member, isOwn, ended⟩
    rw [stops]
    exact tells.released r

end Taking

section Closing
variable {isHeld drop : α → Bool}

def closeRows (cut : α → α) (isHeld drop : α → Bool) (rows : List α) : List α :=
  (rows.filter fun row => !(isHeld row && drop row)).map fun row => if isHeld row then cut row else row

theorem closeRows_keep (cut : α → α) (isHeld : α → Bool) (rows : List α) :
    closeRows cut isHeld (fun _ => false) rows = rows.map fun row => if isHeld row then cut row else row := by
  unfold closeRows
  rw [List.filter_eq_self.mpr fun _ _ => by rw [Bool.and_false, Bool.not_false]]

theorem mem_closeRows {row : α} : row ∈ closeRows cut isHeld drop rows ↔ (row ∈ rows ∧ isHeld row = false) ∨
    ∃ before ∈ rows, isHeld before = true ∧ drop before = false ∧ row = cut before := by
  unfold closeRows
  rw [List.mem_map]
  constructor
  · rintro ⟨before, member, rfl⟩
    obtain ⟨inRows, kept⟩ := List.mem_filter.mp member
    cases holds : isHeld before with
    | true => exact Or.inr ⟨before, inRows, holds, by simpa [holds] using kept, by simp⟩
    | false => exact Or.inl ⟨by simpa [holds] using inRows, by simp [holds]⟩
  · rintro (⟨inRows, unheld⟩ | ⟨before, inRows, holds, kept, rfl⟩)
    · exact ⟨row, List.mem_filter.mpr ⟨inRows, by simp [unheld]⟩, by simp [unheld]⟩
    · exact ⟨before, List.mem_filter.mpr ⟨inRows, by simp [kept]⟩, by simp [holds]⟩

variable (closes : table.Closes now cut)

include closes

omit [LinearOrder P] in
theorem mem_closeRows_other {row : α} (unheld : ∀ other ∈ rows, table.key other = table.key row → isHeld other = false) :
    row ∈ closeRows cut isHeld drop rows ↔ row ∈ rows := by
  refine mem_closeRows.trans ⟨?_, fun member => Or.inl ⟨member, unheld row member rfl⟩⟩
  rintro (⟨member, -⟩ | ⟨before, member, holds, -, rfl⟩)
  · exact member
  · rw [unheld before member (closes.key before).symm] at holds
    cases holds

theorem Tells.closeRows_other (tells : table.Tells rows k t)
    (unheld : ∀ row ∈ rows, table.key row = k → isHeld row = false) :
    table.Tells (closeRows cut isHeld drop rows) k t :=
  tells.of_same fun _ own => mem_closeRows_other closes fun other member same => unheld other member (same.trans own)

variable (dated : table.Dated now rows) (held : ∀ row, isHeld row → (table.span row).stop = none)
  (early : ∀ row ∈ rows, drop row → now < (table.span row).start)
  {row : α} (member : row ∈ rows) (own : table.key row = k) (holdsIt : isHeld row = true)

include dated held member own holdsIt

theorem stops_closeRows : table.stops (closeRows cut isHeld drop rows) k =
    if drop row then table.stops rows k else insert now (table.stops rows k) := by
  have unheld : ∀ other : α, (∃ stop, (table.span other).stop = some stop) → isHeld other = false := by
    rintro other ⟨stop, ended⟩
    rw [← Bool.not_eq_true]
    intro holds
    rw [held other holds] at ended
    cases ended
  have kept : ∀ stop ∈ table.stops rows k, stop ∈ table.stops (closeRows cut isHeld drop rows) k := by
    rintro stop ⟨other, inRows, isOwn, ended⟩
    exact ⟨other, mem_closeRows.mpr (Or.inl ⟨inRows, unheld other ⟨stop, ended⟩⟩), isOwn, ended⟩
  have origin : ∀ stop ∈ table.stops (closeRows cut isHeld drop rows) k,
      stop ∈ table.stops rows k ∨ drop row = false ∧ stop = now := by
    rintro stop ⟨other, inNext, isOwn, ended⟩
    rcases mem_closeRows.mp inNext with ⟨inRows, -⟩ | ⟨before, inRows, holds, keptBefore, rfl⟩
    · exact Or.inl ⟨other, inRows, isOwn, ended⟩
    · rw [stop_closed closes (held before holds)] at ended
      cases ended
      have same : table.key before = table.key row := ((closes.key before).symm.trans isOwn).trans own.symm
      rw [dated.one_open inRows member same (held before holds) (held row holdsIt)] at keptBefore
      exact Or.inr ⟨keptBefore, rfl⟩
  refine Set.ext fun stop => ?_
  cases drops : drop row with
  | true =>
      rw [if_pos rfl]
      refine ⟨fun inNext => (origin stop inNext).resolve_right fun ⟨keeps, _⟩ => ?_, kept stop⟩
      rw [drops] at keeps
      cases keeps
  | false =>
      rw [if_neg Bool.false_ne_true, Set.mem_insert_iff]
      refine ⟨fun inNext => ((origin stop inNext).imp_right And.right).symm, ?_⟩
      rintro (rfl | before)
      · exact ⟨cut row, mem_closeRows.mpr (Or.inr ⟨row, member, holdsIt, drops, rfl⟩), (closes.key row).trans own,
          stop_closed closes (held row holdsIt)⟩
      · exact kept stop before

include early

theorem heldBy_closeRows (x : P) (holder : β) : table.HeldBy (closeRows cut isHeld drop rows) k x holder ↔
    x ≤ now ∧ table.HeldBy rows k x holder := by
  constructor
  · rintro ⟨other, inNext, isOwn, covers, holds⟩
    rcases mem_closeRows.mp inNext with ⟨inRows, unheld⟩ | ⟨before, inRows, isHeldBefore, -, rfl⟩
    · refine ⟨?_, other, inRows, isOwn, covers, holds⟩
      by_cases isOpen : (table.span other).stop = none
      · rw [dated.one_open inRows member (isOwn.trans own.symm) isOpen (held row holdsIt), holdsIt] at unheld
        cases unheld
      · exact (dated.covers_early inRows isOpen covers).le
    · obtain ⟨covered, upTo⟩ := (covers_closed closes (held before isHeldBefore) x).mp covers
      exact ⟨upTo, before, inRows, (closes.key before).symm.trans isOwn, covered, (closes.holder before).symm.trans holds⟩
  · rintro ⟨upTo, other, inRows, isOwn, covers, holds⟩
    cases isHeldOther : isHeld other with
    | false => exact ⟨other, mem_closeRows.mpr (Or.inl ⟨inRows, isHeldOther⟩), isOwn, covers, holds⟩
    | true =>
        have isOpen := held other isHeldOther
        have kept : drop other = false := by
          rw [← Bool.not_eq_true]
          exact fun drops => absurd ((covers_of_open isOpen x).mp covers) (not_le.mpr (upTo.trans_lt (early other inRows drops)))
        exact ⟨cut other, mem_closeRows.mpr (Or.inr ⟨other, inRows, isHeldOther, kept, rfl⟩),
          (closes.key other).trans isOwn, (covers_closed closes isOpen x).mpr ⟨covers, upTo⟩,
          (closes.holder other).trans holds⟩

theorem Tells.closeRows_held (tells : table.Tells rows k t) : table.Tells (closeRows cut isHeld drop rows) k
    { holder := fun x => if now < x then none else t.holder x
      current := none
      released := if drop row then t.released else some now } where
  holder := by
    intro x holder
    rw [heldBy_closeRows closes dated held early member own holdsIt, tells.holder]
    dsimp only
    split
    · rename_i after
      exact iff_of_false (fun upTo => absurd upTo.1 (not_le.mpr after)) nofun
    · rename_i upTo
      exact and_iff_right (not_lt.mp upTo)
  current := by
    intro holder start
    refine iff_of_false nofun ?_
    rintro ⟨other, inNext, isOwn, isOpen, -⟩
    rcases mem_closeRows.mp inNext with ⟨inRows, unheld⟩ | ⟨before, -, holds, -, rfl⟩
    · rw [dated.one_open inRows member (isOwn.trans own.symm) isOpen (held row holdsIt), holdsIt] at unheld
      cases unheld
    · rw [stop_closed closes (held before holds)] at isOpen
      cases isOpen
  released := by
    intro r
    rw [stops_closeRows closes dated held member own holdsIt]
    cases drop row with
    | true => exact tells.released r
    | false =>
        rw [if_neg Bool.false_ne_true, if_neg Bool.false_ne_true, Option.some_inj]
        have greatest : IsGreatest (insert now (table.stops rows k)) now := by
          refine ⟨Set.mem_insert _ _, ?_⟩
          rintro stop (rfl | ⟨other, inRows, -, ended⟩)
          · exact le_rfl
          · exact (dated.before other inRows stop ended).le
        exact ⟨fun same => same ▸ greatest, fun other => greatest.unique other⟩

end Closing

section Closed
variable {isHeld : α → Bool}

theorem Tells.close (tells : table.Tells rows k t) (closes : table.Closes now cut) (dated : table.Dated now rows)
    (held : ∀ row, isHeld row → (table.span row).stop = none)
    (all : ∀ row ∈ rows, table.key row = k → (table.span row).stop = none → isHeld row) :
    table.Tells (rows.map fun row => if isHeld row then cut row else row) k (t.close now) := by
  rw [← closeRows_keep]
  unfold Tenure.close
  cases claimed : t.current with
  | none =>
      have same : (⟨fun x => if now < x then none else t.holder x, none, t.released⟩ : Tenure P β) = t := by
        have holder : (fun x => if now < x then none else t.holder x) = t.holder := by
          funext x
          split
          · rename_i after
            exact (tells.holder_after dated claimed after).symm
          · rfl
        rw [holder, ← claimed]
      rw [Option.isSome_none, if_neg Bool.false_ne_true, same]
      refine tells.closeRows_other closes fun row member own => ?_
      rw [← Bool.not_eq_true]
      exact fun holds => tells.closed_of_vacant claimed member own (held row holds)
  | some claim =>
      obtain ⟨row, member, own, isOpen, -⟩ := (tells.current claim.1 claim.2).mp claimed
      have undropped : ∀ row ∈ rows, (fun _ : α => false) row → now < (table.span row).start := by
        intro _ _ drops
        cases drops
      exact tells.closeRows_held closes dated held undropped member own (all row member own isOpen)

theorem Tells.relist (tells : table.Tells rows k t) (closes : table.Closes now cut) (dated : table.Dated now rows)
    (held : ∀ row, isHeld row → (table.span row).stop = none) {listed : Bool} {value : Option β} {added : List α}
    (dropping : ∀ row ∈ rows, table.key row = k → (table.span row).stop = none → (isHeld row ↔ listed = false))
    (fresh : ∀ row ∈ added, table.key row = k → (table.span row) = ⟨now, none⟩ ∧ value = some (table.holder row))
    (single : ∀ row ∈ added, ∀ other ∈ added, table.key row = k → table.key other = k → row = other)
    (adding : (∃ row ∈ added, table.key row = k) ↔ listed = true ∧ t.current = none ∧ value.isSome) :
    table.Tells ((rows.map fun row => if isHeld row then cut row else row) ++ added) k (t.relist now listed value) := by
  have without : ¬ (listed = true ∧ t.current = none ∧ value.isSome) → ∀ {kept : List α} {u : Tenure P β},
      table.Tells kept k u → table.Tells (kept ++ added) k u := by
    intro none kept u told
    refine told.of_same fun row own => List.mem_append.trans (or_iff_left fun new => ?_)
    exact none (adding.mp ⟨row, new, own⟩)
  unfold Tenure.relist
  cases listed with
  | false =>
      rw [if_neg Bool.false_ne_true]
      refine without (fun both => Bool.false_ne_true both.1) (tells.close closes dated held ?_)
      exact fun row member own isOpen => (dropping row member own isOpen).mpr rfl
  | true =>
      have kept : table.Tells (rows.map fun row => if isHeld row then cut row else row) k t := by
        rw [← closeRows_keep]
        refine tells.closeRows_other closes fun row member own => ?_
        rw [← Bool.not_eq_true]
        exact fun holds => Bool.false_ne_true ((dropping row member own (held row holds)).mp holds).symm
      rw [if_pos rfl]
      cases claimed : t.current with
      | some claim => exact without (fun ⟨_, vacant, _⟩ => nomatch claimed.symm.trans vacant) kept
      | none =>
          rw [Option.isSome_none, if_neg Bool.false_ne_true]
          cases known : value with
          | none =>
              refine without ?_ kept
              rintro ⟨-, -, some⟩
              rw [known] at some
              cases some
          | some v =>
              obtain ⟨row, new, own⟩ := adding.mpr ⟨rfl, claimed, by rw [known]; rfl⟩
              obtain ⟨span, holder⟩ := fresh row new own
              obtain rfl : v = table.holder row := Option.some.inj (known.symm.trans holder)
              have taken := kept.take row own (by rw [span]) claimed ?_
              · rw [span] at taken
                refine taken.of_same fun other isOwn => ?_
                rw [List.mem_append, List.mem_append, List.mem_singleton]
                exact or_congr_right ⟨fun inAdded => single other inAdded row new isOwn own, fun same => same ▸ new⟩
              · intro x other heldBy
                obtain ⟨earlier, member, isOwn, covers, -⟩ := (tells.holder x other).mpr ((kept.holder x other).mp heldBy)
                rw [span]
                exact dated.covers_early member (tells.closed_of_vacant claimed member isOwn) covers

variable {drop : α → Bool} {leaves : β → Bool}

theorem Tells.leaveIf (tells : table.Tells rows k t) (closes : table.Closes now cut) (dated : table.Dated now rows)
    (held : ∀ row, isHeld row → (table.span row).stop = none)
    (leaving : ∀ row ∈ rows, table.key row = k → (table.span row).stop = none → (isHeld row ↔ leaves (table.holder row)))
    (early : ∀ row ∈ rows, drop row ↔ now < (table.span row).start) :
    table.Tells (closeRows cut isHeld drop rows) k (t.leaveIf leaves now) := by
  unfold Tenure.leaveIf
  cases claimed : t.current with
  | none =>
      refine tells.closeRows_other closes fun row member own => ?_
      rw [← Bool.not_eq_true]
      exact fun holds => tells.closed_of_vacant claimed member own (held row holds)
  | some claim =>
      obtain ⟨holder, start⟩ := claim
      obtain ⟨row, member, own, isOpen, rfl, rfl⟩ := (tells.current holder start).mp claimed
      rw [Option.any_some]
      by_cases leave : leaves (table.holder row)
      · rw [if_pos leave]
        have closed := tells.closeRows_held closes dated held (fun row member => (early row member).mp) member own
          ((leaving row member own isOpen).mpr leave)
        unfold Tenure.leave
        rw [claimed, Option.any_some]
        by_cases drops : drop row
        · rw [if_pos drops] at closed
          rw [if_neg (by simpa using (early row member).mp drops)]
          exact closed
        · rw [if_neg drops] at closed
          have started : (table.span row).start ≤ now := not_lt.mp fun after => drops ((early row member).mpr after)
          rw [if_pos (decide_eq_true started)]
          exact closed
      · rw [if_neg leave]
        refine tells.closeRows_other closes fun other inRows isOther => ?_
        rw [← Bool.not_eq_true]
        intro holds
        have same := dated.one_open inRows member (isOther.trans own.symm) (held other holds) isOpen
        exact leave (same ▸ (leaving other inRows isOther (held other holds)).mp holds)

end Closed

section HandingOn
variable {handOn : α → α} {heir : β} {moves : α → Bool}

omit [LinearOrder P] in
theorem mem_map_other {row : α} (keeps : ∀ other, table.key (handOn other) = table.key other)
    (still : ∀ other ∈ rows, table.key other = table.key row → moves other = false) :
    (row ∈ rows.map fun row => if moves row then handOn row else row) ↔ row ∈ rows := by
  rw [List.mem_map]
  constructor
  · rintro ⟨before, member, rfl⟩
    split
    · rename_i moved
      rw [if_pos moved, keeps] at still
      rw [still before member rfl] at moved
      cases moved
    · exact member
  · intro member
    refine ⟨row, member, if_neg ?_⟩
    rw [still row member rfl]
    exact Bool.false_ne_true

variable (handsOn : table.HandsOn handOn heir) (dated : table.Dated now rows)
  (moving : ∀ row ∈ rows, table.key row = k → (moves row ↔ (table.span row).stop = none))

include handsOn dated moving

theorem mem_handOn {row : α} (member : row ∈ rows) (own : table.key row = k) (isOpen : (table.span row).stop = none)
    (other : α) (isOwn : table.key other = k) : (other ∈ rows.map fun row => if moves row then handOn row else row) ↔
      other = handOn row ∨ other ∈ rows ∧ other ≠ row := by
  rw [List.mem_map]
  constructor
  · rintro ⟨before, inRows, rfl⟩
    have isOwnBefore : table.key before = k := by
      split at isOwn
      · exact (handsOn.key before).symm.trans isOwn
      · exact isOwn
    split
    · rename_i moved
      have beforeOpen := (moving before inRows isOwnBefore).mp moved
      exact Or.inl (congrArg _ (dated.one_open inRows member (isOwnBefore.trans own.symm) beforeOpen isOpen))
    · rename_i stays
      exact Or.inr ⟨inRows, fun same => stays ((moving before inRows isOwnBefore).mpr (same ▸ isOpen))⟩
  · rintro (rfl | ⟨inRows, differs⟩)
    · exact ⟨row, member, if_pos ((moving row member own).mpr isOpen)⟩
    · refine ⟨other, inRows, if_neg fun moved => differs ?_⟩
      exact dated.one_open inRows member (isOwn.trans own.symm) ((moving other inRows isOwn).mp moved) isOpen

section Row
variable {row : α} (member : row ∈ rows) (own : table.key row = k) (isOpen : (table.span row).stop = none)

include member own isOpen

theorem stops_handOn : table.stops (rows.map fun row => if moves row then handOn row else row) k = table.stops rows k := by
  have mem := mem_handOn handsOn dated moving member own isOpen
  refine Set.ext fun stop => ⟨?_, ?_⟩
  · rintro ⟨other, inMap, isOwn, ended⟩
    rcases (mem other isOwn).mp inMap with rfl | ⟨inRows, -⟩
    · rw [handsOn.span, isOpen] at ended
      cases ended
    · exact ⟨other, inRows, isOwn, ended⟩
  · rintro ⟨other, inRows, isOwn, ended⟩
    refine ⟨other, (mem other isOwn).mpr (Or.inr ⟨inRows, ?_⟩), isOwn, ended⟩
    rintro rfl
    rw [isOpen] at ended
    cases ended

theorem heldBy_handOn (x : P) (holder : β) :
    table.HeldBy (rows.map fun row => if moves row then handOn row else row) k x holder ↔
      if (table.span row).start ≤ x then heir = holder else table.HeldBy rows k x holder := by
  have mem := mem_handOn handsOn dated moving member own isOpen
  split
  · rename_i started
    constructor
    · rintro ⟨other, inMap, isOwn, covers, rfl⟩
      rcases (mem other isOwn).mp inMap with rfl | ⟨inRows, differs⟩
      · exact (handsOn.holder row).symm
      · exact absurd ((covers_of_open isOpen x).mpr started)
          ((dated.apart.apart_of_ne inRows member differs (isOwn.trans own.symm)).disjoint x covers)
    · rintro rfl
      have movedOwn : table.key (handOn row) = k := (handsOn.key row).trans own
      refine ⟨handOn row, (mem _ movedOwn).mpr (Or.inl rfl), movedOwn, ?_, handsOn.holder row⟩
      rw [handsOn.span]
      exact (covers_of_open isOpen x).mpr started
  · rename_i early
    constructor
    · rintro ⟨other, inMap, isOwn, covers, holds⟩
      rcases (mem other isOwn).mp inMap with rfl | ⟨inRows, -⟩
      · rw [handsOn.span] at covers
        exact absurd ((covers_of_open isOpen x).mp covers) early
      · exact ⟨other, inRows, isOwn, covers, holds⟩
    · rintro ⟨other, inRows, isOwn, covers, holds⟩
      refine ⟨other, (mem other isOwn).mpr (Or.inr ⟨inRows, ?_⟩), isOwn, covers, holds⟩
      rintro rfl
      exact early ((covers_of_open isOpen x).mp covers)

theorem open_handOn (holder : β) (start : P) :
    (∃ other ∈ rows.map fun row => if moves row then handOn row else row, table.key other = k ∧
      (table.span other).stop = none ∧ table.holder other = holder ∧ (table.span other).start = start) ↔
        heir = holder ∧ (table.span row).start = start := by
  have mem := mem_handOn handsOn dated moving member own isOpen
  constructor
  · rintro ⟨other, inMap, isOwn, otherOpen, rfl, rfl⟩
    rcases (mem other isOwn).mp inMap with rfl | ⟨inRows, differs⟩
    · exact ⟨(handsOn.holder row).symm, (congrArg Lifespan.start (handsOn.span row)).symm⟩
    · exact absurd (dated.one_open inRows member (isOwn.trans own.symm) otherOpen isOpen) differs
  · rintro ⟨rfl, rfl⟩
    have movedOwn : table.key (handOn row) = k := (handsOn.key row).trans own
    refine ⟨handOn row, (mem _ movedOwn).mpr (Or.inl rfl), movedOwn, ?_, handsOn.holder row,
      congrArg Lifespan.start (handsOn.span row)⟩
    rw [handsOn.span]
    exact isOpen

end Row

theorem Tells.pass (tells : table.Tells rows k t) :
    table.Tells (rows.map fun row => if moves row then handOn row else row) k (t.pass heir) := by
  unfold Tenure.pass
  cases claimed : t.current with
  | none =>
      refine tells.of_same fun row own => mem_map_other handsOn.key fun other inRows same => ?_
      rw [← Bool.not_eq_true]
      exact fun moved => tells.closed_of_vacant claimed inRows (same.trans own)
        ((moving other inRows (same.trans own)).mp moved)
  | some claim =>
      obtain ⟨holder, start⟩ := claim
      obtain ⟨row, member, own, isOpen, rfl, rfl⟩ := (tells.current holder start).mp claimed
      unfold Tenure.take
      refine ⟨fun x owner => ?_, fun owner start => ?_, fun r => ?_⟩
      · rw [heldBy_handOn handsOn dated moving member own isOpen, tells.holder]
        dsimp only
        split
        · rw [Option.some_inj]
        · exact Iff.rfl
      · rw [open_handOn handsOn dated moving member own isOpen, Option.some_inj, Prod.mk.injEq]
      · rw [stops_handOn handsOn dated moving member own isOpen]
        exact tells.released r

end HandingOn

end Temporal
end Relational
