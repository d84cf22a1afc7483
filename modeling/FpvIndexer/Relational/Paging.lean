import FpvIndexer.Relational.Query

namespace Relational
variable {α β κ : Type} [LinearOrder κ] (key : α → κ)

def pageOf (limit page : Nat) (rows : List α) : List α := (rows.drop (page * limit)).take limit

structure Orders (rows ordered : List α) : Prop where
  perm : ordered.Perm rows
  sorted : ordered.Pairwise fun a b => key a ≤ key b

/-- No page ends between rows that share a key and differ in what is shown of them. -/
def TiesTogether (shown : α → β) (limit : Nat) (rows : List α) : Prop :=
  ∀ a ∈ rows, ∀ b ∈ rows, key a = key b → shown a ≠ shown b →
    ∀ page, ¬ (rows.countP (key · < key a) < page * limit ∧ page * limit < rows.countP (key · ≤ key a))

theorem tiesTogether_map {γ : Type} (f : γ → α) (shown : α → β) (limit : Nat) (rows : List γ) :
    TiesTogether key shown limit (rows.map f) ↔ TiesTogether (key ∘ f) (shown ∘ f) limit rows := by
  simp only [TiesTogether, List.forall_mem_map, List.countP_map, Function.comp_def]

theorem orders_orderBy (rows : List α) : Orders key rows (orderBy key rows) :=
  ⟨orderBy_perm key rows, orderBy_sorted key rows⟩

section Orders
variable {key} {rows ordered other : List α}

theorem countP_le_key (k : κ) (rows : List α) :
    rows.countP (key · ≤ k) = rows.countP (key · < k) + rows.countP (key · = k) := by
  induction rows with
  | nil => rfl
  | cons row rest ih =>
      rw [List.countP_cons, List.countP_cons, List.countP_cons, ih]
      rcases lt_trichotomy (key row) k with below | same | above
      · simp only [below, below.le, below.ne, decide_true, decide_false, if_true, Bool.false_eq_true, if_false]
        omega
      · simp only [same, le_refl, lt_irrefl, decide_true, decide_false, if_true, Bool.false_eq_true, if_false]
        omega
      · simp only [above.not_ge, above.not_gt, above.ne', decide_false, Bool.false_eq_true, if_false, Nat.add_zero]

theorem Orders.split (orders : Orders key rows ordered) (k : κ) :
    ordered = ordered.filter (key · < k) ++ (ordered.filter (key · = k) ++ ordered.filter (k < key ·)) := by
  have front := eq_filter_append_filter (fun row => key row < k) orders.sorted fun a b le below =>
    decide_eq_true (le.trans_lt (of_decide_eq_true below))
  have back := eq_filter_append_filter (fun row => key row ≤ k) (orders.sorted.filter fun row => !decide (key row < k))
    fun a b le below => decide_eq_true (le.trans (of_decide_eq_true below))
  rw [List.filter_filter, List.filter_filter] at back
  have tied : ordered.filter (fun row => decide (key row ≤ k) && !decide (key row < k)) = ordered.filter (key · = k) := by
    apply List.filter_congr
    intro row _
    rcases lt_trichotomy (key row) k with below | same | above
    · simp [below, below.ne]
    · simp [same]
    · simp [above.not_ge, above.ne']
  have after : ordered.filter (fun row => !decide (key row ≤ k) && !decide (key row < k)) = ordered.filter (k < key ·) := by
    apply List.filter_congr
    intro row _
    rcases le_or_gt (key row) k with within | above
    · simp [within, within.not_gt]
    · simp [above, above.le]
  rwa [back, tied, after] at front

theorem Orders.retie (orders : Orders key rows ordered) (k : κ) {tied : List α}
    (perm : tied.Perm (ordered.filter (key · = k))) :
    Orders key rows (ordered.filter (key · < k) ++ (tied ++ ordered.filter (k < key ·))) := by
  constructor
  · apply List.Perm.trans _ orders.perm
    conv_rhs => rw [orders.split k]
    exact (perm.append_right _).append_left _
  · have same : ∀ row ∈ tied, key row = k := fun row member =>
      of_decide_eq_true (List.mem_filter.mp (perm.mem_iff.mp member)).2
    have below : ∀ row ∈ ordered.filter (key · < k), key row < k := fun row member =>
      of_decide_eq_true (List.mem_filter.mp member).2
    have above : ∀ row ∈ ordered.filter (k < key ·), k < key row := fun row member =>
      of_decide_eq_true (List.mem_filter.mp member).2
    refine List.pairwise_append.mpr ⟨orders.sorted.filter _, ?_, ?_⟩
    · refine List.pairwise_append.mpr ⟨?_, orders.sorted.filter _, ?_⟩
      · exact List.pairwise_of_forall_mem_list fun a ha b hb => ((same a ha).trans (same b hb).symm).le
      · exact fun a ha b hb => (same a ha).trans_le (above b hb).le
    · intro a ha b hb
      rcases List.mem_append.mp hb with inTied | after
      · exact (below a ha).le.trans_eq (same b inTied).symm
      · exact (below a ha).le.trans (above b after).le

theorem Orders.take (orders : Orders key rows ordered) {k : κ} {count : Nat}
    (after : rows.countP (key · < k) ≤ count) (upTo : count ≤ rows.countP (key · ≤ k)) :
    ordered.take count =
      ordered.filter (key · < k) ++ (ordered.filter (key · = k)).take (count - rows.countP (key · < k)) := by
  have front : (ordered.filter (key · < k)).length = rows.countP (key · < k) := by
    rw [← List.countP_eq_length_filter, orders.perm.countP_eq]
  have tied : count - rows.countP (key · < k) ≤ (ordered.filter (key · = k)).length := by
    rw [← List.countP_eq_length_filter, orders.perm.countP_eq]
    have counts : rows.countP (key · ≤ k) = rows.countP (key · < k) + rows.countP (key · = k) := countP_le_key k rows
    omega
  conv_lhs => rw [orders.split k]
  rw [List.take_append, front, List.take_of_length_le (front.trans_le after), List.take_append_of_le_length tied]

theorem exists_split_at {count : Nat} (within : count < rows.length) :
    ∃ front row back, rows = front ++ row :: back ∧ front.length = count := by
  refine ⟨rows.take count, rows[count], rows.drop (count + 1), ?_, List.length_take_of_le within.le⟩
  rw [← List.drop_eq_getElem_cons within, List.take_append_drop]

theorem Orders.exists_key_at (orders : Orders key rows ordered) {count : Nat} (within : count < rows.length) :
    ∃ row ∈ rows, rows.countP (key · < key row) ≤ count ∧ count < rows.countP (key · ≤ key row) := by
  rw [← orders.perm.length_eq] at within
  obtain ⟨front, row, back, rfl, length⟩ := exists_split_at within
  obtain ⟨-, sortedBack, across⟩ := List.pairwise_append.mp orders.sorted
  have before : ∀ other ∈ front, key other ≤ key row := fun other member => across other member row List.mem_cons_self
  have after : ∀ other ∈ row :: back, ¬ key other < key row := by
    intro other member
    rcases List.mem_cons.mp member with rfl | later
    · exact lt_irrefl _
    · exact ((List.pairwise_cons.mp sortedBack).1 other later).not_gt
  refine ⟨row, orders.perm.mem_iff.mp (by simp), ?_, ?_⟩
  · rw [← orders.perm.countP_eq, List.countP_append,
      List.countP_eq_zero.mpr fun other member below => after other member (of_decide_eq_true below)]
    exact List.countP_le_length.trans_eq length
  · rw [← orders.perm.countP_eq, List.countP_append,
      List.countP_eq_length.mpr fun other member => decide_eq_true (before other member), length]
    simp

end Orders

section Pages
variable {key} {shown : α → β} {rows ordered other : List α} {limit : Nat}

theorem take_shown_perm (together : TiesTogether key shown limit rows) (orders : Orders key rows ordered)
    (others : Orders key rows other) (page : Nat) :
    ((ordered.take (page * limit)).map shown).Perm ((other.take (page * limit)).map shown) := by
  rcases Nat.lt_or_ge (page * limit) rows.length with within | all
  · obtain ⟨row, member, after, upTo⟩ := orders.exists_key_at within
    rw [orders.take after upTo.le, others.take after upTo.le, List.map_append, List.map_append]
    have perm : ordered.Perm other := orders.perm.trans others.perm.symm
    apply List.Perm.append ((perm.filter _).map shown)
    rcases after.eq_or_lt with start | inside
    · rw [start, Nat.sub_self]
      exact List.Perm.refl _
    -- the page ends among rows that share a key, and these look alike
    · have alike : ∀ a ∈ rows, key a = key row → shown a = shown row := by
        intro a tied same
        by_contra differ
        apply together a tied row member same differ page
        rw [same]
        exact ⟨inside, upTo⟩
      have constant : ∀ {ordered}, Orders key rows ordered → (ordered.filter (key · = key row)).map shown =
          List.replicate (rows.countP (key · = key row)) (shown row) := by
        intro ordered orders
        rw [List.eq_replicate_iff, List.length_map, ← List.countP_eq_length_filter, orders.perm.countP_eq]
        refine ⟨rfl, ?_⟩
        intro value found
        obtain ⟨a, tied, rfl⟩ := List.mem_map.mp found
        obtain ⟨inOrder, same⟩ := List.mem_filter.mp tied
        exact alike a (orders.perm.mem_iff.mp inOrder) (of_decide_eq_true same)
      rw [List.map_take, List.map_take, constant orders, constant others]
  · rw [List.take_of_length_le (orders.perm.length_eq ▸ all), List.take_of_length_le (others.perm.length_eq ▸ all)]
    exact (orders.perm.trans others.perm.symm).map shown

theorem take_succ_page (page : Nat) (rows : List α) :
    rows.take ((page + 1) * limit) = rows.take (page * limit) ++ pageOf limit page rows := by
  rw [Nat.succ_mul, List.take_add, pageOf]

theorem page_shown_perm (together : TiesTogether key shown limit rows) (orders : Orders key rows ordered)
    (others : Orders key rows other) (page : Nat) :
    ((pageOf limit page ordered).map shown).Perm ((pageOf limit page other).map shown) := by
  have next := take_shown_perm together orders others (page + 1)
  rw [take_succ_page, take_succ_page, List.map_append, List.map_append] at next
  have before := take_shown_perm together orders others page
  exact (List.perm_append_left_iff _).mp (next.trans (before.symm.append_right _))

def shownPages (shown : α → β) (limit pages : Nat) (orders : Nat → List α) : List β :=
  (List.range pages).flatMap fun page => (pageOf limit page (orders page)).map shown

theorem shownPages_const {pages : Nat} (enough : rows.length ≤ pages * limit) (orders : Orders key rows ordered) :
    (shownPages shown limit pages fun _ => ordered).Perm (rows.map shown) := by
  have whole : shownPages shown limit pages (fun _ => ordered) = ordered.map shown := by
    unfold shownPages pageOf
    rw [← List.map_flatMap, flatMap_pages, List.take_of_length_le (orders.perm.length_eq ▸ enough)]
  rw [whole]
  exact orders.perm.map shown

theorem shownPages_perm {pages : Nat} (enough : rows.length ≤ pages * limit)
    (together : TiesTogether key shown limit rows) {orders : Nat → List α}
    (allowed : ∀ page, Orders key rows (orders page)) :
    (shownPages shown limit pages orders).Perm (rows.map shown) := by
  refine List.Perm.trans ?_ (shownPages_const enough (orders_orderBy key rows))
  exact List.Perm.flatMap_left _ fun page _ => page_shown_perm together (allowed page) (orders_orderBy key rows) page

theorem exists_perm_pair {a b : α} (inA : a ∈ rows) (inB : b ∈ rows) (differ : a ≠ b) :
    ∃ rest, (a :: b :: rest).Perm rows := by
  obtain ⟨front, back, rfl⟩ := List.append_of_mem inA
  have inRest : b ∈ front ++ back := by
    rcases List.mem_append.mp inB with before | after
    · exact List.mem_append_left _ before
    · exact List.mem_append_right _ (List.mem_of_ne_of_mem differ.symm after)
  obtain ⟨left, right, split⟩ := List.append_of_mem inRest
  refine ⟨left ++ right, List.Perm.trans (List.Perm.cons a ?_) List.perm_middle.symm⟩
  rw [split]
  exact List.perm_middle.symm

theorem exists_orders_across {a b : α} (inA : a ∈ rows) (inB : b ∈ rows) (same : key a = key b) (differ : a ≠ b)
    {cut : Nat} (after : rows.countP (key · < key a) < cut) (upTo : cut < rows.countP (key · ≤ key a)) :
    ∃ front back, front.length + 1 = cut ∧ Orders key rows (front ++ a :: b :: back) ∧
      Orders key rows (front ++ b :: a :: back) := by
  have sorted := orders_orderBy key rows
  have tiedA : a ∈ (orderBy key rows).filter (key · = key a) :=
    List.mem_filter.mpr ⟨(mem_orderBy key).mpr inA, decide_eq_true rfl⟩
  have tiedB : b ∈ (orderBy key rows).filter (key · = key a) :=
    List.mem_filter.mpr ⟨(mem_orderBy key).mpr inB, decide_eq_true same.symm⟩
  obtain ⟨rest, perm⟩ := exists_perm_pair tiedA tiedB differ
  have before : ((orderBy key rows).filter (key · < key a)).length = rows.countP (key · < key a) := by
    rw [← List.countP_eq_length_filter, sorted.perm.countP_eq]
  have tied : rest.length + 2 = rows.countP (key · = key a) := by
    rw [← sorted.perm.countP_eq, List.countP_eq_length_filter, ← perm.length_eq]
    rfl
  have counts : rows.countP (key · ≤ key a) = rows.countP (key · < key a) + rows.countP (key · = key a) :=
    countP_le_key (key a) rows
  let skipped := cut - rows.countP (key · < key a) - 1
  have placed : ∀ first second, (first :: second :: rest).Perm ((orderBy key rows).filter (key · = key a)) →
      Orders key rows (((orderBy key rows).filter (key · < key a) ++ rest.take skipped) ++ first :: second ::
        (rest.drop skipped ++ (orderBy key rows).filter (key a < key ·))) := by
    intro first second perm
    have moved : (rest.take skipped ++ first :: second :: rest.drop skipped).Perm (first :: second :: rest) := by
      conv_rhs => rw [← List.take_append_drop skipped rest]
      exact List.perm_middle.trans (List.Perm.cons first List.perm_middle)
    simpa using sorted.retie (key a) (moved.trans perm)
  refine ⟨_, _, ?_, placed a b perm, placed b a ((List.Perm.swap a b rest).trans perm)⟩
  rw [List.length_append, before, List.length_take_of_le (by omega)]
  omega

theorem pageOf_across {page : Nat} {front back : List α} {last : α} (first : α) (limit_pos : 1 ≤ limit)
    (length : front.length + 1 = page * limit) :
    pageOf limit page (front ++ last :: first :: back) = first :: back.take (limit - 1) := by
  have split : front ++ last :: first :: back = (front ++ [last]) ++ first :: back := by simp
  rw [pageOf, split, List.drop_left' (by simpa using length)]
  cases limit with
  | zero => cases limit_pos
  | succ limit => rfl

theorem page_perm_of_shownPages {pages page : Nat} {orders others : Nat → List α} (onPage : page < pages)
    (elsewhere : ∀ other, other ≠ page → orders other = others other)
    (perm : (shownPages shown limit pages orders).Perm (shownPages shown limit pages others)) :
    ((pageOf limit page (orders page)).map shown).Perm ((pageOf limit page (others page)).map shown) := by
  obtain ⟨earlier, later, split⟩ := List.append_of_mem (List.mem_range.mpr onPage)
  have nodup : (earlier ++ page :: later).Nodup := split ▸ List.nodup_range
  have apart := List.nodup_middle.mp nodup
  rw [List.nodup_cons, List.mem_append, not_or] at apart
  have same : ∀ listed : List Nat, page ∉ listed →
      listed.flatMap (fun other => (pageOf limit other (orders other)).map shown) =
        listed.flatMap fun other => (pageOf limit other (others other)).map shown := by
    intro listed absent
    apply List.flatMap_congr
    intro other member
    rw [elsewhere other fun equal => absent (equal ▸ member)]
  unfold shownPages at perm
  rw [split, List.flatMap_append, List.flatMap_append, List.flatMap_cons, List.flatMap_cons, same earlier apart.1.1,
    same later apart.1.2] at perm
  exact (List.perm_append_right_iff _).mp ((List.perm_append_left_iff _).mp perm)

/-- The pages show every row once, whatever the orders, exactly if no page ends between rows that tie. -/
theorem shownPages_perm_iff {pages : Nat} (limit_pos : 1 ≤ limit) (enough : rows.length ≤ pages * limit) :
    (∀ orders, (∀ page, Orders key rows (orders page)) →
      (shownPages shown limit pages orders).Perm (rows.map shown)) ↔ TiesTogether key shown limit rows := by
  constructor
  · intro always a inA b inB same differ page across
    have distinct : a ≠ b := fun equal => differ (congrArg shown equal)
    obtain ⟨front, back, length, first, second⟩ := exists_orders_across inA inB same distinct across.1 across.2
    have onPage : page < pages :=
      Nat.lt_of_mul_lt_mul_right (across.2.trans_le (List.countP_le_length.trans enough))
    -- every page but this one comes from the first order, this one from the second
    let orders := fun other => if other = page then front ++ b :: a :: back else front ++ a :: b :: back
    have allowed : ∀ other, Orders key rows (orders other) := by
      intro other
      unfold orders
      split
      · exact second
      · exact first
    have mixed := (always orders allowed).trans (always (fun _ => front ++ a :: b :: back) fun _ => first).symm
    have onThis := page_perm_of_shownPages onPage (fun other elsewhere => if_neg elsewhere) mixed
    rw [if_pos rfl, pageOf_across a limit_pos length, pageOf_across b limit_pos length, List.map_cons, List.map_cons] at onThis
    have heads := (List.perm_append_right_iff _).mp (show ([shown a] ++ (back.take (limit - 1)).map shown).Perm
      ([shown b] ++ (back.take (limit - 1)).map shown) from onThis)
    exact differ (List.singleton_perm_singleton.mp heads)
  · exact fun together orders allowed => shownPages_perm enough together allowed

end Pages

end Relational
