import Dispatch.Proofs.Grounding.ScheduledConditions

/-!
The order of a schedule is the stable sort of its conditions by the last slot that they mention.
Each position has a stretch of that order, one after the other, with the conditions that can be
checked there for the first time; the last also has those that mention a slot which no position
binds.
-/

namespace Dispatch

-----------------------------------------------------------------------------------------
-- Lists sorted by a key
-----------------------------------------------------------------------------------------

section

variable {α : Type} {key : α → Nat} {elements : List α}

/-- The elements of one key after the other, for the keys below a bound. -/
def byKey (key : α → Nat) (elements : List α) (bound : Nat) : List α :=
  (List.range bound).flatMap fun value => elements.filter (key · = value)

/-- Elements that are sorted by a key stand before those of a greater key, by induction on them. -/
theorem filter_le_eq_append (sorted : elements.Pairwise (key · ≤ key ·)) (bound : Nat)
    : elements.filter (key · ≤ bound)
      = elements.filter (key · < bound) ++ elements.filter (key · = bound) := by
  induction sorted with
  | nil => rfl
  | @cons element rest least _ ih =>
      by_cases small : key element < bound
      · simp [small, Nat.le_of_lt small, Nat.ne_of_lt small, ih]
      · -- The first element is not below the bound, so no other is.
        have empty : rest.filter (key · < bound) = [] := by
          refine List.filter_eq_nil_iff.mpr fun other member => ?_
          have above := least other member
          simp only [decide_eq_true_eq]
          omega
        rw [empty, List.nil_append] at ih
        have same : key element ≤ bound ↔ key element = bound := by omega
        simp [List.filter_cons, small, empty, same, ih]

/-- A sorted list has the elements of one key after the other, by induction on the bound that the
keys lie below.
-/
theorem filter_lt_eq_byKey (sorted : elements.Pairwise (key · ≤ key ·)) (bound : Nat)
    : elements.filter (key · < bound) = byKey key elements bound := by
  induction bound with
  | zero => simp [byKey]
  | succ bound ih =>
      rw [byKey, List.range_succ, List.flatMap_append, List.flatMap_singleton, ← byKey, ← ih,
        ← filter_le_eq_append sorted]
      simp only [Nat.lt_succ_iff]

/-- Whether the keys allow an element to stand before another. -/
def keyLe (key : α → Nat) (one other : α) : Bool := key one ≤ key other

theorem keyLe_trans (one middle other : α) (first : keyLe key one middle = true)
    (second : keyLe key middle other = true)
    : keyLe key one other = true :=
  decide_eq_true (Nat.le_trans (of_decide_eq_true first) (of_decide_eq_true second))

theorem keyLe_total (one other : α) : (keyLe key one other || keyLe key other one) = true := by
  simpa [keyLe] using Nat.le_total (key one) (key other)

/-- Sorting keeps the order of the elements of one key, since the sort is stable and these are
sorted already.
-/
theorem filter_mergeSort (elements : List α) (value : Nat)
    : (elements.mergeSort (keyLe key)).filter (key · = value)
      = elements.filter (key · = value) := by
  have alike : (elements.filter (key · = value)).Pairwise (keyLe key · · = true) := by
    refine List.pairwise_of_forall_mem_list fun one oneMember other otherMember => ?_
    have first : key one = value := of_decide_eq_true (List.mem_filter.mp oneMember).2
    have second : key other = value := of_decide_eq_true (List.mem_filter.mp otherMember).2
    exact decide_eq_true (Nat.le_of_eq (first.trans second.symm))
  have kept := (List.sublist_mergeSort keyLe_trans keyLe_total alike List.filter_sublist).filter
    (key · = value)
  rw [List.filter_filter] at kept
  simp only [Bool.and_self] at kept
  refine (kept.eq_of_length ?_).symm
  exact ((List.mergeSort_perm elements _).filter _).length_eq.symm

/-- The elements of one key after the other are the elements, stably sorted by their keys: both
lists are sorted, and have the same elements of each key in the same order.
-/
theorem byKey_eq_mergeSort {bound : Nat} (below : ∀ element ∈ elements, key element < bound)
    : byKey key elements bound = elements.mergeSort (keyLe key) := by
  have sorted : (elements.mergeSort (keyLe key)).Pairwise (key · ≤ key ·) :=
    (List.pairwise_mergeSort keyLe_trans keyLe_total elements).imp of_decide_eq_true
  calc byKey key elements bound
      = byKey key (elements.mergeSort (keyLe key)) bound := by
        simp only [byKey, filter_mergeSort]
    _ = (elements.mergeSort (keyLe key)).filter (key · < bound) :=
        (filter_lt_eq_byKey sorted bound).symm
    _ = elements.mergeSort (keyLe key) := by
        refine List.filter_eq_self.mpr fun element member => ?_
        simpa using below element (List.mem_mergeSort.mp member)

end

-----------------------------------------------------------------------------------------
-- The last slot of a condition
-----------------------------------------------------------------------------------------

namespace Expr

/-- The last slot that the expression mentions, zero where it mentions none. -/
def lastSlot (expr : Expr) : Nat := expr.slots.max?.getD 0

/-- The last slot, or the number of positions where none of them binds that slot. -/
def rank (positions : Nat) (expr : Expr) : Nat := min expr.lastSlot positions

/-- The last slot that an expression mentions lies at or before a position where all of its slots
do; an expression without slots counts as one that mentions the first.
-/
theorem lastSlot_le_iff {expr : Expr} {position : Nat}
    : expr.lastSlot ≤ position ↔ ∀ slot ∈ expr.slots, slot ≤ position := by
  unfold lastSlot
  cases last : expr.slots.max? with
  | none =>
      rw [List.max?_eq_none_iff.mp last]
      simp
  | some slot => exact List.max?_le_iff last

/-- At a position of a search an expression is applicable where its last slot is bound, and its rank
tells that; the greatest rank is that of expressions that no position binds.
-/
theorem isApplicable_le_iff {expr : Expr} {positions position : Nat} (below : position < positions)
    : expr.isApplicable (· ≤ position) = true ↔ expr.rank positions ≤ position := by
  have bounded : expr.rank positions ≤ position ↔ expr.lastSlot ≤ position := by
    unfold rank
    omega
  rw [bounded, lastSlot_le_iff, isApplicable_iff]
  simp only [mem_slots_iff, decide_eq_true_eq]

end Expr

namespace Schedule

-----------------------------------------------------------------------------------------
-- Conditions of a position
-----------------------------------------------------------------------------------------

theorem rank_le (condition : Expr) (positions : Nat) : condition.rank positions ≤ positions :=
  Nat.min_le_right _ _

/-- The conditions that are ready at a position are those of its rank, where those of lower ranks
are no longer pending; the others have a greater rank.
-/
theorem partition_pending {positions position : Nat} (below : position < positions)
    {pending : List Expr} (waiting : ∀ condition ∈ pending, position ≤ condition.rank positions)
    : pending.partition (·.isApplicable (· ≤ position))
      = (pending.filter (·.rank positions = position),
          pending.filter (position < ·.rank positions)) := by
  rw [List.partition_eq_filter_filter]
  congr 1
  all_goals
    refine List.filter_congr fun condition member => ?_
    have least := waiting condition member
    have ready := @Expr.isApplicable_le_iff condition positions position below
  · rw [Bool.eq_iff_iff, ready, decide_eq_true_iff]
    omega
  · rw [Function.comp, Bool.eq_iff_iff, Bool.not_eq_true', ← Bool.not_eq_true, ready,
      decide_eq_true_iff]
    omega

/-- The buckets from a position on hold the pending conditions of each rank, and the last also those
of the greatest; by induction on the number of positions left.
-/
theorem bucketsFrom_eq {positions position count : Nat} (last : position + count + 1 = positions)
    {pending : List Expr} (waiting : ∀ condition ∈ pending, position ≤ condition.rank positions)
    : bucketsFrom position (count + 1) pending
      = (List.range' position count).map (fun rank => pending.filter (·.rank positions = rank))
        ++ [pending.filter (·.rank positions = position + count)
          ++ pending.filter (·.rank positions = positions)] := by
  induction count generalizing position pending with
  | zero =>
      have later
          : pending.filter (position < ·.rank positions)
            = pending.filter (·.rank positions = positions) := by
        refine List.filter_congr fun condition _ => decide_eq_decide.mpr ?_
        have greatest := rank_le condition positions
        omega
      rw [bucketsFrom, partition_pending (by omega) waiting, later]
      rfl
  | succ count ih =>
      have later {rank : Nat} (greater : position < rank)
          : (pending.filter (position < ·.rank positions)).filter (·.rank positions = rank)
            = pending.filter (·.rank positions = rank) := by
        rw [List.filter_filter]
        refine List.filter_congr fun condition _ => ?_
        rw [← Bool.decide_and]
        refine decide_eq_decide.mpr ?_
        omega
      have others := @ih (position + 1) (by omega) (pending.filter (position < ·.rank positions))
        fun condition member => of_decide_eq_true (List.mem_filter.mp member).2
      have classes
          : (List.range' (position + 1) count).map (fun rank =>
              (pending.filter (position < ·.rank positions)).filter (·.rank positions = rank))
            = (List.range' (position + 1) count).map fun rank =>
              pending.filter (·.rank positions = rank) :=
        List.map_congr_left fun rank member => later (by
          have := (List.mem_range'_1.mp member).1
          omega)
      rw [classes, later (by omega), later (by omega), Nat.add_assoc, Nat.add_comm 1] at others
      rw [bucketsFrom, partition_pending (by omega) waiting, List.range'_succ]
      dsimp only
      rw [others]
      rfl

section

variable {conditions : List Expr} {positions : Nat}

/-- The loop over the positions leaves one bucket for each rank but the greatest, whose conditions
stand behind those of the last position. At the start nothing has been taken, so every condition is
pending.
-/
theorem bucketsFrom_zero
    : bucketsFrom 0 (max positions 1) conditions
      = (List.range (max positions 1 - 1)).map
          (fun rank => conditions.filter (·.rank (max positions 1) = rank))
        ++ [conditions.filter (·.rank (max positions 1) = max positions 1 - 1)
          ++ conditions.filter (·.rank (max positions 1) = max positions 1)] := by
  have positive : max positions 1 = max positions 1 - 1 + 1 := by omega
  have buckets := @bucketsFrom_eq (max positions 1) 0 (max positions 1 - 1) (by omega) conditions
    fun _ _ => Nat.zero_le _
  rw [← positive, Nat.zero_add, ← List.range_eq_range'] at buckets
  exact buckets

/-- The order has the conditions of one rank after the other, those of the greatest rank at its end.
-/
theorem order_eq_byKey
    : (ofConditions conditions positions).order
      = byKey (Expr.rank (max positions 1)) conditions (max positions 1 + 1) := by
  have positive : max positions 1 = max positions 1 - 1 + 1 := by omega
  rw [ofConditions_eq_ofBuckets, order_ofBuckets, bucketsFrom_zero, byKey, List.range_succ,
    List.flatMap_append]
  conv_rhs => rw [positive, List.range_succ, List.flatMap_append]
  rw [← positive]
  simp [List.flatMap]

/-- A position before the last has the conditions of its rank, in the order in which they were
given.
-/
theorem conditionsAt_of_lt {position : Nat} (early : position + 1 < max positions 1)
    : (ofConditions conditions positions).conditionsAt position
      = conditions.filter (·.rank (max positions 1) = position) := by
  have below : position < max positions 1 - 1 := by omega
  rw [ofConditions_eq_ofBuckets, conditionsAt_ofBuckets, bucketsFrom_zero,
    List.getElem?_append_left (by simpa using below), List.getElem?_map, List.getElem?_range below]
  rfl

/-- The last position has the conditions of its rank, and behind them those that no position binds.
-/
theorem conditionsAt_last
    : (ofConditions conditions positions).conditionsAt (max positions 1 - 1)
      = conditions.filter (·.rank (max positions 1) = max positions 1 - 1)
        ++ conditions.filter (·.rank (max positions 1) = max positions 1) := by
  rw [ofConditions_eq_ofBuckets, conditionsAt_ofBuckets, bucketsFrom_zero,
    List.getElem?_append_right (by simp)]
  simp

end

-----------------------------------------------------------------------------------------
-- Ranges of an order
-----------------------------------------------------------------------------------------

/-- Ranges that follow one another from a start to a stop. -/
def Consecutive (start : Nat) : List (Nat × Nat) → Nat → Prop
  | [], stop => start = stop
  | (first, next) :: rest, stop => first = start ∧ first ≤ next ∧ Consecutive next rest stop

theorem length_rangesFrom (start : Nat) (buckets : List (List Expr))
    : (rangesFrom start buckets).length = buckets.length := by
  induction buckets generalizing start with
  | nil => rfl
  | cons bucket rest ih => rw [rangesFrom, List.length_cons, ih, List.length_cons]

/-- The ranges of buckets follow one another to the end of the last, by induction on the buckets. -/
theorem consecutive_rangesFrom (start : Nat) (buckets : List (List Expr))
    : Consecutive start (rangesFrom start buckets) (start + buckets.flatten.length) := by
  induction buckets generalizing start with
  | nil => rfl
  | cons bucket rest ih =>
      refine ⟨rfl, Nat.le_add_right _ _, ?_⟩
      rw [List.flatten_cons, List.length_append, ← Nat.add_assoc]
      exact ih _

-----------------------------------------------------------------------------------------
-- The order as a stable sort
-----------------------------------------------------------------------------------------

/-- A position binds all that a condition reads when it mentions no later slot. -/
def Bound (position : Nat) (condition : Expr) : Prop := ∀ slot ∈ condition.slots, slot ≤ position

/-- A schedule that is the stable sort of conditions by their ranks over some positions. -/
structure SortedByRank (conditions : List Expr) (positions : Nat) (schedule : Schedule)
    : Prop where
  order_eq : schedule.order = conditions.mergeSort (keyLe (Expr.rank positions))
  perm : schedule.order.Perm conditions
  count : schedule.ranges.length = positions
  consecutive : Consecutive 0 schedule.ranges conditions.length
  /-- A range has the conditions of its position. -/
  held (position : Nat) (range : Nat × Nat) (found : schedule.ranges[position]? = some range)
    : schedule.order.extract range.1 range.2 = schedule.conditionsAt position
  early (position : Nat) (before : position + 1 < positions)
    : schedule.conditionsAt position = conditions.filter (·.rank positions = position)
  last
    : schedule.conditionsAt (positions - 1)
      = conditions.filter (·.rank positions = positions - 1)
        ++ conditions.filter (·.rank positions = positions)
  /-- A condition is at the first position that binds it, or at the last if none does. -/
  placed (position : Nat) (condition : Expr) (member : condition ∈ schedule.conditionsAt position)
    : (∀ earlier < position, ¬Bound earlier condition)
      ∧ (Bound position condition
        ∨ position + 1 = positions ∧ ∀ other < positions, ¬Bound other condition)

theorem bound_iff_rank_le {condition : Expr} {positions position : Nat}
    (below : position < positions)
    : Bound position condition ↔ condition.rank positions ≤ position := by
  unfold Bound Expr.rank
  rw [← Expr.lastSlot_le_iff]
  omega

section

variable {conditions : List Expr} {positions : Nat}

/-- The conditions of a position have its rank, where the last has those of the greatest as well;
beyond the last position there are none.
-/
theorem rank_of_mem_conditionsAt {position : Nat} {condition : Expr}
    (member : condition ∈ (ofConditions conditions positions).conditionsAt position)
    : position < max positions 1
      ∧ (condition.rank (max positions 1) = position
        ∨ position + 1 = max positions 1 ∧ condition.rank (max positions 1) = max positions 1) := by
  rcases Nat.lt_trichotomy (position + 1) (max positions 1) with early | last | beyond
  · rw [conditionsAt_of_lt early, List.mem_filter, decide_eq_true_iff] at member
    exact ⟨by omega, .inl member.2⟩
  · obtain rfl : position = max positions 1 - 1 := by omega
    rw [conditionsAt_last, List.mem_append, List.mem_filter, List.mem_filter, decide_eq_true_iff,
      decide_eq_true_iff] at member
    exact ⟨by omega, member.imp (·.2) fun greatest => ⟨last, greatest.2⟩⟩
  · have missing : (bucketsFrom 0 (max positions 1) conditions)[position]? = none :=
      List.getElem?_eq_none (by rw [bucketsFrom_length]; omega)
    rw [ofConditions_eq_ofBuckets, conditionsAt_ofBuckets, missing] at member
    cases member

/-- A condition stands at the first position that binds it, or at the last one if none does. -/
theorem placed_ofConditions {position : Nat} {condition : Expr}
    (member : condition ∈ (ofConditions conditions positions).conditionsAt position)
    : (∀ earlier < position, ¬Bound earlier condition)
      ∧ (Bound position condition
        ∨ position + 1 = max positions 1
          ∧ ∀ other < max positions 1, ¬Bound other condition) := by
  obtain ⟨below, ranked⟩ := rank_of_mem_conditionsAt member
  constructor
  · intro earlier before bound
    rw [bound_iff_rank_le (Nat.lt_trans before below)] at bound
    omega
  · refine ranked.imp (fun same => ?_) fun greatest => ⟨greatest.1, fun other under bound => ?_⟩
    · exact (bound_iff_rank_le below).mpr (Nat.le_of_eq same)
    · rw [bound_iff_rank_le under] at bound
      omega

end

/-- A schedule over some positions, or over one where none are given, is the stable sort of its
conditions by the last slots they mention, cut into one range for each position.

The ranges follow one another and cover the order, as each is pushed with the bounds between which
its conditions were appended, and the last one is widened over what is appended behind it.
-/
theorem sortedByRank_ofConditions (conditions : List Expr) (positions : Nat)
    : SortedByRank conditions (max positions 1) (ofConditions conditions positions) := by
  have sorted
      : (ofConditions conditions positions).order
        = conditions.mergeSort (keyLe (Expr.rank (max positions 1))) := by
    rw [order_eq_byKey]
    exact byKey_eq_mergeSort fun condition _ => Nat.lt_succ_of_le (rank_le condition _)
  have perm : (ofConditions conditions positions).order.Perm conditions :=
    sorted ▸ List.mergeSort_perm conditions _
  have ranges
      : (ofConditions conditions positions).ranges
        = rangesFrom 0 (bucketsFrom 0 (max positions 1) conditions) := by
    rw [ofConditions_eq_ofBuckets, ranges_ofBuckets]
  refine {
    order_eq := sorted
    perm := perm
    count := by rw [ranges, length_rangesFrom, bucketsFrom_length]
    consecutive := ?_
    held := fun position range found => ?_
    early := fun _ before => conditionsAt_of_lt before
    last := conditionsAt_last
    placed := fun _ _ member => placed_ofConditions member }
  · have stop := consecutive_rangesFrom 0 (bucketsFrom 0 (max positions 1) conditions)
    rw [Nat.zero_add, ← order_ofBuckets, ← ofConditions_eq_ofBuckets, perm.length_eq] at stop
    rw [ranges]
    exact stop
  · rw [conditionsAt, found]

example
    : (ofConditions [.param 5 "late", .param 1 "second", .bool true, .param 0 "first"] 2).order
      = [.bool true, .param 0 "first", .param 1 "second", .param 5 "late"] := rfl

end Schedule

end Dispatch
