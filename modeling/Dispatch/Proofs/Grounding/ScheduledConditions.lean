import Dispatch.Proofs.Evaluation.StoreDependence
import Mathlib.Data.List.Basic
import Mathlib.Data.List.Induction

/-!
A schedule loses no condition and adds none, and a condition before the last position mentions only
slots that are bound at its position. So the conditions of a position can be checked on a partial
choice of ids as well as on the whole choice. All of this is read off the buckets into which the
loop over the positions sorts the conditions.
-/

namespace Dispatch

namespace Schedule

-----------------------------------------------------------------------------------------
-- Buckets
-----------------------------------------------------------------------------------------

/-- Buckets for a number of positions from the given one on. A bucket takes the pending conditions
that mention no later slot, in order; the last also takes those that are then still pending.
-/
def bucketsFrom (position : Nat) : Nat → List Expr → List (List Expr)
  | 0, _ => []
  | 1, pending =>
      let (ready, rest) := pending.partition (·.isApplicable (· ≤ position))
      [ready ++ rest]
  | count + 2, pending =>
      let (ready, rest) := pending.partition (·.isApplicable (· ≤ position))
      ready :: bucketsFrom (position + 1) (count + 1) rest

/-- The schedule that has one position for each bucket, with the conditions of the bucket. -/
def ofBuckets (buckets : List (List Expr)) : Schedule := buckets.foldl addPosition empty

/-- One more bucket is one more position behind those of the buckets before it. -/
theorem ofBuckets_concat (buckets : List (List Expr)) (bucket : List Expr)
    : ofBuckets (buckets ++ [bucket]) = (ofBuckets buckets).addPosition bucket := by
  rw [ofBuckets, List.foldl_append]
  rfl

/-- The order of a schedule has its buckets one after the other, by induction from the last. -/
theorem order_ofBuckets (buckets : List (List Expr))
    : (ofBuckets buckets).order = buckets.flatten := by
  induction buckets using List.reverseRecOn with
  | nil => rfl
  | append_singleton buckets bucket ih =>
      rw [ofBuckets_concat, addPosition, ih, List.flatten_concat]

/-- The last range of a schedule starts where the order before its last bucket ends, so it is
extended by adding to that bucket.
-/
theorem extendLast_ofBuckets (buckets : List (List Expr)) (bucket more : List Expr)
    : (ofBuckets (buckets ++ [bucket])).extendLast more
      = ofBuckets (buckets ++ [bucket ++ more]) := by
  rw [extendLast]
  split
  · rename_i none
    rw [List.isEmpty_iff.mp none, List.append_nil]
  · simp only [ofBuckets_concat, addPosition, List.getLast?_concat, List.dropLast_concat,
      List.append_assoc, List.length_append]

/-- Placing pending conditions behind buckets, and leaving the rest at the last position, adds a
bucket for each position; by induction on the number of positions, each of which adds one.
-/
theorem extendLast_placeFrom (position count : Nat) (before : List (List Expr))
    (pending : List Expr)
    : (placeFrom position (count + 1) (ofBuckets before) pending).1.extendLast
        (placeFrom position (count + 1) (ofBuckets before) pending).2
      = ofBuckets (before ++ bucketsFrom position (count + 1) pending) := by
  induction count generalizing position before pending with
  | zero =>
      simp only [placeFrom, ← ofBuckets_concat, bucketsFrom]
      exact extendLast_ofBuckets before _ _
  | succ count ih =>
      rw [placeFrom]
      dsimp only
      rw [← ofBuckets_concat, ih, List.append_assoc]
      rfl

/-- The loop over the positions sorts conditions into one bucket for each of them.

The buckets are a view of the schedule and no part of it: the loop keeps an order that grows and
ranges that are pushed, and what is said of positions is proved of the buckets and carried over.
-/
theorem ofConditions_eq_ofBuckets (conditions : List Expr) (positions : Nat)
    : ofConditions conditions positions
      = ofBuckets (bucketsFrom 0 (max positions 1) conditions) := by
  have positive : max positions 1 = max positions 1 - 1 + 1 := by omega
  have placed := extendLast_placeFrom 0 (max positions 1 - 1) [] conditions
  rw [← positive] at placed
  exact placed

/-- The bounds of consecutive buckets in the order, the first of which begins at `start`. -/
def rangesFrom (start : Nat) : List (List Expr) → List (Nat × Nat)
  | [] => []
  | bucket :: rest =>
      (start, start + bucket.length) :: rangesFrom (start + bucket.length) rest

/-- The bounds of buckets in front of another are not changed by it; by induction on them. -/
theorem rangesFrom_concat (start : Nat) (buckets : List (List Expr)) (bucket : List Expr)
    : rangesFrom start (buckets ++ [bucket])
      = rangesFrom start buckets
        ++ [(start + buckets.flatten.length,
          start + buckets.flatten.length + bucket.length)] := by
  induction buckets generalizing start with
  | nil => rfl
  | cons first rest ih =>
      rw [List.cons_append, rangesFrom, ih, rangesFrom, List.flatten_cons, List.length_append]
      simp only [List.cons_append, Nat.add_assoc]

/-- The ranges of a schedule are the bounds of its buckets, by induction from the last. -/
theorem ranges_ofBuckets (buckets : List (List Expr))
    : (ofBuckets buckets).ranges = rangesFrom 0 buckets := by
  induction buckets using List.reverseRecOn with
  | nil => rfl
  | append_singleton buckets bucket ih =>
      rw [ofBuckets_concat, addPosition, ih, order_ofBuckets, rangesFrom_concat, Nat.zero_add]

/-- What stands between the bounds of a bucket is the bucket; by induction on the buckets, where
`before` stands in front of them.
-/
theorem extract_rangesFrom (before : List Expr) (buckets : List (List Expr))
    : (rangesFrom before.length buckets).map
        (fun range => (before ++ buckets.flatten).extract range.1 range.2)
      = buckets := by
  induction buckets generalizing before with
  | nil => rfl
  | cons bucket rest ih =>
      have others := ih (before ++ bucket)
      rw [List.length_append, List.append_assoc] at others
      rw [rangesFrom, List.map_cons, List.flatten_cons, others, List.extract_eq_take_drop,
        List.drop_left, Nat.add_sub_cancel_left, List.take_left]

/-- The conditions of a position are those of its bucket, as the range of a bucket cuts exactly this
bucket out of the order.
-/
theorem conditionsAt_ofBuckets (buckets : List (List Expr)) (position : Nat)
    : (ofBuckets buckets).conditionsAt position = (buckets[position]?).getD [] := by
  have bucket := congrArg (·[position]?) (extract_rangesFrom [] buckets)
  simp only [List.getElem?_map, List.length_nil, List.nil_append] at bucket
  rw [conditionsAt, ranges_ofBuckets, order_ofBuckets, ← bucket]
  cases (rangesFrom 0 buckets)[position]? <;> rfl

-----------------------------------------------------------------------------------------
-- Conditions of the buckets
-----------------------------------------------------------------------------------------

/-- There is one bucket for each position, by induction on the number of positions. -/
theorem bucketsFrom_length (position count : Nat) (pending : List Expr)
    : (bucketsFrom position count pending).length = count := by
  induction count generalizing position pending with
  | zero => rfl
  | succ count ih =>
      cases count with
      | zero => rfl
      | succ count =>
          simp only [bucketsFrom, List.length_cons, Nat.add_right_cancel_iff]
          exact ih (position + 1) _

/-- The buckets together hold the pending conditions and nothing else: each position keeps the ready
ones and passes the others on, and the last position keeps both.
-/
theorem mem_bucketsFrom_flatten (position count : Nat) (pending : List Expr) (condition : Expr)
    : condition ∈ (bucketsFrom position (count + 1) pending).flatten ↔ condition ∈ pending := by
  induction count generalizing position pending with
  | zero =>
      simp only [bucketsFrom, List.partition_eq_filter_filter, List.flatten_cons, List.flatten_nil,
        List.append_nil, List.mem_append, List.mem_filter, Function.comp]
      cases condition.isApplicable (· ≤ position) <;> simp
  | succ count ih =>
      simp only [bucketsFrom, List.partition_eq_filter_filter, List.flatten_cons, List.mem_append,
        List.mem_filter, Function.comp, ih]
      cases condition.isApplicable (· ≤ position) <;> simp

/-- A condition in a bucket before the last is applicable where the slots up to the position of the
bucket are bound.
-/
theorem applicable_of_mem_bucketsFrom {position count index : Nat} {pending bucket : List Expr}
    (found : (bucketsFrom position count pending)[index]? = some bucket)
    (early : index + 1 < count) {condition : Expr} (member : condition ∈ bucket)
    : condition.isApplicable (· ≤ position + index) = true := by
  induction count generalizing position index pending with
  | zero => omega
  | succ count ih =>
      cases count with
      | zero => omega
      | succ count =>
          simp only [bucketsFrom, List.partition_eq_filter_filter] at found
          cases index with
          | zero =>
              simp only [List.getElem?_cons_zero, Option.some.injEq] at found
              subst found
              exact (List.mem_filter.mp member).2
          | succ index =>
              have later := ih (by simpa using found) (by omega)
              simpa only [Nat.add_assoc, Nat.add_comm 1] using later

/-- Scheduling loses no condition and adds none: the order has those that were given. -/
theorem mem_order_ofConditions {conditions : List Expr} {positions : Nat} {condition : Expr}
    : condition ∈ (ofConditions conditions positions).order ↔ condition ∈ conditions := by
  have positive : max positions 1 = (max positions 1 - 1) + 1 := by omega
  rw [ofConditions_eq_ofBuckets, order_ofBuckets, positive]
  exact mem_bucketsFrom_flatten 0 _ conditions condition

/-- The conditions of a position are among those that were given. -/
theorem mem_of_mem_conditionsAt {conditions : List Expr} {positions position : Nat}
    {condition : Expr}
    (member : condition ∈ (ofConditions conditions positions).conditionsAt position)
    : condition ∈ conditions := by
  rw [ofConditions_eq_ofBuckets, conditionsAt_ofBuckets] at member
  cases found : (bucketsFrom 0 (max positions 1) conditions)[position]? with
  | none => simp [found] at member
  | some bucket =>
      simp only [found, Option.getD_some] at member
      have ordered : condition ∈ (ofConditions conditions positions).order := by
        rw [ofConditions_eq_ofBuckets, order_ofBuckets]
        exact List.mem_flatten.mpr ⟨bucket, List.mem_of_getElem? found, member⟩
      exact mem_order_ofConditions.mp ordered

/-- A condition of a position before the last mentions no slot after that position, since there it
was applicable with the slots up to it.
-/
theorem mentions_le_of_mem_conditionsAt {conditions : List Expr} {positions position : Nat}
    (early : position + 1 < positions) {condition : Expr}
    (member : condition ∈ (ofConditions conditions positions).conditionsAt position)
    : ∀ slot ∈ condition.mentions, slot ≤ position := by
  rw [ofConditions_eq_ofBuckets, conditionsAt_ofBuckets] at member
  cases found : (bucketsFrom 0 (max positions 1) conditions)[position]? with
  | none => simp [found] at member
  | some bucket =>
      simp only [found, Option.getD_some] at member
      have applicable := applicable_of_mem_bucketsFrom found (by omega) member
      intro slot mentioned
      simpa using (Expr.isApplicable_iff _ condition).mp applicable slot mentioned

/-- All scheduled conditions pass a test exactly when those of every position do, so that checking
position by position leaves none out.
-/
theorem all_order_iff {conditions : List Expr} {positions : Nat} (positive : 0 < positions)
    (test : Expr → Bool)
    : (ofConditions conditions positions).order.all test = true
      ↔ ∀ position < positions,
          ((ofConditions conditions positions).conditionsAt position).all test = true := by
  have length : (bucketsFrom 0 (max positions 1) conditions).length = positions := by
    rw [bucketsFrom_length]
    omega
  simp only [ofConditions_eq_ofBuckets, order_ofBuckets, conditionsAt_ofBuckets, List.all_flatten,
    List.all_eq_true]
  constructor
  · intro all position below condition member
    rw [← length] at below
    rw [List.getElem?_eq_getElem below, Option.getD_some] at member
    exact all _ (List.getElem_mem below) condition member
  · intro all bucket member condition inside
    obtain ⟨position, below, rfl⟩ := List.getElem_of_mem member
    refine all position (by omega) condition ?_
    rwa [List.getElem?_eq_getElem below, Option.getD_some]

/-- The conditions of a position hold of the ids up to it exactly when they hold of the whole
choice: before the last position they mention none of the other ids, and at the last there are none.
-/
theorem all_conditionsAt_take (schema : Schema) (state : State) (conditions : List Expr)
    (ids : List Int) {position : Nat} (below : position < ids.length)
    : ((ofConditions conditions ids.length).conditionsAt position).all
        (Expr.holds schema ⟨state, .ofIds (ids.take (position + 1))⟩)
      = ((ofConditions conditions ids.length).conditionsAt position).all
          (Expr.holds schema ⟨state, .ofIds ids⟩) := by
  by_cases last : position + 1 = ids.length
  · rw [last, List.take_length]
  · rw [Bool.eq_iff_iff, List.all_eq_true, List.all_eq_true]
    refine forall₂_congr fun condition member => ?_
    rw [Expr.holds_congr]
    intro slot mentioned
    have small := mentions_le_of_mem_conditionsAt (by omega) member slot mentioned
    rw [Bindings.get?_ofIds, Bindings.get?_ofIds, List.getElem?_take_of_lt (by omega)]

end Schedule

end Dispatch
