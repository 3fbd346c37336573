import Dispatch.Expr

/-!
Conditions ordered by the parameter position at which they can first be evaluated, so that a search
over parameters checks each as early as possible. The order grows from position to position, and
each position has the bounds of its own conditions in it.
-/

namespace Dispatch

/-- Conditions in the order in which they are checked, and the bounds in it of the conditions of
each parameter position.
-/
structure Schedule where
  order : List Expr
  ranges : List (Nat × Nat)

namespace Schedule

def empty : Schedule := ⟨[], []⟩

/-- The schedule with one more position, whose conditions stand behind those of the others. -/
def addPosition (schedule : Schedule) (conditions : List Expr) : Schedule where
  order := schedule.order ++ conditions
  ranges :=
    schedule.ranges
      ++ [(schedule.order.length, schedule.order.length + conditions.length)]

/-- Schedules pending conditions over a number of positions from the given one on. A position takes
the conditions that mention no later slot, in order, and leaves the others pending; those that no
position took are returned.
-/
def placeFrom (position : Nat)
    : Nat → Schedule → List Expr → Schedule × List Expr
  | 0, schedule, pending => (schedule, pending)
  | count + 1, schedule, pending =>
      let (ready, rest) := pending.partition (·.isApplicable (· ≤ position))
      placeFrom (position + 1) count (schedule.addPosition ready) rest

/-- The schedule with further conditions at its last position, whose range then ends behind them. -/
def extendLast (schedule : Schedule) (conditions : List Expr) : Schedule :=
  if conditions.isEmpty then schedule
  else
    let order := schedule.order ++ conditions
    match schedule.ranges.getLast? with
    | none => ⟨order, []⟩
    | some (start, _) => ⟨order, schedule.ranges.dropLast ++ [(start, order.length)]⟩

/-- The schedule of conditions over a number of positions, of which there is at least one.
Conditions that are pending behind the last position are kept there.
-/
def ofConditions (conditions : List Expr) (positions : Nat) : Schedule :=
  let (schedule, pending) := placeFrom 0 (max positions 1) empty conditions
  schedule.extendLast pending

/-- The conditions of a position, none beyond the last. -/
def conditionsAt (schedule : Schedule) (position : Nat) : List Expr :=
  match schedule.ranges[position]? with
  | some (start, stop) => schedule.order.extract start stop
  | none => []

end Schedule

end Dispatch
