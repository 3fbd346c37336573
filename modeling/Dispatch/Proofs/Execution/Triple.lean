import Dispatch.Proofs.Evaluation.EvalFaults

/-!
What a computation on a store makes of a condition: one condition on the store and the result where
it succeeds, another on the store and the reason where it stops early. The rules follow the
operations from which running effects is built; a loop keeps a condition of its own.
-/

namespace Dispatch.Execution

/-- From every store with the first condition, the computation succeeds with the second or stops
early with the third.
-/
def Meets {α : Type} (pre : Store → Prop) (execution : Execution α) (post : α → Store → Prop)
    (fail : Halt → Store → Prop) : Prop :=
  ∀ store, pre store →
    match execution store with
    | .ok value after => post value after
    | .error halt after => fail halt after

namespace Meets

variable {α β : Type} {pre : Store → Prop} {post : α → Store → Prop} {fail : Halt → Store → Prop}

/-- A computation that meets its conditions and runs to the end leaves a store with the condition on
its value.
-/
theorem post_of_ok {execution : Execution α} {value : α} {store after : Store}
    (meets : Meets pre execution post fail) (start : pre store)
    (ran : execution store = .ok value after)
    : post value after := by
  have reached := meets store start
  rwa [ran] at reached

/-- A computation that meets its conditions and stops early leaves a store with the condition on
what stopped it.
-/
theorem fail_of_error {execution : Execution α} {halt : Halt} {store after : Store}
    (meets : Meets pre execution post fail) (start : pre store)
    (ran : execution store = .error halt after)
    : fail halt after := by
  have reached := meets store start
  rwa [ran] at reached

/-- A computation that meets its conditions meets those that are asked for, where it starts from
more than it needs and less of it is wanted in the end.
-/
theorem weaken {stronger : Store → Prop} {weaker : α → Store → Prop} {execution : Execution α}
    (meets : Meets pre execution post fail) (start : ∀ store, stronger store → pre store)
    (finish : ∀ value store, post value store → weaker value store)
    : Meets stronger execution weaker fail := by
  intro store strong
  have reached := meets store (start store strong)
  split at reached
  · exact finish _ _ reached
  · exact reached

/-- A computation that meets two sets of conditions meets both together. It runs once, so the values
and the failures they speak about are the same.
-/
theorem and {otherPre : Store → Prop} {otherPost : α → Store → Prop}
    {otherFail : Halt → Store → Prop} {execution : Execution α}
    (left : Meets pre execution post fail) (right : Meets otherPre execution otherPost otherFail)
    : Meets (fun store => pre store ∧ otherPre store) execution
        (fun value store => post value store ∧ otherPost value store)
        (fun halt store => fail halt store ∧ otherFail halt store) := by
  intro store ⟨start, otherStart⟩
  have reached := left store start
  have otherReached := right store otherStart
  cases ran : execution store with
  | ok value after =>
      rw [ran] at reached otherReached
      exact ⟨reached, otherReached⟩
  | error halt after =>
      rw [ran] at reached otherReached
      exact ⟨reached, otherReached⟩

theorem pure {value : α} (finish : ∀ store, pre store → post value store)
    : Meets pre (Pure.pure value) post fail :=
  finish

/-- A sequence passes through a condition that its first computation meets.

If the first computation stops, the sequence stops there and nothing of the second is run; so both
need the same condition on failures.
-/
theorem bind {mid : β → Store → Prop} {first : Execution β} {next : β → Execution α}
    (start : Meets pre first mid fail)
    (continues : ∀ value, Meets (mid value) (next value) post fail)
    : Meets pre (first >>= next) post fail := by
  intro store holds
  have reached := start store holds
  simp only [Bind.bind, EStateM.bind]
  cases ran : first store with
  | ok value after =>
      rw [ran] at reached
      exact continues value after reached
  | error halt after =>
      rw [ran] at reached
      exact reached

/-- Looking at the store leaves it as it is, so a look meets what is known of the store and of the
value that was found in it.
-/
theorem observe {look : Store → Except EvalError α}
    (fails : ∀ store, pre store → FailsOnly (fun error => fail (.failed error) store) (look store))
    (finds : ∀ store value, pre store → look store = .ok value → post value store)
    : Meets pre (observe look) post fail := by
  intro store holds
  unfold Execution.observe
  cases looked : look store with
  | ok value => exact finds store value holds looked
  | error error => exact fails store holds error looked

/-- Looking at the store keeps a condition under which it fails in permitted ways only. -/
theorem look {look : Store → Except EvalError α}
    (fails : ∀ store, pre store → FailsOnly (fun error => fail (.failed error) store) (look store))
    : Meets pre (Execution.observe look) (fun _ => pre) fail :=
  observe fails fun _ _ holds _ => holds

/-- Looking at the store leaves every condition on it as it is, also where it fails. -/
theorem peek (look : Store → Except EvalError α)
    : Meets pre (Execution.observe look) (fun _ => pre) (fun _ => pre) :=
  .look fun _ holds _ _ => holds

/-- A checked change turns the state into the next one. The check comes before the change, so where
it fails the store is still the one from the start.
-/
theorem change {check : State → Except EvalError Unit} {next : State → State}
    {after : Store → Prop}
    (fails
      : ∀ store, pre store
          → FailsOnly (fun error => fail (.failed error) store) (check store.state))
    (changes
      : ∀ store, pre store → check store.state = .ok ()
          → after { store with state := next store.state })
    : Meets pre (change check next) (fun _ => after) fail := by
  intro store holds
  unfold Execution.change
  cases checked : check store.state with
  | ok => exact changes store holds checked
  | error error => exact fails store holds error checked

theorem modify_bind {step : Store → Store} {mid : Store → Prop} {next : Unit → Execution α}
    (steps : ∀ store, pre store → mid (step store)) (continues : Meets mid (next ()) post fail)
    : Meets pre (modify step >>= next) post fail :=
  fun store holds => continues (step store) (steps store holds)

theorem modify {step : Store → Store} {after : Store → Prop}
    (steps : ∀ store, pre store → after (step store))
    : Meets pre (modify step) (fun _ => after) fail :=
  fun store holds => steps store holds

/-- What follows a look at the whole store may use what is known of it. -/
theorem get_bind {next : Store → Execution α}
    (continues : ∀ seen, Meets (fun store => store = seen ∧ pre store) (next seen) post fail)
    : Meets pre (get >>= next) post fail :=
  fun store holds => continues store store ⟨rfl, holds⟩

/-- A loop over ids keeps a condition when each round brings it back through a condition that holds
while the slot is bound, by induction on the ids.

Ids that are not live any more are passed over, and a round whose test fails runs no body; neither
needs a case of its own, as the condition then holds already.
-/
theorem forIds {schema : Schema} {slot entity : Nat} {test : Execution Bool}
    {body : Execution Unit} {outer inner : Store → Prop}
    (enter : ∀ store id, outer store → inner (store.bind slot (.int id)))
    (tested : Meets inner test (fun _ => inner) fail)
    (run : Meets inner body (fun _ => inner) fail)
    (leave : ∀ store, inner store → outer store) (ids : List Int)
    : Meets outer (forIds schema slot entity test body ids) (fun _ => outer) fail := by
  induction ids with
  | nil => exact pure fun _ kept => kept
  | cons id rest ih =>
      unfold Execution.forIds
      refine get_bind fun seen => ?_
      split
      · refine modify_bind (fun store holds => enter store id holds.2) ?_
        refine bind tested fun passed => ?_
        have again := ih.weaken leave fun _ _ kept => kept
        split
        · exact bind run fun _ => again
        · exact again
      · exact ih.weaken (fun _ holds => holds.2) fun _ _ kept => kept

/-- A loop under a condition keeps what its test and its body keep, by induction on the rounds that
are left. Where there are none left the loop stops as endless.
-/
theorem whileHolds {test : Execution Bool} {body : Execution Unit} {inv : Store → Prop}
    (tested : Meets inv test (fun _ => inv) fail) (run : Meets inv body (fun _ => inv) fail)
    (endless : ∀ store, inv store → fail .endless store) (rounds : Nat)
    : Meets inv (whileHolds test body rounds) (fun _ => inv) fail := by
  induction rounds with
  | zero =>
      unfold Execution.whileHolds
      refine bind tested fun holds => ?_
      split
      · exact fun store kept => endless store kept
      · exact pure fun _ kept => kept
  | succ rounds ih =>
      unfold Execution.whileHolds
      refine bind tested fun holds => ?_
      split
      · exact bind run fun _ => ih
      · exact pure fun _ kept => kept

end Meets

end Dispatch.Execution
