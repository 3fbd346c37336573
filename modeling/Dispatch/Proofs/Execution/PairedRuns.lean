import Dispatch.Action

/-!
Two runs of one computation from stores that are related: both succeed with the same result, in
stores that are again related, or both stop early for the same reason. The rules follow the
operations from which running effects is built; a loop keeps a relation of its own.
-/

namespace Dispatch.Execution

/-- From any two stores in the first relation, the computation succeeds with one result and stores
in the second relation, or stops early for one reason.
-/
def Alike {α : Type} (before : Store → Store → Prop) (execution : Execution α)
    (after : Store → Store → Prop) : Prop :=
  ∀ left right, before left right →
    match execution left, execution right with
    | .ok value nextLeft, .ok other nextRight => value = other ∧ after nextLeft nextRight
    | .error halt _, .error other _ => halt = other
    | _, _ => False

namespace Alike

variable {α β : Type} {before after : Store → Store → Prop}

/-- A computation that runs alike from related stores does so from stores that are related more
closely, and they are then related more loosely too.
-/
theorem weaken {stronger weaker : Store → Store → Prop} {execution : Execution α}
    (alike : Alike before execution after)
    (start : ∀ left right, stronger left right → before left right)
    (finish : ∀ left right, after left right → weaker left right)
    : Alike stronger execution weaker := by
  intro left right strong
  have reached := alike left right (start left right strong)
  split at reached
  · exact ⟨reached.1, finish _ _ reached.2⟩
  · exact reached
  · exact reached.elim

/-- A computation that gives a value at once gives the same one from all stores, and leaves them
related as they were.
-/
theorem pure {value : α} (keeps : ∀ left right, before left right → after left right)
    : Alike before (Pure.pure value) after :=
  fun left right related => ⟨rfl, keeps left right related⟩

/-- A sequence passes through a relation that its first computation reaches. From related stores the
first computation has one value, so what follows it is one computation.
-/
theorem bind {mid : Store → Store → Prop} {first : Execution β} {next : β → Execution α}
    (start : Alike before first mid) (continues : ∀ value, Alike mid (next value) after)
    : Alike before (first >>= next) after := by
  intro left right related
  have reached := start left right related
  simp only [Bind.bind, EStateM.bind]
  cases ranLeft : first left with
  | ok value nextLeft =>
      cases ranRight : first right with
      | ok other nextRight =>
          simp only [ranLeft, ranRight] at reached
          obtain ⟨rfl, related⟩ := reached
          exact continues value nextLeft nextRight related
      | error halt nextRight => simp only [ranLeft, ranRight] at reached
  | error halt nextLeft =>
      cases ranRight : first right with
      | ok other nextRight => simp only [ranLeft, ranRight] at reached
      | error other nextRight => simpa only [ranLeft, ranRight] using reached

/-- Related stores that look the same are seen alike. -/
theorem observe {look : Store → Except EvalError α}
    (same : ∀ left right, before left right → look left = look right)
    : Alike before (observe look) before := by
  intro left right related
  simp only [Execution.observe, same left right related]
  cases look right with
  | ok value => exact ⟨rfl, related⟩
  | error error => rfl

/-- A change that is allowed alike keeps a relation that the new states bring back; where it is
refused, it is refused from both stores for the same reason.
-/
theorem change {check : State → Except EvalError Unit} {next : State → State}
    (same : ∀ left right, before left right → check left.state = check right.state)
    (changes
      : ∀ left right : Store, before left right
          → after { left with state := next left.state } { right with state := next right.state })
    : Alike before (change check next) after := by
  intro left right related
  simp only [Execution.change, same left right related]
  cases check right.state with
  | ok => exact ⟨trivial, changes left right related⟩
  | error error => rfl

/-- A modification that brings the relation back runs alike, as it never fails. -/
theorem modify {step : Store → Store}
    (steps : ∀ left right, before left right → after (step left) (step right))
    : Alike before (modify step) after :=
  fun left right related => ⟨rfl, steps left right related⟩

/-- What follows a look at the whole store is one computation where it does the same for related
stores.
-/
theorem get_bind {next : Store → Execution α}
    (same : ∀ left right, before left right → next left = next right)
    (continues : ∀ seen, Alike before (next seen) after)
    : Alike before (get >>= next) after := by
  intro left right related
  have reached := continues left left right related
  change match next left left, next right right with
    | .ok value nextLeft, .ok other nextRight => value = other ∧ after nextLeft nextRight
    | .error halt _, .error other _ => halt = other
    | _, _ => False
  rw [← same left right related]
  exact reached

/-- A loop over ids runs alike when related stores have the same live ids and each round brings the
relation back through one that holds while the slot is bound, by induction on the ids.
-/
theorem forIds {schema : Schema} {slot entity : Nat} {test : Execution Bool}
    {body : Execution Unit} {outer inner : Store → Store → Prop}
    (live
      : ∀ left right id, outer left right
          → left.state.hasId schema entity id = right.state.hasId schema entity id)
    (enter
      : ∀ left right id, outer left right
          → inner (left.bind slot (.int id)) (right.bind slot (.int id)))
    (tested : Alike inner test inner) (run : Alike inner body inner)
    (leave : ∀ left right, inner left right → outer left right) (ids : List Int)
    : Alike outer (forIds schema slot entity test body ids) outer := by
  induction ids with
  | nil => exact pure fun _ _ related => related
  | cons id rest ih =>
      have again : Alike inner (Execution.forIds schema slot entity test body rest) outer :=
        ih.weaken leave fun _ _ related => related
      unfold Execution.forIds
      refine get_bind (fun left right related => by rw [live left right id related]) fun seen => ?_
      split
      · refine bind (modify fun left right related => enter left right id related) fun _ => ?_
        refine bind tested fun passed => ?_
        split
        · exact bind run fun _ => again
        · exact again
      · exact ih

/-- A loop under a condition runs alike when its test and its body do, by induction on the rounds:
it goes on from both stores, or ends from both, or is endless from both.
-/
theorem whileHolds {test : Execution Bool} {body : Execution Unit}
    {inv : Store → Store → Prop} (tested : Alike inv test inv) (run : Alike inv body inv)
    (rounds : Nat)
    : Alike inv (whileHolds test body rounds) inv := by
  induction rounds with
  | zero =>
      unfold Execution.whileHolds
      refine bind tested fun holds => ?_
      split
      · exact fun _ _ _ => rfl
      · exact pure fun _ _ related => related
  | succ rounds ih =>
      unfold Execution.whileHolds
      refine bind tested fun holds => ?_
      split
      · exact bind run fun _ => ih
      · exact pure fun _ _ related => related

/-- Finished runs from related stores have the same result, in states of related stores, or the same
reason for stopping early.
-/
theorem finish {execution : Execution α} {left right : State} {leftSlots rightSlots : Bindings}
    (alike : Alike before execution after) (start : before ⟨left, leftSlots⟩ ⟨right, rightSlots⟩)
    : (∃ halt, (execution.finish left leftSlots).2 = .error halt
          ∧ (execution.finish right rightSlots).2 = .error halt)
      ∨ ∃ value nextLeft nextRight, after nextLeft nextRight
          ∧ execution.finish left leftSlots = (nextLeft.state, .ok value)
          ∧ execution.finish right rightSlots = (nextRight.state, .ok value) := by
  have reached := alike _ _ start
  unfold Execution.finish
  cases ranLeft : execution ⟨left, leftSlots⟩ with
  | ok value nextLeft =>
      cases ranRight : execution ⟨right, rightSlots⟩ with
      | ok other nextRight =>
          simp only [ranLeft, ranRight] at reached
          obtain ⟨rfl, related⟩ := reached
          exact Or.inr ⟨value, nextLeft, nextRight, related, rfl, rfl⟩
      | error halt nextRight => simp only [ranLeft, ranRight] at reached
  | error halt nextLeft =>
      cases ranRight : execution ⟨right, rightSlots⟩ with
      | ok other nextRight => simp only [ranLeft, ranRight] at reached
      | error other nextRight =>
          simp only [ranLeft, ranRight] at reached
          subst reached
          exact Or.inl ⟨halt, rfl, rfl⟩

end Alike

end Dispatch.Execution
