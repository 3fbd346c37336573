import Dispatch.Action
import Dispatch.Proofs.Reading.Sequencing

/-!
What applying an action comes to. An action is refused exactly where a conflicting condition does
not hold; otherwise its result is that of its effects and its cost. An action that is refused or
stops early leaves the state that it met, whatever its effects had changed by then.
-/

namespace Dispatch.GroundAction

variable {action : GroundAction} {schema : Schema} {state : State}

/-- The run of the effects and the cost of an action, from a state in which its parameters have
their ids.
-/
abbrev run (action : GroundAction) (schema : Schema) (limit : Nat) (state : State)
    : State × Except Halt Int :=
  (runWithCost schema limit action.template.decl.effects action.template.decl.cost).finish state
    (.ofIds action.ids)

/-- An incompatible action is refused, and leaves the state: its effects are not even begun. -/
theorem apply_of_not_isCompatible (limit : Nat)
    (incompatible : action.isCompatible schema state = false)
    : action.apply schema limit state = (state, .error .conflicting) := by
  simp only [apply, incompatible, Bool.not_false, if_true]

/-- A compatible action whose effects and cost run to the end leaves what these have made of the
state.
-/
theorem apply_of_run_ok {limit : Nat} {next : State} {cost : Int}
    (compatible : action.isCompatible schema state = true)
    (ran : action.run schema limit state = (next, .ok cost))
    : action.apply schema limit state = (next, .ok cost) := by
  simp only [apply, compatible, Bool.not_true, Bool.false_eq_true, if_false, ran]

/-- A compatible action whose effects or cost stop early leaves the state, not what they have made
of it.
-/
theorem apply_of_run_error {limit : Nat} {reached : State} {halt : Halt}
    (compatible : action.isCompatible schema state = true)
    (ran : action.run schema limit state = (reached, .error halt))
    : action.apply schema limit state = (state, .error (.halted halt)) := by
  simp only [apply, compatible, Bool.not_true, Bool.false_eq_true, if_false, ran]

/-- What applying an action comes to: it is refused, or its run stops early, or it is applied.

All that is said of applied actions goes through these three cases; the definition itself is opened
for them alone.
-/
theorem apply_cases (action : GroundAction) (schema : Schema) (limit : Nat) (state : State)
    : action.isCompatible schema state = false
        ∧ action.apply schema limit state = (state, .error .conflicting)
      ∨ action.isCompatible schema state = true
        ∧ ((∃ reached halt, action.run schema limit state = (reached, .error halt)
            ∧ action.apply schema limit state = (state, .error (.halted halt)))
          ∨ ∃ next cost, action.run schema limit state = (next, .ok cost)
            ∧ action.apply schema limit state = (next, .ok cost)) := by
  cases compatible : action.isCompatible schema state with
  | false => exact Or.inl ⟨rfl, apply_of_not_isCompatible limit compatible⟩
  | true =>
      refine Or.inr ⟨rfl, ?_⟩
      rcases ran : action.run schema limit state with ⟨reached, halt | cost⟩
      · exact Or.inl ⟨reached, halt, rfl, apply_of_run_error compatible ran⟩
      · exact Or.inr ⟨reached, cost, rfl, apply_of_run_ok compatible ran⟩

/-- A failed action leaves the state that it met. Its effects may have changed much by the time at
which it failed: an effect that divides by zero stands behind others that ran to their ends.
-/
theorem state_of_apply_error {limit : Nat} {failure : ActionFailure} {left : State}
    (failed : action.apply schema limit state = (left, .error failure))
    : left = state := by
  rcases apply_cases action schema limit state
    with ⟨_, same⟩ | ⟨_, ⟨_, _, _, same⟩ | ⟨_, _, _, same⟩⟩
  · rw [same] at failed
    exact (Prod.mk.inj failed).1.symm
  · rw [same] at failed
    exact (Prod.mk.inj failed).1.symm
  · rw [same] at failed
    cases (Prod.mk.inj failed).2

/-- An action that is applied is compatible, and its effects and its cost have run to the end, since
the other two cases end in a failure.
-/
theorem ran_of_apply {limit : Nat} {next : State} {cost : Int}
    (applied : action.apply schema limit state = (next, .ok cost))
    : action.isCompatible schema state = true
      ∧ action.run schema limit state = (next, .ok cost) := by
  rcases apply_cases action schema limit state
    with ⟨_, same⟩ | ⟨compatible, ⟨_, _, _, same⟩ | ⟨_, _, ran, same⟩⟩
  · rw [same] at applied
    cases (Prod.mk.inj applied).2
  · rw [same] at applied
    cases (Prod.mk.inj applied).2
  · obtain ⟨rfl, done⟩ := Prod.mk.inj (same.symm.trans applied)
    obtain rfl := Except.ok.inj done
    exact ⟨compatible, ran⟩

/-- A compatible action is not refused, though it may stop early. -/
theorem apply_ne_conflicting (limit : Nat) (compatible : action.isCompatible schema state = true)
    : (action.apply schema limit state).2 ≠ .error .conflicting := by
  rcases apply_cases action schema limit state
    with ⟨incompatible, _⟩ | ⟨_, ⟨_, _, _, same⟩ | ⟨_, _, _, same⟩⟩
  · rw [compatible] at incompatible
    cases incompatible
  · rw [same]
    nofun
  · rw [same]
    nofun

theorem isCompatible_of_isValid (valid : action.isValid schema state = true)
    : action.isCompatible schema state = true :=
  (Bool.and_eq_true_iff.mp valid).2

end Dispatch.GroundAction
