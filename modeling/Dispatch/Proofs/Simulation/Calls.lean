import Dispatch.Proofs.Reading.Sequencing
import Dispatch.Simulation

/-!
What the calls of a simulation consist of. A joint step that succeeds is a transition by the actions
that the policy chooses; an arrival that succeeds adds the items of the next batch and runs the
arrival steps, or finds no batch left. A call that fails changes nothing.
-/

namespace Dispatch

namespace Simulation

variable {μ : Type} {simulation : Simulation} {policy : Policy μ} {progress next : Progress}

/-- A joint step makes a transition with the actions that the live actors choose, counts one step,
and leaves the batches as they are.
-/
theorem transition_of_step {memory last : μ} {outcome : Outcome}
    (stepped : simulation.step policy memory progress = .ok (outcome, next, last))
    : simulation.transition progress.state
          (simulation.chooseAll policy progress.state memory
            (simulation.actors progress.state)).1 = .ok (next.state, outcome)
      ∧ next.steps = progress.steps + 1 ∧ next.batches = progress.batches
      ∧ last = (simulation.chooseAll policy progress.state memory
          (simulation.actors progress.state)).2 := by
  obtain ⟨⟨state, told⟩, moved, done⟩ := bind_eq_ok_iff.mp stepped
  simp only [pure, Except.pure, Except.ok.injEq, Prod.mk.injEq] at done
  obtain ⟨rfl, rfl, rfl⟩ := done
  exact ⟨moved, rfl, rfl, rfl⟩

/-- An arrival adds the items of the next batch and runs the arrival steps; it counts a batch and no
step.
-/
theorem batch_of_advance? (arrived : simulation.advance? progress = .ok (some next))
    : ∃ batch joined cost, simulation.schema.batches[progress.batches]? = some batch
        ∧ addBatch progress.batches progress.state batch = .ok joined
        ∧ simulation.runSteps joined 0 simulation.arrival = .ok (next.state, cost)
        ∧ next.steps = progress.steps ∧ next.batches = progress.batches + 1 := by
  unfold advance? at arrived
  split at arrived
  · cases arrived
  · rename_i batch found
    obtain ⟨joined, added, arrived⟩ := bind_eq_ok_iff.mp arrived
    obtain ⟨⟨final, cost⟩, ran, done⟩ := bind_eq_ok_iff.mp arrived
    obtain rfl := Option.some.inj (Except.ok.inj done)
    exact ⟨batch, joined, cost, found, added, ran, rfl, rfl⟩

/-- Where nothing arrives, no batch is left. -/
theorem left_of_advance? (arrived : simulation.advance? progress = .ok none)
    : simulation.schema.batches.length ≤ progress.batches := by
  unfold advance? at arrived
  split at arrived
  · rename_i missing
    exact List.getElem?_eq_none_iff.mp missing
  · obtain ⟨_, _, arrived⟩ := bind_eq_ok_iff.mp arrived
    obtain ⟨_, _, done⟩ := bind_eq_ok_iff.mp arrived
    cases done

/-- The progress after a joint step; a step that fails leaves it as it was. -/
def afterStep (simulation : Simulation) (policy : Policy μ) (memory : μ) (progress : Progress)
    : Progress :=
  match simulation.step policy memory progress with
  | .ok (_, next, _) => next
  | .error _ => progress

/-- The progress after the arrival of the next batch; where there is none or the arrival fails, all
stays as it was.
-/
def afterArrival (simulation : Simulation) (progress : Progress) : Progress :=
  match simulation.advance? progress with
  | .ok (some next) => next
  | .ok none | .error _ => progress

/-- What may be called next: a joint step with any policy, or the arrival of a batch. -/
inductive Calls (simulation : Simulation) : Progress → Progress → Prop
  | step {μ : Type} (policy : Policy μ) (memory : μ) (progress : Progress)
    : Calls simulation progress (simulation.afterStep policy memory progress)
  | arrival (progress : Progress) : Calls simulation progress (simulation.afterArrival progress)

end Simulation

end Dispatch
