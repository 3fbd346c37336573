import Dispatch.Action
import Dispatch.Proofs.Execution.ScopedRuns

/-!
Effects in any order and a cost after them keep a condition that each of them keeps. A whole run
starts with given bindings and leaves only its state, or the reason why it stopped.
-/

namespace Dispatch

namespace Execution.Meets

variable {schema : Schema} {limit : Nat} {inv : Store → Prop} {fail : Halt → Store → Prop}

/-- Effects that each keep a condition keep it together, by induction on them. -/
theorem runAll {updates : List Update}
    (each
      : ∀ update ∈ updates, Meets inv (update.run schema limit) (fun _ => inv) fail)
    : Meets inv (Update.runAll schema limit updates) (fun _ => inv) fail := by
  induction updates with
  | nil => exact pure fun _ kept => kept
  | cons update rest ih =>
      obtain ⟨first, others⟩ := List.forall_mem_cons.mp each
      rw [Update.runAll]
      exact bind first fun _ => ih others

/-- Effects and a cost that each keep a condition keep it together; the order of the effects does
not matter, so that they run from the last to the first is of no concern here.
-/
theorem runWithCost {effects : List Update} {cost : Cost} {post : Int → Store → Prop}
    (each
      : ∀ update ∈ effects, Meets inv (update.run schema limit) (fun _ => inv) fail)
    (last : Meets inv (cost.run schema limit) post fail)
    : Meets inv (runWithCost schema limit effects cost) post fail :=
  bind (runAll fun update member => each update (List.mem_reverse.mp member)) fun _ => last

variable {α : Type} {execution : Execution α} {post : α → Store → Prop}

/-- A finished run leaves a state that satisfies the condition on successes with some bindings,
namely those at the end of the run.
-/
theorem post_of_finish {state next : State} {bindings : Bindings} {value : α}
    (meets : Meets inv execution post fail) (start : inv ⟨state, bindings⟩)
    (finished : execution.finish state bindings = (next, .ok value))
    : ∃ after, post value ⟨next, after⟩ := by
  unfold finish at finished
  cases ran : execution ⟨state, bindings⟩ with
  | ok result store =>
      rw [ran] at finished
      obtain ⟨rfl, same⟩ := Prod.mk.inj finished
      obtain rfl := Except.ok.inj same
      exact ⟨store.bindings, meets.post_of_ok start ran⟩
  | error halt store =>
      rw [ran] at finished
      cases (Prod.mk.inj finished).2

/-- A run that stopped early left a state that satisfies the condition on early stops with some
bindings.
-/
theorem fail_of_finish {state reached : State} {bindings : Bindings} {halt : Halt}
    (meets : Meets inv execution post fail) (start : inv ⟨state, bindings⟩)
    (stopped : execution.finish state bindings = (reached, .error halt))
    : ∃ after, fail halt ⟨reached, after⟩ := by
  unfold finish at stopped
  cases ran : execution ⟨state, bindings⟩ with
  | ok result store =>
      rw [ran] at stopped
      cases (Prod.mk.inj stopped).2
  | error reason store =>
      rw [ran] at stopped
      obtain ⟨rfl, same⟩ := Prod.mk.inj stopped
      obtain rfl := Except.error.inj same
      exact ⟨store.bindings, meets.fail_of_error start ran⟩

end Execution.Meets

/-- Effects and a cost that are all scoped alike keep what scoped effects keep. Each effect is read
in the same scope, so what one of them binds is in force for no other.
-/
theorem Update.Keeps.runWithCost {schema : Schema} {vocabulary : Vocabulary}
    {inv : Scope → Store → Prop} {fail : Halt → Store → Prop}
    (keeps : Keeps schema vocabulary inv fail) (limit : Nat) {scope : Scope}
    {effects : List Update} {cost : Cost}
    (effectsResolved : ∀ update ∈ effects, update.Scoped ⟨vocabulary, scope⟩)
    (costResolved : cost.Scoped ⟨vocabulary, scope⟩)
    : Execution.Meets (inv scope) (Dispatch.runWithCost schema limit effects cost)
        (fun _ => inv scope) fail := by
  refine .runWithCost ?_ (keeps.cost limit costResolved)
  intro update member
  exact keeps.restore (keeps.run limit update (effectsResolved update member))

end Dispatch
