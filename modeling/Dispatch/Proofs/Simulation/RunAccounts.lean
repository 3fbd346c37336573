import Mathlib.Algebra.Ring.Int.Defs
import Dispatch.Proofs.Layout.LiveIds
import Dispatch.Proofs.Simulation.Calls

/-!
The account that a run gives of itself. A run is a sequence of rounds, each a joint step and, where
one is due, the arrival of a batch; its summary counts what happened in them. It goes on until the
bound on its steps is reached, or an idle round finds no batch left, or something fails; what was
done before a failure stays done.
-/

namespace Dispatch

-----------------------------------------------------------------------------------------
-- Rounds
-----------------------------------------------------------------------------------------

/-- One round of a run: what happened in the joint step and the progress after it. If the arrival of
a batch followed, it has led to further progress, or to none where no batch was left.
-/
structure Round where
  outcome : Outcome
  stepped : Progress
  arrival : Option (Option Progress)

namespace Round

/-- The progress after the round. -/
def final (round : Round) : Progress := round.arrival.join.getD round.stepped

/-- The number of the batch that arrived in the round. -/
def batch? (round : Round) : Option Nat := round.arrival.join.map fun _ => round.stepped.batches

end Round

namespace Simulation

/-- The round starts with the given memory and progress: its step is one of the policy, and its
arrival, if there is one, is that of the next batch.
-/
structure Takes {μ : Type} (simulation : Simulation) (policy : Policy μ) (memory : μ)
    (progress : Progress) (round : Round) (next : μ) : Prop where
  step : simulation.step policy memory progress = .ok (round.outcome, round.stepped, next)
  arrival : ∀ found ∈ round.arrival, simulation.advance? round.stepped = .ok found

/-- Rounds that follow on each other, each with the memory that the last one left. -/
inductive Rounds {μ : Type} (simulation : Simulation) (policy : Policy μ)
    : μ → Progress → List Round → μ → Progress → Prop
  | nil {memory : μ} {progress : Progress}
    : Rounds simulation policy memory progress [] memory progress
  | cons {memory next last : μ} {progress final : Progress} {round : Round} {rounds : List Round}
    (takes : simulation.Takes policy memory progress round next)
    (rest : Rounds simulation policy next round.final rounds last final)
    : Rounds simulation policy memory progress (round :: rounds) last final

/-- A batch is due after an idle step, and whenever the period divides the number of all steps. -/
def Due (simulation : Simulation) (stepped : Progress) (outcome : Outcome) : Prop :=
  outcome.applied = []
    ∨ 0 < simulation.config.stepsPerBatch ∧ simulation.config.stepsPerBatch ∣ stepped.steps

/-- A run stops with a round whose step is idle, when no batch is left and idle runs are to stop. -/
def Stops (simulation : Simulation) (round : Round) : Prop :=
  round.outcome.applied = [] ∧ simulation.schema.batches.length ≤ round.stepped.batches
    ∧ simulation.config.stopWhenIdle = true

variable {μ : Type} {simulation : Simulation} {policy : Policy μ}

theorem isDue_iff (stepped : Progress) (outcome : Outcome)
    : simulation.isDue stepped outcome = true ↔ simulation.Due stepped outcome := by
  simp only [isDue, Due, Outcome.isIdle, Bool.or_eq_true, Bool.and_eq_true, List.isEmpty_iff,
    decide_eq_true_eq, Nat.dvd_iff_mod_eq_zero]

/-- A round is one step, and brings the next batch or none. Without an arrival, and with one that
finds no batch, the number of batches stays.
-/
theorem Takes.counts {memory next : μ} {progress : Progress} {round : Round}
    (takes : simulation.Takes policy memory progress round next)
    : round.final.steps = progress.steps + 1
      ∧ (round.batch? = none ∧ round.final.batches = progress.batches
        ∨ round.batch? = some progress.batches
          ∧ progress.batches < simulation.schema.batches.length
          ∧ round.final.batches = progress.batches + 1) := by
  obtain ⟨_, steps, batches, _⟩ := transition_of_step takes.step
  obtain ⟨outcome, stepped, arrival⟩ := round
  match arrival with
  | none | some none => exact ⟨steps, Or.inl ⟨rfl, batches⟩⟩
  | some (some arrived) =>
      obtain ⟨_, _, _, found, _, _, same, more⟩ :=
        batch_of_advance? (takes.arrival (some arrived) rfl)
      obtain ⟨inside, _⟩ := List.getElem?_eq_some_iff.mp found
      simp only at batches
      rw [batches] at inside more
      exact ⟨same.trans steps, Or.inr ⟨congrArg some batches, inside, more⟩⟩

namespace Rounds

variable {memory last : μ} {progress final : Progress} {rounds : List Round}

/-- As many steps are made as there are rounds, by induction on them. -/
theorem steps_final (run : simulation.Rounds policy memory progress rounds last final)
    : final.steps = progress.steps + rounds.length := by
  induction run with
  | nil => rfl
  | cons takes _ ih =>
      rw [ih, takes.counts.1, List.length_cons]
      omega

/-- The batches arrive in order and without gaps, by induction on the rounds. -/
theorem batches_final (run : simulation.Rounds policy memory progress rounds last final)
    : rounds.filterMap Round.batch?
        = List.range' progress.batches (rounds.filterMap Round.batch?).length
      ∧ final.batches = progress.batches + (rounds.filterMap Round.batch?).length := by
  induction run with
  | nil => exact ⟨rfl, rfl⟩
  | cons takes _ ih =>
      obtain ⟨order, count⟩ := ih
      rcases takes.counts.2 with ⟨none, same⟩ | ⟨some, _, more⟩
      · rw [List.filterMap_cons_none none, ← same]
        exact ⟨order, count⟩
      · rw [more] at order count
        rw [List.filterMap_cons_some some, List.length_cons, List.range'_succ, ← order, count]
        exact ⟨rfl, by omega⟩

/-- Only batches that there are arrive, by induction on the rounds. -/
theorem batches_le (run : simulation.Rounds policy memory progress rounds last final)
    (start : progress.batches ≤ simulation.schema.batches.length)
    : ∀ round ∈ rounds, round.final.batches ≤ simulation.schema.batches.length := by
  induction run with
  | nil => simp
  | cons takes _ ih =>
      refine List.forall_mem_cons.mpr ?_
      rcases takes.counts.2 with ⟨_, same⟩ | ⟨_, inside, more⟩
      · exact ⟨by omega, ih (by omega)⟩
      · exact ⟨by omega, ih (by omega)⟩

end Rounds

end Simulation

-----------------------------------------------------------------------------------------
-- Wrapped sums
-----------------------------------------------------------------------------------------

/-- Wrapping a part of a sum does not change the wrapped sum, as it adds a multiple of the modulus.
-/
theorem wrapped_wrapped_add (n other : Int)
    : wrapped (wrapped n + other) = wrapped (n + other) := by
  unfold wrapped
  rw [Int.bmod_add_bmod]

theorem wrapped_wrapped (n : Int) : wrapped (wrapped n) = wrapped n := by
  simpa using wrapped_wrapped_add n 0

theorem wrapped_eq_self {n : Int} (bounded : inBounds n = true) : wrapped n = n := by
  simp only [inBounds, Bool.and_eq_true, decide_eq_true_eq] at bounded
  unfold leastNumber greatestNumber at bounded
  exact Int.bmod_eq_of_le (by omega) (by omega)

/-- Wrapping after every addition gives what wrapping at the end gives, by induction on the numbers
for every total before them. So additions that wrap can be regrouped like those that do not.
-/
theorem wrappedSum_eq (numbers : List Int) : wrappedSum numbers = wrapped numbers.sum := by
  have total (start : Int)
      : numbers.foldl (fun total number => wrapped (total + number)) (wrapped start)
        = wrapped (start + numbers.sum) := by
    induction numbers generalizing start with
    | nil => rw [List.foldl_nil, List.sum_nil, Int.add_zero]
    | cons number rest ih =>
        rw [List.foldl_cons, wrapped_wrapped_add, ih, List.sum_cons, Int.add_assoc]
  have zero : wrapped 0 = 0 := rfl
  have whole := total 0
  rwa [zero, Int.zero_add] at whole

/-- Wrapping the parts of a sum does not change the wrapped sum, by induction on the parts. -/
theorem wrapped_sum_map_wrapped {α : Type} (parts : List α) (part : α → Int)
    : wrapped (parts.map fun one => wrapped (part one)).sum = wrapped (parts.map part).sum := by
  induction parts with
  | nil => rfl
  | cons one rest ih =>
      rw [List.map_cons, List.map_cons, List.sum_cons, List.sum_cons, wrapped_wrapped_add,
        Int.add_comm, ← wrapped_wrapped_add, ih, wrapped_wrapped_add, Int.add_comm]

namespace Outcome

/-- All that the outcome costs: the sum of the costs of the applied actions and of the environment
steps, which the cost of the outcome is when it is wrapped.
-/
def total (outcome : Outcome) : Int :=
  (outcome.applied.map (·.cost)).sum + outcome.environmentCost

/-- The cost of a step is the wrapped sum of all that was paid in it, by the applied actions and the
environment.
-/
theorem cost_eq (outcome : Outcome) : outcome.cost = wrapped outcome.total := by
  rw [cost, wrappedSum_eq, wrapped_wrapped_add, total]

end Outcome

-----------------------------------------------------------------------------------------
-- Summaries
-----------------------------------------------------------------------------------------

namespace Summary

/-- The summary with one more round. -/
def addRound (summary : Summary) (round : Round) : Summary :=
  { summary.addStep round.outcome with
    batches := summary.batches + round.batch?.toList.length }

/-- The summary counts the rounds, their applied and rejected actions and the batches that arrived
in them, and adds up what their steps cost. The sum wraps around, so it is exact where it is a
number of the language, whatever the sums on the way to it; and it does not matter at which of the
additions it wraps, so it is also the wrapped sum of all that was paid.
-/
structure Accounts (summary : Summary) (rounds : List Round) : Prop where
  steps : summary.steps = rounds.length
  actions : summary.actions = (rounds.map (·.outcome.applied.length)).foldr (· + ·) 0
  rejected : summary.rejected = (rounds.map (·.outcome.rejected.length)).foldr (· + ·) 0
  batches : summary.batches = (rounds.filterMap Round.batch?).length
  cost : summary.cost = wrapped (rounds.map (·.outcome.cost)).sum
  exact
    : inBounds (rounds.map (·.outcome.cost)).sum = true
        → summary.cost = (rounds.map (·.outcome.cost)).sum
  total : summary.cost = wrapped (rounds.map (·.outcome.total)).sum

/-- Adding rounds one by one adds all they count, by induction on them. The total so far is a
wrapped number, so that without rounds wrapping it changes nothing.
-/
theorem addRounds_eq (summary : Summary) (rounds : List Round)
    (bounded : wrapped summary.cost = summary.cost)
    : rounds.foldl addRound summary
      = { steps := summary.steps + rounds.length
          actions := summary.actions
            + (rounds.map (·.outcome.applied.length)).foldr (· + ·) 0
          rejected := summary.rejected
            + (rounds.map (·.outcome.rejected.length)).foldr (· + ·) 0
          batches := summary.batches + (rounds.filterMap Round.batch?).length
          cost := wrapped (summary.cost + (rounds.map (·.outcome.cost)).sum) } := by
  induction rounds generalizing summary with
  | nil => simp [bounded]
  | cons round rest ih =>
      have arrived
          : ((round :: rest).filterMap Round.batch?).length
            = round.batch?.toList.length + (rest.filterMap Round.batch?).length := by
        cases found : round.batch? with
        | none => simp [found]
        | some number =>
            rw [List.filterMap_cons_some found, List.length_cons, Option.toList_some,
              List.length_singleton, Nat.add_comm]
      have wrappedCost : wrapped (summary.addRound round).cost = (summary.addRound round).cost :=
        wrapped_wrapped (summary.cost + round.outcome.cost)
      rw [List.foldl_cons, ih (summary.addRound round) wrappedCost, arrived]
      simp only [addRound, addStep, List.map_cons, List.foldr_cons, List.sum_cons, List.length_cons,
        wrapped_wrapped_add, Int.add_assoc, mk.injEq, and_true]
      omega

/-- What a run counts from zero on accounts for its rounds. -/
theorem accounts_addRounds (rounds : List Round)
    : (rounds.foldl addRound ⟨0, 0, 0, 0, 0⟩).Accounts rounds := by
  rw [addRounds_eq _ _ rfl]
  refine ⟨by simp, by simp, by simp, by simp, by simp, fun bounded => ?_, ?_⟩
  · rw [wrapped_eq_self (by simpa using bounded), Int.zero_add]
  · simp only [Outcome.cost_eq, Int.zero_add]
    exact wrapped_sum_map_wrapped rounds (·.outcome.total)

end Summary

-----------------------------------------------------------------------------------------
-- The course of a run
-----------------------------------------------------------------------------------------

/-- How a run ends: at the bound on its steps, because it stops, or with a failure. -/
inductive Ending where
  | bound
  | stopped
  | failed (error : SimulationError)

/-- A run of at most the given steps may come to the ending with so many rounds. -/
def Ending.Spends (steps made : Nat) : Ending → Prop
  | .bound => made = steps
  | .stopped => made ≤ steps
  | .failed _ => made < steps

namespace Simulation

/-- A run that stops does so with its last round, and no other round would stop it. -/
def Closes (simulation : Simulation) (rounds : List Round) : Ending → Prop
  | .stopped =>
      ∃ earlier last, rounds = earlier ++ [last] ∧ simulation.Stops last
        ∧ ∀ round ∈ earlier, ¬ simulation.Stops round
  | .bound | .failed _ => ∀ round ∈ rounds, ¬ simulation.Stops round

/-- Where a run ends behind its rounds: at once, or with a step that fails, or with an arrival that
is due after a further step and fails.
-/
def EndsBehind {μ : Type} (simulation : Simulation) (policy : Policy μ) (last : μ)
    (reached final : Progress) : Ending → Prop
  | .bound | .stopped => final = reached
  | .failed error =>
      final = reached ∧ simulation.step policy last reached = .error error
      ∨ ∃ outcome next, simulation.step policy last reached = .ok (outcome, final, next)
          ∧ simulation.Due final outcome ∧ simulation.advance? final = .error error

/-- What a run tells when it ends; at the bound it is endless if there is to be none. -/
def result (simulation : Simulation) (summary : Summary)
    : Ending → Except SimulationError Summary
  | .bound => if simulation.config.maxSteps = 0 then .error .endless else .ok summary
  | .stopped => .ok summary
  | .failed error => .error error

/-- The course of a run of at most the given number of steps: its rounds, each of which tries an
arrival when one is due, and how it ends.
-/
inductive Course {μ : Type} (simulation : Simulation) (policy : Policy μ)
    : Nat → μ → Progress → List Round → Ending → Progress → Prop
  | bound {memory : μ} {progress : Progress}
    : Course simulation policy 0 memory progress [] .bound progress
  | step {steps : Nat} {memory : μ} {progress : Progress} {error : SimulationError}
    (failed : simulation.step policy memory progress = .error error)
    : Course simulation policy (steps + 1) memory progress [] (.failed error) progress
  | arrival {steps : Nat} {memory next : μ} {progress stepped : Progress} {outcome : Outcome}
    {error : SimulationError}
    (ran : simulation.step policy memory progress = .ok (outcome, stepped, next))
    (due : simulation.Due stepped outcome)
    (failed : simulation.advance? stepped = .error error)
    : Course simulation policy (steps + 1) memory progress [] (.failed error) stepped
  | stopped {steps : Nat} {memory next : μ} {progress : Progress} {round : Round}
    (takes : simulation.Takes policy memory progress round next)
    (due : round.arrival.isSome = true ↔ simulation.Due round.stepped round.outcome)
    (stops : simulation.Stops round)
    : Course simulation policy (steps + 1) memory progress [round] .stopped round.final
  | next {steps : Nat} {memory next : μ} {progress final : Progress} {round : Round}
    {rounds : List Round} {ending : Ending}
    (takes : simulation.Takes policy memory progress round next)
    (due : round.arrival.isSome = true ↔ simulation.Due round.stepped round.outcome)
    (goesOn : ¬ simulation.Stops round)
    (rest : Course simulation policy steps next round.final rounds ending final)
    : Course simulation policy (steps + 1) memory progress (round :: rounds) ending final

variable {μ : Type} {simulation : Simulation} {policy : Policy μ}

/-- After a joint step a run fails with an arrival that is due, or the round is complete and the run
stops with it or goes on behind it.
-/
theorem runFrom_of_step {steps : Nat} {memory next : μ} {summary : Summary}
    {progress stepped : Progress} {outcome : Outcome}
    (ran : simulation.step policy memory progress = .ok (outcome, stepped, next))
    : (∃ error, simulation.Due stepped outcome ∧ simulation.advance? stepped = .error error
        ∧ simulation.runFrom policy (steps + 1) memory summary progress = (stepped, .error error))
      ∨ ∃ round : Round, simulation.Takes policy memory progress round next
          ∧ (round.arrival.isSome = true ↔ simulation.Due round.stepped round.outcome)
          ∧ (simulation.Stops round
              ∧ simulation.runFrom policy (steps + 1) memory summary progress
                = (round.final, .ok (summary.addRound round))
            ∨ ¬ simulation.Stops round
              ∧ simulation.runFrom policy (steps + 1) memory summary progress
                = simulation.runFrom policy steps next (summary.addRound round) round.final) := by
  simp only [runFrom, ran]
  split
  · rename_i isDue
    have due := (isDue_iff stepped outcome).mp isDue
    cases found : simulation.advance? stepped with
    | error error => exact Or.inl ⟨error, due, rfl, rfl⟩
    | ok arrived =>
        refine Or.inr ⟨⟨outcome, stepped, some arrived⟩, ⟨ran, ?_⟩, by simp [due], ?_⟩
        · rintro _ ⟨⟩
          exact found
        · cases arrived with
          | some arrived =>
              obtain ⟨_, _, _, present, _⟩ := batch_of_advance? found
              obtain ⟨inside, _⟩ := List.getElem?_eq_some_iff.mp present
              exact Or.inr ⟨fun stops => Nat.not_le.mpr inside stops.2.1, rfl⟩
          | none =>
              have left := left_of_advance? found
              dsimp only
              split
              · rename_i stops
                simp only [Outcome.isIdle, Bool.and_eq_true, List.isEmpty_iff] at stops
                exact Or.inl ⟨⟨stops.1, left, stops.2⟩, rfl⟩
              · rename_i goesOn
                simp only [Outcome.isIdle, Bool.and_eq_true, List.isEmpty_iff] at goesOn
                exact Or.inr ⟨fun stops => goesOn ⟨stops.1, stops.2.2⟩, rfl⟩
  · rename_i notDue
    rw [isDue_iff] at notDue
    refine Or.inr ⟨⟨outcome, stepped, none⟩, ⟨ran, nofun⟩, by simp [notDue], ?_⟩
    exact Or.inr ⟨fun stops => notDue (Or.inl stops.1), rfl⟩

/-- Every run takes a course, by induction on the number of its steps. The summary it tells adds up
the rounds of the course.
-/
theorem course_of_runFrom (simulation : Simulation) (policy : Policy μ) (steps : Nat) (memory : μ)
    (summary : Summary) (progress : Progress)
    : ∃ rounds ending,
        simulation.Course policy steps memory progress rounds ending
          (simulation.runFrom policy steps memory summary progress).1
        ∧ (simulation.runFrom policy steps memory summary progress).2
          = simulation.result (rounds.foldl Summary.addRound summary) ending := by
  induction steps generalizing memory summary progress with
  | zero => exact ⟨[], .bound, .bound, rfl⟩
  | succ steps ih =>
      cases ran : simulation.step policy memory progress with
      | error error =>
          rw [runFrom, ran]
          exact ⟨[], .failed error, .step ran, rfl⟩
      | ok result =>
          obtain ⟨outcome, stepped, next⟩ := result
          rcases runFrom_of_step ran with ⟨error, due, failed, same⟩ | ⟨round, takes, due, last⟩
          · rw [same]
            exact ⟨[], .failed error, .arrival ran due failed, rfl⟩
          · rcases last with ⟨stops, same⟩ | ⟨goesOn, same⟩
            · rw [same]
              exact ⟨[round], .stopped, .stopped takes due stops, rfl⟩
            · rw [same]
              obtain ⟨rounds, ending, course, told⟩ := ih next (summary.addRound round) round.final
              exact ⟨round :: rounds, ending, .next takes due goesOn course, told⟩

namespace Course

variable {steps : Nat} {memory : μ} {progress final : Progress} {rounds : List Round}
  {ending : Ending}

/-- A run with a bound uses up its steps unless it stops or fails, by induction on its course. -/
theorem length_rounds (course : simulation.Course policy steps memory progress rounds ending final)
    : ending.Spends steps rounds.length := by
  induction course with
  | bound => rfl
  | step | arrival => exact Nat.succ_pos _
  | stopped => exact Nat.succ_le_succ (Nat.zero_le _)
  | @next _ _ _ _ _ _ _ ending _ _ _ _ ih =>
      cases ending with
      | bound => exact congrArg (· + 1) ih
      | stopped => exact Nat.succ_le_succ ih
      | failed error => exact Nat.succ_lt_succ ih

/-- Exactly the rounds in which a batch is due try an arrival, by induction on the course. Whether
the arrival finds a batch makes no difference.
-/
theorem prompt (course : simulation.Course policy steps memory progress rounds ending final)
    : ∀ round ∈ rounds,
        round.arrival.isSome = true ↔ simulation.Due round.stepped round.outcome := by
  induction course with
  | bound | step | arrival => simp
  | stopped _ due => exact List.forall_mem_singleton.mpr due
  | next _ due _ _ ih => exact List.forall_mem_cons.mpr ⟨due, ih⟩

/-- A run stops with the first round that meets the conditions, by induction on its course. All
rounds before it went on, so they did not meet them.
-/
theorem closes (course : simulation.Course policy steps memory progress rounds ending final)
    : simulation.Closes rounds ending := by
  induction course with
  | bound | step | arrival => exact nofun
  | stopped _ _ stops => exact ⟨[], _, rfl, stops, nofun⟩
  | @next _ _ _ _ _ round _ ending _ _ goesOn _ ih =>
      cases ending with
      | bound | failed => exact List.forall_mem_cons.mpr ⟨goesOn, ih⟩
      | stopped =>
          obtain ⟨earlier, last, rfl, stops, unstopped⟩ := ih
          exact ⟨round :: earlier, last, rfl, stops, List.forall_mem_cons.mpr ⟨goesOn, unstopped⟩⟩

/-- The rounds lead to where the run ends, or to where the step or the arrival fails that ends it;
by induction on the course.
-/
theorem rounds_final (course : simulation.Course policy steps memory progress rounds ending final)
    : ∃ last reached, simulation.Rounds policy memory progress rounds last reached
        ∧ simulation.EndsBehind policy last reached final ending := by
  induction course with
  | bound => exact ⟨_, _, .nil, rfl⟩
  | step failed => exact ⟨_, _, .nil, Or.inl ⟨rfl, failed⟩⟩
  | arrival ran due failed => exact ⟨_, _, .nil, Or.inr ⟨_, _, ran, due, failed⟩⟩
  | stopped takes => exact ⟨_, _, .cons takes .nil, rfl⟩
  | next takes _ _ _ ih =>
      obtain ⟨last, reached, rounds, ended⟩ := ih
      exact ⟨last, reached, .cons takes rounds, ended⟩

end Course

/-- No round but the last stops a run, whatever its ending. -/
theorem Closes.unstopped {rounds : List Round} {ending : Ending}
    (closes : simulation.Closes rounds ending)
    : ∀ round ∈ rounds.dropLast, ¬ simulation.Stops round := by
  cases ending with
  | stopped =>
      obtain ⟨earlier, last, rfl, _, unstopped⟩ := closes
      rwa [List.dropLast_concat]
  | bound | failed => exact fun round member => closes round (List.dropLast_subset rounds member)

-----------------------------------------------------------------------------------------
-- Whole runs
-----------------------------------------------------------------------------------------

/-- The number of steps after which a run ends at the latest. -/
def stepLimit (simulation : Simulation) : Nat :=
  if simulation.config.maxSteps = 0 then simulation.roundLimit else simulation.config.maxSteps

theorem stepLimit_of_pos (bounded : 0 < simulation.config.maxSteps)
    : simulation.stepLimit = simulation.config.maxSteps :=
  if_neg (Nat.ne_of_gt bounded)

/-- A run takes a course from zero on, with its limit on the steps, and tells the result of its
ending.
-/
theorem course_of_run {memory : μ} {progress final : Progress}
    {result : Except SimulationError Summary}
    (ran : simulation.run policy memory progress = (final, result))
    : ∃ rounds ending,
        simulation.Course policy simulation.stepLimit memory progress rounds ending final
        ∧ result = simulation.result (rounds.foldl Summary.addRound ⟨0, 0, 0, 0, 0⟩) ending := by
  obtain ⟨rounds, ending, course, told⟩ :=
    course_of_runFrom simulation policy simulation.stepLimit memory ⟨0, 0, 0, 0, 0⟩ progress
  have same
      : simulation.runFrom policy simulation.stepLimit memory ⟨0, 0, 0, 0, 0⟩ progress
        = (final, result) :=
    ran
  rw [same] at course told
  exact ⟨rounds, ending, course, told⟩

/-- A run that tells a summary has stopped, or has reached a bound on its steps. -/
theorem eq_of_result_ok {summary counted : Summary} {ending : Ending}
    (told : .ok summary = simulation.result counted ending)
    : summary = counted
      ∧ (ending = .stopped ∨ ending = .bound ∧ 0 < simulation.config.maxSteps) := by
  cases ending with
  | bound =>
      simp only [result] at told
      split at told
      · cases told
      · rename_i bounded
        exact ⟨Except.ok.inj told, Or.inr ⟨rfl, Nat.pos_of_ne_zero bounded⟩⟩
  | stopped => exact ⟨Except.ok.inj told, Or.inl rfl⟩
  | failed error => cases told

/-- A run that tells an error has failed with it, or does not end where there is no bound. -/
theorem eq_of_result_error {error : SimulationError} {counted : Summary} {ending : Ending}
    (told : .error error = simulation.result counted ending)
    : ending = .failed error
      ∨ ending = .bound ∧ simulation.config.maxSteps = 0 ∧ error = .endless := by
  cases ending with
  | bound =>
      simp only [result] at told
      split at told
      · rename_i unbounded
        exact Or.inr ⟨rfl, unbounded, Except.error.inj told⟩
      · cases told
  | stopped => cases told
  | failed other => exact Or.inl (congrArg Ending.failed (Except.error.inj told).symm)

/-- A run accounts for exactly what happened in its rounds, and stops exactly when it should.

The summary counts the steps, the batches, the applied and the rejected actions and the costs, which
are added as numbers of 64 bits; the batches arrive in order, each at most once, and an arrival is
tried exactly after the steps after which one is due. A bound on the steps is kept; a run that does
not reach one stops with a round that meets the conditions for it, and no earlier round does.

If a run fails, what its rounds did stays done: the step that fails changes nothing, and of an
arrival that fails only the step before it counts. A run without a bound that never stops is
endless.
-/
theorem run_accounts (simulation : Simulation) (policy : Policy μ) (memory : μ)
    (progress : Progress)
    : (∀ final summary, simulation.run policy memory progress = (final, .ok summary)
        → ∃ rounds last, simulation.Rounds policy memory progress rounds last final
            ∧ summary.Accounts rounds
            ∧ final.steps = progress.steps + summary.steps
            ∧ final.batches = progress.batches + summary.batches
            ∧ rounds.filterMap Round.batch? = List.range' progress.batches summary.batches
            ∧ (progress.batches ≤ simulation.schema.batches.length
                → ∀ round ∈ rounds, round.final.batches ≤ simulation.schema.batches.length)
            ∧ (∀ round ∈ rounds,
                round.arrival.isSome = true ↔ simulation.Due round.stepped round.outcome)
            ∧ (0 < simulation.config.maxSteps → summary.steps ≤ simulation.config.maxSteps)
            ∧ (simulation.config.maxSteps = 0 ∨ summary.steps < simulation.config.maxSteps
                → ∃ round ∈ rounds.getLast?, simulation.Stops round)
            ∧ ∀ round ∈ rounds.dropLast, ¬ simulation.Stops round)
      ∧ ∀ final error, simulation.run policy memory progress = (final, .error error)
          → ∃ rounds last reached, simulation.Rounds policy memory progress rounds last reached
              ∧ (∀ round ∈ rounds,
                  (round.arrival.isSome = true ↔ simulation.Due round.stepped round.outcome)
                  ∧ ¬ simulation.Stops round)
              ∧ (0 < simulation.config.maxSteps → rounds.length < simulation.config.maxSteps)
              ∧ (final = reached ∧ simulation.step policy last reached = .error error
                ∨ (∃ outcome next,
                    simulation.step policy last reached = .ok (outcome, final, next)
                    ∧ simulation.Due final outcome ∧ simulation.advance? final = .error error)
                ∨ final = reached ∧ error = .endless ∧ simulation.config.maxSteps = 0
                  ∧ rounds.length = simulation.roundLimit) := by
  constructor
  · intro final summary ran
    obtain ⟨rounds, ending, course, told⟩ := course_of_run ran
    obtain ⟨rfl, ends⟩ := eq_of_result_ok told
    obtain ⟨last, reached, run, behind⟩ := course.rounds_final
    have accounts := Summary.accounts_addRounds rounds
    obtain ⟨order, batches⟩ := run.batches_final
    have spends := course.length_rounds
    have same : final = reached := by
      rcases ends with rfl | ⟨rfl, _⟩ <;> exact behind
    subst same
    refine ⟨rounds, last, run, accounts, ?_, ?_, ?_, run.batches_le, course.prompt, ?_, ?_,
      course.closes.unstopped⟩
    · rw [accounts.steps, run.steps_final]
    · rw [accounts.batches, batches]
    · rw [accounts.batches, ← order]
    · intro bounded
      rw [accounts.steps, ← stepLimit_of_pos bounded]
      rcases ends with rfl | ⟨rfl, _⟩
      · exact spends
      · exact Nat.le_of_eq spends
    · intro early
      rcases ends with rfl | ⟨rfl, bounded⟩
      · obtain ⟨earlier, round, same, stops, _⟩ := course.closes
        exact ⟨round, by rw [same, List.getLast?_concat, Option.mem_some_iff], stops⟩
      · -- The run ended at the bound, so it has used up its steps.
        have full : rounds.length = simulation.config.maxSteps :=
          spends.trans (stepLimit_of_pos bounded)
        rw [accounts.steps] at early
        omega
  · intro final error ran
    obtain ⟨rounds, ending, course, told⟩ := course_of_run ran
    obtain ⟨last, reached, run, behind⟩ := course.rounds_final
    have spends := course.length_rounds
    have closes := course.closes
    rcases eq_of_result_error told with rfl | ⟨rfl, unbounded, rfl⟩
    · refine ⟨rounds, last, reached, run,
        fun round member => ⟨course.prompt round member, closes round member⟩, ?_, ?_⟩
      · intro bounded
        rw [← stepLimit_of_pos bounded]
        exact spends
      · exact behind.imp_right Or.inl
    · refine ⟨rounds, last, reached, run,
        fun round member => ⟨course.prompt round member, closes round member⟩, by omega, ?_⟩
      exact Or.inr (Or.inr ⟨behind, rfl, unbounded, spends.trans (if_pos unbounded)⟩)

/-- A pier from which two cranes ship crates. One crate is there at the start and another one
arrives.
-/
def pier : Simulation where
  schema := {
    entities := [⟨"Crane", none, .positional 2⟩, ⟨"Crate", none, .dynamic 0⟩]
    constants := []
    mutables := []
    collections := [⟨"Crate", 1, [⟨"weight", .int, false, 0⟩]⟩]
    names := [("weight", .field 0 0 false)]
    initial := ⟨[], [.numbered [⟨[], [.int 1]⟩]]⟩
    batches := [[⟨0, ⟨[], [.int 2]⟩⟩]] }
  templates := [.ofDecl {
    name := "Ship", base := none, parent := none, parameters := [⟨"c", 0⟩, ⟨"k", 1⟩]
    preconditions := [], conflicts := [], effects := [.remove 1 0 (.param 1 "k")]
    cost := ⟨[], .int 3⟩, line := 1 }]
  environment := []
  arrival := []
  config := ⟨0, 0, true⟩
  roundLimit := 9

/-- Witness: in every other step both cranes choose the only crate and the second comes too late.
After the idle step between them the batch arrives; the second idle step finds none and stops the
run.
-/
theorem run_accounts_at_pier
    : ∃ final rounds last,
        pier.run .firstLegal () pier.start = (final, .ok ⟨4, 2, 2, 1, 6⟩)
        ∧ pier.Rounds .firstLegal () pier.start rounds last final ∧ rounds.length = 4
        ∧ rounds.filterMap Round.batch? = [0]
        ∧ ∃ round ∈ rounds.getLast?, pier.Stops round := by
  have told
      : (pier.run .firstLegal () pier.start).2.toOption = some ⟨4, 2, 2, 1, 6⟩ := by
    decide +kernel
  have ran
      : pier.run .firstLegal () pier.start
        = ((pier.run .firstLegal () pier.start).1, .ok ⟨4, 2, 2, 1, 6⟩) :=
    Prod.ext rfl (ok_of_toOption told)
  obtain ⟨rounds, last, run, accounts, _, _, order, _, _, _, stops, _⟩ :=
    (run_accounts pier .firstLegal () pier.start).1 _ _ ran
  exact ⟨_, rounds, last, ran, run, accounts.steps.symm, order, stops (Or.inl rfl)⟩

end Simulation

end Dispatch
