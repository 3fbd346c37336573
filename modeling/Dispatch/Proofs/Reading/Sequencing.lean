/-!
Computations that may fail: what must have succeeded where a sequence of steps did, and which errors
it can end with where they are known of every step.
-/

namespace Dispatch

variable {ε α β : Type}

/-- A sequence succeeds exactly when its first step does and the rest does with its result. -/
theorem bind_eq_ok_iff {first : Except ε α} {next : α → Except ε β} {result : β}
    : (first >>= next) = .ok result ↔ ∃ value, first = .ok value ∧ next value = .ok result := by
  cases first with
  | error error => exact ⟨nofun, nofun⟩
  | ok value =>
      constructor
      · intro done
        exact ⟨value, rfl, done⟩
      · rintro ⟨_, same, done⟩
        obtain rfl := Except.ok.inj same
        exact done

/-- A value that is left of a computation without its error is what it succeeded with. -/
theorem ok_of_toOption {result : Except ε α} {value : α} (left : result.toOption = some value)
    : result = .ok value := by
  cases result with
  | error error => cases left
  | ok found => rw [Option.some.inj left]

-----------------------------------------------------------------------------------------
-- Failing with certain errors only
-----------------------------------------------------------------------------------------

/-- The result is a value or one of certain errors. -/
def FailsOnly (fault : ε → Prop) (result : Except ε α) : Prop :=
  ∀ error, result = .error error → fault error

namespace FailsOnly

variable {fault : ε → Prop}

theorem ok (value : α) : FailsOnly fault (.ok value : Except ε α) := nofun

theorem error {reason : ε} (permitted : fault reason)
    : FailsOnly fault (.error reason : Except ε α) := by
  rintro _ ⟨⟩
  exact permitted

/-- A sequence fails as its first step does, or as the rest does with the result of the first.
Results on the errors of a reader follow its steps by this.
-/
theorem bind {first : Except ε α} {next : α → Except ε β} (start : FailsOnly fault first)
    (continues : ∀ value, first = .ok value → FailsOnly fault (next value))
    : FailsOnly fault (first >>= next) := by
  cases first with
  | error reason =>
      rintro _ ⟨⟩
      exact start reason rfl
  | ok value => exact continues value rfl

/-- A sequence whose first step yields two results, as readers yield what they read and what they
leave.
-/
theorem bindPair {γ : Type} {first : Except ε (α × γ)} {next : α × γ → Except ε β}
    (start : FailsOnly fault first)
    (continues : ∀ one other, first = .ok (one, other) → FailsOnly fault (next (one, other)))
    : FailsOnly fault (first >>= next) :=
  start.bind fun value => continues value.1 value.2

theorem mono {wider : ε → Prop} {result : Except ε α} (fails : FailsOnly fault result)
    (wide : ∀ error, fault error → wider error)
    : FailsOnly wider result :=
  fun error failed => wide error (fails error failed)

theorem and {other : ε → Prop} {result : Except ε α} (left : FailsOnly fault result)
    (right : FailsOnly other result)
    : FailsOnly (fun error => fault error ∧ other error) result :=
  fun error failed => ⟨left error failed, right error failed⟩

end FailsOnly

-----------------------------------------------------------------------------------------
-- Values with a property only
-----------------------------------------------------------------------------------------

/-- The result is an error or a value with the property. -/
def YieldsOnly (property : α → Prop) (result : Except ε α) : Prop :=
  ∀ value, result = .ok value → property value

namespace YieldsOnly

variable {property : α → Prop}

theorem error (reason : ε) : YieldsOnly property (.error reason : Except ε α) := nofun

theorem ok {value : α} (has : property value)
    : YieldsOnly property (.ok value : Except ε α) := by
  rintro _ ⟨⟩
  exact has

/-- A sequence yields what the rest does with the result of the first step. -/
theorem bind {property : β → Prop} {first : Except ε α} {next : α → Except ε β}
    (continues : ∀ value, first = .ok value → YieldsOnly property (next value))
    : YieldsOnly property (first >>= next) := by
  cases first with
  | error reason => exact .error reason
  | ok value => exact continues value rfl

end YieldsOnly

end Dispatch
