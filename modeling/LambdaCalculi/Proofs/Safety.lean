import LambdaCalculi.Outcome

/-!
# What an outcome may be

An outcome is safe when its value has a property and its fault, if it failed, is one of those that
are allowed. Nothing is said of a computation that reached its bound. A sequence of safe steps is
safe.
-/

set_option autoImplicit false

namespace LambdaCalculi.Outcome

variable {ε α β : Type}

def Safe (allowed : ε → Prop) (result : α → Prop) : Outcome ε α → Prop
  | done value => result value
  | failed fault => allowed fault
  | exhausted => True

namespace Safe

variable {allowed : ε → Prop} {result : α → Prop} {outcome : Outcome ε α}

theorem mono {weaker : α → Prop} (safe : Safe allowed result outcome)
    (weaken : ∀ value, result value → weaker value) : Safe allowed weaker outcome := by
  cases outcome with
  | done value => exact weaken value safe
  | failed fault => exact safe
  | exhausted => trivial

theorem and {other : α → Prop} (safe : Safe allowed result outcome)
    (otherSafe : Safe allowed other outcome) :
    Safe allowed (fun value => result value ∧ other value) outcome := by
  cases outcome with
  | done value => exact ⟨safe, otherSafe⟩
  | failed fault => exact safe
  | exhausted => trivial

theorem bind {next : α → Outcome ε β} {nextResult : β → Prop} (safe : Safe allowed result outcome)
    (nextSafe : ∀ value, result value → Safe allowed nextResult (next value)) :
    Safe allowed nextResult (outcome >>= next) := by
  cases outcome with
  | done value => exact nextSafe value safe
  | failed fault => exact safe
  | exhausted => trivial

/-- What each step of a fold keeps, the whole fold keeps. -/
theorem foldlM {σ ι : Type} {step : σ → ι → Outcome ε σ} {invariant : σ → Prop}
    (kept : ∀ state input, invariant state → Safe allowed invariant (step state input))
    (inputs : List ι) {state : σ} (holds : invariant state) :
    Safe allowed invariant (inputs.foldlM step state) := by
  induction inputs generalizing state with
  | nil => exact holds
  | cons input rest ih =>
      rw [List.foldlM_cons]
      exact (kept state input holds).bind fun _ => ih

theorem of_done (safe : Safe allowed result outcome) {value : α}
    (finished : outcome = .done value) : result value := by
  rw [finished] at safe
  exact safe

theorem of_failed (safe : Safe allowed result outcome) {fault : ε}
    (stopped : outcome = .failed fault) : allowed fault := by
  rw [stopped] at safe
  exact safe

end Safe

end LambdaCalculi.Outcome
