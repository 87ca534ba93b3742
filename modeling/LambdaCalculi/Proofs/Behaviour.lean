import LambdaCalculi.Proofs.Lockstep
import LambdaCalculi.Proofs.Settling

/-!
# Computations that behave alike

With a bound that grows, a computation diverges or settles on a value or a fault, and then it ends.
Two computations behave alike when both diverge, both settle on related values, or both settle on the
same fault. They need not take the same bound for it: it is enough that each catches up with the other.
-/

set_option autoImplicit false

namespace LambdaCalculi.Outcome

variable {ε α α' : Type}

def Ends (run : Nat → Outcome ε α) : Prop :=
  ∃ result, Settles run result ∧ result ≠ .exhausted

namespace Ends

theorem const {result : Outcome ε α} (finished : result ≠ .exhausted) : Ends fun _ => result :=
  ⟨result, .const result, finished⟩

theorem bind {run : Nat → Outcome ε α} {next : Nat → α → Outcome ε α'} (ends : Ends run)
    (nextEnds : ∀ value, Settles run (.done value) → Ends fun fuel => next fuel value) :
    Ends fun fuel => run fuel >>= next fuel := by
  obtain ⟨result, settled, finished⟩ := ends
  cases result with
  | done value =>
      obtain ⟨final, nextSettled, nextFinished⟩ := nextEnds value settled
      exact ⟨final, settled.bind nextSettled, nextFinished⟩
  | failed fault => exact ⟨.failed fault, settled.bind_failed, by simp⟩
  | exhausted => exact absurd rfl finished

theorem spend {run : Nat → Outcome ε α} (ends : Ends fun fuel => run (fuel + 1)) : Ends run := by
  obtain ⟨result, settled, finished⟩ := ends
  exact ⟨result, settled.spend, finished⟩

end Ends

/-- Both computations diverge, or settle on related values, or settle on the same fault. -/
inductive BehaveAlike (values : α → α' → Prop) (first : Nat → Outcome ε α)
    (second : Nat → Outcome ε α') : Prop where
  | diverge (firstDiverges : ∀ fuel, first fuel = .exhausted)
      (secondDiverges : ∀ fuel, second fuel = .exhausted)
  | finish {value : α} {value' : α'} (firstSettles : Settles first (.done value))
      (secondSettles : Settles second (.done value')) (related : values value value')
  | fail {fault : ε} (firstSettles : Settles first (.failed fault))
      (secondSettles : Settles second (.failed fault))

theorem BehaveAlike.of_catching_up {values : α → α' → Prop} {first : Nat → Outcome ε α}
    {second : Nat → Outcome ε α'} (firstSteady : ∀ fuel, Below (first fuel) (first (fuel + 1)))
    (secondSteady : ∀ fuel, Below (second fuel) (second (fuel + 1)))
    (secondCatchesUp : ∀ fuel, first fuel ≠ .exhausted →
      ∃ more, Alike Eq values (first fuel) (second more))
    (firstCatchesUp : ∀ fuel, second fuel ≠ .exhausted → ∃ more, first more ≠ .exhausted) :
    BehaveAlike values first second := by
  by_cases diverges : ∀ fuel, first fuel = .exhausted
  · refine .diverge diverges fun fuel => Classical.byContradiction fun finished => ?_
    obtain ⟨more, firstFinished⟩ := firstCatchesUp fuel finished
    exact firstFinished (diverges more)
  · obtain ⟨fuel, finished⟩ := Classical.not_forall.mp diverges
    obtain ⟨more, alike⟩ := secondCatchesUp fuel finished
    generalize reached : first fuel = result at alike finished
    generalize reached' : second more = result' at alike
    cases alike with
    | done related =>
        exact .finish (.of_not_exhausted firstSteady reached (by simp))
          (.of_not_exhausted secondSteady reached' (by simp)) related
    | failed same =>
        subst same
        exact .fail (.of_not_exhausted firstSteady reached (by simp))
          (.of_not_exhausted secondSteady reached' (by simp))
    | exhausted => exact absurd rfl finished

theorem BehaveAlike.of_lockstep {values : α → α' → Prop} {first : Nat → Outcome ε α}
    {second : Nat → Outcome ε α'} (firstSteady : ∀ fuel, Below (first fuel) (first (fuel + 1)))
    (secondSteady : ∀ fuel, Below (second fuel) (second (fuel + 1)))
    (alike : ∀ fuel, Alike Eq values (first fuel) (second fuel)) :
    BehaveAlike values first second :=
  .of_catching_up firstSteady secondSteady (fun fuel _ => ⟨fuel, alike fuel⟩)
    fun fuel finished => ⟨fuel, fun unfinished => finished ((alike fuel).exhausted_iff.mp unfinished)⟩

end LambdaCalculi.Outcome
