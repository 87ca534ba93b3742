import LambdaCalculi.Dependent.Program
import LambdaCalculi.Dependent.Register

/-!
# Computations that keep registers

Evaluation and type checking with shared registers: every environment that is extended on the way
has its names counted by `Env.extendWith`. The registers outlive a computation that fails, so that
a sequence of computations can go on with them.
-/

set_option autoImplicit false

namespace LambdaCalculi.Dependent

/-- A computation with a state that is kept also when it fails. -/
def Stateful (σ ε α : Type) := σ → Outcome ε α × σ

namespace Stateful

variable {σ ε α β : Type}

def bind (first : Stateful σ ε α) (next : α → Stateful σ ε β) : Stateful σ ε β := fun state =>
  match first state with
  | (.done value, state) => next value state
  | (.failed fault, state) => (.failed fault, state)
  | (.exhausted, state) => (.exhausted, state)

instance : Monad (Stateful σ ε) where
  pure value := fun state => (.done value, state)
  bind := bind

end Stateful

abbrev Accounting (α : Type) := Stateful Registers Stuck α

instance : Scoping (Stateful Registers Stuck) where
  extend env x value := fun registers =>
    let (env, registers) := env.extendWith registers x value
    (.done env, registers)
  stuck place := fun registers => (.failed place, registers)
  exhausted := fun registers => (.exhausted, registers)

/-- The registers and the events recorded so far, the latest first. -/
structure Journal where
  registers : Registers
  events : List Event

abbrev AccountedChecking (α : Type) := Stateful Journal Fault α

instance : Judging (Stateful Registers Stuck) (Stateful Journal Fault) where
  compute computation := fun journal =>
    let (outcome, registers) := computation journal.registers
    (outcome.mapFault .stuck, { journal with registers })
  record event := fun journal => (.done (), { journal with events := event :: journal.events })
  reject error := fun journal => (.failed (.rejected none error), journal)
  within x computation := fun journal =>
    let (outcome, journal) := computation journal
    (outcome.mapFault (.within x), journal)
  spent := fun journal => (.exhausted, journal)

def AccountedChecking.run {α : Type} (computation : AccountedChecking α) (registers : Registers) :
    Checking α × Registers :=
  let (outcome, journal) := computation ⟨registers, []⟩
  (⟨journal.events.reverse, outcome⟩, journal.registers)

end LambdaCalculi.Dependent
