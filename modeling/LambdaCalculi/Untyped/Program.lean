import LambdaCalculi.Untyped.Normalize

/-!
# Programs of the untyped calculus

A program is a list of definitions and a body. Each definition is evaluated in the environment of
those before it, and a later definition of a name shadows an earlier one.
-/

set_option autoImplicit false

namespace LambdaCalculi.Untyped

structure Definition where
  name : Name
  term : Term
deriving DecidableEq, Repr

/-- Definitions followed by a term to normalise. A definition may use those before it. -/
structure Program where
  definitions : List Definition
  body : Term
deriving DecidableEq, Repr

namespace Program

def env (fuel : Nat) (definitions : List Definition) : Outcome UnboundVariable Env :=
  definitions.foldlM
    (fun env definition => do
      let value ← env.eval fuel definition.term
      return env.extend definition.name value)
    Env.nil

/-- The normal form of the body; its binders avoid the names of the definitions. -/
def run (fuel : Nat) (program : Program) : Outcome UnboundVariable Term := do
  let env ← env fuel program.definitions
  let value ← env.eval fuel program.body
  value.readBack fuel (program.definitions.map Definition.name)

end Program

end LambdaCalculi.Untyped
