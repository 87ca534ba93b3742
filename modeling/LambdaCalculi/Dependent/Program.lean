import LambdaCalculi.Dependent.Typing

/-!
# Programs of the dependent calculus

A program is a list of definitions and a body. The definitions are checked in order, each seeing
only those before it, and the first that fails ends the run. The body is then checked and
normalised; the result is its normal form together with the normal form of its type.
-/

set_option autoImplicit false

namespace LambdaCalculi.Dependent

structure Definition where
  name : Name
  term : Term
deriving DecidableEq, Repr

structure Program where
  definitions : List Definition
  body : Term
deriving DecidableEq, Repr

structure NormalForm where
  type : Term
  term : Term
deriving DecidableEq, Repr

def NormalForm.annotated (result : NormalForm) : Term :=
  .the result.type result.term

namespace Context

open Judging (compute record reject)

variable {n m : Type → Type} [Monad n] [Scoping n] [Monad m] [Judging n m]

/-- Checks a term and adds it to the context under a name that is not in use. -/
def addDefinition (fuel : Nat) (ctx : Context) (x : Name) (term : Term) : m Context := do
  if (ctx.binding? x).isSome then
    reject (.alreadyDefined x)
  else
    let type ← ctx.synth fuel term
    record (.define x)
    let value ← compute (ctx.eval fuel term)
    compute (ctx.define x type value)

def run (fuel : Nat) (ctx : Context) (term : Term) : m NormalForm := do
  let type ← ctx.synth fuel term
  let value ← compute (ctx.eval fuel term)
  let typeTerm ← compute (ctx.readBackType fuel type)
  let valueTerm ← compute (ctx.readBack fuel type value)
  return ⟨typeTerm, valueTerm⟩

def normalize (fuel : Nat) (ctx : Context) (term : Term) : m Term := do
  let result ← ctx.run fuel term
  return result.term

def addDefinitions (fuel : Nat) (ctx : Context) (definitions : List Definition) : m Context :=
  definitions.foldlM
    (fun ctx definition =>
      Judging.within definition.name (ctx.addDefinition fuel definition.name definition.term))
    ctx

def ofDefinitions (fuel : Nat) (definitions : List Definition) : m Context :=
  empty.addDefinitions fuel definitions

end Context

def Program.run {n m : Type → Type} [Monad n] [Scoping n] [Monad m] [Judging n m] (fuel : Nat)
    (program : Program) : m NormalForm := do
  let ctx ← Context.ofDefinitions fuel program.definitions
  ctx.run fuel program.body

end LambdaCalculi.Dependent
