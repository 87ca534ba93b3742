import LambdaCalculi.Simple.ReadBack
import LambdaCalculi.Simple.Typing

/-!
# Programs of the simply typed calculus

A program is a list of definitions and a body. Each definition has its type found and its value
computed in the scope of those before it, and a later definition of a name shadows an earlier one.
-/

set_option autoImplicit false

namespace LambdaCalculi.Simple

/-- A named term at the top of a program. Its shape has to determine its type. -/
structure Definition where
  name : Name
  term : Term
deriving DecidableEq, Repr

structure Program where
  definitions : List Definition
  body : Term
deriving DecidableEq, Repr

inductive Fault where
  | rejected (error : TypeError)
  | stuck (stuck : Stuck)
deriving DecidableEq, Repr

def Fault.message : Fault → String
  | rejected error => error.message
  | stuck place => place.message

structure Checked where
  name : Name
  type : Ty
  value : Value
deriving DecidableEq, Repr

/-- The checked definitions in scope, the innermost first. -/
abbrev Scope := List Checked

namespace Scope

def context (scope : Scope) : Context :=
  scope.map fun definition => (definition.name, definition.type)

def env (scope : Scope) : Env :=
  scope.foldr (fun definition env => env.extend definition.name definition.value) .nil

def names (scope : Scope) : List Name :=
  scope.map Checked.name

def typedValue (fuel : Nat) (scope : Scope) (term : Term) : Outcome Fault (Ty × Value) :=
  match term.synth scope.context with
  | .error error => .failed (.rejected error)
  | .ok type => do
      let value ← (scope.env.eval fuel term).mapFault .stuck
      return (type, value)

def ofDefinitions (fuel : Nat) (definitions : List Definition) : Outcome Fault Scope :=
  definitions.foldlM
    (fun scope definition => do
      let (type, value) ← typedValue fuel scope definition.term
      return ⟨definition.name, type, value⟩ :: scope)
    []

end Scope

/-- The normal form of the body; its binders avoid the names of the definitions. -/
def Program.run (fuel : Nat) (program : Program) : Outcome Fault Term := do
  let scope ← Scope.ofDefinitions fuel program.definitions
  let (type, value) ← scope.typedValue fuel program.body
  (value.readBack fuel scope.names type).mapFault .stuck

end LambdaCalculi.Simple
