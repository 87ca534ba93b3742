import LambdaCalculi.Untyped.Eval

/-!
# Normalisation in the untyped calculus

A value is read back into a term by applying functions to new variables. A new variable keeps the
name of the function's own binder, with primes as needed to avoid the names in `used`.
-/

set_option autoImplicit false

namespace LambdaCalculi.Untyped

mutual

/-- The normal form of a value, its binders different from the names in `used`. -/
def Value.readBack (fuel : Nat) (used : List Name) (value : Value) : Outcome UnboundVariable Term :=
  match fuel with
  | 0 => .exhausted
  | fuel + 1 =>
    match value with
    | .closure env x body => do
        let y := Name.fresh used x
        let body ← (Value.closure env x body).apply fuel (.ofVar y)
        let body ← body.readBack fuel (y :: used)
        return .lam y body
    | .neutral blocked => blocked.readBack fuel used

def Neutral.readBack (fuel : Nat) (used : List Name) (neutral : Neutral) :
    Outcome UnboundVariable Term :=
  match fuel with
  | 0 => .exhausted
  | fuel + 1 =>
    match neutral with
    | .var x => .done (.var x)
    | .app function argument => do
        let function ← function.readBack fuel used
        let argument ← argument.readBack fuel used
        return .app function argument

end

def Term.normalize (fuel : Nat) (term : Term) : Outcome UnboundVariable Term := do
  let value ← Env.nil.eval fuel term
  value.readBack fuel []

end LambdaCalculi.Untyped
