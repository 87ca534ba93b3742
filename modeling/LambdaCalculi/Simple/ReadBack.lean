import LambdaCalculi.Simple.Eval

/-!
# Reading values back into terms

`Value.readBack` turns a value of a known type into its normal form. At a function type the value
is applied to a new variable, so normal forms are fully expanded. The new variable has the name of
the function's own binder, or `x` for a blocked computation, with primes as needed to avoid the
names in `used`.
-/

set_option autoImplicit false

namespace LambdaCalculi.Simple

/-- The name that a value suggests for its argument. -/
def Value.argumentName : Value → Name
  | closure _ x _ => x
  | _ => "x"

mutual

def Value.readBack (fuel : Nat) (used : List Name) (type : Ty) (value : Value) :
    Outcome Stuck Term :=
  match fuel with
  | 0 => .exhausted
  | fuel + 1 =>
    match type, value with
    | .nat, .zero => .done .zero
    | .nat, .add1 predecessor => do
        let predecessor ← predecessor.readBack fuel used .nat
        return .add1 predecessor
    | .nat, .neutral .nat blocked => blocked.readBack fuel used
    | .nat, _ => .failed .readBack
    | .arrow domain codomain, function => do
        let x := Name.fresh used function.argumentName
        let body ← function.apply fuel (.ofVar domain x)
        let body ← body.readBack fuel (x :: used) codomain
        return .lam x body

def Neutral.readBack (fuel : Nat) (used : List Name) (neutral : Neutral) : Outcome Stuck Term :=
  match fuel with
  | 0 => .exhausted
  | fuel + 1 =>
    match neutral with
    | .var x => .done (.var x)
    | .app function argument => do
        let function ← function.readBack fuel used
        let argument ← argument.readBack fuel used
        return .app function argument
    | .recNat type target base step => do
        let target ← target.readBack fuel used
        let base ← base.readBack fuel used
        let step ← step.readBack fuel used
        return .recNat type target base step

def Normal.readBack (fuel : Nat) (used : List Name) (normal : Normal) : Outcome Stuck Term :=
  match fuel with
  | 0 => .exhausted
  | fuel + 1 =>
    match normal with
    | .mk type value => value.readBack fuel used type

end

end LambdaCalculi.Simple
