import LambdaCalculi.Dependent.Context

/-!
# Reading values back into terms

`Context.readBack` turns a value of a known type into its normal form. It is directed by the type:
a function is read back by applying it to a new variable and a pair by taking its components, so
normal forms are fully expanded at these types; every member of `Trivial` is read back as `sole`.
A neutral member of `Absurd` is annotated with its type, which makes all of them alike for
alpha-equivalence.

New variables are named after the binder of the type and avoid the names taken in the context.
-/

set_option autoImplicit false

namespace LambdaCalculi.Dependent.Context

open Scoping (stuck exhausted)

variable {m : Type → Type} [Monad m] [Scoping m]

mutual

def readBack (fuel : Nat) (ctx : Context) (type value : Value) : m Term :=
  match fuel with
  | 0 => exhausted
  | fuel + 1 =>
    match type, value with
    | .nat, .zero => return .zero
    | .nat, .add1 predecessor => do
        let predecessor ← ctx.readBack fuel .nat predecessor
        return .add1 predecessor
    | .pi domain range, function => do
        let x := ctx.freshFor range.binder
        let inner ← ctx.assume x domain
        let bodyType ← range.instantiate fuel (.ofVar domain x)
        let body ← function.apply fuel (.ofVar domain x)
        let body ← inner.readBack fuel bodyType body
        return .lam x body
    | .sigma carType cdrType, pair => do
        let first ← pair.car
        let firstTerm ← ctx.readBack fuel carType first
        let secondType ← cdrType.instantiate fuel first
        let second ← pair.cdr fuel
        let secondTerm ← ctx.readBack fuel secondType second
        return .cons firstTerm secondTerm
    | .trivial, _ => return .sole
    | .absurd, .neutral .absurd blocked => do
        let blocked ← ctx.readBackNeutral fuel blocked
        return .the .absurd blocked
    | .equal _ _ _, .same => return .same
    | .atom, .tick symbol => return .tick symbol
    | .univ, type => ctx.readBackType fuel type
    | _, .neutral _ blocked => ctx.readBackNeutral fuel blocked
    | _, _ => stuck .readBack

def readBackType (fuel : Nat) (ctx : Context) (type : Value) : m Term :=
  match fuel with
  | 0 => exhausted
  | fuel + 1 =>
    match type with
    | .pi domain range => do
        let x := ctx.freshFor range.binder
        let rangeAtX ← range.instantiate fuel (.ofVar domain x)
        let domainTerm ← ctx.readBackType fuel domain
        let inner ← ctx.assume x domain
        let rangeTerm ← inner.readBackType fuel rangeAtX
        return .pi x domainTerm rangeTerm
    | .sigma carType cdrType => do
        let x := ctx.freshFor cdrType.binder
        let cdrTypeAtX ← cdrType.instantiate fuel (.ofVar carType x)
        let carTypeTerm ← ctx.readBackType fuel carType
        let inner ← ctx.assume x carType
        let cdrTypeTerm ← inner.readBackType fuel cdrTypeAtX
        return .sigma x carTypeTerm cdrTypeTerm
    | .equal type left right => do
        let typeTerm ← ctx.readBackType fuel type
        let left ← ctx.readBack fuel type left
        let right ← ctx.readBack fuel type right
        return .equal typeTerm left right
    | .nat => return .nat
    | .trivial => return .trivial
    | .absurd => return .absurd
    | .atom => return .atom
    | .univ => return .univ
    | .neutral _ blocked => ctx.readBackNeutral fuel blocked
    | _ => stuck .readBack

def readBackNeutral (fuel : Nat) (ctx : Context) (neutral : Neutral) : m Term :=
  match fuel with
  | 0 => exhausted
  | fuel + 1 =>
    match neutral with
    | .var x => return .var x
    | .app function argument => do
        let function ← ctx.readBackNeutral fuel function
        let argument ← ctx.readBackNormal fuel argument
        return .app function argument
    | .car pair => do
        let pair ← ctx.readBackNeutral fuel pair
        return .car pair
    | .cdr pair => do
        let pair ← ctx.readBackNeutral fuel pair
        return .cdr pair
    | .indNat target motive base step => do
        let target ← ctx.readBackNeutral fuel target
        let motive ← ctx.readBackNormal fuel motive
        let base ← ctx.readBackNormal fuel base
        let step ← ctx.readBackNormal fuel step
        return .indNat target motive base step
    | .replace target motive base => do
        let target ← ctx.readBackNeutral fuel target
        let motive ← ctx.readBackNormal fuel motive
        let base ← ctx.readBackNormal fuel base
        return .replace target motive base
    | .indAbsurd target motive => do
        let target ← ctx.readBackNeutral fuel target
        let motive ← ctx.readBackNormal fuel motive
        return .indAbsurd (.the .absurd target) motive

def readBackNormal (fuel : Nat) (ctx : Context) (normal : Normal) : m Term :=
  match fuel with
  | 0 => exhausted
  | fuel + 1 =>
    match normal with
    | .mk type value => ctx.readBack fuel type value

end

end LambdaCalculi.Dependent.Context
