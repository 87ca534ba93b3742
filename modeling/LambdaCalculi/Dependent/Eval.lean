import LambdaCalculi.Dependent.Scoping

/-!
# Evaluation in the dependent calculus

`Env.eval` computes the value of a term whose free variables the environment binds. Eliminators
compute on the matching constructor and become neutral on a neutral target of the matching type;
on anything else evaluation is stuck. Evaluation does not check types: it is the type checker that
has to keep such terms away. Arguments are evaluated from left to right.

All of it takes a bound `fuel` on the depth of the recursion, and every recursive call spends one
unit. All of it works in any computation `m` that can extend environments.
-/

set_option autoImplicit false

namespace LambdaCalculi.Dependent

open Scoping (stuck exhausted)

variable {m : Type → Type} [Monad m] [Scoping m]

namespace Value

def ofVar (type : Value) (x : Name) : Value :=
  neutral type (.var x)

/-- The type `(Π ((k Nat)) U)` of motives for induction on natural numbers. -/
def natMotiveType : Value :=
  pi nat (.mk .nil "k" .univ)

/-- The type of the step of an induction, with `mot` for the motive:
`(Π ((n-1 Nat)) (Π ((almost (mot n-1))) (mot (add1 n-1))))`. -/
def natStepType (motive : Value) : Value :=
  pi nat (.mk (Env.nil.extend "mot" motive) "n-1"
    (.pi "almost" (.app (.var "mot") (.var "n-1")) (.app (.var "mot") (.add1 (.var "n-1")))))

/-- The type `(Π ((x A)) U)` of motives for replacement along an equality of members of `A`. -/
def equalMotiveType (type : Value) : Value :=
  pi type (.mk .nil "x" .univ)

def car : Value → m Value
  | pair first _ => return first
  | neutral (sigma carType _) blocked => return neutral carType (.car blocked)
  | _ => stuck .car

/-- Elimination of the empty type. It has no constructors, so only a neutral target makes sense. -/
def indAbsurd (target motive : Value) : m Value :=
  match target with
  | neutral absurd blocked => return neutral motive (.indAbsurd blocked (.mk univ motive))
  | _ => stuck .indAbsurd

end Value

mutual

def Env.eval (fuel : Nat) (env : Env) (term : Term) : m Value :=
  match fuel with
  | 0 => exhausted
  | fuel + 1 =>
    match term with
    | .var x =>
        match env.lookup? x with
        | some value => return value
        | none => stuck (.unbound x)
    | .pi x domain range => do
        let domain ← env.eval fuel domain
        return .pi domain (.mk env x range)
    | .lam x body => return .lam (.mk env x body)
    | .app function argument => do
        let function ← env.eval fuel function
        let argument ← env.eval fuel argument
        function.apply fuel argument
    | .sigma x carType cdrType => do
        let carType ← env.eval fuel carType
        return .sigma carType (.mk env x cdrType)
    | .cons first second => do
        let first ← env.eval fuel first
        let second ← env.eval fuel second
        return .pair first second
    | .car pair => do
        let pair ← env.eval fuel pair
        pair.car
    | .cdr pair => do
        let pair ← env.eval fuel pair
        pair.cdr fuel
    | .nat => return .nat
    | .zero => return .zero
    | .add1 predecessor => do
        let predecessor ← env.eval fuel predecessor
        return .add1 predecessor
    | .indNat target motive base step => do
        let target ← env.eval fuel target
        let motive ← env.eval fuel motive
        let base ← env.eval fuel base
        let step ← env.eval fuel step
        target.indNat fuel motive base step
    | .equal type left right => do
        let type ← env.eval fuel type
        let left ← env.eval fuel left
        let right ← env.eval fuel right
        return .equal type left right
    | .same => return .same
    | .replace target motive base => do
        let target ← env.eval fuel target
        let motive ← env.eval fuel motive
        let base ← env.eval fuel base
        target.replace fuel motive base
    | .trivial => return .trivial
    | .sole => return .sole
    | .absurd => return .absurd
    | .indAbsurd target motive => do
        let target ← env.eval fuel target
        let motive ← env.eval fuel motive
        target.indAbsurd motive
    | .atom => return .atom
    | .tick symbol => return .tick symbol
    | .univ => return .univ
    | .the _ expr => env.eval fuel expr

def Closure.instantiate (fuel : Nat) (closure : Closure) (argument : Value) : m Value :=
  match fuel with
  | 0 => exhausted
  | fuel + 1 =>
    match closure with
    | .mk env x body => do
        let env ← Scoping.extend env x argument
        env.eval fuel body

def Value.apply (fuel : Nat) (function argument : Value) : m Value :=
  match fuel with
  | 0 => exhausted
  | fuel + 1 =>
    match function with
    | .lam body => body.instantiate fuel argument
    | .neutral (.pi domain range) blocked => do
        let type ← range.instantiate fuel argument
        return .neutral type (.app blocked (.mk domain argument))
    | _ => stuck .apply

def Value.cdr (fuel : Nat) (pair : Value) : m Value :=
  match fuel with
  | 0 => exhausted
  | fuel + 1 =>
    match pair with
    | .pair _ second => return second
    | .neutral (.sigma carType cdrType) blocked => do
        let type ← cdrType.instantiate fuel (.neutral carType (.car blocked))
        return .neutral type (.cdr blocked)
    | _ => stuck .cdr

/-- Induction on a natural number: the base at zero, the step at a successor. -/
def Value.indNat (fuel : Nat) (target motive base step : Value) : m Value :=
  match fuel with
  | 0 => exhausted
  | fuel + 1 =>
    match target with
    | .zero => return base
    | .add1 predecessor => do
        let stepAtPredecessor ← step.apply fuel predecessor
        let almost ← predecessor.indNat fuel motive base step
        stepAtPredecessor.apply fuel almost
    | .neutral .nat blocked => do
        let type ← motive.apply fuel (.neutral .nat blocked)
        let baseType ← motive.apply fuel .zero
        return .neutral type (.indNat blocked (.mk Value.natMotiveType motive) (.mk baseType base)
          (.mk (Value.natStepType motive) step))
    | _ => stuck .indNat

/-- Replacement along a proof of equality, which does nothing when the proof is `same`. -/
def Value.replace (fuel : Nat) (target motive base : Value) : m Value :=
  match fuel with
  | 0 => exhausted
  | fuel + 1 =>
    match target with
    | .same => return base
    | .neutral (.equal type left right) blocked => do
        let resultType ← motive.apply fuel right
        let baseType ← motive.apply fuel left
        return .neutral resultType (.replace blocked (.mk (Value.equalMotiveType type) motive)
          (.mk baseType base))
    | _ => stuck .replace

end

end LambdaCalculi.Dependent
