import LambdaCalculi.Outcome
import LambdaCalculi.Simple.Term

/-!
# Values and evaluation in the simply typed calculus

Values are numerals, function bodies closed over their environment, and computations blocked on a
variable, which carry their type. Evaluation is by value and from left to right. It is stuck on a
variable without a value and on an eliminator whose target has no rule, neither of which happens
to a term that was checked.

`fuel` bounds the depth of the recursion, and every recursive call spends one unit.
-/

set_option autoImplicit false

namespace LambdaCalculi.Simple

mutual

inductive Value where
  | zero
  | add1 (predecessor : Value)
  /-- A function: its body waits for the value of `x`. -/
  | closure (env : Env) (x : Name) (body : Term)
  | neutral (type : Ty) (blocked : Neutral)
deriving DecidableEq, Repr

inductive Neutral where
  | var (x : Name)
  | app (function : Neutral) (argument : Normal)
  | recNat (type : Ty) (target : Neutral) (base step : Normal)
deriving DecidableEq, Repr

inductive Normal where
  | mk (type : Ty) (value : Value)
deriving DecidableEq, Repr

/-- The values of the names in scope, the innermost binding first. -/
inductive Env where
  | nil
  | cons (x : Name) (value : Value) (outer : Env)
deriving DecidableEq, Repr

end

def Value.ofVar (type : Ty) (x : Name) : Value :=
  .neutral type (.var x)

/-- The place where evaluation or reading back met a value it has no rule for. -/
inductive Stuck where
  | unbound (x : Name)
  | apply
  | recNat
  | readBack
deriving DecidableEq, Repr

namespace Stuck

def operation : Stuck → String
  | unbound _ => "eval: missing value"
  | apply => "apply"
  | recNat => "rec-Nat"
  | readBack => "read-back"

def message (stuck : Stuck) : String :=
  "internal error in " ++ stuck.operation ++
    match stuck with
    | unbound x => ", not expecting:\n(simply.Var) " ++ x.sized ++ "\n"
    | _ => ""

end Stuck

namespace Env

def extend (env : Env) (x : Name) (value : Value) : Env :=
  cons x value env

/-- The bindings, the innermost first; shadowed ones are kept. -/
def toList : Env → List (Name × Value)
  | nil => []
  | cons x value outer => (x, value) :: outer.toList

def names (env : Env) : List Name :=
  env.toList.map Prod.fst

def lookup? : Env → Name → Option Value
  | nil, _ => none
  | cons y value outer, x => if y = x then some value else outer.lookup? x

@[simp]
theorem names_extend (env : Env) (x : Name) (value : Value) :
    (env.extend x value).names = x :: env.names := rfl

end Env

mutual

def Env.eval (fuel : Nat) (env : Env) (term : Term) : Outcome Stuck Value :=
  match fuel with
  | 0 => .exhausted
  | fuel + 1 =>
    match term with
    | .var x => .ofOption (.unbound x) (env.lookup? x)
    | .lam x body => .done (.closure env x body)
    | .app function argument => do
        let function ← env.eval fuel function
        let argument ← env.eval fuel argument
        function.apply fuel argument
    | .zero => .done .zero
    | .add1 predecessor => do
        let predecessor ← env.eval fuel predecessor
        return .add1 predecessor
    | .recNat type target base step => do
        let target ← env.eval fuel target
        let base ← env.eval fuel base
        let step ← env.eval fuel step
        target.recNat fuel type base step
    | .ann expr _ => env.eval fuel expr

def Value.apply (fuel : Nat) (function argument : Value) : Outcome Stuck Value :=
  match fuel with
  | 0 => .exhausted
  | fuel + 1 =>
    match function with
    | .closure env x body => (env.extend x argument).eval fuel body
    | .neutral (.arrow domain codomain) blocked =>
        .done (.neutral codomain (.app blocked (.mk domain argument)))
    | _ => .failed .apply

/-- Primitive recursion: the base at zero, the step at a successor. -/
def Value.recNat (fuel : Nat) (target : Value) (type : Ty) (base step : Value) :
    Outcome Stuck Value :=
  match fuel with
  | 0 => .exhausted
  | fuel + 1 =>
    match target with
    | .zero => .done base
    | .add1 predecessor => do
        let stepAtPredecessor ← step.apply fuel predecessor
        let almost ← predecessor.recNat fuel type base step
        stepAtPredecessor.apply fuel almost
    | .neutral .nat blocked =>
        .done (.neutral type (.recNat type blocked (.mk type base) (.mk type.step step)))
    | _ => .failed .recNat

end

end LambdaCalculi.Simple
