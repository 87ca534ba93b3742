import LambdaCalculi.Outcome
import LambdaCalculi.Untyped.Term

/-!
# Values and evaluation in the untyped calculus

A value is a function body closed over the environment it was met in, or a computation blocked on
a variable. Evaluation is by value and from left to right; the only thing that can go wrong is a
variable that the environment does not bind.

`fuel` bounds the depth of the recursion, and every recursive call spends one unit.
-/

set_option autoImplicit false

namespace LambdaCalculi.Untyped

mutual

inductive Value where
  /-- A function: its body waits for the value of `x`. -/
  | closure (env : Env) (x : Name) (body : Term)
  | neutral (blocked : Neutral)
deriving DecidableEq, Repr

/-- A variable applied to any number of arguments. -/
inductive Neutral where
  | var (x : Name)
  | app (function : Neutral) (argument : Value)
deriving DecidableEq, Repr

/-- The values of the names in scope, the innermost binding first. -/
inductive Env where
  | nil
  | cons (x : Name) (value : Value) (outer : Env)
deriving DecidableEq, Repr

end

structure UnboundVariable where
  name : Name
deriving DecidableEq, Repr

def UnboundVariable.message (unbound : UnboundVariable) : String :=
  "not found: " ++ unbound.name

def Value.ofVar (x : Name) : Value :=
  .neutral (.var x)

namespace Env

def extend (env : Env) (x : Name) (value : Value) : Env :=
  cons x value env

/-- The bindings, the innermost first; shadowed ones are kept. -/
def toList : Env → List (Name × Value)
  | nil => []
  | cons x value outer => (x, value) :: outer.toList

def names (env : Env) : List Name :=
  env.toList.map Prod.fst

def lookup? : Env → Name → Option Value
  | nil, _ => none
  | cons y value outer, x => if y = x then some value else outer.lookup? x

@[simp]
theorem names_extend (env : Env) (x : Name) (value : Value) :
    (env.extend x value).names = x :: env.names := rfl

end Env

mutual

def Env.eval (fuel : Nat) (env : Env) (term : Term) : Outcome UnboundVariable Value :=
  match fuel with
  | 0 => .exhausted
  | fuel + 1 =>
    match term with
    | .var x => .ofOption ⟨x⟩ (env.lookup? x)
    | .lam x body => .done (.closure env x body)
    | .app function argument => do
        let function ← env.eval fuel function
        let argument ← env.eval fuel argument
        function.apply fuel argument

def Value.apply (fuel : Nat) (function argument : Value) : Outcome UnboundVariable Value :=
  match fuel with
  | 0 => .exhausted
  | fuel + 1 =>
    match function with
    | .closure env x body => (env.extend x argument).eval fuel body
    | .neutral blocked => .done (.neutral (.app blocked argument))

end

end LambdaCalculi.Untyped
