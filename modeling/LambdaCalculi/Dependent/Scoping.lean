import LambdaCalculi.Dependent.Value
import LambdaCalculi.Outcome

/-!
# What evaluation asks of its surroundings

Evaluation is written once for every kind of computation that can extend an environment, stop at a
value it has no rule for, and give up when its fuel is spent. The plain kind is `Outcome Stuck`,
where extending an environment is a pure function of the environment.
-/

set_option autoImplicit false

namespace LambdaCalculi.Dependent

/-- The place where evaluation or reading back met a value it has no rule for. -/
inductive Stuck where
  | unbound (x : Name)
  | apply
  | car
  | cdr
  | indNat
  | replace
  | indAbsurd
  | readBack
deriving DecidableEq, Repr

namespace Stuck

def operation : Stuck → String
  | unbound _ => "eval: missing value"
  | apply => "apply"
  | car => "car"
  | cdr => "cdr"
  | indNat => "ind-Nat"
  | replace => "replace"
  | indAbsurd => "ind-Absurd"
  | readBack => "read-back"

def message (stuck : Stuck) : String :=
  "internal error in " ++ stuck.operation ++
    match stuck with
    | unbound x => ", not expecting:\n(tartlet.Var) " ++ x.sized ++ "\n"
    | _ => ""

end Stuck

/-- The steps that evaluation takes besides looking at values. -/
class Scoping (m : Type → Type) where
  extend (env : Env) (x : Name) (value : Value) : m Env
  stuck {α : Type} (place : Stuck) : m α
  exhausted {α : Type} : m α

instance : Scoping (Outcome Stuck) where
  extend env x value := .done (env.extend x value)
  stuck := .failed
  exhausted := .exhausted

@[simp]
theorem extend_eq_done (env : Env) (x : Name) (value : Value) :
    (Scoping.extend env x value : Outcome Stuck Env) = .done (env.extend x value) := rfl

@[simp]
theorem stuck_eq_failed {α : Type} (place : Stuck) :
    (Scoping.stuck place : Outcome Stuck α) = .failed place := rfl

@[simp]
theorem exhausted_eq_exhausted {α : Type} :
    (Scoping.exhausted : Outcome Stuck α) = .exhausted := rfl

end LambdaCalculi.Dependent
