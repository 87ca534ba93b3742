import LambdaCalculi.Name

/-!
# Types and terms of the simply typed calculus

The calculus has natural numbers with primitive recursion and functions between types. Terms may
be annotated with a type.
-/

set_option autoImplicit false

namespace LambdaCalculi.Simple

inductive Ty where
  | nat
  | arrow (domain codomain : Ty)
deriving DecidableEq, Repr

namespace Ty

/-- The written form of a type, with parentheses around every arrow. -/
def render : Ty → String
  | nat => "Nat"
  | arrow domain codomain => "(" ++ domain.render ++ " -> " ++ codomain.render ++ ")"

instance : ToString Ty := ⟨render⟩

/-- The type of the step of a recursion with results of the given type: from a number and the result
for it to the result for its successor. -/
def step (type : Ty) : Ty :=
  arrow nat (arrow type type)

end Ty

inductive Term where
  | var (x : Name)
  | lam (x : Name) (body : Term)
  | app (function argument : Term)
  | zero
  | add1 (predecessor : Term)
  /-- Primitive recursion on `target` with results of the given type. -/
  | recNat (type : Ty) (target base step : Term)
  | ann (expr : Term) (type : Ty)
deriving DecidableEq, Repr

namespace Term

def render : Term → String
  | var x => x
  | lam x body => "(λ" ++ x ++ "." ++ body.render ++ ")"
  | app function argument => "(" ++ function.render ++ " " ++ argument.render ++ ")"
  | zero => "zero"
  | add1 predecessor => "(add1 " ++ predecessor.render ++ ")"
  | recNat type target base step =>
      "(rec-Nat " ++ type.render ++ " " ++ target.render ++ " " ++ base.render ++ " " ++
        step.render ++ ")"
  | ann expr type => "(the " ++ type.render ++ " " ++ expr.render ++ ")"

instance : ToString Term := ⟨render⟩

def ofNat : Nat → Term
  | 0 => zero
  | n + 1 => add1 (ofNat n)

/-- The numeral of an integer; a negative one counts as zero. -/
def ofInt (n : Int) : Term :=
  ofNat n.toNat

end Term

end LambdaCalculi.Simple
