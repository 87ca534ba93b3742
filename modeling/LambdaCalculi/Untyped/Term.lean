import LambdaCalculi.Name

/-!
# Terms of the untyped calculus
-/

set_option autoImplicit false

namespace LambdaCalculi.Untyped

inductive Term where
  | var (x : Name)
  | lam (x : Name) (body : Term)
  | app (function argument : Term)
deriving DecidableEq, Repr

namespace Term

/-- The written form of a term, with parentheses around every function and application. -/
def render : Term → String
  | var x => x
  | lam x body => "(λ" ++ x ++ "." ++ body.render ++ ")"
  | app function argument => "(" ++ function.render ++ " " ++ argument.render ++ ")"

instance : ToString Term := ⟨render⟩

end Term

end LambdaCalculi.Untyped
