import LambdaCalculi.Name

/-!
# Terms of the dependent calculus

One syntax serves for terms and types: dependent functions and pairs, natural numbers with
induction, equality with replacement, the unit type `Trivial`, the empty type `Absurd`, quoted
atoms and a universe that is a member of itself. `Term.render` writes a term in parenthesised
form, binders in double parentheses.
-/

set_option autoImplicit false

namespace LambdaCalculi.Dependent

inductive Term where
  | var (x : Name)
  | pi (x : Name) (domain range : Term)
  | lam (x : Name) (body : Term)
  | app (function argument : Term)
  | sigma (x : Name) (carType cdrType : Term)
  | cons (first second : Term)
  | car (pair : Term)
  | cdr (pair : Term)
  | nat
  | zero
  | add1 (predecessor : Term)
  | indNat (target motive base step : Term)
  /-- The type of proofs that `left` and `right` are the same `type`. -/
  | equal (type left right : Term)
  | same
  | replace (target motive base : Term)
  | trivial
  | sole
  | absurd
  | indAbsurd (target motive : Term)
  | atom
  | tick (symbol : String)
  | univ
  /-- The term `expr` annotated with the type it is to be checked against. -/
  | the (type expr : Term)
deriving DecidableEq, Repr

namespace Term

def render : Term → String
  | var x => x
  | pi x domain range =>
      "(Π ((" ++ x ++ " " ++ domain.render ++ ")) " ++ range.render ++ ")"
  | lam x body => "(λ (" ++ x ++ ") " ++ body.render ++ ")"
  | app function argument => "(" ++ function.render ++ " " ++ argument.render ++ ")"
  | sigma x carType cdrType =>
      "(Σ ((" ++ x ++ " " ++ carType.render ++ ")) " ++ cdrType.render ++ ")"
  | cons first second => "(cons " ++ first.render ++ " " ++ second.render ++ ")"
  | car pair => "(car " ++ pair.render ++ ")"
  | cdr pair => "(cdr " ++ pair.render ++ ")"
  | nat => "Nat"
  | zero => "zero"
  | add1 predecessor => "(add1 " ++ predecessor.render ++ ")"
  | indNat target motive base step =>
      "(ind-Nat " ++ target.render ++ " " ++ motive.render ++ " " ++ base.render ++ " " ++
        step.render ++ ")"
  | equal type left right =>
      "(= " ++ type.render ++ " " ++ left.render ++ " " ++ right.render ++ ")"
  | same => "same"
  | replace target motive base =>
      "(replace " ++ target.render ++ " " ++ motive.render ++ " " ++ base.render ++ ")"
  | trivial => "Trivial"
  | sole => "sole"
  | absurd => "Absurd"
  | indAbsurd target motive => "(ind-Absurd " ++ target.render ++ " " ++ motive.render ++ ")"
  | atom => "Atom"
  | tick symbol => "'" ++ symbol
  | univ => "U"
  | the type expr => "(the " ++ type.render ++ " " ++ expr.render ++ ")"

instance : ToString Term := ⟨render⟩

end Term

end LambdaCalculi.Dependent
