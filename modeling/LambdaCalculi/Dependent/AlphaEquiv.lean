import LambdaCalculi.Dependent.Term

/-!
# Equality up to bound names

Two terms are alpha-equivalent when a consistent renaming of the variables they bind makes them
equal; free variables have to agree by name. Two terms annotated with `Absurd` are always
equivalent, since under an assumption of the empty type any two of its members are the same.
-/

set_option autoImplicit false

namespace LambdaCalculi.Dependent

/-- The binders passed on the way into a pair of terms, as a list of pairs with the innermost first:
one component for the left term, one for the right. -/
abbrev BinderPairs := List (Name × Name)

namespace BinderPairs

/-- Whether `x` on the left and `y` on the right are the same variable: both bound by the innermost
pair that binds either of them, or both free and of one name. -/
def relates : BinderPairs → Name → Name → Bool
  | [], x, y => x == y
  | (left, right) :: outer, x, y =>
      if x = left ∨ y = right then x == left && y == right else relates outer x y

end BinderPairs

namespace Term

def alphaEquivUnder (binders : BinderPairs) : Term → Term → Bool
  | var x, var y => binders.relates x y
  | pi x domain range, pi y domain' range' =>
      alphaEquivUnder binders domain domain' && alphaEquivUnder ((x, y) :: binders) range range'
  | lam x body, lam y body' => alphaEquivUnder ((x, y) :: binders) body body'
  | app function argument, app function' argument' =>
      alphaEquivUnder binders function function' && alphaEquivUnder binders argument argument'
  | sigma x carType cdrType, sigma y carType' cdrType' =>
      alphaEquivUnder binders carType carType' &&
        alphaEquivUnder ((x, y) :: binders) cdrType cdrType'
  | cons first second, cons first' second' =>
      alphaEquivUnder binders first first' && alphaEquivUnder binders second second'
  | car pair, car pair' => alphaEquivUnder binders pair pair'
  | cdr pair, cdr pair' => alphaEquivUnder binders pair pair'
  | nat, nat => true
  | zero, zero => true
  | add1 predecessor, add1 predecessor' => alphaEquivUnder binders predecessor predecessor'
  | indNat target motive base step, indNat target' motive' base' step' =>
      alphaEquivUnder binders target target' && alphaEquivUnder binders motive motive' &&
        alphaEquivUnder binders base base' && alphaEquivUnder binders step step'
  | equal type left right, equal type' left' right' =>
      alphaEquivUnder binders type type' && alphaEquivUnder binders left left' &&
        alphaEquivUnder binders right right'
  | same, same => true
  | replace target motive base, replace target' motive' base' =>
      alphaEquivUnder binders target target' && alphaEquivUnder binders motive motive' &&
        alphaEquivUnder binders base base'
  | trivial, trivial => true
  | sole, sole => true
  | absurd, absurd => true
  | indAbsurd target motive, indAbsurd target' motive' =>
      alphaEquivUnder binders target target' && alphaEquivUnder binders motive motive'
  | atom, atom => true
  | tick symbol, tick symbol' => symbol == symbol'
  | univ, univ => true
  | the type expr, the type' expr' =>
      (type = absurd && type' = absurd) ||
        (alphaEquivUnder binders type type' && alphaEquivUnder binders expr expr')
  | _, _ => false

def alphaEquiv (left right : Term) : Bool :=
  alphaEquivUnder [] left right

end Term

end LambdaCalculi.Dependent
