import LambdaCalculi.Simple.Term

/-!
# Parts of terms

A part of a term stands at a place, which says which way to go at every step from the whole to the
part. On the way some binders are passed, and they are what gives the variables of the part their
meaning in the whole.
-/

set_option autoImplicit false

namespace LambdaCalculi.Simple.Term

/-- The free variables of a term; a name is listed once for every place where it is free. -/
def free : Term → List Name
  | var x => [x]
  | lam x body => body.free.filter (· != x)
  | app function argument => function.free ++ argument.free
  | zero => []
  | add1 predecessor => predecessor.free
  | recNat _ target base step => target.free ++ base.free ++ step.free
  | ann expr _ => expr.free

/-- The immediate parts of a term, each with the binders around it, where `binders` are those around
the term. -/
def children (binders : List Name) : Term → List (List Name × Term)
  | var _ | zero => []
  | lam x body => [(x :: binders, body)]
  | app function argument => [(binders, function), (binders, argument)]
  | add1 predecessor => [(binders, predecessor)]
  | recNat _ target base step => [(binders, target), (binders, base), (binders, step)]
  | ann expr _ => [(binders, expr)]

/-- The part of a term at a place, with the binders around it, the innermost first. The place is the
list of the numbers of the immediate parts to go to, from the outside in. -/
def part? (binders : List Name) (term : Term) : List Nat → Option (List Name × Term)
  | [] => some (binders, term)
  | index :: place =>
      match (term.children binders)[index]? with
      | some (inner, child) => child.part? inner place
      | none => none

end LambdaCalculi.Simple.Term
