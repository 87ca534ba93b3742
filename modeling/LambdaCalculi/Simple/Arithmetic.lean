import LambdaCalculi.Simple.Program

/-!
# Arithmetic in the simply typed calculus
-/

set_option autoImplicit false

namespace LambdaCalculi.Simple.Arithmetic

/-- The numerals two and three, and addition by recursion on the first argument. -/
def definitions : List Definition :=
  [⟨"two", .ann (.ofNat 2) .nat⟩,
    ⟨"three", .ann (.ofNat 3) .nat⟩,
    ⟨"+", .ann
      (.lam "n" (.lam "k" (.recNat .nat (.var "n") (.var "k")
        (.lam "pred" (.lam "almostSum" (.add1 (.var "almostSum")))))))
      (.arrow .nat (.arrow .nat .nat))⟩]

end LambdaCalculi.Simple.Arithmetic
