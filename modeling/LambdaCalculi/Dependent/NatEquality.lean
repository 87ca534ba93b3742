import LambdaCalculi.Dependent.Program

/-!
# What follows from an equality of natural numbers

A small development in the dependent calculus. `(nat=consequence j k)` is the type of what an
equality of `j` and `k` implies: nothing new when both are zero, a contradiction when one of them
is, and the equality of their predecessors otherwise. The last definition proves that an equality
has these consequences.
-/

set_option autoImplicit false

namespace LambdaCalculi.Dependent.NatEquality

def consequence (j k : Term) : Term :=
  .app (.app (.var "nat=consequence") j) k

def two : Definition :=
  ⟨"two", .the .nat (.add1 (.add1 .zero))⟩

def three : Definition :=
  ⟨"three", .the .nat (.add1 (.add1 (.add1 .zero)))⟩

/-- `Trivial` when both numbers are zero, `Absurd` when exactly one is, and the equality of the
predecessors otherwise. -/
def natConsequence : Definition :=
  ⟨"nat=consequence",
    .the (.pi "j" .nat (.pi "k" .nat .univ))
      (.lam "j" (.lam "k"
        (.indNat (.var "j") (.lam "_" .univ)
          (.indNat (.var "k") (.lam "_" .univ) .trivial (.lam "_" (.lam "_" .absurd)))
          (.lam "j-1" (.lam "_"
            (.indNat (.var "k") (.lam "_" .univ) .absurd
              (.lam "k-1" (.lam "_" (.equal .nat (.var "j-1") (.var "k-1"))))))))))⟩

/-- The consequences hold of a number and itself. -/
def natConsequenceRefl : Definition :=
  ⟨"nat=consequence-refl",
    .the (.pi "n" .nat (consequence (.var "n") (.var "n")))
      (.lam "n"
        (.indNat (.var "n") (.lam "k" (consequence (.var "k") (.var "k"))) .sole
          (.lam "n-1" (.lam "_" .same))))⟩

/-- The consequences hold of any two equal numbers. -/
def thereAreConsequences : Definition :=
  ⟨"there-are-consequences",
    .the
      (.pi "j" .nat (.pi "k" .nat
        (.pi "j=k" (.equal .nat (.var "j") (.var "k")) (consequence (.var "j") (.var "k")))))
      (.lam "j" (.lam "k" (.lam "j=k"
        (.replace (.var "j=k") (.lam "n" (consequence (.var "j") (.var "n")))
          (.app (.var "nat=consequence-refl") (.var "j"))))))⟩

def definitions : List Definition :=
  [two, three, natConsequence, natConsequenceRefl, thereAreConsequences]

end LambdaCalculi.Dependent.NatEquality
