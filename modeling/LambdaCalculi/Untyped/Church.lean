import LambdaCalculi.Untyped.Program

/-!
# Church numerals

The number `n` is the function that applies its first argument `n` times to its second.
-/

set_option autoImplicit false

namespace LambdaCalculi.Untyped.Church

def definitions : List Definition :=
  [⟨"zero", .lam "f" (.lam "x" (.var "x"))⟩,
    ⟨"add1", .lam "n" (.lam "f" (.lam "x"
      (.app (.var "f") (.app (.app (.var "n") (.var "f")) (.var "x")))))⟩,
    ⟨"+", .lam "j" (.lam "k" (.lam "f" (.lam "x"
      (.app (.app (.var "j") (.var "f"))
        (.app (.app (.var "k") (.var "f")) (.var "x"))))))⟩]

/-- The number as a term over the definitions: `add1` applied `n` times to `zero`. -/
def ofNat : Nat → Term
  | 0 => .var "zero"
  | n + 1 => .app (.var "add1") (ofNat n)

/-- An integer as a term over the definitions; a negative one counts as zero. -/
def ofInt (n : Int) : Term :=
  ofNat n.toNat

/-- `f` applied `n` times to `x`. -/
def iterate : Nat → Term
  | 0 => .var "x"
  | n + 1 => .app (.var "f") (iterate n)

def numeral (n : Nat) : Term :=
  .lam "f" (.lam "x" (iterate n))

/-- The Church numeral of an integer; a negative one counts as zero. -/
def numeralOfInt (n : Int) : Term :=
  numeral n.toNat

end LambdaCalculi.Untyped.Church
