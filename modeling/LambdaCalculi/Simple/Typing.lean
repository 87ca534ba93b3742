import LambdaCalculi.Simple.Term

/-!
# Bidirectional type checking in the simply typed calculus

`Term.synth` finds the type of a variable, an application, a recursion or an annotated term;
`Term.check` verifies that a term has a given type. Functions and numerals are only checked, and
every other term is checked by finding its type.
-/

set_option autoImplicit false

namespace LambdaCalculi.Simple

/-- The types of the names in scope, the innermost binding first. -/
abbrev Context := List (Name × Ty)

inductive NumeralForm where
  | zero
  | add1
deriving DecidableEq, Repr

def NumeralForm.label : NumeralForm → String
  | zero => "Zero"
  | add1 => "Add1"

inductive TypeError where
  | unbound (x : Name)
  /-- The shape of the term does not determine its type. -/
  | notSynthesizable (term : Term)
  /-- A numeral of the given form was checked against a type other than that of numbers. -/
  | numeralAt (form : NumeralForm) (got : Ty)
  | lambdaRequiresArrow (got : Ty)
  | notAFunction (got : Ty)
  | notANat (got : Ty)
  | unexpected (expected got : Ty)
deriving DecidableEq, Repr

def TypeError.message : TypeError → String
  | unbound x => "not found: " ++ x
  | notSynthesizable term => "cannot synthesize a type for " ++ term.render
  | numeralAt form got => form.label ++ " expects " ++ Ty.nat.render ++ ", got " ++ got.render
  | lambdaRequiresArrow got => "a lambda requires an arrow type, got " ++ got.render
  | notAFunction got => "not a function type: " ++ got.render
  | notANat got => "not the type Nat: " ++ got.render
  | unexpected expected got => "expected " ++ expected.render ++ ", got " ++ got.render

mutual

def Term.synth (ctx : Context) (term : Term) : Except TypeError Ty :=
  match term with
  | .var x =>
      match ctx.lookup x with
      | some type => .ok type
      | none => .error (.unbound x)
  | .app function argument => do
      match ← function.synth ctx with
      | .arrow domain codomain =>
          argument.check ctx domain
          return codomain
      | got => .error (.notAFunction got)
  | .recNat type target base step => do
      match ← target.synth ctx with
      | .nat =>
          base.check ctx type
          step.check ctx type.step
          return type
      | got => .error (.notANat got)
  | .ann expr type => do
      expr.check ctx type
      return type
  | _ => .error (.notSynthesizable term)
termination_by 2 * sizeOf term

def Term.check (ctx : Context) (term : Term) (type : Ty) : Except TypeError Unit :=
  match term with
  | .lam x body =>
      match type with
      | .arrow domain codomain => body.check ((x, domain) :: ctx) codomain
      | got => .error (.lambdaRequiresArrow got)
  | .zero =>
      match type with
      | .nat => .ok ()
      | got => .error (.numeralAt .zero got)
  | .add1 predecessor =>
      match type with
      | .nat => predecessor.check ctx .nat
      | got => .error (.numeralAt .add1 got)
  | term => do
      let got ← term.synth ctx
      if got = type then .ok () else .error (.unexpected type got)
termination_by 2 * sizeOf term + 1

end

end LambdaCalculi.Simple
