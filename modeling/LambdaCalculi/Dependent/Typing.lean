import LambdaCalculi.Dependent.AlphaEquiv
import LambdaCalculi.Dependent.Checking
import LambdaCalculi.Dependent.ReadBack

/-!
# Bidirectional type checking in the dependent calculus

`Context.synth` finds the type of a term whose shape determines it; `Context.check` verifies that
a term has a given type. A term that is neither a constructor nor a function is checked by finding
its type and comparing the two: types are the same when their normal forms are alpha-equivalent.

Both directions record the judgments they visit.
-/

set_option autoImplicit false

namespace LambdaCalculi.Dependent

namespace Context

open Judging (compute record reject spent)

variable {n m : Type → Type} [Monad n] [Scoping n] [Monad m] [Judging n m]

def lookupType (ctx : Context) (x : Name) : m Value :=
  match ctx.type? x with
  | some type => pure type
  | none => reject (.unbound x)

/-- Rejects `type`, shown in normal form, where a type of the kind `want` was needed. -/
def rejectFormer {α : Type} (fuel : Nat) (ctx : Context) (want : TypeFormer) (type : Value) :
    m α := do
  let got ← compute (ctx.readBackType fuel type)
  reject (.wrongFormer want got)

def expectPi (fuel : Nat) (ctx : Context) (type : Value) : m (Value × Closure) :=
  match type with
  | .pi domain range => pure (domain, range)
  | _ => ctx.rejectFormer fuel .pi type

def expectSigma (fuel : Nat) (ctx : Context) (type : Value) : m (Value × Closure) :=
  match type with
  | .sigma carType cdrType => pure (carType, cdrType)
  | _ => ctx.rejectFormer fuel .sigma type

def expectEqual (fuel : Nat) (ctx : Context) (type : Value) : m (Value × Value × Value) :=
  match type with
  | .equal type left right => pure (type, left, right)
  | _ => ctx.rejectFormer fuel .equal type

def expectNat (fuel : Nat) (ctx : Context) (type : Value) : m Unit :=
  match type with
  | .nat => pure ()
  | _ => ctx.rejectFormer fuel .nat type

def expectTrivial (fuel : Nat) (ctx : Context) (type : Value) : m Unit :=
  match type with
  | .trivial => pure ()
  | _ => ctx.rejectFormer fuel .trivial type

def expectAbsurd (fuel : Nat) (ctx : Context) (type : Value) : m Unit :=
  match type with
  | .absurd => pure ()
  | _ => ctx.rejectFormer fuel .absurd type

def expectAtom (fuel : Nat) (ctx : Context) (type : Value) : m Unit :=
  match type with
  | .atom => pure ()
  | _ => ctx.rejectFormer fuel .atom type

/-- Accepts two values of one type whose normal forms are alpha-equivalent. -/
def convert (fuel : Nat) (ctx : Context) (type left right : Value) : m Unit := do
  let left ← compute (ctx.readBack fuel type left)
  let right ← compute (ctx.readBack fuel type right)
  if left.alphaEquiv right then
    pure ()
  else
    record (.mismatch left right)
    reject (.notSame left right)

mutual

def synth (fuel : Nat) (ctx : Context) (term : Term) : m Value :=
  match fuel with
  | 0 => spent
  | fuel + 1 => do
    record (.synth term)
    match term with
    | .var x => ctx.lookupType x
    | .pi x domain range =>
        ctx.check fuel domain .univ
        let domainValue ← compute (ctx.eval fuel domain)
        let inner ← compute (ctx.assume x domainValue)
        inner.check fuel range .univ
        return .univ
    | .sigma x carType cdrType =>
        ctx.check fuel carType .univ
        let carTypeValue ← compute (ctx.eval fuel carType)
        let inner ← compute (ctx.assume x carTypeValue)
        inner.check fuel cdrType .univ
        return .univ
    | .app function argument =>
        let functionType ← ctx.synth fuel function
        let (domain, range) ← ctx.expectPi fuel functionType
        ctx.check fuel argument domain
        let argumentValue ← compute (ctx.eval fuel argument)
        compute (range.instantiate fuel argumentValue)
    | .car pair =>
        let pairType ← ctx.synth fuel pair
        let (carType, _) ← ctx.expectSigma fuel pairType
        return carType
    | .cdr pair =>
        let pairType ← ctx.synth fuel pair
        let (_, cdrType) ← ctx.expectSigma fuel pairType
        let pairValue ← compute (ctx.eval fuel pair)
        let first ← compute pairValue.car
        compute (cdrType.instantiate fuel first)
    | .nat => return .univ
    | .trivial => return .univ
    | .absurd => return .univ
    | .atom => return .univ
    | .univ => return .univ
    | .indNat target motive base step =>
        let targetType ← ctx.synth fuel target
        ctx.expectNat fuel targetType
        ctx.check fuel motive Value.natMotiveType
        let motiveValue ← compute (ctx.eval fuel motive)
        let baseType ← compute (motiveValue.apply fuel .zero)
        ctx.check fuel base baseType
        ctx.check fuel step (Value.natStepType motiveValue)
        let targetValue ← compute (ctx.eval fuel target)
        compute (motiveValue.apply fuel targetValue)
    | .equal type left right =>
        ctx.check fuel type .univ
        let typeValue ← compute (ctx.eval fuel type)
        ctx.check fuel left typeValue
        ctx.check fuel right typeValue
        return .univ
    | .replace target motive base =>
        let targetType ← ctx.synth fuel target
        let (type, left, right) ← ctx.expectEqual fuel targetType
        ctx.check fuel motive (Value.equalMotiveType type)
        let motiveValue ← compute (ctx.eval fuel motive)
        let baseType ← compute (motiveValue.apply fuel left)
        ctx.check fuel base baseType
        compute (motiveValue.apply fuel right)
    | .indAbsurd target motive =>
        let targetType ← ctx.synth fuel target
        ctx.expectAbsurd fuel targetType
        ctx.check fuel motive .univ
        compute (ctx.eval fuel motive)
    | .the type expr =>
        ctx.check fuel type .univ
        let typeValue ← compute (ctx.eval fuel type)
        ctx.check fuel expr typeValue
        return typeValue
    | _ => reject (.notSynthesizable term)

def check (fuel : Nat) (ctx : Context) (term : Term) (type : Value) : m Unit :=
  match fuel with
  | 0 => spent
  | fuel + 1 => do
    record (.check term)
    match term with
    | .lam x body =>
        let (domain, range) ← ctx.expectPi fuel type
        let inner ← compute (ctx.assume x domain)
        let bodyType ← compute (range.instantiate fuel (.ofVar domain (ctx.freshFor x)))
        inner.check fuel body bodyType
    | .cons first second =>
        let (carType, cdrType) ← ctx.expectSigma fuel type
        ctx.check fuel first carType
        let firstValue ← compute (ctx.eval fuel first)
        let secondType ← compute (cdrType.instantiate fuel firstValue)
        ctx.check fuel second secondType
    | .zero => ctx.expectNat fuel type
    | .add1 predecessor =>
        ctx.expectNat fuel type
        ctx.check fuel predecessor .nat
    | .same =>
        let (type, left, right) ← ctx.expectEqual fuel type
        ctx.convert fuel type left right
    | .sole => ctx.expectTrivial fuel type
    | .tick _ => ctx.expectAtom fuel type
    | _ =>
        let synthesized ← ctx.synth fuel term
        ctx.convert fuel .univ synthesized type

end

end Context

end LambdaCalculi.Dependent
