import LambdaCalculi.Dependent.Scoping
import LambdaCalculi.Dependent.Trace
import LambdaCalculi.Text.Quoted

/-!
# What type checking asks of its surroundings

The type checker evaluates and reads back, records events, and rejects. It is written once for every
kind of computation that can do so on top of a kind of evaluation; the plain kind is `Checking`,
traced outcomes on top of `Outcome Stuck`.
-/

set_option autoImplicit false

namespace LambdaCalculi.Dependent

inductive TypeFormer where
  | pi
  | sigma
  | nat
  | equal
  | trivial
  | absurd
  | atom
deriving DecidableEq, Repr

def TypeFormer.symbol : TypeFormer → String
  | pi => "Π"
  | sigma => "Σ"
  | nat => "Nat"
  | equal => "="
  | trivial => "Trivial"
  | absurd => "Absurd"
  | atom => "Atom"

inductive TypeError where
  | unbound (x : Name)
  | alreadyDefined (x : Name)
  /-- The shape of the term does not determine its type. -/
  | notSynthesizable (term : Term)
  | notSame (left right : Term)
  /-- A type of one kind was needed where another was found. -/
  | wrongFormer (want : TypeFormer) (got : Term)
deriving DecidableEq, Repr

def TypeError.message : TypeError → String
  | unbound x => "unbound variable: " ++ x
  | alreadyDefined x => "the name " ++ x ++ " is already defined"
  | notSynthesizable term =>
      "unable to synthesize a type for " ++ term.render ++ ", try adding a the-annotation"
  | notSame left right => left.render ++ " is not the same as " ++ right.render
  | wrongFormer want got => "not a " ++ want.symbol ++ " type: " ++ got.render

inductive Fault where
  /-- A term was rejected, in the named definition if there is one. -/
  | rejected (definition? : Option Name) (error : TypeError)
  | stuck (place : Stuck)
deriving DecidableEq, Repr

namespace Fault

def within (x : Name) : Fault → Fault
  | rejected _ error => rejected (some x) error
  | stuck place => stuck place

def message : Fault → String
  | rejected none error => error.message
  | rejected (some x) error => "definition " ++ Text.quote x ++ ": " ++ error.message
  | stuck place => place.message

end Fault

/-- The steps that type checking in `m` takes besides looking at terms and types, where `n` is the
kind of evaluation below it. -/
class Judging (n : outParam (Type → Type)) (m : Type → Type) where
  compute {α : Type} (computation : n α) : m α
  record (event : Event) : m Unit
  reject {α : Type} (error : TypeError) : m α
  /-- Notes that rejections of a computation are met in the definition of `x`. -/
  within {α : Type} (x : Name) (computation : m α) : m α
  spent {α : Type} : m α

abbrev Checking (α : Type) := Traced Fault α

instance : Judging (Outcome Stuck) (Traced Fault) where
  compute outcome := .silent (outcome.mapFault .stuck)
  record := .record
  reject error := .silent (.failed (.rejected none error))
  within x computation := computation.mapFault (.within x)
  spent := .silent .exhausted

namespace Checking

variable {α : Type}

@[simp]
theorem outcome_compute (outcome : Outcome Stuck α) :
    (Judging.compute outcome : Checking α).outcome = outcome.mapFault .stuck := rfl

@[simp]
theorem outcome_record (event : Event) :
    (Judging.record event : Checking Unit).outcome = .done () := rfl

@[simp]
theorem outcome_reject (error : TypeError) :
    (Judging.reject error : Checking α).outcome = .failed (.rejected none error) := rfl

@[simp]
theorem outcome_within (x : Name) (computation : Checking α) :
    (Judging.within x computation).outcome = computation.outcome.mapFault (.within x) := rfl

@[simp]
theorem outcome_spent : (Judging.spent : Checking α).outcome = .exhausted := rfl

end Checking

end LambdaCalculi.Dependent
