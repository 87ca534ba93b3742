import LambdaCalculi.Dependent.Term

/-!
# Values and environments of the dependent calculus

Values are what terms evaluate to. A body that waits for an argument is a `Closure`: the term
together with the environment it was met in, so values are plain data that can be compared and
inspected. A computation that is blocked on a variable is a `Neutral`, and a neutral value carries
its type.

Environments index their entries by the fingerprint of the name. Two different names with one
fingerprint hide each other: once both are bound, neither of them can be looked up. Every binding
also carries a `Tally`, the count of the names bound so far; it plays no part in looking names up.
-/

set_option autoImplicit false

namespace LambdaCalculi.Dependent

/-- The part of a register of names that an environment sees: its first `length` places. -/
structure View where
  register : Nat
  length : Nat
deriving DecidableEq, Repr

/-- What a binding knows of the number of names bound up to it. Names with a common fingerprint may
be counted with the help of a register, and then the binding has a view of it. -/
structure Tally where
  size : Nat
  view? : Option View
deriving DecidableEq, Repr

mutual

inductive Value where
  | pi (domain : Value) (range : Closure)
  | lam (body : Closure)
  | sigma (carType : Value) (cdrType : Closure)
  | pair (first second : Value)
  | nat
  | zero
  | add1 (predecessor : Value)
  | equal (type left right : Value)
  | same
  | trivial
  | sole
  | absurd
  | atom
  | tick (symbol : String)
  | univ
  | neutral (type : Value) (blocked : Neutral)
deriving DecidableEq, Repr

/-- A body that waits for the value of `binder`, in the environment where it was met. -/
inductive Closure where
  | mk (env : Env) (binder : Name) (body : Term)
deriving DecidableEq, Repr

/-- A chain of eliminators blocked on a variable. -/
inductive Neutral where
  | var (x : Name)
  | app (function : Neutral) (argument : Normal)
  | car (pair : Neutral)
  | cdr (pair : Neutral)
  | indNat (target : Neutral) (motive base step : Normal)
  | replace (target : Neutral) (motive base : Normal)
  | indAbsurd (target : Neutral) (motive : Normal)
deriving DecidableEq, Repr

/-- A value with its type, which is what reading it back needs. -/
inductive Normal where
  | mk (type value : Value)
deriving DecidableEq, Repr

/-- The values of the names in scope, the innermost binding first. -/
inductive Env where
  | nil
  | cons (tally : Tally) (x : Name) (value : Value) (outer : Env)
deriving DecidableEq, Repr

end

namespace Closure

def binder : Closure → Name
  | mk _ x _ => x

end Closure

namespace Env

/-- The names bound, the innermost first; a shadowed name is listed again. -/
def names : Env → List Name
  | nil => []
  | cons _ x _ outer => x :: outer.names

/-- The number of names bound, as the innermost binding has it. -/
def size : Env → Nat
  | nil => 0
  | cons tally _ _ _ => tally.size

/-- Binds `x`, which shadows an earlier binding of `x`. A name that is not bound yet adds one to the
number of names. -/
def extend (env : Env) (x : Name) (value : Value) : Env :=
  cons ⟨if x ∈ env.names then env.size else env.size + 1, none⟩ x value env

def innermost? : Env → Name → Option Value
  | nil, _ => none
  | cons _ y value outer, x => if y = x then some value else outer.innermost? x

/-- Whether some name other than `x` is bound that has the fingerprint of `x`. -/
def clouds (env : Env) (x : Name) : Bool :=
  let digest := x.fingerprint
  env.names.any fun y => y != x && y.fingerprint == digest

/-- The value of `x`: its innermost binding, unless another bound name shares its fingerprint. -/
def lookup? (env : Env) (x : Name) : Option Value :=
  if env.clouds x then none else env.innermost? x

@[simp]
theorem names_extend (env : Env) (x : Name) (value : Value) :
    (env.extend x value).names = x :: env.names := rfl

theorem clouds_iff (env : Env) (x : Name) :
    env.clouds x = true ↔ ∃ y ∈ env.names, y ≠ x ∧ y.fingerprint = x.fingerprint := by
  simp [clouds]

end Env

end LambdaCalculi.Dependent
