import LambdaCalculi.Dependent.Eval

/-!
# Typing contexts

A context lists the variables and definitions in scope, the innermost first. A variable is known
by two names: the one that terms use for it, which may shadow an earlier entry, and the one that
values use, which is new when the variable is bound. So a shadowed variable and the variable that
shadows it stay different values.

A context grows together with the environment that gives every entry its value.
-/

set_option autoImplicit false

namespace LambdaCalculi.Dependent

inductive Binding where
  /-- A variable of the given type, called `neutralName` inside values. -/
  | assumed (type : Value) (neutralName : Name)
  | defined (type value : Value)
deriving DecidableEq, Repr

namespace Binding

def type : Binding → Value
  | assumed type _ => type
  | defined type _ => type

/-- The value that stands for what is bound: a variable stands for itself. -/
def value : Binding → Value
  | assumed type neutralName => .ofVar type neutralName
  | defined _ value => value

end Binding

structure Entry where
  name : Name
  binding : Binding
deriving DecidableEq, Repr

/-- The name that values use for the entry, if it is a variable renamed because it shadows. -/
def Entry.renamed? (entry : Entry) : Option Name :=
  match entry.binding with
  | .assumed _ neutralName => if neutralName = entry.name then none else some neutralName
  | .defined _ _ => none

/-- The entries in scope, the innermost first, and their environment. -/
structure Context where
  entries : List Entry
  env : Env
deriving DecidableEq, Repr

/-- A name for a new variable: `x` with primes as needed. The empty name is replaced by `"x"`. -/
def freshBinder (used : List Name) (x : Name) : Name :=
  Name.fresh used (if x = "" then "x" else x)

namespace Context

variable {m : Type → Type} [Monad m] [Scoping m]

def empty : Context :=
  ⟨[], .nil⟩

/-- The names taken: those of the entries, then those that values use instead. -/
def names (ctx : Context) : List Name :=
  ctx.entries.map Entry.name ++ ctx.entries.filterMap Entry.renamed?

def binding? (ctx : Context) (x : Name) : Option Binding :=
  (ctx.entries.find? fun entry => entry.name == x).map Entry.binding

def type? (ctx : Context) (x : Name) : Option Value :=
  (ctx.binding? x).map Binding.type

/-- The name that values will use for a new variable called `x`. -/
def freshFor (ctx : Context) (x : Name) : Name :=
  freshBinder ctx.names x

def bind (ctx : Context) (x : Name) (binding : Binding) : m Context := do
  let env ← Scoping.extend ctx.env x binding.value
  return ⟨⟨x, binding⟩ :: ctx.entries, env⟩

/-- Adds a variable `x` of the given type, under a new name for its value. -/
def assume (ctx : Context) (x : Name) (type : Value) : m Context :=
  ctx.bind x (.assumed type (ctx.freshFor x))

def define (ctx : Context) (x : Name) (type value : Value) : m Context :=
  ctx.bind x (.defined type value)

def eval (fuel : Nat) (ctx : Context) (term : Term) : m Value :=
  ctx.env.eval fuel term

end Context

end LambdaCalculi.Dependent
