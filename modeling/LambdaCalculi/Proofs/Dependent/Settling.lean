import LambdaCalculi.Dependent.Program
import LambdaCalculi.Proofs.Settling

/-!
# What the dependent calculus settles on

A term evaluates to a value, a value reads back to a term, and checking ends in a result, when every
large enough bound on the depth has it so. Each rule of evaluation and of checking then holds without
a mention of bounds.
-/

set_option autoImplicit false

namespace LambdaCalculi.Dependent

open Outcome

def Env.EvaluatesTo (env : Env) (term : Term) (value : Value) : Prop :=
  Settles (fun fuel => (env.eval fuel term : Outcome Stuck Value)) (.done value)

def Closure.InstantiatesTo (closure : Closure) (argument value : Value) : Prop :=
  Settles (fun fuel => (closure.instantiate fuel argument : Outcome Stuck Value)) (.done value)

def Value.AppliesTo (function argument value : Value) : Prop :=
  Settles (fun fuel => (function.apply fuel argument : Outcome Stuck Value)) (.done value)

def Context.ReadsBackTo (ctx : Context) (type value : Value) (term : Term) : Prop :=
  Settles (fun fuel => (ctx.readBack fuel type value : Outcome Stuck Term)) (.done term)

def Context.ReadsTypeBackTo (ctx : Context) (type : Value) (term : Term) : Prop :=
  Settles (fun fuel => (ctx.readBackType fuel type : Outcome Stuck Term)) (.done term)

def Context.ReadsNeutralBackTo (ctx : Context) (blocked : Neutral) (term : Term) : Prop :=
  Settles (fun fuel => (ctx.readBackNeutral fuel blocked : Outcome Stuck Term)) (.done term)

def ChecksTo {α : Type} (checking : Nat → Checking α) (result : Outcome Fault α) : Prop :=
  Settles (fun fuel => (checking fuel).outcome) result

theorem Env.EvaluatesTo.instantiates {env : Env} {x : Name} {body : Term} {argument value : Value}
    (evaluates : (env.extend x argument).EvaluatesTo body value) :
    (Closure.mk env x body).InstantiatesTo argument value :=
  .spend evaluates

theorem Closure.InstantiatesTo.applies {body : Closure} {argument value : Value}
    (instantiates : body.InstantiatesTo argument value) :
    (Value.lam body).AppliesTo argument value :=
  .spend instantiates

theorem Env.EvaluatesTo.app {env : Env} {function argument : Term}
    {functionValue argumentValue value : Value}
    (functionEvaluates : env.EvaluatesTo function functionValue)
    (argumentEvaluates : env.EvaluatesTo argument argumentValue)
    (applies : functionValue.AppliesTo argumentValue value) :
    env.EvaluatesTo (.app function argument) value :=
  .spend (functionEvaluates.bind (argumentEvaluates.bind applies))

theorem Env.EvaluatesTo.var {env : Env} {x : Name} {value : Value}
    (found : env.lookup? x = some value) : env.EvaluatesTo (.var x) value := by
  refine .spend ?_
  simp only [Env.eval, found]
  exact .const _

theorem Env.EvaluatesTo.pi {env : Env} {x : Name} {domain range : Term} {domainValue : Value}
    (evaluates : env.EvaluatesTo domain domainValue) :
    env.EvaluatesTo (.pi x domain range) (.pi domainValue (.mk env x range)) :=
  .spend (evaluates.bind (.const _))

theorem Env.EvaluatesTo.add1 {env : Env} {predecessor : Term} {value : Value}
    (evaluates : env.EvaluatesTo predecessor value) :
    env.EvaluatesTo (.add1 predecessor) (.add1 value) :=
  .spend (evaluates.bind (.const _))

theorem Context.assume_settles (ctx : Context) (x : Name) (type : Value) :
    ∃ inner, Settles (fun _ => (ctx.assume x type : Outcome Stuck Context)) (.done inner) ∧
      inner.entries = ⟨x, .assumed type (ctx.freshFor x)⟩ :: ctx.entries ∧
      inner.env = ctx.env.extend x (.ofVar type (ctx.freshFor x)) :=
  ⟨_, .const _, rfl, rfl⟩

theorem Context.ReadsTypeBackTo.univ {ctx : Context} {type : Value} {term : Term}
    (reads : ctx.ReadsTypeBackTo type term) : ctx.ReadsBackTo .univ type term :=
  .spend reads

namespace ChecksTo

variable {α β : Type}

theorem bind {first : Nat → Checking α} {next : Nat → α → Checking β} {value : α}
    {result : Outcome Fault β} (firstChecks : ChecksTo first (.done value))
    (nextChecks : ChecksTo (fun fuel => next fuel value) result) :
    ChecksTo (fun fuel => first fuel >>= next fuel) result := by
  simp only [ChecksTo, Traced.outcome_bind]
  exact Settles.bind firstChecks nextChecks

theorem bind_failed {first : Nat → Checking α} {next : Nat → α → Checking β} {fault : Fault}
    (firstFails : ChecksTo first (.failed fault)) :
    ChecksTo (fun fuel => first fuel >>= next fuel) (.failed fault) := by
  simp only [ChecksTo, Traced.outcome_bind]
  exact Settles.bind_failed firstFails

theorem compute {run : Nat → Outcome Stuck α} {value : α} (settled : Settles run (.done value)) :
    ChecksTo (fun fuel => Judging.compute (run fuel)) (.done value) :=
  settled.mapFault Fault.stuck

theorem within {checking : Nat → Checking α} {result : Outcome Fault α} (x : Name)
    (checks : ChecksTo checking result) :
    ChecksTo (fun fuel => Judging.within x (checking fuel)) (result.mapFault (.within x)) :=
  Settles.mapFault _ checks

theorem const (checking : Checking α) : ChecksTo (fun _ => checking) checking.outcome :=
  Settles.const _

theorem done (value : α) : ChecksTo (fun _ => pure value) (.done value) :=
  const (pure value)

/-- A rule spends one unit of the bound and records that it was tried. -/
theorem rule {checking : Nat → Checking α} {result : Outcome Fault α} (event : Event)
    (next : Nat → Checking α)
    (unfolds : ∀ fuel, checking (fuel + 1) = Judging.record event >>= fun _ => next fuel)
    (checks : ChecksTo next result) : ChecksTo checking result := by
  refine Settles.spend ?_
  simp only [unfolds]
  exact bind (const (Judging.record event)) checks

end ChecksTo

end LambdaCalculi.Dependent
