import LambdaCalculi.Proofs.Freshness
import LambdaCalculi.Proofs.Settling
import LambdaCalculi.Untyped.Normalize

/-!
# What the untyped calculus settles on

A term evaluates to a value, a value applies to another, and a value reads back to a term, when every
large enough bound on the depth has it so. Each rule of evaluation and of reading back then holds
without a mention of bounds.
-/

set_option autoImplicit false

namespace LambdaCalculi.Untyped

open Outcome

def Env.EvaluatesTo (env : Env) (term : Term) (value : Value) : Prop :=
  Settles (fun fuel => env.eval fuel term) (.done value)

def Value.AppliesTo (function argument value : Value) : Prop :=
  Settles (fun fuel => function.apply fuel argument) (.done value)

def Value.ReadsBackTo (value : Value) (used : List Name) (normal : Term) : Prop :=
  Settles (fun fuel => value.readBack fuel used) (.done normal)

def Neutral.ReadsBackTo (blocked : Neutral) (used : List Name) (normal : Term) : Prop :=
  Settles (fun fuel => blocked.readBack fuel used) (.done normal)

theorem Value.AppliesTo.closure {env : Env} {x : Name} {body : Term} {argument value : Value}
    (evaluates : (env.extend x argument).EvaluatesTo body value) :
    (Value.closure env x body).AppliesTo argument value :=
  .spend evaluates

theorem Value.AppliesTo.neutral (blocked : Neutral) (argument : Value) :
    (Value.neutral blocked).AppliesTo argument (.neutral (.app blocked argument)) :=
  .spend (.const _)

namespace Env.EvaluatesTo

variable {env : Env}

theorem var {x : Name} {value : Value} (found : env.lookup? x = some value) :
    env.EvaluatesTo (.var x) value := by
  refine .spend ?_
  simp only [Env.eval, found]
  exact .const _

theorem lam (env : Env) (x : Name) (body : Term) :
    env.EvaluatesTo (.lam x body) (.closure env x body) :=
  .spend (.const _)

theorem app {function argument : Term} {functionValue argumentValue value : Value}
    (functionEvaluates : env.EvaluatesTo function functionValue)
    (argumentEvaluates : env.EvaluatesTo argument argumentValue)
    (applies : functionValue.AppliesTo argumentValue value) :
    env.EvaluatesTo (.app function argument) value :=
  .spend (functionEvaluates.bind (argumentEvaluates.bind applies))

end Env.EvaluatesTo

theorem Neutral.ReadsBackTo.var (x : Name) (used : List Name) :
    (Neutral.var x).ReadsBackTo used (.var x) :=
  .spend (.const _)

theorem Neutral.ReadsBackTo.app {function : Neutral} {argument : Value} {used : List Name}
    {functionNormal argumentNormal : Term} (functionReads : function.ReadsBackTo used functionNormal)
    (argumentReads : argument.ReadsBackTo used argumentNormal) :
    (Neutral.app function argument).ReadsBackTo used (.app functionNormal argumentNormal) :=
  .spend (functionReads.bind (argumentReads.bind (.const _)))

theorem Value.ReadsBackTo.neutral {blocked : Neutral} {used : List Name} {normal : Term}
    (reads : blocked.ReadsBackTo used normal) : (Value.neutral blocked).ReadsBackTo used normal :=
  .spend reads

/-- A function keeps the name of its binder where the name is not in use. -/
theorem Value.ReadsBackTo.closure {env : Env} {x : Name} {body normal : Term} {used : List Name}
    {value : Value} (new : x ∉ used)
    (evaluates : (env.extend x (.ofVar x)).EvaluatesTo body value)
    (reads : value.ReadsBackTo (x :: used) normal) :
    (Value.closure env x body).ReadsBackTo used (.lam x normal) := by
  refine .spend ?_
  simp only [Value.readBack, Name.fresh_of_not_mem new]
  exact Settles.bind (Value.AppliesTo.closure evaluates) (reads.bind (.const _))

end LambdaCalculi.Untyped
