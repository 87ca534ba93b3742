import LambdaCalculi.Proofs.Safety
import LambdaCalculi.Proofs.Simple.TypingRules
import LambdaCalculi.Simple.Eval

/-!
# Evaluation preserves types

A closure has a function type when its body has the codomain over the types of its environment, and
a blocked computation has the type it carries when each of its parts has the type recorded for it.
The value of a term has every type that is derivable for the term, and evaluation is never stuck.
The induction is on the bound.
-/

set_option autoImplicit false

namespace LambdaCalculi.Simple

open Outcome

mutual

inductive Value.Typed (vars : Context) : Value → Ty → Prop where
  | zero : Value.Typed vars .zero .nat
  | add1 {predecessor : Value} :
      predecessor.Typed vars .nat → Value.Typed vars (.add1 predecessor) .nat
  | closure {ctx : Context} {env : Env} {x : Name} {body : Term} {domain codomain : Ty} :
      env.Typed vars ctx → Derivable ((x, domain) :: ctx) body codomain →
      Value.Typed vars (.closure env x body) (.arrow domain codomain)
  | neutral {type : Ty} {blocked : Neutral} :
      blocked.Typed vars type → Value.Typed vars (.neutral type blocked) type

inductive Neutral.Typed (vars : Context) : Neutral → Ty → Prop where
  | var {x : Name} {type : Ty} : vars.lookup x = some type → Neutral.Typed vars (.var x) type
  | app {function : Neutral} {argument : Value} {domain codomain : Ty} :
      function.Typed vars (.arrow domain codomain) → argument.Typed vars domain →
      Neutral.Typed vars (.app function (.mk domain argument)) codomain
  | recNat {type : Ty} {target : Neutral} {base step : Value} :
      target.Typed vars .nat → base.Typed vars type → step.Typed vars type.step →
      Neutral.Typed vars (.recNat type target (.mk type base) (.mk type.step step)) type

inductive Env.Typed (vars : Context) : Env → Context → Prop where
  | nil : Env.Typed vars .nil []
  | cons {x : Name} {type : Ty} {value : Value} {outer : Env} {ctx : Context} :
      value.Typed vars type → outer.Typed vars ctx →
      Env.Typed vars (.cons x value outer) ((x, type) :: ctx)

end

/-! ## More variables -/

mutual

theorem Value.Typed.weaken {more vars : Context} (larger : more.Extends vars) {value : Value}
    {type : Ty} : value.Typed vars type → value.Typed more type
  | .zero => .zero
  | .add1 predecessor => .add1 (predecessor.weaken larger)
  | .closure env body => .closure (env.weaken larger) body
  | .neutral blocked => .neutral (blocked.weaken larger)

theorem Neutral.Typed.weaken {more vars : Context} (larger : more.Extends vars) {blocked : Neutral}
    {type : Ty} : blocked.Typed vars type → blocked.Typed more type
  | .var found => .var (larger _ _ found)
  | .app function argument => .app (function.weaken larger) (argument.weaken larger)
  | .recNat target base step =>
      .recNat (target.weaken larger) (base.weaken larger) (step.weaken larger)

theorem Env.Typed.weaken {more vars : Context} (larger : more.Extends vars) {env : Env}
    {ctx : Context} : env.Typed vars ctx → env.Typed more ctx
  | .nil => .nil
  | .cons value outer => .cons (value.weaken larger) (outer.weaken larger)

end

/-! ## Evaluation -/

abbrev Evaluated (vars : Context) (type : Ty) : Outcome Stuck Value → Prop :=
  Safe (fun _ => False) fun value => value.Typed vars type

theorem Env.Typed.lookup {vars ctx : Context} {x : Name} {type : Ty} (binds : ctx.Binds x type) :
    ∀ {env : Env}, env.Typed vars ctx →
      ∃ value, env.lookup? x = some value ∧ value.Typed vars type := by
  induction binds with
  | here =>
      rintro env (_ | ⟨valueTyped, _⟩)
      exact ⟨_, if_pos rfl, valueTyped⟩
  | there different _ ih =>
      rintro env (_ | ⟨_, outerTyped⟩)
      obtain ⟨value, found, valueTyped⟩ := ih outerTyped
      exact ⟨value, (if_neg different).trans found, valueTyped⟩

structure TypedEvaluation (fuel : Nat) : Prop where
  eval : ∀ {vars ctx : Context} {env : Env} {term : Term} {type : Ty}, env.Typed vars ctx →
    Derivable ctx term type → Evaluated vars type (env.eval fuel term)
  apply : ∀ {vars : Context} {function argument : Value} {domain codomain : Ty},
    function.Typed vars (.arrow domain codomain) → argument.Typed vars domain →
    Evaluated vars codomain (function.apply fuel argument)
  recNat : ∀ {vars : Context} {target base step : Value} {type : Ty}, target.Typed vars .nat →
    base.Typed vars type → step.Typed vars type.step →
    Evaluated vars type (target.recNat fuel type base step)

namespace TypedEvaluation

variable {fuel : Nat} {vars : Context}

theorem eval_succ (ih : TypedEvaluation fuel) {ctx : Context} {env : Env} {term : Term} {type : Ty}
    (envTyped : env.Typed vars ctx) (derivable : Derivable ctx term type) :
    Evaluated vars type (env.eval (fuel + 1) term) := by
  cases derivable with
  | var binds =>
      obtain ⟨value, found, valueTyped⟩ := envTyped.lookup binds
      simp only [Env.eval, found, Outcome.ofOption]
      exact valueTyped
  | lam bodyDerivable => exact .closure envTyped bodyDerivable
  | app functionDerivable argumentDerivable =>
      simp only [Env.eval]
      refine (ih.eval envTyped functionDerivable).bind fun function functionTyped => ?_
      refine (ih.eval envTyped argumentDerivable).bind fun argument argumentTyped => ?_
      exact ih.apply functionTyped argumentTyped
  | zero => exact .zero
  | add1 predecessorDerivable =>
      simp only [Env.eval]
      exact (ih.eval envTyped predecessorDerivable).bind fun _ predecessorTyped =>
        .add1 predecessorTyped
  | recNat targetDerivable baseDerivable stepDerivable =>
      simp only [Env.eval]
      refine (ih.eval envTyped targetDerivable).bind fun target targetTyped => ?_
      refine (ih.eval envTyped baseDerivable).bind fun base baseTyped => ?_
      refine (ih.eval envTyped stepDerivable).bind fun step stepTyped => ?_
      exact ih.recNat targetTyped baseTyped stepTyped
  | ann exprDerivable =>
      simp only [Env.eval]
      exact ih.eval envTyped exprDerivable

theorem apply_succ (ih : TypedEvaluation fuel) {function argument : Value} {domain codomain : Ty}
    (functionTyped : function.Typed vars (.arrow domain codomain))
    (argumentTyped : argument.Typed vars domain) :
    Evaluated vars codomain (function.apply (fuel + 1) argument) := by
  cases functionTyped with
  | closure envTyped bodyDerivable =>
      simp only [Value.apply]
      exact ih.eval (.cons argumentTyped envTyped) bodyDerivable
  | neutral blockedTyped => exact .neutral (.app blockedTyped argumentTyped)

theorem recNat_succ (ih : TypedEvaluation fuel) {target base step : Value} {type : Ty}
    (targetTyped : target.Typed vars .nat) (baseTyped : base.Typed vars type)
    (stepTyped : step.Typed vars type.step) :
    Evaluated vars type (target.recNat (fuel + 1) type base step) := by
  cases targetTyped with
  | zero => exact baseTyped
  | add1 predecessorTyped =>
      simp only [Value.recNat]
      refine (ih.apply stepTyped predecessorTyped).bind fun stepAt stepAtTyped => ?_
      refine (ih.recNat predecessorTyped baseTyped stepTyped).bind fun almost almostTyped => ?_
      exact ih.apply stepAtTyped almostTyped
  | neutral blockedTyped => exact .neutral (.recNat blockedTyped baseTyped stepTyped)

end TypedEvaluation

theorem typedEvaluation (fuel : Nat) : TypedEvaluation fuel := by
  induction fuel with
  | zero =>
      refine ⟨?_, ?_, ?_⟩
      · intro vars ctx env term type _ _
        rw [Env.eval]
        exact True.intro
      · intro vars function argument domain codomain _ _
        rw [Value.apply]
        exact True.intro
      · intro vars target base step type _ _ _
        rw [Value.recNat]
        exact True.intro
  | succ fuel ih => exact ⟨ih.eval_succ, ih.apply_succ, ih.recNat_succ⟩

end LambdaCalculi.Simple
