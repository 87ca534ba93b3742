import LambdaCalculi.Proofs.Settling
import LambdaCalculi.Simple.Program

/-!
# A larger bound changes no result

Raising the bound on the depth by one leaves every outcome as it is, unless the bound was reached.
This holds of evaluation and reading back, and so of the run of a program.
-/

set_option autoImplicit false

namespace LambdaCalculi.Simple

open Outcome

structure EvaluationBelow (fuel : Nat) : Prop where
  eval : ∀ (env : Env) (term : Term), Below (env.eval fuel term) (env.eval (fuel + 1) term)
  apply : ∀ function argument : Value,
    Below (function.apply fuel argument) (function.apply (fuel + 1) argument)
  recNat : ∀ (target : Value) (type : Ty) (base step : Value),
    Below (target.recNat fuel type base step) (target.recNat (fuel + 1) type base step)

theorem evaluationBelow (fuel : Nat) : EvaluationBelow fuel := by
  induction fuel with
  | zero =>
      refine ⟨?_, ?_, ?_⟩
      · intro env term
        rw [Env.eval]
        exact .exhausted _
      · intro function argument
        rw [Value.apply]
        exact .exhausted _
      · intro target type base step
        rw [Value.recNat]
        exact .exhausted _
  | succ fuel ih =>
      refine ⟨?_, ?_, ?_⟩
      · intro env term
        cases term with
        | app function argument =>
            simp only [Env.eval]
            refine (ih.eval env function).bind fun functionValue => ?_
            refine (ih.eval env argument).bind fun argumentValue => ?_
            exact ih.apply functionValue argumentValue
        | add1 predecessor =>
            simp only [Env.eval]
            exact (ih.eval env predecessor).bind fun _ => .refl _
        | recNat type target base step =>
            simp only [Env.eval]
            refine (ih.eval env target).bind fun targetValue => ?_
            refine (ih.eval env base).bind fun baseValue => ?_
            refine (ih.eval env step).bind fun stepValue => ?_
            exact ih.recNat targetValue type baseValue stepValue
        | ann expr type =>
            simp only [Env.eval]
            exact ih.eval env expr
        | _ => exact .refl _
      · intro function argument
        cases function with
        | closure env x body =>
            simp only [Value.apply]
            exact ih.eval _ body
        | neutral type blocked => cases type <;> exact .refl _
        | _ => exact .refl _
      · intro target type base step
        cases target with
        | add1 predecessor =>
            simp only [Value.recNat]
            refine (ih.apply step predecessor).bind fun stepAtPredecessor => ?_
            refine (ih.recNat predecessor type base step).bind fun almost => ?_
            exact ih.apply stepAtPredecessor almost
        | neutral targetType blocked => cases targetType <;> exact .refl _
        | _ => exact .refl _

structure ReadBackBelow (fuel : Nat) : Prop where
  value : ∀ (used : List Name) (type : Ty) (value : Value),
    Below (value.readBack fuel used type) (value.readBack (fuel + 1) used type)
  neutral : ∀ (used : List Name) (neutral : Neutral),
    Below (neutral.readBack fuel used) (neutral.readBack (fuel + 1) used)
  normal : ∀ (used : List Name) (normal : Normal),
    Below (normal.readBack fuel used) (normal.readBack (fuel + 1) used)

theorem readBackBelow (fuel : Nat) : ReadBackBelow fuel := by
  induction fuel with
  | zero =>
      refine ⟨?_, ?_, ?_⟩
      · intro used type value
        rw [Value.readBack]
        exact .exhausted _
      · intro used neutral
        rw [Neutral.readBack]
        exact .exhausted _
      · intro used normal
        rw [Normal.readBack]
        exact .exhausted _
  | succ fuel ih =>
      refine ⟨?_, ?_, ?_⟩
      · intro used type value
        cases type with
        | nat =>
            cases value with
            | add1 predecessor =>
                simp only [Value.readBack]
                exact (ih.value used .nat predecessor).bind fun _ => .refl _
            | neutral type blocked =>
                cases type with
                | nat =>
                    simp only [Value.readBack]
                    exact ih.neutral used blocked
                | arrow domain codomain => exact .refl _
            | _ => exact .refl _
        | arrow domain codomain =>
            simp only [Value.readBack]
            refine ((evaluationBelow fuel).apply value _).bind fun body => ?_
            exact (ih.value _ codomain body).bind fun _ => .refl _
      · intro used neutral
        cases neutral with
        | var x => exact .refl _
        | app function argument =>
            simp only [Neutral.readBack]
            refine (ih.neutral used function).bind fun _ => ?_
            exact (ih.normal used argument).bind fun _ => .refl _
        | recNat type target base step =>
            simp only [Neutral.readBack]
            refine (ih.neutral used target).bind fun _ => ?_
            refine (ih.normal used base).bind fun _ => ?_
            exact (ih.normal used step).bind fun _ => .refl _
      · intro used normal
        cases normal with
        | mk type value =>
            simp only [Normal.readBack]
            exact ih.value used type value

theorem Scope.typedValue_below (fuel : Nat) (scope : Scope) (term : Term) :
    Below (scope.typedValue fuel term) (scope.typedValue (fuel + 1) term) := by
  rw [Scope.typedValue, Scope.typedValue]
  split
  · exact .refl _
  · exact (((evaluationBelow fuel).eval scope.env term).mapFault _).bind fun _ => .refl _

theorem Scope.ofDefinitions_below (fuel : Nat) (definitions : List Definition) :
    Below (Scope.ofDefinitions fuel definitions) (Scope.ofDefinitions (fuel + 1) definitions) := by
  rw [Scope.ofDefinitions, Scope.ofDefinitions]
  generalize ([] : Scope) = scope
  induction definitions generalizing scope with
  | nil => exact .refl _
  | cons definition rest ih =>
      rw [List.foldlM_cons, List.foldlM_cons]
      refine .bind ?_ ih
      exact (Scope.typedValue_below fuel scope definition.term).bind fun _ => .refl _

theorem Program.run_below (fuel : Nat) (program : Program) :
    Below (program.run fuel) (program.run (fuel + 1)) := by
  rw [Program.run, Program.run]
  refine (Scope.ofDefinitions_below fuel program.definitions).bind fun scope => ?_
  refine (Scope.typedValue_below fuel scope program.body).bind fun _ => ?_
  exact ((readBackBelow fuel).value _ _ _).mapFault _

end LambdaCalculi.Simple
