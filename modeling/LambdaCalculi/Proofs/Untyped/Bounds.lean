import LambdaCalculi.Proofs.Settling
import LambdaCalculi.Untyped.Program

/-!
# A larger bound changes no result

Raising the bound on the depth by one leaves every outcome as it is, unless the bound was reached.
This holds of evaluation and reading back, and so of the run of a program.
-/

set_option autoImplicit false

namespace LambdaCalculi.Untyped

open Outcome

structure EvaluationBelow (fuel : Nat) : Prop where
  eval : ∀ (env : Env) (term : Term), Below (env.eval fuel term) (env.eval (fuel + 1) term)
  apply : ∀ function argument : Value,
    Below (function.apply fuel argument) (function.apply (fuel + 1) argument)

theorem evaluationBelow (fuel : Nat) : EvaluationBelow fuel := by
  induction fuel with
  | zero =>
      refine ⟨?_, ?_⟩
      · intro env term
        rw [Env.eval]
        exact .exhausted _
      · intro function argument
        rw [Value.apply]
        exact .exhausted _
  | succ fuel ih =>
      refine ⟨?_, ?_⟩
      · intro env term
        cases term with
        | app function argument =>
            simp only [Env.eval]
            refine (ih.eval env function).bind fun functionValue => ?_
            refine (ih.eval env argument).bind fun argumentValue => ?_
            exact ih.apply functionValue argumentValue
        | _ => exact .refl _
      · intro function argument
        cases function with
        | closure env x body =>
            simp only [Value.apply]
            exact ih.eval _ body
        | neutral blocked => exact .refl _

structure ReadBackBelow (fuel : Nat) : Prop where
  value : ∀ (used : List Name) (value : Value),
    Below (value.readBack fuel used) (value.readBack (fuel + 1) used)
  neutral : ∀ (used : List Name) (neutral : Neutral),
    Below (neutral.readBack fuel used) (neutral.readBack (fuel + 1) used)

theorem readBackBelow (fuel : Nat) : ReadBackBelow fuel := by
  induction fuel with
  | zero =>
      refine ⟨?_, ?_⟩
      · intro used value
        rw [Value.readBack]
        exact .exhausted _
      · intro used neutral
        rw [Neutral.readBack]
        exact .exhausted _
  | succ fuel ih =>
      refine ⟨?_, ?_⟩
      · intro used value
        cases value with
        | closure env x body =>
            simp only [Value.readBack]
            refine ((evaluationBelow fuel).apply _ _).bind fun bodyValue => ?_
            exact (ih.value _ bodyValue).bind fun _ => .refl _
        | neutral blocked =>
            simp only [Value.readBack]
            exact ih.neutral used blocked
      · intro used neutral
        cases neutral with
        | var x => exact .refl _
        | app function argument =>
            simp only [Neutral.readBack]
            refine (ih.neutral used function).bind fun _ => ?_
            exact (ih.value used argument).bind fun _ => .refl _

theorem Term.normalize_below (fuel : Nat) (term : Term) :
    Below (term.normalize fuel) (term.normalize (fuel + 1)) := by
  rw [Term.normalize, Term.normalize]
  exact ((evaluationBelow fuel).eval .nil term).bind ((readBackBelow fuel).value [])

def Env.define (fuel : Nat) (env : Env) (definition : Definition) :
    Outcome UnboundVariable Env := do
  let value ← env.eval fuel definition.term
  return env.extend definition.name value

theorem Env.defineAll_below (fuel : Nat) (definitions : List Definition) (env : Env) :
    Below (definitions.foldlM (Env.define fuel) env)
      (definitions.foldlM (Env.define (fuel + 1)) env) := by
  induction definitions generalizing env with
  | nil => exact .refl _
  | cons definition rest ih =>
      rw [List.foldlM_cons, List.foldlM_cons]
      refine .bind ?_ ih
      exact ((evaluationBelow fuel).eval env definition.term).bind fun _ => .refl _

theorem Program.run_below (fuel : Nat) (program : Program) :
    Below (program.run fuel) (program.run (fuel + 1)) := by
  rw [Program.run, Program.run]
  refine (Env.defineAll_below fuel program.definitions .nil).bind fun env => ?_
  refine ((evaluationBelow fuel).eval env program.body).bind fun value => ?_
  exact (readBackBelow fuel).value _ value

end LambdaCalculi.Untyped
