import LambdaCalculi.Proofs.Behaviour
import LambdaCalculi.Proofs.Untyped.Bounds
import LambdaCalculi.Proofs.Untyped.Renaming

/-!
# Definitions as nested functions

A program is the same as one term in which each definition is the argument of a function around the
rest. The definitions are evaluated to the same environment in the same order, at most deeper, and
the value of the body is read back avoiding the names of the definitions on the one side and no
names on the other. So both diverge, or both have alpha-equivalent normal forms, or both stop at the
same variable.
-/

set_option autoImplicit false

namespace LambdaCalculi.Untyped

open Outcome

/-- The body below a function for each definition, which is applied to the definition; the first one
is outermost. -/
def Term.letIn : List Definition → Term → Term
  | [], body => body
  | definition :: rest, body =>
      .app (.lam definition.name (letIn rest body)) definition.term

def Program.nested (program : Program) : Term :=
  .letIn program.definitions program.body

/-! ## Evaluation -/

namespace Env

def evalAfter (fuel : Nat) (env : Env) (definitions : List Definition) (body : Term) :
    Outcome UnboundVariable Value := do
  let inner ← definitions.foldlM (define fuel) env
  inner.eval fuel body

theorem evalAfter_cons (fuel : Nat) (env : Env) (definition : Definition) (rest : List Definition)
    (body : Term) :
    env.evalAfter fuel (definition :: rest) body =
      (do
        let value ← env.eval fuel definition.term
        (env.extend definition.name value).evalAfter fuel rest body) := by
  simp only [evalAfter, List.foldlM_cons, define, bind_assoc, pure_bind]

theorem evalAfter_below (fuel : Nat) (env : Env) (definitions : List Definition) (body : Term) :
    Below (env.evalAfter fuel definitions body) (env.evalAfter (fuel + 1) definitions body) :=
  (defineAll_below fuel definitions env).bind fun inner => (evaluationBelow fuel).eval inner body

/-- A function that is applied at once binds its argument and goes on with its body. -/
theorem eval_letIn_cons (fuel : Nat) (env : Env) (definition : Definition) (rest : List Definition)
    (body : Term) :
    env.eval (fuel + 2) (.letIn (definition :: rest) body) =
      (do
        let value ← env.eval (fuel + 1) definition.term
        (env.extend definition.name value).eval fuel (.letIn rest body)) := by
  simp [Term.letIn, eval, Value.apply]

theorem eval_letIn_below (definitions : List Definition) (body : Term) (fuel : Nat) (env : Env) :
    Below (env.eval fuel (.letIn definitions body)) (env.evalAfter fuel definitions body) := by
  induction definitions generalizing fuel env with
  | nil => exact .refl _
  | cons definition rest ih =>
      match fuel with
      | 0 => exact .exhausted _
      | 1 => exact .exhausted _
      | fuel + 2 =>
          rw [eval_letIn_cons, evalAfter_cons]
          refine ((evaluationBelow (fuel + 1)).eval env definition.term).bind fun value => ?_
          have deeper := Below.of_le (fun fuel =>
            evalAfter_below fuel (env.extend definition.name value) rest body)
            (Nat.le_add_right fuel 2)
          exact (ih fuel (env.extend definition.name value)).trans deeper

theorem evalAfter_below_letIn (definitions : List Definition) (body : Term) (fuel : Nat)
    (env : Env) :
    Below (env.evalAfter fuel definitions body)
      (env.eval (fuel + 2 * definitions.length) (.letIn definitions body)) := by
  induction definitions generalizing env with
  | nil => exact .refl _
  | cons definition rest ih =>
      have deeper := Below.of_le (fun fuel => (evaluationBelow fuel).eval env definition.term)
        (show fuel ≤ fuel + 2 * rest.length + 1 by omega)
      rw [evalAfter_cons, List.length_cons, Nat.mul_succ, ← Nat.add_assoc, eval_letIn_cons]
      exact deeper.bind fun value => ih (env.extend definition.name value)

end Env

/-! ## Reading back -/

/-- Definitions and a body are evaluated in lockstep in corresponding environments. -/
theorem Env.evalAfter_corresponds {names : Correspondence} (fuel : Nat)
    (definitions : List Definition) (body : Term) {env env' : Env}
    (corresponds : env.Corresponds names env') :
    Alike Eq (Value.Corresponds names) (env.evalAfter fuel definitions body)
      (env'.evalAfter fuel definitions body) := by
  induction definitions generalizing env env' with
  | nil => exact (evaluatesAlike fuel).eval body corresponds
  | cons definition rest ih =>
      rw [evalAfter_cons, evalAfter_cons]
      refine ((evaluatesAlike fuel).eval definition.term corresponds).bind
        fun _ _ valueCorresponds => ?_
      exact ih (.cons definition.name valueCorresponds corresponds)

/-- The names that reading back avoids change the result at most in its binders. -/
theorem Env.readBack_evalAfter_alike (fuel : Nat) (definitions : List Definition) (body : Term)
    (used used' : List Name) :
    Alike Eq Term.AlphaEquiv
      (Env.nil.evalAfter fuel definitions body >>= (·.readBack fuel used))
      (Env.nil.evalAfter fuel definitions body >>= (·.readBack fuel used')) := by
  let nothing : Correspondence := fun _ _ => False
  have renames : Renames nothing [] [] used used' :=
    ⟨fun _ _ related => related.elim, fun _ _ related => related.elim,
      fun _ _ related => related.elim⟩
  refine (Env.evalAfter_corresponds fuel definitions body (.nil : Env.Corresponds nothing _ _)).bind
    fun _ _ valueCorresponds => ?_
  exact (readsBackAlike fuel).value renames valueCorresponds

/-! ## Programs -/

theorem Program.run_eq_evalAfter (fuel : Nat) (program : Program) :
    program.run fuel = Env.nil.evalAfter fuel program.definitions program.body >>=
      (·.readBack fuel (program.definitions.map Definition.name)) := by
  rw [run, Env.evalAfter, bind_assoc]
  rfl

/-- A program behaves as the term in which its definitions are nested functions applied to them:
both diverge, or both return alpha-equivalent terms, or both stop at the same unbound variable. -/
theorem Program.run_behaves_as_nested (program : Program) :
    BehaveAlike Term.AlphaEquiv (fun fuel => program.run fuel)
      (fun fuel => program.nested.normalize fuel) := by
  -- Between the two stands the run that avoids no names.
  let unnamed : Nat → Outcome UnboundVariable Term := fun fuel =>
    Env.nil.evalAfter fuel program.definitions program.body >>= (·.readBack fuel [])
  have alike : ∀ fuel, Alike Eq Term.AlphaEquiv (program.run fuel) (unnamed fuel) := by
    intro fuel
    rw [run_eq_evalAfter]
    exact Env.readBack_evalAfter_alike fuel program.definitions program.body _ _
  have ahead : ∀ fuel, Below (program.nested.normalize fuel) (unnamed fuel) := by
    intro fuel
    exact (Env.eval_letIn_below program.definitions program.body fuel .nil).bind
      fun value => .refl _
  have behind : ∀ fuel, Below (unnamed fuel)
      (program.nested.normalize (fuel + 2 * program.definitions.length)) := by
    intro fuel
    refine (Env.evalAfter_below_letIn program.definitions program.body fuel .nil).bind
      fun value => ?_
    exact Below.of_le (fun fuel => (readBackBelow fuel).value [] value) (Nat.le_add_right _ _)
  refine .of_catching_up (fun fuel => run_below fuel program)
    (fun fuel => program.nested.normalize_below fuel) ?_ ?_
  · intro fuel finished
    refine ⟨fuel + 2 * program.definitions.length, ?_⟩
    rcases behind fuel with unfinished | same
    · exact absurd ((alike fuel).exhausted_iff.mpr unfinished) finished
    · rw [← same]
      exact alike fuel
  · intro fuel finished
    refine ⟨fuel, fun unfinished => ?_⟩
    rcases ahead fuel with exhausted | same
    · exact finished exhausted
    · exact finished (same.trans ((alike fuel).exhausted_iff.mp unfinished))

/-- A binder with the name of a definition is renamed in the program and not in the term. -/
example :
    let program : Program := ⟨[⟨"x", .lam "y" (.var "y")⟩], .lam "x" (.app (.var "x") (.var "x"))⟩
    program.run 9 = .done (.lam "x'" (.app (.var "x'") (.var "x'"))) ∧
      program.nested.normalize 9 = .done (.lam "x" (.app (.var "x") (.var "x"))) := by
  decide +kernel

end LambdaCalculi.Untyped
