import LambdaCalculi.Proofs.Freshness
import LambdaCalculi.Proofs.Settling
import LambdaCalculi.Proofs.Simple.NaturalSemantics

/-!
# The evaluator follows the relational semantics

A value of the evaluator matches a leveled one when the two differ only in names: function bodies are
in nameless form, and the variables that block computations are counted in `scope`, which lists them
with the innermost first. Whatever the relations derive, the evaluator and the reading back settle on
a matching result, and it is never stuck.
-/

set_option autoImplicit false

namespace LambdaCalculi.Simple

open Outcome

mutual

inductive Value.Matches (scope : List Name) : Value → Leveled.Value → Prop where
  | zero : Value.Matches scope .zero .zero
  | add1 {predecessor : Value} {predecessor' : Leveled.Value} :
      predecessor.Matches scope predecessor' →
      Value.Matches scope (.add1 predecessor) (.add1 predecessor')
  | closure {env : Env} {env' : List Leveled.Value} {x : Name} {body : Term} :
      env.Matches scope env' →
      Value.Matches scope (.closure env x body) (.closure env' (body.nameless (x :: env.names)))
  | neutral {type : Ty} {blocked : Neutral} {blocked' : Leveled.Neutral} :
      blocked.Matches scope blocked' →
      Value.Matches scope (.neutral type blocked) (.neutral type blocked')

inductive Neutral.Matches (scope : List Name) : Neutral → Leveled.Neutral → Prop where
  | var {x : Name} {level : Nat} :
      scope.idxOf x + (level + 1) = scope.length → Neutral.Matches scope (.var x) (.var level)
  | app {function : Neutral} {function' : Leveled.Neutral} {domain : Ty} {argument : Value}
      {argument' : Leveled.Value} :
      function.Matches scope function' → argument.Matches scope argument' →
      Neutral.Matches scope (.app function (.mk domain argument)) (.app function' domain argument')
  | recNat {type : Ty} {target : Neutral} {target' : Leveled.Neutral} {base step : Value}
      {base' step' : Leveled.Value} :
      target.Matches scope target' → base.Matches scope base' → step.Matches scope step' →
      Neutral.Matches scope (.recNat type target (.mk type base) (.mk type.step step))
        (.recNat type target' base' step')

inductive Env.Matches (scope : List Name) : Env → List Leveled.Value → Prop where
  | nil : Env.Matches scope .nil []
  | cons {x : Name} {value : Value} {value' : Leveled.Value} {outer : Env}
      {outer' : List Leveled.Value} :
      value.Matches scope value' → outer.Matches scope outer' →
      Env.Matches scope (.cons x value outer) (value' :: outer')

end

/-! ## New variables -/

mutual

theorem Value.Matches.weaken {scope : List Name} {x : Name} (new : x ∉ scope) {value : Value}
    {value' : Leveled.Value} : value.Matches scope value' → value.Matches (x :: scope) value'
  | .zero => .zero
  | .add1 predecessor => .add1 (predecessor.weaken new)
  | .closure env => .closure (env.weaken new)
  | .neutral blocked => .neutral (blocked.weaken new)

theorem Neutral.Matches.weaken {scope : List Name} {x : Name} (new : x ∉ scope) {neutral : Neutral}
    {neutral' : Leveled.Neutral} :
    neutral.Matches scope neutral' → neutral.Matches (x :: scope) neutral'
  | @Neutral.Matches.var _ y level place => by
      have mem : y ∈ scope := List.idxOf_lt_length_iff.mp (by omega)
      have other : x ≠ y := fun same => new (same ▸ mem)
      refine .var ?_
      rw [List.idxOf_cons_ne _ other, List.length_cons]
      omega
  | .app function argument => .app (function.weaken new) (argument.weaken new)
  | .recNat target base step => .recNat (target.weaken new) (base.weaken new) (step.weaken new)

theorem Env.Matches.weaken {scope : List Name} {x : Name} (new : x ∉ scope) {env : Env}
    {env' : List Leveled.Value} : env.Matches scope env' → env.Matches (x :: scope) env'
  | .nil => .nil
  | .cons value outer => .cons (value.weaken new) (outer.weaken new)

end

theorem Value.Matches.ofVar {scope : List Name} {depth : Nat} (deep : scope.length = depth)
    (x : Name) (type : Ty) :
    (Value.ofVar type x).Matches (x :: scope) (.neutral type (.var depth)) := by
  refine .neutral (.var ?_)
  rw [List.idxOf_cons_self, List.length_cons, deep]
  omega

theorem Env.Matches.lookup {scope : List Name} {x : Name} {value' : Leveled.Value} {env : Env}
    {env' : List Leveled.Value} (matching : env.Matches scope env')
    (found : env'[env.names.idxOf x]? = some value') :
    ∃ value, env.lookup? x = some value ∧ value.Matches scope value' := by
  induction env' generalizing env with
  | nil => cases found
  | cons head' outer' ih =>
      cases matching with
      | @cons y head _ outer _ headMatches outerMatches =>
          have names : (Env.cons y head outer).names = y :: outer.names := rfl
          rw [names] at found
          by_cases same : y = x
          · rw [same, List.idxOf_cons_self] at found
            cases found
            exact ⟨head, by rw [Env.lookup?, if_pos same], headMatches⟩
          · rw [List.idxOf_cons_ne _ same] at found
            obtain ⟨value, valueFound, valueMatches⟩ := ih outerMatches found
            exact ⟨value, by rw [Env.lookup?, if_neg same, valueFound], valueMatches⟩

/-! ## Terms of a known nameless form -/

namespace Term

variable {binders : List Name} {term : Term}

theorem eq_var_of_nameless {index : Nat} (form : term.nameless binders = .bound index) :
    ∃ x, term = .var x ∧ binders.idxOf x = index := by
  cases term with
  | var x =>
      rw [nameless] at form
      split at form
      · exact ⟨x, rfl, Nameless.bound.inj form⟩
      · cases form
  | _ => cases form

theorem eq_lam_of_nameless {body : Nameless} (form : term.nameless binders = .lam body) :
    ∃ x inner, term = .lam x inner ∧ inner.nameless (x :: binders) = body := by
  cases term with
  | lam x inner => exact ⟨x, inner, rfl, Nameless.lam.inj form⟩
  | var x => exact absurd form (by rw [nameless]; split <;> simp)
  | _ => cases form

theorem eq_app_of_nameless {function argument : Nameless}
    (form : term.nameless binders = .app function argument) :
    ∃ f a, term = .app f a ∧ f.nameless binders = function ∧ a.nameless binders = argument := by
  cases term with
  | app f a => exact ⟨f, a, rfl, Nameless.app.inj form⟩
  | var x => exact absurd form (by rw [nameless]; split <;> simp)
  | _ => cases form

theorem eq_zero_of_nameless (form : term.nameless binders = .zero) : term = .zero := by
  cases term with
  | zero => rfl
  | var x => exact absurd form (by rw [nameless]; split <;> simp)
  | _ => cases form

theorem eq_add1_of_nameless {predecessor : Nameless}
    (form : term.nameless binders = .add1 predecessor) :
    ∃ p, term = .add1 p ∧ p.nameless binders = predecessor := by
  cases term with
  | add1 p => exact ⟨p, rfl, Nameless.add1.inj form⟩
  | var x => exact absurd form (by rw [nameless]; split <;> simp)
  | _ => cases form

theorem eq_recNat_of_nameless {type : Ty} {target base step : Nameless}
    (form : term.nameless binders = .recNat type target base step) :
    ∃ t b s, term = .recNat type t b s ∧ t.nameless binders = target ∧
      b.nameless binders = base ∧ s.nameless binders = step := by
  cases term with
  | recNat type' t b s =>
      obtain ⟨rfl, parts⟩ := Nameless.recNat.inj form
      exact ⟨t, b, s, rfl, parts⟩
  | var x => exact absurd form (by rw [nameless]; split <;> simp)
  | _ => cases form

theorem eq_ann_of_nameless {expr : Nameless} {type : Ty}
    (form : term.nameless binders = .ann expr type) :
    ∃ e, term = .ann e type ∧ e.nameless binders = expr := by
  cases term with
  | ann e type' =>
      obtain ⟨same, rfl⟩ := Nameless.ann.inj form
      exact ⟨e, rfl, same⟩
  | var x => exact absurd form (by rw [nameless]; split <;> simp)
  | _ => cases form

end Term

/-! ## Evaluation -/

mutual

theorem Leveled.Evaluates.settles {scope : List Name} {env' : List Leveled.Value}
    {term' : Nameless} {value' : Leveled.Value} :
    Leveled.Evaluates env' term' value' → ∀ {env : Env} {term : Term}, env.Matches scope env' →
      term.nameless env.names = term' →
      ∃ value, Settles (fun fuel => env.eval fuel term) (.done value) ∧
        value.Matches scope value'
  | .bound found, env, term, envMatches, form => by
      obtain ⟨x, rfl, rfl⟩ := Term.eq_var_of_nameless form
      obtain ⟨value, lookup, valueMatches⟩ := envMatches.lookup found
      refine ⟨value, .spend ?_, valueMatches⟩
      simp only [Env.eval, lookup, Outcome.ofOption]
      exact .const _
  | .lam, env, term, envMatches, form => by
      obtain ⟨x, body, rfl, rfl⟩ := Term.eq_lam_of_nameless form
      refine ⟨.closure env x body, .spend ?_, .closure envMatches⟩
      simp only [Env.eval]
      exact .const _
  | .app function argument applies, env, term, envMatches, form => by
      obtain ⟨f, a, rfl, functionForm, argumentForm⟩ := Term.eq_app_of_nameless form
      obtain ⟨functionValue, functionRun, functionMatches⟩ :=
        function.settles envMatches functionForm
      obtain ⟨argumentValue, argumentRun, argumentMatches⟩ :=
        argument.settles envMatches argumentForm
      obtain ⟨result, run, resultMatches⟩ := applies.settles functionMatches argumentMatches
      refine ⟨result, .spend ?_, resultMatches⟩
      simp only [Env.eval]
      exact functionRun.bind (argumentRun.bind run)
  | .zero, env, term, envMatches, form => by
      obtain rfl := Term.eq_zero_of_nameless form
      refine ⟨.zero, .spend ?_, .zero⟩
      simp only [Env.eval]
      exact .const _
  | .add1 predecessor, env, term, envMatches, form => by
      obtain ⟨p, rfl, predecessorForm⟩ := Term.eq_add1_of_nameless form
      obtain ⟨value, run, valueMatches⟩ := predecessor.settles envMatches predecessorForm
      refine ⟨.add1 value, .spend ?_, .add1 valueMatches⟩
      simp only [Env.eval]
      exact run.bind (.const _)
  | .recNat target base step recurses, env, term, envMatches, form => by
      obtain ⟨t, b, s, rfl, targetForm, baseForm, stepForm⟩ := Term.eq_recNat_of_nameless form
      obtain ⟨targetValue, targetRun, targetMatches⟩ := target.settles envMatches targetForm
      obtain ⟨baseValue, baseRun, baseMatches⟩ := base.settles envMatches baseForm
      obtain ⟨stepValue, stepRun, stepMatches⟩ := step.settles envMatches stepForm
      obtain ⟨result, run, resultMatches⟩ :=
        recurses.settles baseMatches stepMatches targetMatches
      refine ⟨result, .spend ?_, resultMatches⟩
      simp only [Env.eval]
      exact targetRun.bind (baseRun.bind (stepRun.bind run))
  | .ann expr, env, term, envMatches, form => by
      obtain ⟨e, rfl, exprForm⟩ := Term.eq_ann_of_nameless form
      obtain ⟨value, run, valueMatches⟩ := expr.settles envMatches exprForm
      refine ⟨value, .spend ?_, valueMatches⟩
      simp only [Env.eval]
      exact run
termination_by structural derivation => derivation

theorem Leveled.Applies.settles {scope : List Name} {function' argument' result' : Leveled.Value} :
    Leveled.Applies function' argument' result' → ∀ {function argument : Simple.Value},
      function.Matches scope function' → argument.Matches scope argument' →
      ∃ result, Settles (fun fuel => function.apply fuel argument) (.done result) ∧
        result.Matches scope result'
  | .closure body, _, argument, .closure envMatches, argumentMatches => by
      obtain ⟨result, run, resultMatches⟩ := body.settles (.cons argumentMatches envMatches) rfl
      refine ⟨result, .spend ?_, resultMatches⟩
      simp only [Value.apply]
      exact run
  | .neutral, _, argument, .neutral blockedMatches, argumentMatches => by
      refine ⟨_, .spend ?_, .neutral (.app blockedMatches argumentMatches)⟩
      simp only [Value.apply]
      exact .const _
termination_by structural derivation => derivation

theorem Leveled.Recurses.settles {scope : List Name} {type : Ty}
    {base' step' target' result' : Leveled.Value} :
    Leveled.Recurses type base' step' target' result' → ∀ {base step target : Simple.Value},
      base.Matches scope base' → step.Matches scope step' → target.Matches scope target' →
      ∃ result, Settles (fun fuel => target.recNat fuel type base step) (.done result) ∧
        result.Matches scope result'
  | .zero, base, step, _, baseMatches, stepMatches, .zero => by
      refine ⟨base, .spend ?_, baseMatches⟩
      simp only [Value.recNat]
      exact .const _
  | .add1 atPredecessor recurses applies, base, step, _, baseMatches, stepMatches,
      .add1 predecessorMatches => by
      obtain ⟨stepValue, stepRun, stepValueMatches⟩ :=
        atPredecessor.settles stepMatches predecessorMatches
      obtain ⟨almost, almostRun, almostMatches⟩ :=
        recurses.settles baseMatches stepMatches predecessorMatches
      obtain ⟨result, run, resultMatches⟩ := applies.settles stepValueMatches almostMatches
      refine ⟨result, .spend ?_, resultMatches⟩
      simp only [Value.recNat]
      exact stepRun.bind (almostRun.bind run)
  | .neutral, base, step, _, baseMatches, stepMatches, .neutral blockedMatches => by
      refine ⟨_, .spend ?_, .neutral (.recNat blockedMatches baseMatches stepMatches)⟩
      simp only [Value.recNat]
      exact .const _
termination_by structural derivation => derivation

end

/-! ## Reading back -/

theorem Normal.settles_readBack {used : List Name} {type : Ty} {value : Value}
    {result : Outcome Stuck Term}
    (settled : Settles (fun fuel => value.readBack fuel used type) result) :
    Settles (fun fuel => (Normal.mk type value).readBack fuel used) result := by
  refine .spend ?_
  simp only [Normal.readBack]
  exact settled

mutual

theorem Leveled.ReadsBack.settles {depth : Nat} {type : Ty} {value' : Leveled.Value}
    {term' : Nameless} :
    Leveled.ReadsBack depth type value' term' → ∀ {scope used : List Name} {value : Simple.Value},
      scope.length = depth → scope ⊆ used → value.Matches scope value' →
      ∃ term, Settles (fun fuel => value.readBack fuel used type) (.done term) ∧
        term.nameless scope = term'
  | .zero, scope, used, _, deep, inside, .zero => by
      refine ⟨.zero, .spend ?_, rfl⟩
      simp only [Value.readBack]
      exact .const _
  | .add1 predecessor, scope, used, _, deep, inside, .add1 predecessorMatches => by
      obtain ⟨term, run, form⟩ := predecessor.settles deep inside predecessorMatches
      refine ⟨.add1 term, .spend ?_, by rw [Term.nameless, form]⟩
      simp only [Value.readBack]
      exact run.bind (.const _)
  | .neutral blocked, scope, used, _, deep, inside, .neutral blockedMatches => by
      obtain ⟨term, run, form⟩ := blocked.settles deep inside blockedMatches
      refine ⟨term, .spend ?_, form⟩
      simp only [Value.readBack]
      exact run
  | @Leveled.ReadsBack.function _ domain _ _ _ _ applies body, scope, used, function, deep, inside,
      functionMatches => by
      have new : Name.fresh used function.argumentName ∉ scope :=
        fun mem => Name.fresh_not_mem used _ (inside mem)
      obtain ⟨result, applyRun, resultMatches⟩ :=
        applies.settles (functionMatches.weaken new) (Value.Matches.ofVar deep _ domain)
      obtain ⟨term, run, form⟩ :=
        body.settles (congrArg (· + 1) deep) (List.cons_subset_cons _ inside) resultMatches
      refine ⟨.lam (Name.fresh used function.argumentName) term, .spend ?_, ?_⟩
      · simp only [Value.readBack]
        exact applyRun.bind (run.bind (.const _))
      · rw [Term.nameless, form]
termination_by structural derivation => derivation

theorem Leveled.NeutralReadsBack.settles {depth : Nat} {neutral' : Leveled.Neutral}
    {term' : Nameless} :
    Leveled.NeutralReadsBack depth neutral' term' → ∀ {scope used : List Name} {neutral : Simple.Neutral},
      scope.length = depth → scope ⊆ used → neutral.Matches scope neutral' →
      ∃ term, Settles (fun fuel => neutral.readBack fuel used) (.done term) ∧
        term.nameless scope = term'
  | .var, scope, used, _, deep, inside, @Neutral.Matches.var _ x level place => by
      have mem : x ∈ scope := List.idxOf_lt_length_iff.mp (by omega)
      refine ⟨.var x, .spend ?_, ?_⟩
      · simp only [Neutral.readBack]
        exact .const _
      · rw [Term.nameless, if_pos mem]
        congr 1
        omega
  | .app function argument, scope, used, _, deep, inside,
      .app functionMatches argumentMatches => by
      obtain ⟨functionTerm, functionRun, functionForm⟩ :=
        function.settles deep inside functionMatches
      obtain ⟨argumentTerm, argumentRun, argumentForm⟩ :=
        argument.settles deep inside argumentMatches
      refine ⟨.app functionTerm argumentTerm, .spend ?_, ?_⟩
      · simp only [Neutral.readBack]
        exact functionRun.bind ((Normal.settles_readBack argumentRun).bind (.const _))
      · rw [Term.nameless, functionForm, argumentForm]
  | @Leveled.NeutralReadsBack.recNat _ type _ _ _ _ _ _ target base step, scope, used, _, deep, inside,
      .recNat targetMatches baseMatches stepMatches => by
      obtain ⟨targetTerm, targetRun, targetForm⟩ := target.settles deep inside targetMatches
      obtain ⟨baseTerm, baseRun, baseForm⟩ := base.settles deep inside baseMatches
      obtain ⟨stepTerm, stepRun, stepForm⟩ := step.settles deep inside stepMatches
      refine ⟨.recNat type targetTerm baseTerm stepTerm, .spend ?_, ?_⟩
      · simp only [Neutral.readBack]
        exact targetRun.bind ((Normal.settles_readBack baseRun).bind
          ((Normal.settles_readBack stepRun).bind (.const _)))
      · rw [Term.nameless, targetForm, baseForm, stepForm]
termination_by structural derivation => derivation

end

end LambdaCalculi.Simple
