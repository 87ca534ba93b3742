import LambdaCalculi.Proofs.Simple.Acceptance
import LambdaCalculi.Proofs.Simple.Adequacy
import LambdaCalculi.Proofs.Simple.Bounds
import LambdaCalculi.Proofs.Simple.TypedValues

/-!
# Fully expanded normal forms are stable

A value of a type is read back to a normal form of the type in which every part of a function type,
unless it is applied, is a function, and no binder has a name that is in use. Such a term is its own
normal form, to the names of its binders: a function in it becomes a closure that suggests the name
of its binder, and the name is new where it is read back.
-/

set_option autoImplicit false

namespace LambdaCalculi.Simple

open Outcome

mutual

/-- The term is a fully expanded normal form of the type, where its variables have the types in
`vars`. No binder has the name of a variable in scope or a name in `reserved`. -/
inductive Term.Long (reserved : List Name) : Context → Ty → Term → Prop where
  | zero {vars : Context} : Term.Long reserved vars .nat .zero
  | add1 {vars : Context} {predecessor : Term} :
      predecessor.Long reserved vars .nat → Term.Long reserved vars .nat (.add1 predecessor)
  | blocked {vars : Context} {term : Term} :
      term.Blocked reserved vars .nat → Term.Long reserved vars .nat term
  | lam {vars : Context} {x : Name} {domain codomain : Ty} {body : Term} :
      x ∉ vars.names ++ reserved → body.Long reserved ((x, domain) :: vars) codomain →
      Term.Long reserved vars (.arrow domain codomain) (.lam x body)

/-- The term is a chain of eliminators on a variable, with normal forms for their arguments. -/
inductive Term.Blocked (reserved : List Name) : Context → Ty → Term → Prop where
  | var {vars : Context} {x : Name} {type : Ty} :
      vars.lookup x = some type → Term.Blocked reserved vars type (.var x)
  | app {vars : Context} {domain codomain : Ty} {function argument : Term} :
      function.Blocked reserved vars (.arrow domain codomain) →
      argument.Long reserved vars domain →
      Term.Blocked reserved vars codomain (.app function argument)
  | recNat {vars : Context} {type : Ty} {target base step : Term} :
      target.Blocked reserved vars .nat → base.Long reserved vars type →
      step.Long reserved vars type.step →
      Term.Blocked reserved vars type (.recNat type target base step)

end

/-! ## Fewer names reserved -/

mutual

theorem Term.Long.release {more fewer : List Name} (subset : fewer ⊆ more) {vars : Context}
    {type : Ty} {term : Term} : term.Long more vars type → term.Long fewer vars type
  | .zero => .zero
  | .add1 predecessor => .add1 (predecessor.release subset)
  | .blocked blocked => .blocked (blocked.release subset)
  | @Term.Long.lam _ vars _ _ _ _ new body =>
      have inside : vars.names ++ fewer ⊆ vars.names ++ more :=
        List.append_subset.mpr
          ⟨List.subset_append_left _ _, List.subset_append_of_subset_right _ subset⟩
      .lam (fun mem => new (inside mem)) (body.release subset)

theorem Term.Blocked.release {more fewer : List Name} (subset : fewer ⊆ more) {vars : Context}
    {type : Ty} {term : Term} : term.Blocked more vars type → term.Blocked fewer vars type
  | .var found => .var found
  | .app function argument => .app (function.release subset) (argument.release subset)
  | .recNat target base step =>
      .recNat (target.release subset) (base.release subset) (step.release subset)

end

/-! ## Reading back -/

structure LongReadBack (fuel : Nat) : Prop where
  value : ∀ {reserved : List Name} {vars : Context} {type : Ty} {value : Value},
    value.Typed vars type →
    Safe (fun _ => False) (Term.Long reserved vars type)
      (value.readBack fuel (vars.names ++ reserved) type)
  neutral : ∀ {reserved : List Name} {vars : Context} {type : Ty} {blocked : Neutral},
    blocked.Typed vars type →
    Safe (fun _ => False) (Term.Blocked reserved vars type)
      (blocked.readBack fuel (vars.names ++ reserved))
  normal : ∀ {reserved : List Name} {vars : Context} {type : Ty} {value : Value},
    value.Typed vars type →
    Safe (fun _ => False) (Term.Long reserved vars type)
      ((Normal.mk type value).readBack fuel (vars.names ++ reserved))

namespace LongReadBack

variable {fuel : Nat} {reserved : List Name} {vars : Context} {type : Ty}

theorem function_succ (ih : LongReadBack fuel) {domain codomain : Ty} {function : Value}
    (typed : function.Typed vars (.arrow domain codomain)) :
    Safe (fun _ => False) (Term.Long reserved vars (.arrow domain codomain))
      (function.readBack (fuel + 1) (vars.names ++ reserved) (.arrow domain codomain)) := by
  simp only [Value.readBack]
  have new := Name.fresh_not_mem (vars.names ++ reserved) function.argumentName
  generalize Name.fresh (vars.names ++ reserved) function.argumentName = x at *
  have larger : Context.Extends ((x, domain) :: vars) vars :=
    Context.extends_cons (fun mem => new (List.mem_append_left reserved mem)) domain
  have variableTyped : (Value.ofVar domain x).Typed ((x, domain) :: vars) domain :=
    .neutral (.var List.lookup_cons_self)
  refine ((typedEvaluation fuel).apply (typed.weaken larger) variableTyped).bind
    fun body bodyTyped => ?_
  exact (ih.value bodyTyped).bind fun bodyTerm bodyLong => .lam new bodyLong

theorem value_succ (ih : LongReadBack fuel) {value : Value} (typed : value.Typed vars type) :
    Safe (fun _ => False) (Term.Long reserved vars type)
      (value.readBack (fuel + 1) (vars.names ++ reserved) type) := by
  cases type with
  | arrow domain codomain => exact ih.function_succ typed
  | nat =>
      cases typed with
      | zero => exact .zero
      | add1 predecessorTyped =>
          simp only [Value.readBack]
          exact (ih.value predecessorTyped).bind fun _ predecessorLong => .add1 predecessorLong
      | neutral blockedTyped =>
          simp only [Value.readBack]
          exact (ih.neutral blockedTyped).mono fun _ blocked => .blocked blocked

theorem neutral_succ (ih : LongReadBack fuel) {blocked : Neutral}
    (typed : blocked.Typed vars type) :
    Safe (fun _ => False) (Term.Blocked reserved vars type)
      (blocked.readBack (fuel + 1) (vars.names ++ reserved)) := by
  cases typed with
  | var found => exact .var found
  | app functionTyped argumentTyped =>
      simp only [Neutral.readBack]
      refine (ih.neutral functionTyped).bind fun function functionBlocked => ?_
      exact (ih.normal argumentTyped).bind fun argument argumentLong =>
        .app functionBlocked argumentLong
  | recNat targetTyped baseTyped stepTyped =>
      simp only [Neutral.readBack]
      refine (ih.neutral targetTyped).bind fun target targetBlocked => ?_
      refine (ih.normal baseTyped).bind fun base baseLong => ?_
      exact (ih.normal stepTyped).bind fun step stepLong => .recNat targetBlocked baseLong stepLong

end LongReadBack

theorem longReadBack (fuel : Nat) : LongReadBack fuel := by
  induction fuel with
  | zero =>
      refine ⟨?_, ?_, ?_⟩
      · intro reserved vars type value _
        rw [Value.readBack]
        exact True.intro
      · intro reserved vars type blocked _
        rw [Neutral.readBack]
        exact True.intro
      · intro reserved vars type value _
        rw [Normal.readBack]
        exact True.intro
  | succ fuel ih =>
      refine ⟨ih.value_succ, ih.neutral_succ, ?_⟩
      intro reserved vars type value typed
      rw [Normal.readBack]
      exact ih.value typed

/-! ## Checking and evaluating normal forms -/

mutual

theorem Term.Long.check {reserved : List Name} {vars : Context} {type : Ty} {term : Term} :
    term.Long reserved vars type → ∀ {ctx : Context}, ctx.Extends vars →
      term.check ctx type = .ok ()
  | .zero, _, _ => check_zero_iff.mpr rfl
  | .add1 predecessor, _, larger => check_add1_iff.mpr ⟨rfl, predecessor.check larger⟩
  | .blocked blocked, _, larger => check_of_synth (blocked.synth larger)
  | .lam _ body, _, larger => check_lam_iff.mpr ⟨_, _, rfl, body.check (larger.bind _ _)⟩

theorem Term.Blocked.synth {reserved : List Name} {vars : Context} {type : Ty} {term : Term} :
    term.Blocked reserved vars type → ∀ {ctx : Context}, ctx.Extends vars →
      term.synth ctx = .ok type
  | .var found, _, larger => synth_var_iff.mpr (larger _ _ found)
  | .app function argument, _, larger =>
      synth_app (function.synth larger) (argument.check larger)
  | .recNat target base step, _, larger =>
      synth_recNat (target.synth larger) (base.check larger) (step.check larger)

end

def Env.Spells (env : Env) (vars : Context) : Prop :=
  ∀ x type, vars.lookup x = some type → env.lookup? x = some (.ofVar type x)

theorem Env.Spells.extend {env : Env} {vars : Context} (spells : env.Spells vars) (x : Name)
    (type : Ty) : (env.extend x (.ofVar type x)).Spells ((x, type) :: vars) := by
  intro y other found
  by_cases same : x = y
  · subst same
    rw [List.lookup_cons_self] at found
    cases found
    exact if_pos rfl
  · have different : (y == x) = false := beq_false_of_ne (Ne.symm same)
    rw [List.lookup_cons, different] at found
    exact (if_neg same).trans (spells y other found)

mutual

/-- A normal form is what its value is read back to, binders included. -/
theorem Term.Long.settles {reserved : List Name} {vars : Context} {type : Ty} {term : Term} :
    term.Long reserved vars type → ∀ {env : Env}, env.Spells vars →
      ∃ value, Settles (fun fuel => env.eval fuel term) (.done value) ∧
        Settles (fun fuel => value.readBack fuel (vars.names ++ reserved) type) (.done term)
  | .zero, env, _ => by
      refine ⟨.zero, .spend ?_, .spend ?_⟩
      · simp only [Env.eval]
        exact .const _
      · simp only [Value.readBack]
        exact .const _
  | .add1 predecessor, env, spells => by
      obtain ⟨value, evaluated, read⟩ := predecessor.settles spells
      refine ⟨.add1 value, .spend ?_, .spend ?_⟩
      · simp only [Env.eval]
        exact evaluated.bind (.const _)
      · simp only [Value.readBack]
        exact read.bind (.const _)
  | .blocked blocked, env, spells => by
      obtain ⟨neutral, evaluated, read⟩ := blocked.settles spells
      refine ⟨.neutral .nat neutral, evaluated, .spend ?_⟩
      simp only [Value.readBack]
      exact read
  | @Term.Long.lam _ vars x domain codomain body new bodyLong, env, spells => by
      obtain ⟨value, evaluated, read⟩ := bodyLong.settles (spells.extend x domain)
      -- The closure suggests the name of the binder, which is not in use here.
      have kept : Name.fresh (vars.names ++ reserved) x = x := Name.fresh_of_not_mem new
      refine ⟨.closure env x body, .spend ?_, .spend ?_⟩
      · simp only [Env.eval]
        exact .const _
      · simp only [Value.readBack, Value.argumentName, kept]
        refine Settles.bind (.spend ?_) (read.bind (.const _))
        simp only [Value.apply]
        exact evaluated

theorem Term.Blocked.settles {reserved : List Name} {vars : Context} {type : Ty} {term : Term} :
    term.Blocked reserved vars type → ∀ {env : Env}, env.Spells vars →
      ∃ blocked, Settles (fun fuel => env.eval fuel term) (.done (.neutral type blocked)) ∧
        Settles (fun fuel => blocked.readBack fuel (vars.names ++ reserved)) (.done term)
  | @Term.Blocked.var _ vars x type found, env, spells => by
      refine ⟨.var x, .spend ?_, .spend ?_⟩
      · simp only [Env.eval, spells x type found, Outcome.ofOption]
        exact .const _
      · simp only [Neutral.readBack]
        exact .const _
  | @Term.Blocked.app _ vars domain codomain _ _ function argument, env, spells => by
      obtain ⟨neutral, functionEvaluated, functionRead⟩ := function.settles spells
      obtain ⟨value, argumentEvaluated, argumentRead⟩ := argument.settles spells
      refine ⟨.app neutral (.mk domain value), .spend ?_, .spend ?_⟩
      · simp only [Env.eval]
        refine functionEvaluated.bind (argumentEvaluated.bind (.spend ?_))
        simp only [Value.apply]
        exact .const _
      · simp only [Neutral.readBack]
        exact functionRead.bind ((Normal.settles_readBack argumentRead).bind (.const _))
  | @Term.Blocked.recNat _ vars type _ _ _ target base step, env, spells => by
      obtain ⟨neutral, targetEvaluated, targetRead⟩ := target.settles spells
      obtain ⟨baseValue, baseEvaluated, baseRead⟩ := base.settles spells
      obtain ⟨stepValue, stepEvaluated, stepRead⟩ := step.settles spells
      refine ⟨.recNat type neutral (.mk type baseValue) (.mk type.step stepValue), .spend ?_,
        .spend ?_⟩
      · simp only [Env.eval]
        refine targetEvaluated.bind (baseEvaluated.bind (stepEvaluated.bind (.spend ?_)))
        simp only [Value.recNat]
        exact .const _
      · simp only [Neutral.readBack]
        exact targetRead.bind ((Normal.settles_readBack baseRead).bind
          ((Normal.settles_readBack stepRead).bind (.const _)))

end

/-! ## Programs -/

theorem Scope.typed_typedValue {scope : Scope} (typed : scope.env.Typed [] scope.context)
    (fuel : Nat) (term : Term) :
    Safe (fun _ => True) (fun found => found.2.Typed [] found.1) (scope.typedValue fuel term) := by
  cases run : scope.typedValue fuel term with
  | done found =>
      obtain ⟨synthesized, evaluated⟩ := typedValue_eq_done run
      have derivable := Term.derivable_of_synth synthesized
      exact ((typedEvaluation fuel).eval typed derivable).of_done evaluated
  | _ => exact True.intro

theorem Scope.typed_ofDefinitions {fuel : Nat} {definitions : List Definition} {scope : Scope}
    (defined : ofDefinitions fuel definitions = .done scope) :
    scope.env.Typed [] scope.context := by
  have kept : Safe (fun _ => True) (fun scope : Scope => scope.env.Typed [] scope.context)
      (ofDefinitions fuel definitions) := by
    refine Safe.foldlM ?_ definitions Env.Typed.nil
    intro scope definition typed
    exact (typed_typedValue typed fuel definition.term).bind fun _ valueTyped =>
      .cons valueTyped typed
  exact kept.of_done defined

/-- What a program runs to is a fully expanded normal form of the type of its body. -/
theorem Program.long_of_run {fuel : Nat} {program : Program} {normal : Term}
    (ran : program.run fuel = .done normal) :
    ∃ scope type, Scope.ofDefinitions fuel program.definitions = .done scope ∧
      program.body.synth scope.context = .ok type ∧ normal.Long scope.names [] type := by
  obtain ⟨scope, type, value, defined, found, evaluated, read⟩ := run_eq_done ran
  have typed := ((typedEvaluation fuel).eval (Scope.typed_ofDefinitions defined)
    (Term.derivable_of_synth found)).of_done evaluated
  exact ⟨scope, type, defined, found, ((longReadBack fuel).value typed).of_done read⟩

/-- After definitions with names that it does not bind, a normal form runs to itself. -/
theorem Term.Long.run_settles {definitions : List Definition} {scope : Scope} {type : Ty}
    {normal : Term} (long : normal.Long scope.names [] type)
    (defined : Settles (fun fuel => Scope.ofDefinitions fuel definitions) (.done scope)) :
    Settles (fun fuel => Program.run fuel ⟨definitions, .ann normal type⟩) (.done normal) := by
  obtain ⟨value, evaluated, read⟩ := @Term.Long.settles _ _ _ _ long scope.env fun _ _ found => by
    cases found
  have found : (Term.ann normal type).synth scope.context = .ok type :=
    synth_ann_iff.mpr ⟨long.check (Context.extends_nil scope.context), rfl⟩
  have typedValue : Settles (fun fuel => scope.typedValue fuel (.ann normal type))
      (.done (type, value)) := by
    have erased : Settles (fun fuel => scope.env.eval fuel (.ann normal type)) (.done value) := by
      refine .spend ?_
      simp only [Env.eval]
      exact evaluated
    simp only [Scope.typedValue, found]
    exact (erased.mapFault Fault.stuck).bind (.const _)
  exact defined.bind (typedValue.bind (read.mapFault Fault.stuck))

/-- The result of a program has the type of the body. Annotated with it and run again, after the
same definitions or without any, it gives itself, the names of its binders included. -/
theorem Program.run_result_stable {fuel : Nat} {program : Program} {normal : Term}
    (ran : program.run fuel = .done normal) :
    ∃ scope type, Scope.ofDefinitions fuel program.definitions = .done scope ∧
      program.body.synth scope.context = .ok type ∧ normal.check [] type = .ok () ∧
      ∃ bound, ∀ more, bound ≤ more →
        Program.run more ⟨program.definitions, .ann normal type⟩ = .done normal ∧
        Program.run more ⟨[], .ann normal type⟩ = .done normal := by
  obtain ⟨scope, type, defined, found, long⟩ := long_of_run ran
  have steady := fun fuel => Scope.ofDefinitions_below fuel program.definitions
  obtain ⟨bound, again⟩ := long.run_settles (.of_done steady defined)
  have alone : normal.Long (Scope.names []) [] type := long.release (List.nil_subset _)
  have nothing : Settles (fun fuel => Scope.ofDefinitions fuel []) (.done []) := .const _
  obtain ⟨aloneBound, aloneAgain⟩ := alone.run_settles nothing
  refine ⟨scope, type, defined, found, long.check (.refl []), max bound aloneBound, ?_⟩
  intro more enough
  exact ⟨again more (by omega), aloneAgain more (by omega)⟩

/-- A recursion that returns the function it started with, after a definition of the name that
expanded functions get. -/
def unchangedFunction : Program :=
  ⟨[⟨"x", .ann .zero .nat⟩],
    .ann (.lam "f" (.lam "n" (.recNat (.arrow .nat .nat) (.var "n") (.var "f")
        (.lam "k" (.lam "f" (.var "f"))))))
      (.arrow (.arrow .nat .nat) (.arrow .nat (.arrow .nat .nat)))⟩

def unchangedFunctionNormal : Term :=
  .lam "f" (.lam "n" (.lam "x'" (.app
    (.recNat (.arrow .nat .nat) (.var "n") (.lam "x''" (.app (.var "f") (.var "x''")))
      (.lam "k" (.lam "f'" (.lam "x''" (.app (.var "f'") (.var "x''"))))))
    (.var "x'"))))

/-- The names found for the expanded functions are kept, also where the definition is left out. -/
theorem unchangedFunction_run_result_stable :
    unchangedFunction.run 15 = .done unchangedFunctionNormal ∧
      ∃ scope type, Scope.ofDefinitions 15 unchangedFunction.definitions = .done scope ∧
        unchangedFunction.body.synth scope.context = .ok type ∧
        unchangedFunctionNormal.check [] type = .ok () ∧
        ∃ bound, ∀ more, bound ≤ more →
          Program.run more ⟨unchangedFunction.definitions, .ann unchangedFunctionNormal type⟩ =
            .done unchangedFunctionNormal ∧
          Program.run more ⟨[], .ann unchangedFunctionNormal type⟩ =
            .done unchangedFunctionNormal := by
  have ran : unchangedFunction.run 15 = .done unchangedFunctionNormal := by
    decide +kernel
  exact ⟨ran, Program.run_result_stable ran⟩

end LambdaCalculi.Simple
