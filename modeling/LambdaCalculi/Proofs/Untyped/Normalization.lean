import LambdaCalculi.Proofs.Freshness
import LambdaCalculi.Proofs.Untyped.Reduction
import LambdaCalculi.Untyped.Church

/-!
# Normalisation computes normal forms

A value stands for a term: a closure for its function with the terms of its environment put in, a
blocked computation for the variable at its head applied to the terms of its arguments. Evaluation
reduces a term to the term of its value. Reading back applies a function to a new variable, which is
the variable bound by the function as long as the name is new; so it reduces the term of a value to
the term that it reads, in which no redex is left.
-/

set_option autoImplicit false

namespace LambdaCalculi.Untyped

open Nameless (lift)

mutual

/-- The term that a value stands for below the binders in `scope`, the innermost first. -/
inductive Value.StandsFor (scope : List Name) : Value → Nameless → Prop where
  | closure {env : Env} {substitution : Nat → Nameless} (x : Name) (body : Term)
      (standsFor : Env.StandsFor scope env substitution) :
      Value.StandsFor scope (.closure env x body)
        (.lam ((body.nameless (x :: env.names)).subst (lift substitution)))
  | neutral {blocked : Neutral} {term : Nameless} (standsFor : Neutral.StandsFor scope blocked term) :
      Value.StandsFor scope (.neutral blocked) term

inductive Neutral.StandsFor (scope : List Name) : Neutral → Nameless → Prop where
  | var {x : Name} (bound : x ∈ scope) :
      Neutral.StandsFor scope (.var x) (.bound (scope.idxOf x))
  | app {function : Neutral} {argument : Value} {functionTerm argumentTerm : Nameless}
      (functionStandsFor : Neutral.StandsFor scope function functionTerm)
      (argumentStandsFor : Value.StandsFor scope argument argumentTerm) :
      Neutral.StandsFor scope (.app function argument) (.app functionTerm argumentTerm)

/-- The terms of the values in an environment. Beyond these any substitution will do. -/
inductive Env.StandsFor (scope : List Name) : Env → (Nat → Nameless) → Prop where
  | nil (substitution : Nat → Nameless) : Env.StandsFor scope .nil substitution
  | cons {value : Value} {outer : Env} {term : Nameless} {substitution : Nat → Nameless} (x : Name)
      (valueStandsFor : Value.StandsFor scope value term)
      (outerStandsFor : Env.StandsFor scope outer substitution) :
      Env.StandsFor scope (.cons x value outer) (Nameless.extend term substitution)

end

/-! ## One more binder -/

mutual

theorem Value.StandsFor.shift {scope : List Name} {y : Name} (new : y ∉ scope) {value : Value}
    {term : Nameless} : value.StandsFor scope term → value.StandsFor (y :: scope) term.shift
  | @Value.StandsFor.closure _ env substitution x body standsFor => by
      have shifted := Value.StandsFor.closure x body (standsFor.shift new)
      have inner : (body.nameless (x :: env.names)).subst
            (lift fun index => (substitution index).shift) =
          ((body.nameless (x :: env.names)).subst (lift substitution)).rename
            (Nameless.liftRenaming (· + 1)) := by
        rw [Nameless.rename_subst, Nameless.rename_lift]
        rfl
      rw [inner] at shifted
      exact shifted
  | .neutral standsFor => .neutral (standsFor.shift new)

theorem Neutral.StandsFor.shift {scope : List Name} {y : Name} (new : y ∉ scope) {blocked : Neutral}
    {term : Nameless} : blocked.StandsFor scope term → blocked.StandsFor (y :: scope) term.shift
  | @Neutral.StandsFor.var _ x bound => by
      have later : y ≠ x := fun same => new (same ▸ bound)
      have shifted : Neutral.StandsFor (y :: scope) (.var x) (.bound ((y :: scope).idxOf x)) :=
        .var (List.mem_cons_of_mem y bound)
      rw [List.idxOf_cons_ne scope later] at shifted
      exact shifted
  | .app functionStandsFor argumentStandsFor =>
      .app (functionStandsFor.shift new) (argumentStandsFor.shift new)

theorem Env.StandsFor.shift {scope : List Name} {y : Name} (new : y ∉ scope) {env : Env}
    {substitution : Nat → Nameless} : env.StandsFor scope substitution →
    env.StandsFor (y :: scope) fun index => (substitution index).shift
  | .nil _ => .nil _
  | @Env.StandsFor.cons _ value outer term substitution x valueStandsFor outerStandsFor => by
      have shifted := Env.StandsFor.cons x (valueStandsFor.shift new) (outerStandsFor.shift new)
      have extended : Nameless.extend term.shift (fun index => (substitution index).shift) =
          fun index => (Nameless.extend term substitution index).shift := by
        funext index
        cases index <;> rfl
      rw [extended] at shifted
      exact shifted

end

/-! ## Evaluation -/

theorem Env.StandsFor.lookup {scope : List Name} {env : Env} {substitution : Nat → Nameless}
    {x : Name} {value : Value} (standsFor : env.StandsFor scope substitution)
    (found : env.lookup? x = some value) :
    value.StandsFor scope (((Term.var x).nameless env.names).subst substitution) := by
  cases standsFor with
  | nil _ => cases found
  | @cons inner outer term substitution y valueStandsFor outerStandsFor =>
      by_cases here : y = x
      · subst here
        simp only [Env.lookup?, if_true, Option.some.injEq] at found
        subst found
        simpa [Term.nameless, Env.names, Env.toList, Nameless.subst, Nameless.extend] using
          valueStandsFor
      · simp only [Env.lookup?, if_neg here] at found
        have standsFor := outerStandsFor.lookup found
        have skipped : ((Term.var x).nameless (y :: outer.names)).subst
              (Nameless.extend term substitution) =
            ((Term.var x).nameless outer.names).subst substitution := by
          by_cases bound : x ∈ outer.names
          · simp [Term.nameless, bound, List.idxOf_cons_ne outer.names here, Nameless.subst,
              Nameless.extend]
          · have absent : x ≠ y := fun same => here same.symm
            simp [Term.nameless, bound, absent, Nameless.subst]
        rw [← skipped] at standsFor
        exact standsFor

structure Evaluates (fuel : Nat) : Prop where
  eval : ∀ {scope : List Name} {env : Env} {substitution : Nat → Nameless} {term : Term}
    {value : Value}, env.StandsFor scope substitution → env.eval fuel term = .done value →
    ∃ result, value.StandsFor scope result ∧
      Nameless.Reduces ((term.nameless env.names).subst substitution) result
  apply : ∀ {scope : List Name} {function argument value : Value}
    {functionTerm argumentTerm : Nameless}, function.StandsFor scope functionTerm →
    argument.StandsFor scope argumentTerm → function.apply fuel argument = .done value →
    ∃ result, value.StandsFor scope result ∧
      Nameless.Reduces (.app functionTerm argumentTerm) result

theorem Evaluates.zero : Evaluates 0 where
  eval _ run := by
    rw [Env.eval] at run
    cases run
  apply _ _ run := by
    rw [Value.apply] at run
    cases run

theorem Evaluates.eval_succ {fuel : Nat} (ih : Evaluates fuel) {scope : List Name} {env : Env}
    {substitution : Nat → Nameless} {term : Term} {value : Value}
    (standsFor : env.StandsFor scope substitution) (run : env.eval (fuel + 1) term = .done value) :
    ∃ result, value.StandsFor scope result ∧
      Nameless.Reduces ((term.nameless env.names).subst substitution) result := by
  cases term with
  | var x =>
      cases found : env.lookup? x with
      | none => simp [Env.eval, found, Outcome.ofOption] at run
      | some bound =>
          simp only [Env.eval, found, Outcome.ofOption, Outcome.done.injEq] at run
          subst run
          exact ⟨_, standsFor.lookup found, .refl⟩
  | lam x body =>
      simp only [Env.eval, Outcome.done.injEq] at run
      subst run
      exact ⟨_, .closure x body standsFor, .refl⟩
  | app function argument =>
      simp only [Env.eval, Outcome.bind_eq_done_iff] at run
      obtain ⟨functionValue, functionRun, argumentValue, argumentRun, applied⟩ := run
      obtain ⟨functionTerm, functionStandsFor, functionReduces⟩ := ih.eval standsFor functionRun
      obtain ⟨argumentTerm, argumentStandsFor, argumentReduces⟩ := ih.eval standsFor argumentRun
      obtain ⟨result, resultStandsFor, reduces⟩ :=
        ih.apply functionStandsFor argumentStandsFor applied
      exact ⟨result, resultStandsFor, (functionReduces.app argumentReduces).trans reduces⟩

theorem Evaluates.apply_succ {fuel : Nat} (ih : Evaluates fuel) {scope : List Name}
    {function argument value : Value} {functionTerm argumentTerm : Nameless}
    (functionStandsFor : function.StandsFor scope functionTerm)
    (argumentStandsFor : argument.StandsFor scope argumentTerm)
    (run : function.apply (fuel + 1) argument = .done value) :
    ∃ result, value.StandsFor scope result ∧
      Nameless.Reduces (.app functionTerm argumentTerm) result := by
  cases functionStandsFor with
  | closure x body standsFor =>
      rw [Value.apply] at run
      obtain ⟨result, resultStandsFor, reduces⟩ :=
        ih.eval (Env.StandsFor.cons x argumentStandsFor standsFor) run
      refine ⟨result, resultStandsFor, .head (.beta _ _) ?_⟩
      rw [Nameless.instantiate_subst_lift]
      exact reduces
  | neutral standsFor =>
      simp only [Value.apply, Outcome.done.injEq] at run
      subst run
      exact ⟨_, .neutral (.app standsFor argumentStandsFor), .refl⟩

theorem evaluates (fuel : Nat) : Evaluates fuel := by
  induction fuel with
  | zero => exact .zero
  | succ fuel ih => exact ⟨ih.eval_succ, ih.apply_succ⟩

/-! ## Reading back -/

def Term.free : Term → List Name
  | var x => [x]
  | lam x body => body.free.filter (· != x)
  | app function argument => function.free ++ argument.free

def Term.Closed (term : Term) : Prop :=
  term.free = []

instance (term : Term) : Decidable term.Closed :=
  inferInstanceAs (Decidable (term.free = []))

/-- The term is a normal form below the binders in `scope`: it has no redex and no free variables
besides, and the other term reduces to it. -/
structure Term.IsNormalFormOf (scope : List Name) (normal : Term) (term : Nameless) : Prop where
  inScope : ∀ x ∈ normal.free, x ∈ scope
  noRedex : normal.Normal
  reduces : Nameless.Reduces term (normal.nameless scope)

structure ReadsBack (fuel : Nat) : Prop where
  value : ∀ {scope used : List Name} {value : Value} {term : Nameless} {normal : Term},
    value.StandsFor scope term → scope ⊆ used → value.readBack fuel used = .done normal →
    normal.IsNormalFormOf scope term
  neutral : ∀ {scope used : List Name} {blocked : Neutral} {term : Nameless} {normal : Term},
    blocked.StandsFor scope term → scope ⊆ used → blocked.readBack fuel used = .done normal →
    normal.IsNormalFormOf scope term ∧ normal.isFunction = false

theorem ReadsBack.zero : ReadsBack 0 where
  value _ _ run := by
    rw [Value.readBack] at run
    cases run
  neutral _ _ run := by
    rw [Neutral.readBack] at run
    cases run

/-- The new variable stands for the one that the function binds. -/
theorem Env.StandsFor.bindNew {scope : List Name} {env : Env} {substitution : Nat → Nameless}
    (standsFor : env.StandsFor scope substitution) {y : Name} (new : y ∉ scope) (x : Name) :
    (env.extend x (.ofVar y)).StandsFor (y :: scope) (lift substitution) := by
  have variableStandsFor : (Value.ofVar y).StandsFor (y :: scope) (.bound 0) := by
    have first := Neutral.StandsFor.var (List.mem_cons_self : y ∈ y :: scope)
    rw [List.idxOf_cons_self] at first
    exact .neutral first
  have lifted : lift substitution =
      Nameless.extend (.bound 0) fun index => (substitution index).shift := by
    funext index
    cases index <;> rfl
  rw [lifted]
  exact .cons x variableStandsFor (standsFor.shift new)

theorem Env.StandsFor.apply_new {scope : List Name} {env : Env} {substitution : Nat → Nameless}
    (standsFor : env.StandsFor scope substitution) {y : Name} (new : y ∉ scope) {fuel : Nat}
    {x : Name} {body : Term} {value : Value}
    (run : (Value.closure env x body).apply fuel (.ofVar y) = .done value) :
    ∃ result, value.StandsFor (y :: scope) result ∧
      Nameless.Reduces ((body.nameless (x :: env.names)).subst (lift substitution)) result := by
  cases fuel with
  | zero =>
      rw [Value.apply] at run
      cases run
  | succ fuel =>
      rw [Value.apply] at run
      exact (evaluates fuel).eval (standsFor.bindNew new x) run

theorem ReadsBack.value_succ {fuel : Nat} (ih : ReadsBack fuel) {scope used : List Name}
    {value : Value} {term : Nameless} {normal : Term} (standsFor : value.StandsFor scope term)
    (known : scope ⊆ used) (run : value.readBack (fuel + 1) used = .done normal) :
    normal.IsNormalFormOf scope term := by
  cases standsFor with
  | closure x body envStandsFor =>
      simp only [Value.readBack, Outcome.bind_eq_done_iff, Outcome.pure_eq_done,
        Outcome.done.injEq] at run
      obtain ⟨bodyValue, applied, bodyNormal, bodyRun, rfl⟩ := run
      have new : Name.fresh used x ∉ scope := fun bound => Name.fresh_not_mem used x (known bound)
      obtain ⟨bodyTerm, bodyStandsFor, bodyReduces⟩ := envStandsFor.apply_new new applied
      have form := ih.value bodyStandsFor (List.cons_subset_cons _ known) bodyRun
      refine ⟨?_, form.noRedex, Nameless.Reduces.lam (bodyReduces.trans form.reduces)⟩
      intro z mem
      simp only [Term.free, List.mem_filter, bne_iff_ne] at mem
      exact List.mem_of_ne_of_mem mem.2 (form.inScope z mem.1)
  | neutral standsFor =>
      rw [Value.readBack] at run
      exact (ih.neutral standsFor known run).1

theorem ReadsBack.neutral_succ {fuel : Nat} (ih : ReadsBack fuel) {scope used : List Name}
    {blocked : Neutral} {term : Nameless} {normal : Term}
    (standsFor : blocked.StandsFor scope term) (known : scope ⊆ used)
    (run : blocked.readBack (fuel + 1) used = .done normal) :
    normal.IsNormalFormOf scope term ∧ normal.isFunction = false := by
  cases standsFor with
  | @var x bound =>
      simp only [Neutral.readBack, Outcome.done.injEq] at run
      subst run
      refine ⟨⟨?_, True.intro, ?_⟩, rfl⟩
      · intro z mem
        rw [List.mem_singleton.mp mem]
        exact bound
      · rw [Term.nameless, if_pos bound]
  | app functionStandsFor argumentStandsFor =>
      simp only [Neutral.readBack, Outcome.bind_eq_done_iff, Outcome.pure_eq_done,
        Outcome.done.injEq] at run
      obtain ⟨function, functionRun, argument, argumentRun, rfl⟩ := run
      obtain ⟨functionForm, blocked⟩ := ih.neutral functionStandsFor known functionRun
      have argumentForm := ih.value argumentStandsFor known argumentRun
      refine ⟨⟨?_, ⟨blocked, functionForm.noRedex, argumentForm.noRedex⟩,
        functionForm.reduces.app argumentForm.reduces⟩, rfl⟩
      intro z mem
      rcases List.mem_append.mp mem with inFunction | inArgument
      · exact functionForm.inScope z inFunction
      · exact argumentForm.inScope z inArgument

theorem readsBack (fuel : Nat) : ReadsBack fuel := by
  induction fuel with
  | zero => exact .zero
  | succ fuel ih => exact ⟨ih.value_succ, ih.neutral_succ⟩

/-! ## Normal forms of terms -/

namespace Term

theorem isNormalFormOf_of_normalize {fuel : Nat} {term normal : Term}
    (run : term.normalize fuel = .done normal) : normal.IsNormalFormOf [] (term.nameless []) := by
  simp only [normalize, Outcome.bind_eq_done_iff] at run
  obtain ⟨value, evaluated, readBack⟩ := run
  obtain ⟨result, standsFor, reduces⟩ :=
    (evaluates fuel).eval (Env.StandsFor.nil Nameless.bound) evaluated
  have form := (readsBack fuel).value standsFor (List.nil_subset []) readBack
  rw [Nameless.subst_bound] at reduces
  exact ⟨form.inScope, form.noRedex, reduces.trans form.reduces⟩

theorem IsNormalFormOf.closed {normal : Term} {term : Nameless}
    (form : normal.IsNormalFormOf [] term) : normal.Closed :=
  List.eq_nil_iff_forall_not_mem.mpr fun x mem => List.not_mem_nil (form.inScope x mem)

/-- What a term normalises to is closed and has no redex, and the term reduces to it. Two terms that
normalise are convertible exactly when their normal forms are alpha-equivalent. -/
theorem normalize_decides_conversion {left right leftNormal rightNormal : Term}
    {leftFuel rightFuel : Nat} (leftRun : left.normalize leftFuel = .done leftNormal)
    (rightRun : right.normalize rightFuel = .done rightNormal) :
    leftNormal.Closed ∧ leftNormal.Normal ∧ left.Reduces leftNormal ∧
      (left.Convertible right ↔ leftNormal.AlphaEquiv rightNormal) := by
  have leftForm := isNormalFormOf_of_normalize leftRun
  have rightForm := isNormalFormOf_of_normalize rightRun
  exact ⟨leftForm.closed, leftForm.noRedex, leftForm.reduces,
    Reduces.convertible_iff leftForm.reduces rightForm.reduces leftForm.noRedex rightForm.noRedex⟩

end Term

def successor : Term :=
  .lam "n" (.lam "f" (.lam "x" (.app (.var "f") (.app (.app (.var "n") (.var "f")) (.var "x")))))

/-- The function that applies its first argument twice to its second, which has the same name. -/
def twice : Term :=
  .lam "f" (.app (.lam "g" (.lam "f" (.app (.var "g") (.app (.var "g") (.var "f"))))) (.var "f"))

/-- The decision for the successor of one and for the function that applies another one twice. -/
theorem successorOfOne_conversion_decided :
    (Term.app successor (Church.numeral 1)).normalize 9 = .done (Church.numeral 2) ∧
      twice.normalize 9 =
        .done (.lam "f" (.lam "f'" (.app (.var "f") (.app (.var "f") (.var "f'"))))) ∧
      (Church.numeral 2).Closed ∧ (Church.numeral 2).Normal ∧
      (Term.app successor (Church.numeral 1)).Reduces (Church.numeral 2) ∧
      ((Term.app successor (Church.numeral 1)).Convertible twice ↔
        (Church.numeral 2).AlphaEquiv
          (.lam "f" (.lam "f'" (.app (.var "f") (.app (.var "f") (.var "f'")))))) := by
  have leftRun : (Term.app successor (Church.numeral 1)).normalize 9 =
      .done (Church.numeral 2) := by
    decide +kernel
  have rightRun : twice.normalize 9 =
      .done (.lam "f" (.lam "f'" (.app (.var "f") (.app (.var "f") (.var "f'"))))) := by
    decide +kernel
  exact ⟨leftRun, rightRun, Term.normalize_decides_conversion leftRun rightRun⟩

end LambdaCalculi.Untyped
