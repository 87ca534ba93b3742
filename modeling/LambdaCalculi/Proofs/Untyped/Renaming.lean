import LambdaCalculi.Proofs.Freshness
import LambdaCalculi.Proofs.Lockstep
import LambdaCalculi.Proofs.Untyped.Nameless
import LambdaCalculi.Untyped.Normalize

/-!
# Evaluation and reading back do not see the names of variables

Two values correspond when they differ at most in the names of the variables that block
computations. Evaluation goes in lockstep on corresponding environments, and so does reading back
with different names to avoid: it picks new names on both sides, which then correspond, and ends
with terms of the same nameless form.
-/

set_option autoImplicit false

namespace LambdaCalculi.Untyped

open Outcome

abbrev Correspondence := Name → Name → Prop

def Correspondence.add (names : Correspondence) (y y' : Name) : Correspondence :=
  fun x x' => names x x' ∨ x = y ∧ x' = y'

mutual

/-- The values are the same but for their variables, which correspond as `names` has it. -/
inductive Value.Corresponds (names : Correspondence) : Value → Value → Prop where
  | closure {env env' : Env} (x : Name) (body : Term) :
      env.Corresponds names env' →
      Value.Corresponds names (.closure env x body) (.closure env' x body)
  | neutral {blocked blocked' : Neutral} :
      blocked.Corresponds names blocked' →
      Value.Corresponds names (.neutral blocked) (.neutral blocked')

inductive Neutral.Corresponds (names : Correspondence) : Neutral → Neutral → Prop where
  | var {x x' : Name} : names x x' → Neutral.Corresponds names (.var x) (.var x')
  | app {function function' : Neutral} {argument argument' : Value} :
      function.Corresponds names function' → argument.Corresponds names argument' →
      Neutral.Corresponds names (.app function argument) (.app function' argument')

inductive Env.Corresponds (names : Correspondence) : Env → Env → Prop where
  | nil : Env.Corresponds names .nil .nil
  | cons {value value' : Value} {outer outer' : Env} (x : Name) :
      value.Corresponds names value' → outer.Corresponds names outer' →
      Env.Corresponds names (.cons x value outer) (.cons x value' outer')

end

mutual

theorem Value.Corresponds.mono {names more : Correspondence}
    (larger : ∀ x x', names x x' → more x x') {value value' : Value} :
    value.Corresponds names value' → value.Corresponds more value'
  | .closure x body env => .closure x body (env.mono larger)
  | .neutral blocked => .neutral (blocked.mono larger)

theorem Neutral.Corresponds.mono {names more : Correspondence}
    (larger : ∀ x x', names x x' → more x x') {blocked blocked' : Neutral} :
    blocked.Corresponds names blocked' → blocked.Corresponds more blocked'
  | .var related => .var (larger _ _ related)
  | .app function argument => .app (function.mono larger) (argument.mono larger)

theorem Env.Corresponds.mono {names more : Correspondence}
    (larger : ∀ x x', names x x' → more x x') {env env' : Env} :
    env.Corresponds names env' → env.Corresponds more env'
  | .nil => .nil
  | .cons x value outer => .cons x (value.mono larger) (outer.mono larger)

end

/-! ## Evaluation -/

/-- Both look-ups find nothing, or they find corresponding values. -/
theorem Env.Corresponds.lookup {names : Correspondence} (x : Name) {env env' : Env}
    (correspond : env.Corresponds names env') :
    Alike Eq (Value.Corresponds names) (.ofOption (⟨x⟩ : UnboundVariable) (env.lookup? x))
      (.ofOption ⟨x⟩ (env'.lookup? x)) := by
  cases correspond with
  | nil => exact .failed rfl
  | cons y value outer =>
      by_cases here : y = x
      · simp only [Env.lookup?, if_pos here]
        exact .done value
      · simp only [Env.lookup?, if_neg here]
        exact outer.lookup x

structure EvaluatesAlike (fuel : Nat) : Prop where
  eval : ∀ {names : Correspondence} {env env' : Env} (term : Term), env.Corresponds names env' →
    Alike Eq (Value.Corresponds names) (env.eval fuel term) (env'.eval fuel term)
  apply : ∀ {names : Correspondence} {function function' argument argument' : Value},
    function.Corresponds names function' → argument.Corresponds names argument' →
    Alike Eq (Value.Corresponds names) (function.apply fuel argument)
      (function'.apply fuel argument')

theorem evaluatesAlike (fuel : Nat) : EvaluatesAlike fuel := by
  induction fuel with
  | zero =>
      refine ⟨?_, ?_⟩
      · intro names env env' term _
        rw [Env.eval, Env.eval]
        exact .exhausted
      · intro names function function' argument argument' _ _
        rw [Value.apply, Value.apply]
        exact .exhausted
  | succ fuel ih =>
      refine ⟨?_, ?_⟩
      · intro names env env' term corresponds
        cases term with
        | var x => exact corresponds.lookup x
        | lam x body => exact .done (.closure x body corresponds)
        | app function argument =>
            simp only [Env.eval]
            refine (ih.eval function corresponds).bind fun _ _ functionCorresponds => ?_
            refine (ih.eval argument corresponds).bind fun _ _ argumentCorresponds => ?_
            exact ih.apply functionCorresponds argumentCorresponds
      · intro names function function' argument argument' functionCorresponds argumentCorresponds
        cases functionCorresponds with
        | closure x body envCorresponds =>
            simp only [Value.apply]
            exact ih.eval body (.cons x argumentCorresponds envCorresponds)
        | neutral blockedCorresponds =>
            exact .done (.neutral (.app blockedCorresponds argumentCorresponds))

/-! ## Reading back -/

theorem Term.nameless_var_cons {x y : Name} (different : x ≠ y) (scope : List Name) :
    (Term.var x).nameless (y :: scope) = ((Term.var x).nameless scope).shift := by
  by_cases bound : x ∈ scope
  · simp [nameless, bound, List.idxOf_cons_ne scope (Ne.symm different), Nameless.shift,
      Nameless.rename]
  · simp [nameless, bound, different, Nameless.shift, Nameless.rename]

/-- The variables that correspond are in use, each on its side, and are the same without their
names: bound at the same place, or free and of one name. -/
structure Renames (names : Correspondence) (scope scope' used used' : List Name) : Prop where
  left : ∀ x x', names x x' → x ∈ used
  right : ∀ x x', names x x' → x' ∈ used'
  same : ∀ x x', names x x' → (Term.var x).nameless scope = (Term.var x').nameless scope'

theorem Value.Corresponds.add {names : Correspondence} {value value' : Value}
    (corresponds : value.Corresponds names value') (y y' : Name) :
    value.Corresponds (names.add y y') value' :=
  corresponds.mono fun _ _ older => .inl older

theorem Value.Corresponds.ofVar (names : Correspondence) (y y' : Name) :
    (Value.ofVar y).Corresponds (names.add y y') (Value.ofVar y') :=
  .neutral (.var (.inr ⟨rfl, rfl⟩))

theorem Renames.add {names : Correspondence} {scope scope' used used' : List Name}
    (renames : Renames names scope scope' used used') {y y' : Name} (new : y ∉ used)
    (new' : y' ∉ used') :
    Renames (names.add y y') (y :: scope) (y' :: scope') (y :: used) (y' :: used') where
  left := by
    rintro x x' (older | ⟨rfl, rfl⟩)
    · exact List.mem_cons_of_mem _ (renames.left x x' older)
    · exact List.mem_cons_self
  right := by
    rintro x x' (older | ⟨rfl, rfl⟩)
    · exact List.mem_cons_of_mem _ (renames.right x x' older)
    · exact List.mem_cons_self
  same := by
    rintro x x' (older | ⟨rfl, rfl⟩)
    · have different : x ≠ y := fun equal => new (equal ▸ renames.left x x' older)
      have different' : x' ≠ y' := fun equal => new' (equal ▸ renames.right x x' older)
      rw [Term.nameless_var_cons different, Term.nameless_var_cons different',
        renames.same x x' older]
    · simp [Term.nameless]

structure ReadsBackAlike (fuel : Nat) : Prop where
  value : ∀ {names : Correspondence} {scope scope' used used' : List Name} {value value' : Value},
    Renames names scope scope' used used' → value.Corresponds names value' →
    Alike Eq (fun normal normal' : Term => normal.nameless scope = normal'.nameless scope')
      (value.readBack fuel used) (value'.readBack fuel used')
  neutral : ∀ {names : Correspondence} {scope scope' used used' : List Name}
    {blocked blocked' : Neutral}, Renames names scope scope' used used' →
    blocked.Corresponds names blocked' →
    Alike Eq (fun normal normal' : Term => normal.nameless scope = normal'.nameless scope')
      (blocked.readBack fuel used) (blocked'.readBack fuel used')

theorem readsBackAlike (fuel : Nat) : ReadsBackAlike fuel := by
  induction fuel with
  | zero =>
      refine ⟨?_, ?_⟩
      · intro names scope scope' used used' value value' _ _
        rw [Value.readBack, Value.readBack]
        exact .exhausted
      · intro names scope scope' used used' blocked blocked' _ _
        rw [Neutral.readBack, Neutral.readBack]
        exact .exhausted
  | succ fuel ih =>
      refine ⟨?_, ?_⟩
      · intro names scope scope' used used' value value' renames corresponds
        cases corresponds with
        | closure x body envCorresponds =>
            simp only [Value.readBack]
            -- The sides may pick different names. Each is new on its side, so the pair can be added.
            have functionCorresponds := Value.Corresponds.closure x body envCorresponds
            refine ((evaluatesAlike fuel).apply (functionCorresponds.add _ _)
              (.ofVar names (Name.fresh used x) (Name.fresh used' x))).bind
              fun _ _ bodyCorresponds => ?_
            have extended := renames.add (Name.fresh_not_mem used x) (Name.fresh_not_mem used' x)
            refine (ih.value extended bodyCorresponds).bind fun _ _ bodySame => ?_
            exact .done (congrArg Nameless.lam bodySame)
        | neutral blockedCorresponds =>
            simp only [Value.readBack]
            exact ih.neutral renames blockedCorresponds
      · intro names scope scope' used used' blocked blocked' renames corresponds
        cases corresponds with
        | var related => exact .done (renames.same _ _ related)
        | app functionCorresponds argumentCorresponds =>
            simp only [Neutral.readBack]
            refine (ih.neutral renames functionCorresponds).bind fun _ _ functionSame => ?_
            refine (ih.value renames argumentCorresponds).bind fun _ _ argumentSame => ?_
            exact .done (congrArg₂ Nameless.app functionSame argumentSame)

end LambdaCalculi.Untyped
