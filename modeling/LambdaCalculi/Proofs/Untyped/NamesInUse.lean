import LambdaCalculi.Proofs.Behaviour
import LambdaCalculi.Proofs.Untyped.Bounds
import LambdaCalculi.Proofs.Untyped.Renaming
import LambdaCalculi.Proofs.Untyped.StableNormalForms

/-!
# The names in use matter for the binders only

Any value may be read back, also one that no evaluation gives. As long as the variables on which its
computations are blocked are in use, the choice of the names in use changes nothing but the spelling
of the binders: whether reading back ends, at which variable it stops and which term it gives, up to
alpha-equivalence, are settled by the value.
-/

set_option autoImplicit false

namespace LambdaCalculi.Untyped

open Outcome

mutual

/-- The variables on which computations in the value are blocked, also in the environments that its
closures captured. -/
def Value.blockers : Value → List Name
  | .closure env _ _ => env.blockers
  | .neutral blocked => blocked.blockers

def Neutral.blockers : Neutral → List Name
  | .var x => [x]
  | .app function argument => function.blockers ++ argument.blockers

def Env.blockers : Env → List Name
  | .nil => []
  | .cons _ value outer => value.blockers ++ outer.blockers

end

/-! ## A value and itself -/

mutual

theorem Value.corresponds_self {names : Correspondence} : (value : Value) →
    (∀ x ∈ value.blockers, names x x) → value.Corresponds names value
  | .closure env x body, same => .closure x body (Env.corresponds_self env same)
  | .neutral blocked, same => .neutral (Neutral.corresponds_self blocked same)

theorem Neutral.corresponds_self {names : Correspondence} : (blocked : Neutral) →
    (∀ x ∈ blocked.blockers, names x x) → blocked.Corresponds names blocked
  | .var x, same => .var (same x (List.mem_singleton_self x))
  | .app function argument, same =>
      .app (Neutral.corresponds_self function fun x mem => same x (List.mem_append_left _ mem))
        (Value.corresponds_self argument fun x mem => same x (List.mem_append_right _ mem))

theorem Env.corresponds_self {names : Correspondence} : (env : Env) →
    (∀ x ∈ env.blockers, names x x) → env.Corresponds names env
  | .nil, _ => .nil
  | .cons y value outer, same =>
      .cons y (Value.corresponds_self value fun x mem => same x (List.mem_append_left _ mem))
        (Env.corresponds_self outer fun x mem => same x (List.mem_append_right _ mem))

end

theorem Value.readBack_alike {value : Value} {used used' : List Name}
    (known : value.blockers ⊆ used) (known' : value.blockers ⊆ used') (fuel : Nat) :
    Alike Eq Term.AlphaEquiv (value.readBack fuel used) (value.readBack fuel used') := by
  let unchanged : Correspondence := fun x x' => x = x' ∧ x ∈ value.blockers
  have renames : Renames unchanged [] [] used used' := by
    refine ⟨?_, ?_, ?_⟩
    · rintro x _ ⟨rfl, mem⟩
      exact known mem
    · rintro x _ ⟨rfl, mem⟩
      exact known' mem
    · rintro x _ ⟨rfl, _⟩
      rfl
  have corresponds : value.Corresponds unchanged value :=
    value.corresponds_self fun x mem => ⟨rfl, mem⟩
  exact (readsBackAlike fuel).value renames corresponds

/-! ## Free variables -/

mutual

/-- With its blockers in scope, every value stands for a term. -/
theorem Value.exists_standsFor {scope : List Name} : (value : Value) → value.blockers ⊆ scope →
    ∃ term, value.StandsFor scope term
  | .closure env x body, known => by
      obtain ⟨substitution, standsFor⟩ := Env.exists_standsFor env known
      exact ⟨_, .closure x body standsFor⟩
  | .neutral blocked, known => by
      obtain ⟨term, standsFor⟩ := Neutral.exists_standsFor blocked known
      exact ⟨term, .neutral standsFor⟩

theorem Neutral.exists_standsFor {scope : List Name} : (blocked : Neutral) →
    blocked.blockers ⊆ scope → ∃ term, blocked.StandsFor scope term
  | .var x, known => ⟨_, .var (known (List.mem_singleton_self x))⟩
  | .app function argument, known => by
      obtain ⟨functionKnown, argumentKnown⟩ := List.append_subset.mp known
      obtain ⟨functionTerm, functionStandsFor⟩ := Neutral.exists_standsFor function functionKnown
      obtain ⟨argumentTerm, argumentStandsFor⟩ := Value.exists_standsFor argument argumentKnown
      exact ⟨_, .app functionStandsFor argumentStandsFor⟩

theorem Env.exists_standsFor {scope : List Name} : (env : Env) → env.blockers ⊆ scope →
    ∃ substitution, env.StandsFor scope substitution
  | .nil, _ => ⟨Nameless.bound, .nil _⟩
  | .cons x value outer, known => by
      obtain ⟨valueKnown, outerKnown⟩ := List.append_subset.mp known
      obtain ⟨term, valueStandsFor⟩ := Value.exists_standsFor value valueKnown
      obtain ⟨substitution, outerStandsFor⟩ := Env.exists_standsFor outer outerKnown
      exact ⟨_, .cons x valueStandsFor outerStandsFor⟩

end

structure Value.ReadAvoiding (value : Value) (used : List Name) (normal : Term) : Prop where
  free : normal.free ⊆ value.blockers
  binders : normal.BindersAvoid used

theorem Value.readAvoiding_of_readBack {value : Value} {used : List Name} {fuel : Nat}
    {normal : Term} (known : value.blockers ⊆ used)
    (read : value.readBack fuel used = .done normal) : value.ReadAvoiding used normal where
  free := by
    obtain ⟨term, standsFor⟩ := value.exists_standsFor (List.Subset.refl value.blockers)
    exact ((readsBack fuel).value standsFor known read).inScope
  binders := ((readBackAvoids fuel).value used value).of_done read

/-- With two lists of names in use that both have the blockers of the value, reading back diverges
twice, or stops at the same unbound variable twice, or gives alpha-equivalent terms. The free variables
of the terms are blockers of the value, and no binder of either is in use. -/
theorem Value.readBack_behaves_alike {value : Value} {used used' : List Name}
    (known : value.blockers ⊆ used) (known' : value.blockers ⊆ used') :
    BehaveAlike
      (fun normal normal' => normal.AlphaEquiv normal' ∧ value.ReadAvoiding used normal ∧
        value.ReadAvoiding used' normal')
      (fun fuel => value.readBack fuel used) (fun fuel => value.readBack fuel used') := by
  refine .of_lockstep (fun fuel => (readBackBelow fuel).value used value)
    (fun fuel => (readBackBelow fuel).value used' value) fun fuel => ?_
  exact (readBack_alike known known' fuel).and
    (fun _ read => readAvoiding_of_readBack known read)
    fun _ read => readAvoiding_of_readBack known' read

/-- A function that applies the variable it captured to the constant function of its argument. The
binder of the argument has the name of the variable, and the other one the name that captured it. -/
def capturedCall : Value :=
  .closure (.cons "y" (.ofVar "x") .nil) "x" (.app (.var "y") (.lam "y" (.var "x")))

/-- The captured variable keeps its name, and the binders are primed as the names in use need it. -/
theorem capturedCall_behaves_alike :
    capturedCall.blockers ⊆ ["x"] ∧ capturedCall.blockers ⊆ ["y", "x'", "x"] ∧
      capturedCall.readBack 9 ["x"] =
        .done (.lam "x'" (.app (.var "x") (.lam "y" (.var "x'")))) ∧
      capturedCall.readBack 9 ["y", "x'", "x"] =
        .done (.lam "x''" (.app (.var "x") (.lam "y'" (.var "x''")))) ∧
      BehaveAlike
        (fun normal normal' => normal.AlphaEquiv normal' ∧ capturedCall.ReadAvoiding ["x"] normal ∧
          capturedCall.ReadAvoiding ["y", "x'", "x"] normal')
        (fun fuel => capturedCall.readBack fuel ["x"])
        (fun fuel => capturedCall.readBack fuel ["y", "x'", "x"]) := by
  have known : capturedCall.blockers ⊆ ["x"] := by
    decide +kernel
  have known' : capturedCall.blockers ⊆ ["y", "x'", "x"] := by
    decide +kernel
  exact ⟨known, known', by decide +kernel, by decide +kernel,
    Value.readBack_behaves_alike known known'⟩

end LambdaCalculi.Untyped
