import LambdaCalculi.Proofs.Dependent.Deciding

/-!
# Invariants of values

An `Invariant` is a correspondence of data with itself: a predicate on values that holds of a value
when it holds of the parts, together with the terms and environments that may be evaluated. What an
invariant is asked for is how a name is looked up and how an environment is extended; for reading back
and type checking, also how a context is extended.
-/

set_option autoImplicit false

namespace LambdaCalculi.Dependent

/-! ## Built like itself -/

section

variable {values : Value → Prop} {closures : Closure → Prop} {neutrals : Neutral → Prop}
  {names : Name → Prop}

theorem Value.eq_and_congruent_iff {value value' : Value} :
    value = value' ∧ Value.Congruent (fun part _ => values part) (fun part _ => closures part)
        (fun part _ => neutrals part) value value ↔
      Value.Congruent (fun part part' => part = part' ∧ values part)
        (fun part part' => part = part' ∧ closures part)
        (fun part part' => part = part' ∧ neutrals part) value value' := by
  constructor
  · rintro ⟨rfl, built⟩
    cases built <;> constructor <;> exact ⟨rfl, ‹_›⟩
  · intro built
    cases built <;> refine ⟨by simp_all, ?_⟩ <;> constructor <;> exact And.right ‹_ ∧ _›

theorem Normal.congruent_diagonal {normal : Normal}
    (built : normal.Congruent (fun part _ => values part) normal) :
    normal.Congruent (fun part part' => part = part' ∧ values part) normal := by
  obtain ⟨types, members⟩ := built
  exact .mk ⟨rfl, types⟩ ⟨rfl, members⟩

theorem Normal.Congruent.of_diagonal {normal normal' : Normal}
    (built : normal.Congruent (fun part part' => part = part' ∧ values part) normal') :
    normal = normal' ∧ normal.Congruent (fun part _ => values part) normal := by
  obtain ⟨⟨rfl, types⟩, rfl, members⟩ := built
  exact ⟨rfl, .mk types members⟩

theorem Neutral.eq_and_congruent_iff {blocked blocked' : Neutral} :
    blocked = blocked' ∧ Neutral.Congruent (fun part _ => values part) (fun part _ => neutrals part)
        (fun x _ => names x) blocked blocked ↔
      Neutral.Congruent (fun part part' => part = part' ∧ values part)
        (fun part part' => part = part' ∧ neutrals part) (fun x x' => x = x' ∧ names x)
        blocked blocked' := by
  constructor
  · rintro ⟨rfl, built⟩
    cases built <;> constructor <;> first
      | exact ⟨rfl, ‹_›⟩
      | exact Normal.congruent_diagonal ‹_›
  · intro built
    cases built with
    | var same => exact ⟨by rw [same.1], .var same.2⟩
    | car pairs | cdr pairs => exact ⟨by rw [pairs.1], by constructor; exact pairs.2⟩
    | app functions arguments =>
        obtain ⟨rfl, argument⟩ := arguments.of_diagonal
        exact ⟨by rw [functions.1], .app functions.2 argument⟩
    | indNat targets motives bases steps =>
        obtain ⟨rfl, motive⟩ := motives.of_diagonal
        obtain ⟨rfl, base⟩ := bases.of_diagonal
        obtain ⟨rfl, step⟩ := steps.of_diagonal
        exact ⟨by rw [targets.1], .indNat targets.2 motive base step⟩
    | replace targets motives bases =>
        obtain ⟨rfl, motive⟩ := motives.of_diagonal
        obtain ⟨rfl, base⟩ := bases.of_diagonal
        exact ⟨by rw [targets.1], .replace targets.2 motive base⟩
    | indAbsurd targets motives =>
        obtain ⟨rfl, motive⟩ := motives.of_diagonal
        exact ⟨by rw [targets.1], .indAbsurd targets.2 motive⟩

end

/-! ## Invariants -/

variable {World : Type} [Preorder World] {m : Type → Type} [Monad m] [Scoping m]

/-- Predicates on data that evaluation has to preserve. -/
structure Invariant (comparison : Comparison World m m) where
  values : World → Value → Prop
  closures : World → Closure → Prop
  neutrals : World → Neutral → Prop
  names : Name → Prop
  /-- The term may be evaluated in the environment. -/
  scopes : World → Env → Term → Prop
  values_iff {world : World} {value : Value} : values world value ↔
    Value.Congruent (fun part _ => values world part) (fun part _ => closures world part)
      (fun part _ => neutrals world part) value value
  neutrals_iff {world : World} {blocked : Neutral} : neutrals world blocked ↔
    Neutral.Congruent (fun part _ => values world part) (fun part _ => neutrals world part)
      (fun x _ => names x) blocked blocked
  values_mono {world later : World} (le : world ≤ later) {value : Value} :
    values world value → values later value
  closures_mono {world later : World} (le : world ≤ later) {closure : Closure} :
    closures world closure → closures later closure
  neutrals_mono {world later : World} (le : world ≤ later) {blocked : Neutral} :
    neutrals world blocked → neutrals later blocked
  scopes_mono {world later : World} (le : world ≤ later) {env : Env} {term : Term} :
    scopes world env term → scopes later env term
  motives {world : World} (x : Name) : x = "k" ∨ x = "x" → closures world (.mk .nil x .univ)
  natStepType {world : World} {motive : Value} : values world motive →
    values world (Value.natStepType motive)
  parts {world : World} {env : Env} {term : Term} : scopes world env term →
    Term.Congruent (fun _ _ => True) (fun part _ => scopes world env part)
      (fun x body _ _ => closures world (.mk env x body)) term term
  lookup {fuel : Nat} {world : World} {env : Env} {x : Name} : scopes world env (.var x) →
    comparison.Ends (fun later value value' => value = value' ∧ values later value) (fuel + 1) world
      (env.eval (fuel + 1) (.var x)) fun bound => env.eval bound (.var x)
  extend {fuel : Nat} {world : World} {env : Env} {x : Name} {body : Term} {argument : Value} :
    closures world (.mk env x body) → values world argument →
    comparison.Ends (fun later inner inner' => inner = inner' ∧ scopes later inner body) fuel world
      (Scoping.extend env x argument) fun _ => Scoping.extend env x argument

namespace Invariant

variable {comparison : Comparison World m m}

def correspondence (invariant : Invariant comparison) : Correspondence comparison where
  values world value value' := value = value' ∧ invariant.values world value
  closures world closure closure' := closure = closure' ∧ invariant.closures world closure
  neutrals world blocked blocked' := blocked = blocked' ∧ invariant.neutrals world blocked
  names x x' := x = x' ∧ invariant.names x
  scopes world env term env' term' := env = env' ∧ term = term' ∧ invariant.scopes world env term
  values_iff := (and_congr_right' invariant.values_iff).trans Value.eq_and_congruent_iff
  neutrals_iff := (and_congr_right' invariant.neutrals_iff).trans Neutral.eq_and_congruent_iff
  values_mono le := And.imp_right (invariant.values_mono le)
  closures_mono le := And.imp_right (invariant.closures_mono le)
  neutrals_mono le := And.imp_right (invariant.neutrals_mono le)
  scopes_mono le := And.imp_right (And.imp_right (invariant.scopes_mono le))
  motives x named := ⟨rfl, invariant.motives x named⟩
  natStepType := by
    rintro _ motive _ ⟨rfl, inside⟩
    exact ⟨rfl, invariant.natStepType inside⟩
  parts := by
    rintro _ env _ term _ ⟨rfl, rfl, inside⟩
    cases invariant.parts inside <;> constructor <;> simp_all
  lookup := by
    rintro _ _ env _ x _ ⟨rfl, rfl, inside⟩
    exact invariant.lookup inside
  extend := by
    rintro _ _ env _ x _ body _ argument _ ⟨same, closureInside⟩ ⟨rfl, argumentInside⟩
    cases same
    exact comparison.mono (invariant.extend closureInside argumentInside)
      fun _ ⟨same, inside⟩ => ⟨same, rfl, inside⟩

structure OfContexts (invariant : Invariant comparison) where
  contexts : World → Context → Prop
  contexts_mono {world later : World} (le : world ≤ later) {ctx : Context} :
    contexts world ctx → contexts later ctx
  names (x : Name) : invariant.names x
  assume {fuel : Nat} {world : World} {ctx : Context} {x : Name} {type : Value} :
    contexts world ctx → invariant.values world type →
    comparison.Ends (fun later inner inner' => inner = inner' ∧ contexts later inner) fuel world
      (ctx.assume x type) fun _ => ctx.assume x type

namespace OfContexts

variable {invariant : Invariant comparison} (inside : invariant.OfContexts)

def reading : Reading comparison where
  Scope := Unit
  relation _ := invariant.correspondence
  contexts _ world ctx ctx' := ctx = ctx' ∧ inside.contexts world ctx
  terms _ := Eq
  New _ := Eq
  below _ _ _ := ()
  contexts_mono le := And.imp_right (inside.contexts_mono le)
  new := by
    rintro _ _ ctx _ range _ ⟨rfl, _⟩ ⟨rfl, _⟩
    rfl
  values_below _ _ _ := id
  closures_below _ _ _ := id
  names_below same := ⟨same, inside.names _⟩
  assume := by
    rintro _ x _ rfl _ _ ctx _ type _ ⟨rfl, contextInside⟩ ⟨rfl, typeInside⟩
    exact inside.assume contextInside typeInside
  term built := by
    refine built.eq fun x _ replaced => ?_
    obtain ⟨_, rfl, rfl, _⟩ := replaced
    rfl

variable {n : Type → Type} [Monad n] [Judging m n] {verdicts : Verdicts inside.reading n n}

def deciding (events : ∀ event, verdicts.events event event)
    (errors : ∀ error, verdicts.errors error error)
    (scopes : ∀ {world ctx term}, inside.contexts world ctx → invariant.scopes world ctx.env term)
    (types : ∀ {world ctx x type}, inside.contexts world ctx → ctx.type? x = some type →
      invariant.values world type) :
    Deciding verdicts where
  judged _ world ctx term ctx' term' := (ctx = ctx' ∧ inside.contexts world ctx) ∧ term = term'
  bodies _ world ctx x body ctx' x' body' :=
    (ctx = ctx' ∧ inside.contexts world ctx) ∧ x = x' ∧ body = body'
  judged_mono le := And.imp_left (And.imp_right (inside.contexts_mono le))
  bodies_mono le := And.imp_left (And.imp_right (inside.contexts_mono le))
  contexts related := related.1
  scopes := by
    rintro _ _ ctx _ term _ ⟨⟨rfl, contextInside⟩, rfl⟩
    exact ⟨rfl, rfl, scopes contextInside⟩
  parts := by
    rintro _ _ ctx _ term _ ⟨⟨rfl, contextInside⟩, rfl⟩
    cases term <;> constructor <;> trivial
  new := by
    rintro _ _ ctx _ x _ _ _ ⟨⟨rfl, _⟩, rfl, rfl⟩
    rfl
  assume := by
    rintro _ _ _ ctx _ x _ body _ type _ ⟨⟨rfl, contextInside⟩, rfl, rfl⟩ ⟨rfl, typeInside⟩
    exact comparison.mono (inside.assume contextInside typeInside) fun _ same => ⟨same, rfl⟩
  visits := by
    rintro _ _ _ _ term _ ⟨_, rfl⟩
    exact ⟨events _, events _, errors _⟩
  lookup := by
    rintro _ _ _ ctx _ x _ ⟨⟨rfl, contextInside⟩, rfl⟩
    refine verdicts.synth_var (events _) fun le => ?_
    unfold Context.lookupType
    cases found : ctx.type? x with
    | none => exact verdicts.reject (errors _)
    | some type => exact verdicts.done ⟨rfl, invariant.values_mono le (types contextInside found)⟩
  compare := by
    rintro _ _ _ ctx _ x _ _ _ ⟨⟨rfl, _⟩, rfl⟩ compared
    exact verdicts.check_var compared

end OfContexts

end Invariant

end LambdaCalculi.Dependent
