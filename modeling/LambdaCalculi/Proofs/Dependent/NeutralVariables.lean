import LambdaCalculi.Dependent.Program
import LambdaCalculi.Proofs.Dependent.Invariants
import LambdaCalculi.Proofs.Dependent.Reading

/-!
# The neutral variables of values

A value holds variables only inside blocked computations, and also those are reached through
closures, whose environments are made of values. `Value.Within allowed` says that every variable
found in this way is an allowed one. Evaluation invents no variables, so it keeps the predicate, and
so does the search for a type. Reading back turns the variables of a value into free variables of
its normal form and binds those that it introduces on the way.
-/

set_option autoImplicit false

namespace LambdaCalculi.Dependent

/-- The free variables of a term; a name is listed once for every place where it is free. -/
def Term.free : Term → List Name
  | var x => [x]
  | pi x domain range => domain.free ++ range.free.filter (· != x)
  | lam x body => body.free.filter (· != x)
  | app function argument => function.free ++ argument.free
  | sigma x carType cdrType => carType.free ++ cdrType.free.filter (· != x)
  | cons first second => first.free ++ second.free
  | car pair => pair.free
  | cdr pair => pair.free
  | nat => []
  | zero => []
  | add1 predecessor => predecessor.free
  | indNat target motive base step => target.free ++ motive.free ++ base.free ++ step.free
  | equal type left right => type.free ++ left.free ++ right.free
  | same => []
  | replace target motive base => target.free ++ motive.free ++ base.free
  | trivial => []
  | sole => []
  | absurd => []
  | indAbsurd target motive => target.free ++ motive.free
  | atom => []
  | tick _ => []
  | univ => []
  | the type expr => type.free ++ expr.free

def Term.Closed (term : Term) : Prop :=
  term.free = []

def Term.Within (allowed : Name → Prop) (term : Term) : Prop :=
  ∀ x ∈ term.free, allowed x

mutual

def Value.Within (allowed : Name → Prop) : Value → Prop
  | .pi domain range => domain.Within allowed ∧ range.Within allowed
  | .lam body => body.Within allowed
  | .sigma carType cdrType => carType.Within allowed ∧ cdrType.Within allowed
  | .pair first second => first.Within allowed ∧ second.Within allowed
  | .nat => True
  | .zero => True
  | .add1 predecessor => predecessor.Within allowed
  | .equal type left right => type.Within allowed ∧ left.Within allowed ∧ right.Within allowed
  | .same => True
  | .trivial => True
  | .sole => True
  | .absurd => True
  | .atom => True
  | .tick _ => True
  | .univ => True
  | .neutral type blocked => type.Within allowed ∧ blocked.Within allowed

def Closure.Within (allowed : Name → Prop) : Closure → Prop
  | .mk env _ _ => env.Within allowed

def Neutral.Within (allowed : Name → Prop) : Neutral → Prop
  | .var x => allowed x
  | .app function argument => function.Within allowed ∧ argument.Within allowed
  | .car pair => pair.Within allowed
  | .cdr pair => pair.Within allowed
  | .indNat target motive base step =>
      target.Within allowed ∧ motive.Within allowed ∧ base.Within allowed ∧ step.Within allowed
  | .replace target motive base =>
      target.Within allowed ∧ motive.Within allowed ∧ base.Within allowed
  | .indAbsurd target motive => target.Within allowed ∧ motive.Within allowed

def Normal.Within (allowed : Name → Prop) : Normal → Prop
  | .mk type value => type.Within allowed ∧ value.Within allowed

def Env.Within (allowed : Name → Prop) : Env → Prop
  | .nil => True
  | .cons _ _ value outer => value.Within allowed ∧ outer.Within allowed

end

mutual

theorem Value.Within.mono {allowed allowed' : Name → Prop} (weaker : ∀ x, allowed x → allowed' x) :
    ∀ value : Value, value.Within allowed → value.Within allowed'
  | .pi domain range, inside =>
      ⟨Value.Within.mono weaker domain inside.1, Closure.Within.mono weaker range inside.2⟩
  | .lam body, inside => Closure.Within.mono weaker body inside
  | .sigma carType cdrType, inside =>
      ⟨Value.Within.mono weaker carType inside.1, Closure.Within.mono weaker cdrType inside.2⟩
  | .pair first second, inside =>
      ⟨Value.Within.mono weaker first inside.1, Value.Within.mono weaker second inside.2⟩
  | .nat, _ => True.intro
  | .zero, _ => True.intro
  | .add1 predecessor, inside => Value.Within.mono weaker predecessor inside
  | .equal type left right, inside =>
      ⟨Value.Within.mono weaker type inside.1, Value.Within.mono weaker left inside.2.1,
        Value.Within.mono weaker right inside.2.2⟩
  | .same, _ => True.intro
  | .trivial, _ => True.intro
  | .sole, _ => True.intro
  | .absurd, _ => True.intro
  | .atom, _ => True.intro
  | .tick _, _ => True.intro
  | .univ, _ => True.intro
  | .neutral type blocked, inside =>
      ⟨Value.Within.mono weaker type inside.1, Neutral.Within.mono weaker blocked inside.2⟩

theorem Closure.Within.mono {allowed allowed' : Name → Prop}
    (weaker : ∀ x, allowed x → allowed' x) :
    ∀ closure : Closure, closure.Within allowed → closure.Within allowed'
  | .mk env _ _, inside => Env.Within.mono weaker env inside

theorem Neutral.Within.mono {allowed allowed' : Name → Prop}
    (weaker : ∀ x, allowed x → allowed' x) :
    ∀ blocked : Neutral, blocked.Within allowed → blocked.Within allowed'
  | .var x, inside => weaker x inside
  | .app function argument, inside =>
      ⟨Neutral.Within.mono weaker function inside.1, Normal.Within.mono weaker argument inside.2⟩
  | .car pair, inside => Neutral.Within.mono weaker pair inside
  | .cdr pair, inside => Neutral.Within.mono weaker pair inside
  | .indNat target motive base step, inside =>
      ⟨Neutral.Within.mono weaker target inside.1, Normal.Within.mono weaker motive inside.2.1,
        Normal.Within.mono weaker base inside.2.2.1, Normal.Within.mono weaker step inside.2.2.2⟩
  | .replace target motive base, inside =>
      ⟨Neutral.Within.mono weaker target inside.1, Normal.Within.mono weaker motive inside.2.1,
        Normal.Within.mono weaker base inside.2.2⟩
  | .indAbsurd target motive, inside =>
      ⟨Neutral.Within.mono weaker target inside.1, Normal.Within.mono weaker motive inside.2⟩

theorem Normal.Within.mono {allowed allowed' : Name → Prop}
    (weaker : ∀ x, allowed x → allowed' x) :
    ∀ normal : Normal, normal.Within allowed → normal.Within allowed'
  | .mk type value, inside =>
      ⟨Value.Within.mono weaker type inside.1, Value.Within.mono weaker value inside.2⟩

theorem Env.Within.mono {allowed allowed' : Name → Prop} (weaker : ∀ x, allowed x → allowed' x) :
    ∀ env : Env, env.Within allowed → env.Within allowed'
  | .nil, _ => True.intro
  | .cons _ _ value outer, inside =>
      ⟨Value.Within.mono weaker value inside.1, Env.Within.mono weaker outer inside.2⟩

end

/-! ## Evaluation -/

theorem Env.Within.innermost? {allowed : Name → Prop} {x : Name} {value : Value} :
    ∀ env : Env, env.Within allowed → env.innermost? x = some value → value.Within allowed
  | .nil, _, found => by simp [Env.innermost?] at found
  | .cons _ y head outer, inside, found => by
      by_cases here : y = x
      · simp only [Env.innermost?, here, if_true, Option.some.injEq] at found
        exact found ▸ inside.1
      · simp only [Env.innermost?, here, if_false] at found
        exact Env.Within.innermost? outer inside.2 found

theorem Env.Within.lookup? {allowed : Name → Prop} {env : Env} {x : Name} {value : Value}
    (inside : env.Within allowed) (found : env.lookup? x = some value) : value.Within allowed := by
  unfold Env.lookup? at found
  split at found
  · cases found
  · exact inside.innermost? env found

theorem Value.within_iff_congruent {allowed : Name → Prop} {value : Value} : value.Within allowed ↔
    Value.Congruent (fun part _ => part.Within allowed) (fun part _ => part.Within allowed)
      (fun part _ => part.Within allowed) value value := by
  constructor
  · intro inside
    cases value <;> simp only [Value.Within] at inside <;> constructor <;> simp only [inside]
  · intro built
    cases built <;> simp only [Value.Within, *, and_self]

theorem Neutral.within_iff_congruent {allowed : Name → Prop} {blocked : Neutral} :
    blocked.Within allowed ↔ Neutral.Congruent (fun part _ => part.Within allowed)
      (fun part _ => part.Within allowed) (fun x _ => allowed x) blocked blocked := by
  have normal {normal : Normal} : normal.Within allowed ↔
      Normal.Congruent (fun part _ => part.Within allowed) normal normal := by
    cases normal with
    | mk type value => exact ⟨fun inside => .mk inside.1 inside.2, fun ⟨type, value⟩ => ⟨type, value⟩⟩
  constructor
  · intro inside
    cases blocked <;> simp only [Neutral.Within, normal] at inside <;> constructor <;>
      simp only [inside]
  · intro built
    cases built <;> simp only [Neutral.Within, and_self, *]

def Invariant.within (allowed : Name → Prop) : Invariant Comparison.values where
  values _ value := value.Within allowed
  closures _ closure := closure.Within allowed
  neutrals _ blocked := blocked.Within allowed
  names := allowed
  scopes _ env _ := env.Within allowed
  values_iff := Value.within_iff_congruent
  neutrals_iff := Neutral.within_iff_congruent
  values_mono _ := id
  closures_mono _ := id
  neutrals_mono _ := id
  scopes_mono _ := id
  motives _ _ := True.intro
  natStepType inside := ⟨True.intro, inside, True.intro⟩
  parts {_ _ term} inside := by
    cases term <;> constructor <;> trivial
  lookup {_ _ env x} inside := by
    change Outcome.Safe _ _ (env.eval (_ + 1) (.var x))
    rw [Env.eval]
    split
    · rename_i found
      exact ⟨_, rfl, inside.lookup? found⟩
    · trivial
  extend closureInside argumentInside := ⟨_, rfl, argumentInside, closureInside⟩

section

variable {allowed : Name → Prop} {fuel : Nat} {value : Value}

theorem Comparison.values_within {outcome : Outcome Stuck Value} {second : Nat → Outcome Stuck Value}
    (ends : Comparison.values.Ends (Invariant.within allowed).correspondence.values fuel () outcome
      second) (finished : outcome = .done value) : value.Within allowed := by
  obtain ⟨_, _, inside⟩ := Outcome.Safe.of_done ends finished
  exact inside

theorem Value.Within.car {pair : Value} (inside : pair.Within allowed)
    (run : (pair.car : Outcome Stuck Value) = .done value) : value.Within allowed := by
  have ends : Comparison.values.Ends (Invariant.within allowed).correspondence.values 0 () pair.car
      fun _ => pair.car := (Invariant.within allowed).correspondence.car ⟨rfl, inside⟩
  exact Comparison.values_within ends run

structure EvaluatesWithin (allowed : Name → Prop) (fuel : Nat) : Prop where
  eval {env : Env} {term : Term} {value : Value} : env.Within allowed →
    (env.eval fuel term : Outcome Stuck Value) = .done value → value.Within allowed
  instantiate {closure : Closure} {argument value : Value} : closure.Within allowed →
    argument.Within allowed →
    (closure.instantiate fuel argument : Outcome Stuck Value) = .done value → value.Within allowed
  apply {function argument value : Value} : function.Within allowed → argument.Within allowed →
    (function.apply fuel argument : Outcome Stuck Value) = .done value → value.Within allowed
  cdr {pair value : Value} : pair.Within allowed →
    (pair.cdr fuel : Outcome Stuck Value) = .done value → value.Within allowed

theorem evaluatesWithin (allowed : Name → Prop) (fuel : Nat) : EvaluatesWithin allowed fuel := by
  have evaluates := (Invariant.within allowed).correspondence.evaluates fuel
  refine ⟨fun inside => ?_, fun inside argumentInside => ?_, fun inside argumentInside => ?_,
    fun inside => ?_⟩
  · exact Comparison.values_within (evaluates.eval ⟨rfl, rfl, inside⟩)
  · exact Comparison.values_within (evaluates.instantiate ⟨rfl, inside⟩ ⟨rfl, argumentInside⟩)
  · exact Comparison.values_within (evaluates.apply ⟨rfl, inside⟩ ⟨rfl, argumentInside⟩)
  · exact Comparison.values_within (evaluates.cdr ⟨rfl, inside⟩)

end

/-! ## Reading back -/

def below (x : Name) (allowed : Name → Prop) (y : Name) : Prop :=
  allowed y ∨ y = x

theorem Value.Within.below {allowed : Name → Prop} {value : Value} (x : Name)
    (inside : value.Within allowed) : value.Within (below x allowed) :=
  inside.mono (fun _ => Or.inl) value

theorem Closure.Within.below {allowed : Name → Prop} {closure : Closure} (x : Name)
    (inside : closure.Within allowed) : closure.Within (below x allowed) :=
  inside.mono (fun _ => Or.inl) closure

namespace Term

variable {allowed : Name → Prop}

theorem within_append_iff {xs ys : List Name} :
    (∀ x ∈ xs ++ ys, allowed x) ↔ (∀ x ∈ xs, allowed x) ∧ ∀ x ∈ ys, allowed x := by
  simp only [List.mem_append, or_imp, forall_and]

/-- A binder takes its variable away from those that are free. -/
theorem within_filter {x : Name} {body : Term} (inside : body.Within (below x allowed)) :
    ∀ y ∈ body.free.filter (· != x), allowed y := by
  intro y member
  obtain ⟨inBody, different⟩ := List.mem_filter.mp member
  rcases inside y inBody with old | same
  · exact old
  · simp [same] at different

end Term

def Reading.within : Reading Comparison.values where
  Scope := Name → Prop
  relation allowed := (Invariant.within allowed).correspondence
  contexts _ _ ctx ctx' := ctx = ctx'
  terms allowed term _ := term.Within allowed
  New _ := Eq
  below allowed x _ := Dependent.below x allowed
  contexts_mono _ := id
  new := by
    rintro _ _ ctx _ range _ rfl ⟨rfl, _⟩
    rfl
  values_below := by
    rintro _ x _ rfl _ value _ ⟨rfl, inside⟩
    exact ⟨rfl, inside.below x⟩
  closures_below := by
    rintro _ x _ rfl _ closure _ ⟨rfl, inside⟩
    exact ⟨rfl, inside.below x⟩
  names_below same := ⟨same, .inr rfl⟩
  assume := by
    rintro _ x _ rfl _ _ ctx _ type _ rfl _
    exact ⟨_, rfl⟩
  term := by
    intro allowed term term' built
    cases built with
    | var replaced =>
        obtain ⟨_, _, _, inside⟩ := replaced
        exact List.forall_mem_singleton.mpr inside
    | lam bodies => exact Term.within_filter bodies.2
    | pi domains ranges =>
        exact Term.within_append_iff.mpr ⟨domains, Term.within_filter ranges.2⟩
    | sigma carTypes cdrTypes =>
        exact Term.within_append_iff.mpr ⟨carTypes, Term.within_filter cdrTypes.2⟩
    | _ => simp_all [Term.Within, Term.free, or_imp]

structure ReadsBackWithin (fuel : Nat) : Prop where
  readBack {allowed : Name → Prop} {ctx : Context} {type value : Value} {term : Term} :
    type.Within allowed → value.Within allowed →
    (ctx.readBack fuel type value : Outcome Stuck Term) = .done term → term.Within allowed
  readBackType {allowed : Name → Prop} {ctx : Context} {type : Value} {term : Term} :
    type.Within allowed →
    (ctx.readBackType fuel type : Outcome Stuck Term) = .done term → term.Within allowed

theorem readsBackWithin (fuel : Nat) : ReadsBackWithin fuel := by
  have reads := Reading.within.readsBack fuel
  have inside {allowed : Name → Prop} {term : Term} {outcome : Outcome Stuck Term}
      {second : Nat → Outcome Stuck Term}
      (ends : Comparison.values.Ends (fun _ => Reading.within.terms allowed) fuel () outcome second)
      (finished : outcome = .done term) : term.Within allowed := by
    obtain ⟨_, inside⟩ := Outcome.Safe.of_done ends finished
    exact inside
  refine ⟨fun typeInside valueInside => ?_, fun typeInside => ?_⟩
  · exact inside (reads.readBack rfl ⟨rfl, typeInside⟩ ⟨rfl, valueInside⟩)
  · exact inside (reads.readBackType rfl ⟨rfl, typeInside⟩)

end LambdaCalculi.Dependent
