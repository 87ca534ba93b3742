import LambdaCalculi.Proofs.Dependent.EvaluationSafety
import LambdaCalculi.Proofs.Dependent.Fingerprints
import LambdaCalculi.Proofs.Dependent.NeutralVariables

/-!
# Evaluation in scope finds every variable

Evaluation looks up the variables of a term in the environment at hand, and those of the body of a
closure in the environment that was captured. A value is in scope when every closure in it captured an
environment in scope that binds the free variables of its body, the binder apart, and no name of the
two hides another. Values in scope are made of values in scope, whether or not they were type checked,
so neither evaluation nor reading back is ever stuck at a variable without a value.
-/

set_option autoImplicit false

namespace LambdaCalculi.Dependent

open Outcome

/-- The names include the free variables of the term, and none of them hides another or a name of the
term. -/
structure Term.InScope (names : List Name) (term : Term) : Prop where
  bound : term.free ⊆ names
  clear : DistinctFingerprints (names ++ term.names)

namespace Term.InScope

variable {names : List Name} {term sub : Term}

theorem part (inScope : term.InScope names)
    (free : ∀ x ∈ sub.free, x ∈ term.free := by simp +contextual [Term.free])
    (included : ∀ x ∈ sub.names, x ∈ term.names := by simp +contextual [Term.names]) :
    sub.InScope names where
  bound x mem := inScope.bound (free x mem)
  clear := inScope.clear.mono (List.append_subset.mpr
    ⟨List.subset_append_left _ _, List.subset_append_of_subset_right _ included⟩)

/-- The body of a binder may use the variable that it binds. -/
theorem body {x : Name} (inScope : term.InScope names)
    (free : ∀ y ∈ sub.free, y ≠ x → y ∈ term.free := by simp +contextual [Term.free])
    (included : ∀ y ∈ x :: sub.names, y ∈ term.names := by simp +contextual [Term.names]) :
    sub.InScope (x :: names) where
  bound y mem := by
    by_cases same : y = x
    · exact same ▸ List.mem_cons_self
    · exact List.mem_cons_of_mem x (inScope.bound (free y mem same))
  clear := by
    refine inScope.clear.mono fun y mem => List.mem_append.mpr ?_
    rcases List.mem_append.mp mem with bound | used
    · rcases List.mem_cons.mp bound with rfl | older
      · exact .inr (included y List.mem_cons_self)
      · exact .inl older
    · exact .inr (included y (List.mem_cons_of_mem x used))

end Term.InScope

mutual

/-- Every closure in the value captured what its body needs. -/
def Value.InScope : Value → Prop
  | .pi domain range => domain.InScope ∧ range.InScope
  | .lam body => body.InScope
  | .sigma carType cdrType => carType.InScope ∧ cdrType.InScope
  | .pair first second => first.InScope ∧ second.InScope
  | .add1 predecessor => predecessor.InScope
  | .equal type left right => type.InScope ∧ left.InScope ∧ right.InScope
  | .neutral type blocked => type.InScope ∧ blocked.InScope
  | .nat | .zero | .same | .trivial | .sole | .absurd | .atom | .tick _ | .univ => True

def Closure.InScope : Closure → Prop
  | .mk env x body => env.InScope ∧ body.InScope (x :: env.names)

def Neutral.InScope : Neutral → Prop
  | .var _ => True
  | .app function argument => function.InScope ∧ argument.InScope
  | .car pair => pair.InScope
  | .cdr pair => pair.InScope
  | .indNat target motive base step =>
      target.InScope ∧ motive.InScope ∧ base.InScope ∧ step.InScope
  | .replace target motive base => target.InScope ∧ motive.InScope ∧ base.InScope
  | .indAbsurd target motive => target.InScope ∧ motive.InScope

def Normal.InScope : Normal → Prop
  | .mk type value => type.InScope ∧ value.InScope

def Env.InScope : Env → Prop
  | .nil => True
  | .cons _ _ value outer => value.InScope ∧ outer.InScope

end

/-! ## Evaluation -/

abbrev Evaluated : Outcome Stuck Value → Prop :=
  Safe Stuck.NotUnbound Value.InScope

theorem Env.InScope.innermost? {x : Name} : ∀ env : Env, env.InScope → x ∈ env.names →
    ∃ value, env.innermost? x = some value ∧ value.InScope
  | .nil, _, mem => by cases mem
  | .cons _ y value outer, inScope, mem => by
      rw [Env.innermost?]
      by_cases here : y = x
      · exact ⟨value, if_pos here, inScope.1⟩
      · have older := (List.mem_cons.mp mem).resolve_left (Ne.symm here)
        obtain ⟨found, lookup, foundInScope⟩ := Env.InScope.innermost? outer inScope.2 older
        exact ⟨found, by rw [if_neg here, lookup], foundInScope⟩

theorem Env.InScope.lookup? {env : Env} {x : Name} (inScope : env.InScope)
    (variableInScope : (Term.var x).InScope env.names) :
    ∃ value, env.lookup? x = some value ∧ value.InScope := by
  have clear : env.Clear (.var x) := variableInScope.clear
  rw [clear.lookup?]
  exact inScope.innermost? env (variableInScope.bound (List.mem_singleton_self x))

theorem Value.inScope_iff_congruent {value : Value} : value.InScope ↔
    Value.Congruent (fun part _ => part.InScope) (fun part _ => part.InScope)
      (fun part _ => part.InScope) value value := by
  constructor
  · intro inScope
    cases value <;> simp only [Value.InScope] at inScope <;> constructor <;> simp only [inScope]
  · intro built
    cases built <;> simp only [Value.InScope, *, and_self]

theorem Neutral.inScope_iff_congruent {blocked : Neutral} : blocked.InScope ↔
    Neutral.Congruent (fun part _ => part.InScope) (fun part _ => part.InScope) (fun _ _ => True)
      blocked blocked := by
  have normal {normal : Normal} : normal.InScope ↔
      Normal.Congruent (fun part _ => part.InScope) normal normal := by
    cases normal with
    | mk type value =>
        exact ⟨fun inScope => .mk inScope.1 inScope.2, fun ⟨type, value⟩ => ⟨type, value⟩⟩
  constructor
  · intro inScope
    cases blocked <;> simp only [Neutral.InScope, normal] at inScope <;> constructor <;>
      simp only [inScope]
  · intro built
    cases built <;> simp only [Neutral.InScope, and_self, *]

/-! The types that evaluation makes for blocked inductions and replacements have names of their own. -/

theorem Value.natStepType_inScope {motive : Value} (inScope : motive.InScope) :
    (Value.natStepType motive).InScope := by
  have names : (Env.nil.extend "mot" motive).names = ["mot"] := rfl
  refine ⟨True.intro, ⟨inScope, True.intro⟩, ?_⟩
  rw [names]
  exact ⟨by decide, by decide +kernel⟩

theorem Closure.motive_inScope (x : Name) (named : x = "k" ∨ x = "x") :
    (Closure.mk .nil x .univ).InScope := by
  refine ⟨True.intro, List.nil_subset _, ?_⟩
  rcases named with rfl | rfl <;> decide

abbrev Comparison.bound : Comparison Unit (Outcome Stuck) (Outcome Stuck) :=
  safe Stuck.NotUnbound fun _ => id

def Invariant.inScope : Invariant Comparison.bound where
  values _ := Value.InScope
  closures _ := Closure.InScope
  neutrals _ := Neutral.InScope
  names _ := True
  scopes _ env term := env.InScope ∧ term.InScope env.names
  values_iff := Value.inScope_iff_congruent
  neutrals_iff := Neutral.inScope_iff_congruent
  values_mono _ := id
  closures_mono _ := id
  neutrals_mono _ := id
  scopes_mono _ := id
  motives := Closure.motive_inScope
  natStepType := Value.natStepType_inScope
  parts {_ env term} := by
    rintro ⟨envInScope, inScope⟩
    cases term <;> constructor
    all_goals first
      | exact True.intro
      | exact ⟨envInScope, inScope.part⟩
      | exact ⟨envInScope, inScope.body⟩
  lookup {_ _ env x} := by
    rintro ⟨envInScope, inScope⟩
    obtain ⟨value, found, valueInScope⟩ := envInScope.lookup? inScope
    change Safe _ _ (env.eval (_ + 1) (.var x))
    rw [Env.eval, found]
    exact ⟨value, rfl, valueInScope⟩
  extend closureInScope argumentInScope :=
    ⟨_, rfl, ⟨argumentInScope, closureInScope.1⟩, closureInScope.2⟩

/-- Evaluation in scope finds every variable, whatever the fuel. -/
theorem Env.InScope.eval {env : Env} {term : Term} (envInScope : env.InScope)
    (inScope : term.InScope env.names) (fuel : Nat) : Evaluated (env.eval fuel term) := by
  have ends : Comparison.bound.Ends Invariant.inScope.correspondence.values fuel () (env.eval fuel term)
      fun bound => env.eval bound term :=
    (Invariant.inScope.correspondence.evaluates fuel).eval ⟨rfl, rfl, envInScope, inScope⟩
  exact Safe.mono ends fun value related => related.elim fun _ inside => inside.2

/-! ## Reading back -/

def Invariant.anyContext : Invariant.inScope.OfContexts where
  contexts _ _ := True
  contexts_mono _ := id
  names _ := trivial
  assume _ _ := ⟨_, rfl, trivial⟩

abbrev Reading.inScope : Reading Comparison.bound := Invariant.anyContext.reading

/-- Reading values in scope back finds every variable, whatever the fuel. -/
theorem Context.readBack_inScope {ctx : Context} {type value : Value} (typeInScope : type.InScope)
    (valueInScope : value.InScope) (fuel : Nat) :
    Safe Stuck.NotUnbound (fun _ => True) (ctx.readBack fuel type value) := by
  have ends : Comparison.bound.Ends (fun _ => Reading.inScope.terms ()) fuel ()
      (ctx.readBack fuel type value) fun bound => ctx.readBack bound type value :=
    (Reading.inScope.readsBack fuel).readBack ⟨rfl, trivial⟩ ⟨rfl, typeInScope⟩ ⟨rfl, valueInScope⟩
  exact Safe.mono ends fun _ _ => trivial

end LambdaCalculi.Dependent
