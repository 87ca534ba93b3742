import LambdaCalculi.Proofs.Dependent.Fingerprints
import LambdaCalculi.Proofs.Dependent.Linking
import LambdaCalculi.Proofs.Dependent.NeutralVariables

/-!
# Evaluation depends on the bindings in use only

Two environments coincide on a term when they give its free variables values that coincide and hide
the same of its names. What else they bind does not matter, and so it does not matter in closures:
two values coincide when they are built alike from closures with the same bodies, whose environments
coincide on these bodies. Evaluation in two environments that coincide goes step by step the same way.
Every value coincides with itself, whatever names it binds; only a binding that is added must not hide
a name that is in use.
-/

set_option autoImplicit false

namespace LambdaCalculi.Dependent

open Outcome

structure Env.SameScope (names needed : List Name) (env env' : Env) : Prop where
  hidden : ∀ x ∈ names, env.clouds x = env'.clouds x
  bound : ∀ x ∈ needed, env.innermost? x = none ↔ env'.innermost? x = none

def Linking.coincidence : Linking where
  Link := List Name
  fits
    | needed, .mk env x body, .mk env' x' body' => x = x' ∧ body = body' ∧
        needed = body.free.filter (· != x) ∧ env.SameScope body.names needed env'
  binds needed env env' value value' :=
    ∃ x ∈ needed, env.innermost? x = some value ∧ env'.innermost? x = some value'

/-- The values differ at most in bindings that are not in use. -/
abbrev Value.Coincides : Value → Value → Prop :=
  Value.Linked .coincidence Eq

abbrev Closure.Coincides : Closure → Closure → Prop :=
  Closure.Linked .coincidence Eq

abbrev Neutral.Coincides : Neutral → Neutral → Prop :=
  Neutral.Linked .coincidence Eq

/-- Both environments hide the same of the given names, and bind the needed ones to values that
coincide, or neither binds them. -/
structure Env.CoincidesOn (names needed : List Name) (env env' : Env) : Prop
    extends Env.SameScope names needed env env' where
  values : ∀ x ∈ needed, ∀ value value', env.innermost? x = some value →
    env'.innermost? x = some value' → value.Coincides value'

theorem Closure.coincides_iff {env env' : Env} {x x' : Name} {body body' : Term} :
    Closure.Coincides (.mk env x body) (.mk env' x' body') ↔ x = x' ∧ body = body' ∧
      env.CoincidesOn body.names (body.free.filter (· != x)) env' := by
  constructor
  · rintro ⟨needed, ⟨rfl, rfl, rfl, same⟩, bound⟩
    exact ⟨rfl, rfl, same, fun y mem value value' found found' =>
      bound value value' ⟨y, mem, found, found'⟩⟩
  · rintro ⟨rfl, rfl, same, values⟩
    refine .mk _ ⟨rfl, rfl, rfl, same⟩ ?_
    rintro value value' ⟨y, mem, found, found'⟩
    exact values y mem value value' found found'

/-! ## Every value coincides with itself -/

mutual

theorem Value.coincides_refl : (value : Value) → value.Coincides value
  | .pi domain range => .pi domain.coincides_refl range.coincides_refl
  | .lam body => .lam body.coincides_refl
  | .sigma carType cdrType => .sigma carType.coincides_refl cdrType.coincides_refl
  | .pair first second => .pair first.coincides_refl second.coincides_refl
  | .nat => .nat
  | .zero => .zero
  | .add1 predecessor => .add1 predecessor.coincides_refl
  | .equal type left right => .equal type.coincides_refl left.coincides_refl right.coincides_refl
  | .same => .same
  | .trivial => .trivial
  | .sole => .sole
  | .absurd => .absurd
  | .atom => .atom
  | .tick symbol => .tick symbol
  | .univ => .univ
  | .neutral type blocked => .neutral type.coincides_refl blocked.coincides_refl

theorem Closure.coincides_refl : (closure : Closure) → closure.Coincides closure
  | .mk env _ _ => Closure.coincides_iff.mpr ⟨rfl, rfl, env.coincides_refl _ _⟩

theorem Neutral.coincides_refl : (blocked : Neutral) → blocked.Coincides blocked
  | .var _ => .var rfl
  | .app function argument => .app function.coincides_refl argument.coincides_refl
  | .car pair => .car pair.coincides_refl
  | .cdr pair => .cdr pair.coincides_refl
  | .indNat target motive base step => .indNat target.coincides_refl motive.coincides_refl
      base.coincides_refl step.coincides_refl
  | .replace target motive base =>
      .replace target.coincides_refl motive.coincides_refl base.coincides_refl
  | .indAbsurd target motive => .indAbsurd target.coincides_refl motive.coincides_refl

theorem Normal.coincides_refl : (normal : Normal) → normal.Linked .coincidence Eq normal
  | .mk type value => .mk type.coincides_refl value.coincides_refl

theorem Env.coincides_refl (env : Env) (names needed : List Name) :
    env.CoincidesOn names needed env := by
  refine ⟨⟨fun _ _ => rfl, fun _ _ => Iff.rfl⟩, ?_⟩
  intro x _ value value' found found'
  cases found.symm.trans found'
  exact env.coincides_of_innermost? x found

theorem Env.coincides_of_innermost? : (env : Env) → ∀ (x : Name) {value : Value},
    env.innermost? x = some value → value.Coincides value
  | .nil, _, _, found => by cases found
  | .cons _ y value outer, x, _, found => by
      rw [Env.innermost?] at found
      split at found
      · cases found
        exact value.coincides_refl
      · exact outer.coincides_of_innermost? x found

end

/-! ## Environments -/

theorem Env.clouds_extend (env : Env) (x y : Name) (value : Value) :
    (env.extend x value).clouds y =
      (x != y && x.fingerprint == y.fingerprint || env.clouds y) := by
  simp [Env.clouds]

namespace Env.CoincidesOn

variable {names needed : List Name} {env env' : Env} {x : Name}

theorem mono {fewer less : List Name} (coincides : env.CoincidesOn names needed env')
    (fewerNames : fewer ⊆ names) (lessNeeded : less ⊆ needed) :
    env.CoincidesOn fewer less env' where
  hidden x mem := coincides.hidden x (fewerNames mem)
  bound x mem := coincides.bound x (lessNeeded mem)
  values x mem := coincides.values x (lessNeeded mem)

/-- A name is looked up alike on both sides. -/
theorem lookup (coincides : env.CoincidesOn names needed env') (isName : x ∈ names)
    (isNeeded : x ∈ needed) :
    (env.lookup? x = none ∧ env'.lookup? x = none) ∨
      ∃ value value', env.lookup? x = some value ∧ env'.lookup? x = some value' ∧
        value.Coincides value' := by
  rw [lookup?, lookup?, ← coincides.hidden x isName]
  split
  · exact .inl ⟨rfl, rfl⟩
  · cases found : env.innermost? x with
    | none => exact .inl ⟨rfl, (coincides.bound x isNeeded).mp found⟩
    | some value =>
        cases found' : env'.innermost? x with
        | none => simp [(coincides.bound x isNeeded).mpr found'] at found
        | some value' =>
            exact .inr ⟨value, value', rfl, rfl, coincides.values x isNeeded _ _ found found'⟩

/-- A name bound on both sides is no longer needed from outside. -/
theorem bind (coincides : env.CoincidesOn names (needed.filter (· != x)) env') {value value' : Value}
    (valueCoincides : value.Coincides value') :
    (env.extend x value).CoincidesOn names needed (env'.extend x value') := by
  have outside : ∀ y ∈ needed, x ≠ y → y ∈ needed.filter (· != x) := fun y mem different =>
    List.mem_filter.mpr ⟨mem, bne_iff_ne.mpr (Ne.symm different)⟩
  refine ⟨⟨?_, ?_⟩, ?_⟩
  · intro y mem
    rw [clouds_extend, clouds_extend, coincides.hidden y mem]
  · intro y mem
    rw [innermost?_extend, innermost?_extend]
    split
    · exact iff_of_false (by simp) (by simp)
    · exact coincides.bound y (outside y mem ‹_›)
  · intro y mem other other' found found'
    rw [innermost?_extend] at found found'
    split at found
    · rw [if_pos ‹_›] at found'
      cases found
      cases found'
      exact valueCoincides
    · rw [if_neg ‹_›] at found'
      exact coincides.values y (outside y mem ‹_›) other other' found found'

/-- A binding of a name that is not needed and hides none of the names makes no difference. -/
theorem more (env : Env) (value : Value) (unused : x ∉ needed)
    (hidesNone : ∀ y ∈ names, x.fingerprint = y.fingerprint → x = y) :
    env.CoincidesOn names needed (env.extend x value) := by
  have kept : ∀ y ∈ needed, (env.extend x value).innermost? y = env.innermost? y := by
    intro y mem
    have different : x ≠ y := fun same => unused (same ▸ mem)
    rw [innermost?_extend, if_neg different]
  refine ⟨⟨?_, ?_⟩, ?_⟩
  · intro y mem
    have hides : (x != y && x.fingerprint == y.fingerprint) = false := by
      simpa using fun different same => different (hidesNone y mem same)
    rw [clouds_extend, hides, Bool.false_or]
  · intro y mem
    rw [kept y mem]
  · intro y mem other other' found found'
    rw [kept y mem] at found'
    exact (env.coincides_refl names needed).values y mem other other' found found'

end Env.CoincidesOn

def Env.CoincidesAt (env : Env) (term : Term) (env' : Env) : Prop :=
  env.CoincidesOn term.names term.free env'

section Terms

variable {env env' : Env} {term part : Term}

theorem Env.CoincidesAt.sub (coincides : env.CoincidesAt term env')
    (names : part.names ⊆ term.names := by simp +contextual [Term.names, List.subset_def])
    (free : part.free ⊆ term.free := by simp +contextual [Term.free, List.subset_def]) :
    env.CoincidesAt part env' :=
  coincides.mono names free

theorem Env.CoincidesAt.closure (coincides : env.CoincidesAt term env') {x : Name}
    (names : part.names ⊆ term.names := by simp +contextual [Term.names, List.subset_def])
    (free : part.free.filter (· != x) ⊆ term.free := by
      simp +contextual [Term.free, List.subset_def]) :
    Closure.Coincides (.mk env x part) (.mk env' x part) :=
  Closure.coincides_iff.mpr ⟨rfl, rfl, coincides.mono names free⟩

end Terms

/-! ## Evaluation -/

def Linking.Evaluating.coincidence : Linking.coincidence.Evaluating Eq Comparison.lockstep where
  scopes env term env' term' := term = term' ∧ env.CoincidesAt term env'
  motives _ _ := Closure.coincides_refl _
  natStepType coincides := by
    refine .pi .nat (Closure.coincides_iff.mpr ⟨rfl, rfl, ?_⟩)
    exact .bind (Env.nil.coincides_refl _ _) coincides
  parts := by
    rintro env env' term _ ⟨rfl, coincides⟩
    cases term <;> constructor <;> first
      | exact True.intro
      | exact ⟨rfl, coincides.sub⟩
      | exact coincides.closure
  lookup := by
    rintro fuel _ env env' x _ ⟨rfl, coincides⟩
    have here := coincides.lookup (List.mem_singleton_self x) (List.mem_singleton_self x)
    refine Comparison.lockstep.spend ?_
    simp only [Env.eval]
    rcases here with ⟨unbound, unbound'⟩ | ⟨value, value', found, found', valueCoincides⟩
    · rw [unbound, unbound']
      exact .failed rfl
    · rw [found, found']
      exact .done valueCoincides
  extend := by
    intro _ _ env env' x x' body body' argument argument' coincides argumentCoincides
    obtain ⟨rfl, rfl, envCoincides⟩ := Closure.coincides_iff.mp coincides
    exact .done ⟨rfl, envCoincides.bind argumentCoincides⟩

/-- Terms have values that coincide, in the same number of steps. -/
theorem Env.CoincidesAt.eval {env env' : Env} {term : Term} (coincides : env.CoincidesAt term env')
    (fuel : Nat) :
    Alike (@Eq Stuck) Value.Coincides (env.eval fuel term) (env'.eval fuel term) := by
  have scopes : Linking.Evaluating.coincidence.correspondence.scopes () env term env' term :=
    ⟨rfl, coincides⟩
  exact (Linking.Evaluating.coincidence.correspondence.evaluates fuel).eval scopes

theorem Value.apply_coincides (fuel : Nat) {function function' argument argument' : Value}
    (functions : function.Coincides function') (arguments : argument.Coincides argument') :
    Alike (@Eq Stuck) Value.Coincides (function.apply fuel argument)
      (function'.apply fuel argument') := by
  have related : Linking.Evaluating.coincidence.correspondence.values () function function' := functions
  exact (Linking.Evaluating.coincidence.correspondence.evaluates fuel).apply related arguments

end LambdaCalculi.Dependent
