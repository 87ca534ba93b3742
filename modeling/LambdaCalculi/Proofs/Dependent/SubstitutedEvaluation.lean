import LambdaCalculi.Proofs.Dependent.Fingerprints
import LambdaCalculi.Proofs.Dependent.PairedVariables
import LambdaCalculi.Proofs.Dependent.Settling
import LambdaCalculi.Proofs.Dependent.Substitution

/-!
# Evaluation with terms put in

On one side a name is bound in the environment, on the other a term with free variables is put in its
place. Two values correspond when their variables do, by a list of pairs, and the body in a closure on
the second side is that on the first with a substitution put in. A term that is put in may be evaluated
below binders that were not there where its value on the first side was found. But no binder captures
a variable of it, so the environment of that place agrees with the one at hand on the free variables of
the term, and nothing more is asked of the environment: in every one that does, the term has a value
that corresponds. The second side may take more steps, so where evaluation finishes on the first side,
it settles on the second.
-/

set_option autoImplicit false

namespace LambdaCalculi.Dependent

open Outcome

def Env.AgreesOn (env env' : Env) (needed : List Name) : Prop :=
  ∀ x ∈ needed, env.innermost? x = env'.innermost? x

/-- A name that is needed is bound on the first side, and the term in its place is met in an
environment where its variables have the values that they have on the second side. -/
structure Env.Meets (substitution : Substitution) (needed : List Name) (env env' : Env) (x : Name)
    (value : Value) (inner : Env) : Prop where
  mem : x ∈ needed
  bound : env.innermost? x = some value
  agrees : inner.AgreesOn env' (substitution x).free
  clear : inner.Clear (substitution x)

/-- The second body is the first with a substitution put in that has values in the environments. Its
binder may be called otherwise, and captures nothing that is put in. -/
def Linking.substitution : Linking where
  Link := Substitution × List Name
  fits
    | (substitution, needed), .mk env x body, .mk env' x' body' =>
        body' = body.substitute (substitution.bind x x') ∧ needed = body.free.filter (· != x) ∧
        (∀ y ∈ body.free, y ≠ x → x' ∉ (substitution y).free) ∧
        DistinctFingerprints (x' :: env'.names ++ body'.names) ∧
        ∀ y value inner, env.Meets substitution needed env' y value inner →
          ∃ value', inner.EvaluatesTo (substitution y) value'
  binds link env env' value value' := ∃ y inner, env.Meets link.1 link.2 env' y value inner ∧
    inner.EvaluatesTo (link.1 y) value'

abbrev Value.Substituted (names : BinderPairs) : Value → Value → Prop :=
  Value.Linked .substitution names.Links

abbrev Closure.Substituted (names : BinderPairs) : Closure → Closure → Prop :=
  Closure.Linked .substitution names.Links

/-- For each name that is needed and bound on the first side, the term put in its place has a value
that corresponds, wherever it is met. -/
structure Env.Substituted (names : BinderPairs) (substitution : Substitution) (needed : List Name)
    (env env' : Env) : Prop where
  evaluates : ∀ {x value inner}, env.Meets substitution needed env' x value inner →
    ∃ value', inner.EvaluatesTo (substitution x) value' ∧ value.Substituted names value'

theorem Closure.substituted_iff {names : BinderPairs} {env env' : Env} {x x' : Name}
    {body body' : Term} : Closure.Substituted names (.mk env x body) (.mk env' x' body') ↔
      ∃ substitution : Substitution, body' = body.substitute (substitution.bind x x') ∧
        env.Substituted names substitution (body.free.filter (· != x)) env' ∧
        (∀ y ∈ body.free, y ≠ x → x' ∉ (substitution y).free) ∧
        DistinctFingerprints (x' :: env'.names ++ body'.names) := by
  constructor
  · rintro ⟨⟨substitution, needed⟩, ⟨same, rfl, new, clear, evaluates⟩, bound⟩
    refine ⟨substitution, same, ⟨fun {y value inner} meets => ?_⟩, new, clear⟩
    obtain ⟨value', run⟩ := evaluates y value inner meets
    exact ⟨value', run, bound value value' ⟨y, inner, meets, run⟩⟩
  · rintro ⟨substitution, same, ⟨evaluates⟩, new, clear⟩
    refine .mk (substitution, _) ⟨same, rfl, new, clear, fun y value inner meets => ?_⟩ ?_
    · exact (evaluates meets).imp fun _ both => both.1
    · rintro value value' ⟨y, inner, meets, run⟩
      obtain ⟨other, otherRun, related⟩ := evaluates meets
      obtain rfl : other = value' := by simpa using otherRun.unique run
      exact related

/-! ## Environments -/

namespace Env.Substituted

variable {names : BinderPairs} {substitution : Substitution} {needed : List Name} {env env' : Env}

theorem fewer (substituted : env.Substituted names substitution needed env') {part : List Name}
    (included : part ⊆ needed) : env.Substituted names substitution part env' where
  evaluates meets :=
    substituted.evaluates ⟨included meets.mem, meets.bound, meets.agrees, meets.clear⟩

theorem extend (substituted : env.Substituted names substitution needed env') {x y : Name}
    (new : names.New x y) : env.Substituted ((x, y) :: names) substitution needed env' where
  evaluates meets := by
    obtain ⟨value', run, related⟩ := substituted.evaluates meets
    exact ⟨value', run, related.extend new⟩

/-- Where every name stands for itself, its values on the two sides correspond. -/
theorem ofValues (bound : ∀ x ∈ needed, ∀ value, env.innermost? x = some value →
      ∃ value', env'.innermost? x = some value' ∧ value.Substituted names value') :
    env.Substituted names .var needed env' where
  evaluates {x value inner} meets := by
    obtain ⟨value', found', related⟩ := bound x meets.mem value meets.bound
    have same := meets.agrees x (List.mem_singleton_self x)
    exact ⟨value', .var (meets.clear.lookup?.trans (same.trans found')), related⟩

/-- A name bound on both sides, perhaps under another name on the second. -/
theorem bind {x x' : Name} {value value' : Value}
    (substituted : env.Substituted names substitution (needed.filter (· != x)) env')
    (new : ∀ y ∈ needed, y ≠ x → x' ∉ (substitution y).free)
    (related : value.Substituted names value') :
    (env.extend x value).Substituted names (substitution.bind x x') needed
      (env'.extend x' value') where
  evaluates {y other inner} := by
    rintro ⟨isNeeded, found, agrees, clear⟩
    by_cases same : y = x
    · subst same
      rw [innermost?_extend, if_pos rfl] at found
      cases found
      rw [Substitution.bind_self] at agrees clear ⊢
      have here := agrees x' (List.mem_singleton_self x')
      rw [innermost?_extend, if_pos rfl] at here
      exact ⟨value', .var (clear.lookup?.trans here), related⟩
    · rw [innermost?_extend, if_neg (Ne.symm same)] at found
      rw [Substitution.bind_of_ne same] at agrees clear ⊢
      have mem : y ∈ needed.filter (· != x) := List.mem_filter.mpr ⟨isNeeded, bne_iff_ne.mpr same⟩
      -- The new binding hides no variable of the term, so the environment there agrees with the outer.
      refine substituted.evaluates ⟨mem, found, fun z inTerm => ?_, clear⟩
      have different : x' ≠ z := fun hidden => new y isNeeded same (hidden ▸ inTerm)
      rw [agrees z inTerm, innermost?_extend, if_neg different]

end Env.Substituted

structure Env.SubstitutedAt (names : BinderPairs) (substitution : Substitution) (env env' : Env)
    (term : Term) : Prop where
  envSubstituted : env.Substituted names substitution term.free env'
  clear : env'.Clear (term.substitute substitution)

section Terms

variable {names : BinderPairs} {substitution : Substitution} {env env' : Env} {term part : Term}

theorem Env.SubstitutedAt.sub (substituted : env.SubstitutedAt names substitution env' term)
    (free : part.free ⊆ term.free := by simp +contextual [Term.free, List.subset_def])
    (included : (part.substitute substitution).names ⊆ (term.substitute substitution).names := by
      simp +contextual [Term.substitute, Term.names, List.subset_def]) :
    env.SubstitutedAt names substitution env' part :=
  ⟨substituted.envSubstituted.fewer free, substituted.clear.mono included⟩

theorem Env.SubstitutedAt.closure (substituted : env.SubstitutedAt names substitution env' term)
    {x : Name}
    (free : part.free.filter (· != x) ⊆ term.free := by
      simp +contextual [Term.free, List.subset_def])
    (included : substitution.binder x part ::
        (part.substitute (substitution.bind x (substitution.binder x part))).names ⊆
          (term.substitute substitution).names := by
      simp +contextual [Term.substitute, Term.names, List.subset_def]) :
    Closure.Substituted names (.mk env x part) (.mk env' (substitution.binder x part)
      (part.substitute (substitution.bind x (substitution.binder x part)))) :=
  Closure.substituted_iff.mpr ⟨substitution, rfl, substituted.envSubstituted.fewer free,
    fun _ => Substitution.binder_not_mem, substituted.clear.below included⟩

end Terms

/-! ## Evaluation -/

section

variable {names : BinderPairs}

/-- A body that nothing is put into. -/
theorem Closure.substituted_unchanged {env env' : Env} {x : Name} {body : Term}
    (substituted : env.Substituted names .var (body.free.filter (· != x)) env')
    (clear : DistinctFingerprints (x :: env'.names ++ body.names)) :
    Closure.Substituted names (.mk env x body) (.mk env' x body) := by
  have same : body = body.substitute (Substitution.bind .var x x) := by
    rw [Substitution.var_bind, Term.substitute_var]
  exact Closure.substituted_iff.mpr ⟨.var, same, substituted,
    fun y _ different mem => different (List.mem_singleton.mp mem).symm, clear⟩

theorem Value.Substituted.natStepType {motive motive' : Value}
    (substituted : motive.Substituted names motive') :
    (Value.natStepType motive).Substituted names (Value.natStepType motive') := by
  have clear : DistinctFingerprints ["n-1", "mot", "almost", "mot", "n-1", "mot", "n-1"] := by
    decide +kernel
  refine .pi .nat (Closure.substituted_unchanged (.ofValues fun x _ value found => ?_) clear)
  rw [Env.innermost?_extend] at found ⊢
  split at found
  · cases found
    rw [if_pos ‹_›]
    exact ⟨motive', rfl, substituted⟩
  · cases found

end

def Linking.Evaluating.substitution (names : BinderPairs) :
    Linking.substitution.Evaluating names.Links Comparison.follows where
  scopes env term env' term' := ∃ substitution : Substitution, term' = term.substitute substitution ∧
    env.SubstitutedAt names substitution env' term
  motives x named := by
    refine Closure.substituted_unchanged (.ofValues fun _ _ _ found => by cases found) ?_
    rcases named with rfl | rfl <;> decide +kernel
  natStepType := Value.Substituted.natStepType
  parts := by
    rintro env env' term _ ⟨substitution, rfl, substituted⟩
    cases term <;> constructor <;> first
      | exact True.intro
      | exact ⟨substitution, rfl, substituted.sub⟩
      | exact substituted.closure
  lookup := by
    rintro fuel _ env env' x _ ⟨substitution, rfl, envSubstituted, clear⟩
    change Follows (Value.Substituted names) (env.eval (fuel + 1) (.var x)) _
    rw [Env.eval]
    cases found : env.lookup? x with
    | none => exact .failed
    | some value =>
        rintro _ ⟨⟩
        exact envSubstituted.evaluates ⟨List.mem_singleton_self x, Env.innermost?_of_lookup? found,
          fun _ _ => rfl, clear⟩
  extend := by
    intro _ _ env env' x x' body body' argument argument' substituted argumentSubstituted
    obtain ⟨substitution, rfl, envSubstituted, new, clear⟩ := Closure.substituted_iff.mp substituted
    exact .done ⟨_, rfl, envSubstituted.bind new argumentSubstituted, clear⟩

abbrev Reading.substitution : Reading Comparison.follows :=
  Linking.reading Linking.Evaluating.substitution

section

variable {names : BinderPairs} (fuel : Nat)

/-- Where a term has a value, the term with a substitution put in has one that corresponds. -/
theorem Env.SubstitutedAt.eval {substitution : Substitution} {env env' : Env} {term : Term}
    (substituted : env.SubstitutedAt names substitution env' term) :
    Follows (Value.Substituted names) (env.eval fuel term : Outcome Stuck Value)
      fun fuel => (env'.eval fuel (term.substitute substitution) : Outcome Stuck Value) := by
  let relation := (Linking.Evaluating.substitution names).correspondence
  have scopes : relation.scopes () env term env' (term.substitute substitution) :=
    ⟨substitution, rfl, substituted⟩
  exact (relation.evaluates fuel).eval scopes

theorem Closure.instantiate_substituted {closure closure' : Closure} {argument argument' : Value}
    (closures : closure.Substituted names closure') (arguments : argument.Substituted names argument') :
    Follows (Value.Substituted names) (closure.instantiate fuel argument : Outcome Stuck Value)
      fun fuel => (closure'.instantiate fuel argument' : Outcome Stuck Value) := by
  let relation := (Linking.Evaluating.substitution names).correspondence
  have related : relation.closures () closure closure' := closures
  exact (relation.evaluates fuel).instantiate related arguments

theorem Value.apply_substituted {function function' argument argument' : Value}
    (functions : function.Substituted names function')
    (arguments : argument.Substituted names argument') :
    Follows (Value.Substituted names) (function.apply fuel argument : Outcome Stuck Value)
      fun fuel => (function'.apply fuel argument' : Outcome Stuck Value) := by
  let relation := (Linking.Evaluating.substitution names).correspondence
  have related : relation.values () function function' := functions
  exact (relation.evaluates fuel).apply related arguments

theorem Context.readBack_substituted {ctx ctx' : Context} (taken : names.TakenIn ctx ctx')
    {type type' value value' : Value} (types : type.Substituted names type')
    (values : value.Substituted names value') :
    Follows (Term.Renamed names) (ctx.readBack fuel type value : Outcome Stuck Term)
      fun fuel => (ctx'.readBack fuel type' value' : Outcome Stuck Term) := by
  have contexts : Reading.substitution.contexts names () ctx ctx' := taken
  exact (Reading.substitution.readsBack fuel).readBack contexts types values

end

end LambdaCalculi.Dependent
