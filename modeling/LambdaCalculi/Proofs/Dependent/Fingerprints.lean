import LambdaCalculi.Dependent.Program

/-!
# Names with different fingerprints

Environments look names up by fingerprint, and two names with one fingerprint hide each other. Where
all names in sight have different fingerprints, looking a name up finds its innermost binding.
-/

set_option autoImplicit false

namespace LambdaCalculi.Dependent

def Term.names : Term → List Name
  | var x => [x]
  | pi x domain range => x :: domain.names ++ range.names
  | lam x body => x :: body.names
  | app function argument => function.names ++ argument.names
  | sigma x carType cdrType => x :: carType.names ++ cdrType.names
  | cons first second => first.names ++ second.names
  | car pair => pair.names
  | cdr pair => pair.names
  | add1 predecessor => predecessor.names
  | indNat target motive base step => target.names ++ motive.names ++ base.names ++ step.names
  | equal type left right => type.names ++ left.names ++ right.names
  | replace target motive base => target.names ++ motive.names ++ base.names
  | indAbsurd target motive => target.names ++ motive.names
  | the type expr => type.names ++ expr.names
  | nat | zero | same | trivial | sole | absurd | atom | tick _ | univ => []

def Program.names (program : Program) : List Name :=
  program.definitions.flatMap (fun definition => definition.name :: definition.term.names) ++
    program.body.names

def DistinctFingerprints (names : List Name) : Prop :=
  ∀ x ∈ names, ∀ y ∈ names, x.fingerprint = y.fingerprint → x = y

instance (names : List Name) : Decidable (DistinctFingerprints names) :=
  inferInstanceAs (Decidable (∀ x ∈ names, ∀ y ∈ names, x.fingerprint = y.fingerprint → x = y))

theorem DistinctFingerprints.mono {names more : List Name} (clear : DistinctFingerprints more)
    (included : names ⊆ more) : DistinctFingerprints names :=
  fun x mem y mem' => clear x (included mem) y (included mem')

theorem Env.lookup?_eq_innermost? {names : List Name} (clear : DistinctFingerprints names)
    {env : Env} (known : env.names ⊆ names) {x : Name} (mem : x ∈ names) :
    env.lookup? x = env.innermost? x := by
  refine if_neg fun clouded => ?_
  obtain ⟨y, bound, different, same⟩ := (env.clouds_iff x).mp clouded
  exact different (clear y (known bound) x mem same)

/-- The names bound in the environment and those of the term have different fingerprints. -/
def Env.Clear (env : Env) (term : Term) : Prop :=
  DistinctFingerprints (env.names ++ term.names)

namespace Env

theorem innermost?_eq_none_iff {env : Env} {x : Name} : env.innermost? x = none ↔ x ∉ env.names := by
  fun_induction Env.innermost? env x with
  | case1 => exact iff_of_true rfl List.not_mem_nil
  | case2 => exact iff_of_false (Option.some_ne_none _) (not_not_intro List.mem_cons_self)
  | case3 _ _ _ _ _ different ih =>
      rw [ih, Env.names, List.mem_cons, not_or]
      exact ⟨fun outside => ⟨Ne.symm different, outside⟩, And.right⟩

theorem mem_names_of_innermost? {env : Env} {x : Name} {value : Value}
    (found : env.innermost? x = some value) : x ∈ env.names := by
  refine Decidable.of_not_not fun outside => ?_
  cases found.symm.trans (innermost?_eq_none_iff.mpr outside)

theorem innermost?_extend (env : Env) (x y : Name) (value : Value) :
    (env.extend x value).innermost? y = if x = y then some value else env.innermost? y :=
  rfl

theorem innermost?_of_lookup? {env : Env} {x : Name} {value : Value}
    (found : env.lookup? x = some value) : env.innermost? x = some value := by
  rw [lookup?] at found
  split at found
  · cases found
  · exact found

theorem Clear.mono {env : Env} {term part : Term} (clear : env.Clear term)
    (included : part.names ⊆ term.names) : env.Clear part :=
  DistinctFingerprints.mono clear (List.append_subset.mpr
    ⟨List.subset_append_left _ _, List.subset_append_of_subset_right _ included⟩)

theorem Clear.lookup? {env : Env} {x : Name} (clear : env.Clear (.var x)) :
    env.lookup? x = env.innermost? x :=
  lookup?_eq_innermost? clear (List.subset_append_left _ _)
    (List.mem_append_right _ (List.mem_singleton_self x))

/-- Below a binder of a term, the names are among those of the environment and of the term. -/
theorem Clear.below {env : Env} {term part : Term} {x : Name} (clear : env.Clear term)
    (included : x :: part.names ⊆ term.names) :
    DistinctFingerprints (x :: env.names ++ part.names) := by
  obtain ⟨xIncluded, partIncluded⟩ := List.cons_subset.mp included
  refine DistinctFingerprints.mono clear ?_
  simp [List.append_subset, xIncluded, List.subset_append_of_subset_right _ partIncluded]

end Env

/-- The names of a program include those of each definition. -/
theorem Program.definition_names_subset {program : Program} {definition : Definition}
    (mem : definition ∈ program.definitions) :
    definition.name ∈ program.names ∧ definition.term.names ⊆ program.names := by
  have included : definition.name :: definition.term.names ⊆ program.names := fun x inside =>
    List.mem_append_left _ (List.mem_flatMap.mpr ⟨definition, mem, inside⟩)
  exact List.cons_subset.mp included

theorem Program.body_names_subset (program : Program) : program.body.names ⊆ program.names :=
  List.subset_append_right _ _

end LambdaCalculi.Dependent
