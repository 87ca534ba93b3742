import LambdaCalculi.Proofs.Dependent.Canonicity
import LambdaCalculi.Proofs.Dependent.ExtendedContexts
import LambdaCalculi.Proofs.Dependent.Shadowing

/-!
# Normal forms in open contexts

A normal form names its free variables as values do. Each of them is a variable of the context, and
only one variable has that name inside values. Terms may call it by another name, though: a variable
that took a name in use has a new one inside values, which a term of the same context does not know it
by. Where every entry was given a name of its own, the two agree, and the free variables of a normal
form are found in the context as the variables they stand for.
-/

set_option autoImplicit false

namespace LambdaCalculi.Dependent.Context

variable {known : List Name} {earlier : List Context} {ctx : Context}

/-! ## The variables in the values of a context -/

def HasVariable (ctx : Context) (y : Name) : Prop :=
  ∃ entry ∈ ctx.entries, entry.neutralName? = some y

theorem HasVariable.add {y : Name} (has : ctx.HasVariable y) (x : Name) (binding : Binding) :
    (ctx.adding x binding).HasVariable y := by
  obtain ⟨entry, mem, isVariable⟩ := has
  exact ⟨entry, List.mem_cons_of_mem _ mem, isVariable⟩

/-- The types and values of a context are made of its variables, and so are the values of the contexts
before it. -/
structure MadeOfVariables (earlier : List Context) (ctx : Context) : Prop where
  within : ctx.Within ctx.HasVariable
  sources : ∀ source ∈ ctx :: earlier, source.env.Within ctx.HasVariable

namespace MadeOfVariables

theorem empty : MadeOfVariables [] Context.empty := by
  refine ⟨.empty, fun source mem => ?_⟩
  rw [List.mem_singleton.mp mem]
  exact True.intro

theorem add {x : Name} {binding : Binding} (made : MadeOfVariables earlier ctx)
    (typeWithin : binding.type.Within (ctx.adding x binding).HasVariable)
    (valueWithin : binding.value.Within (ctx.adding x binding).HasVariable) :
    MadeOfVariables (ctx :: earlier) (ctx.adding x binding) := by
  have more (y : Name) (has : ctx.HasVariable y) := has.add x binding
  have envWithin : (ctx.adding x binding).env.Within (ctx.adding x binding).HasVariable :=
    ⟨valueWithin, made.within.env.mono more _⟩
  constructor
  · refine ⟨List.forall_mem_cons.mpr ⟨typeWithin, fun entry mem => ?_⟩, envWithin⟩
    exact (made.within.types entry mem).mono more _
  · refine List.forall_mem_cons.mpr ⟨envWithin, fun source mem => ?_⟩
    exact (made.sources source mem).mono more _

end MadeOfVariables

theorem Built.madeOfVariables (built : Built known earlier ctx) : MadeOfVariables earlier ctx := by
  induction built with
  | empty => exact .empty
  | @assume _ ctx source _ x _ fuel type _ _ passed _ _ typeRun run made =>
      cases run
      have more (y : Name) (has : ctx.HasVariable y) := has.add x (.assumed type (ctx.freshFor x))
      have typeWithin :=
        ((evaluatesWithin _ fuel).eval (made.sources source passed) typeRun).mono more _
      exact made.add typeWithin ⟨typeWithin, _, List.mem_cons_self, rfl⟩
  | @define _ ctx _ x _ fuel _ _ _ run made =>
      obtain ⟨type, value, _, typeRun, valueRun, rfl⟩ := addDefinition_eq_done run
      have more (y : Name) (has : ctx.HasVariable y) := has.add x (.defined type value)
      have typeWithin := made.within.synth fuel typeRun
      have valueWithin := (evaluatesWithin _ fuel).eval made.within.env valueRun
      exact made.add (typeWithin.mono more _) (valueWithin.mono more _)

/-- The free variables of a normal form are variables of the context. -/
theorem Within.normalize {allowed : Name → Prop} {fuel : Nat} {term result : Term}
    (inside : ctx.Within allowed)
    (run : (ctx.normalize fuel term : Checking Term).outcome = .done result) :
    result.Within allowed := by
  simp only [Context.normalize, Context.run, Traced.outcome_bind, Checking.outcome_compute,
    Outcome.bind_eq_done_iff, Outcome.mapFault_eq_done_iff] at run
  obtain ⟨_, ⟨type, typeRun, value, valueRun, _, _, valueTerm, readBack, same⟩, run⟩ := run
  cases same
  cases run
  exact (readsBackWithin fuel).readBack (inside.synth fuel typeRun)
    ((evaluatesWithin allowed fuel).eval inside.env valueRun) readBack

/-! ## Variables that keep their names -/

/-- Where the entries have names of their own, values call the variables by them. -/
theorem Reachable.neutralName_eq (reachable : ctx.Reachable)
    (nonempty : ∀ entry ∈ ctx.entries, entry.name ≠ "")
    (distinct : (ctx.entries.map Entry.name).Nodup) :
    ∀ entry ∈ ctx.entries, ∀ y, entry.neutralName? = some y → y = entry.name := by
  induction reachable with
  | refl =>
      intro entry mem
      cases mem
  | @tail outer _ _ step ih =>
      obtain ⟨x, binding, rfl, cases⟩ := step.adds
      obtain ⟨nonemptyHere, nonempty⟩ := List.forall_mem_cons.mp nonempty
      obtain ⟨newHere, distinct⟩ := List.nodup_cons.mp distinct
      have kept := ih nonempty distinct
      refine List.forall_mem_cons.mpr ⟨fun y isVariable => ?_, kept⟩
      rcases cases with ⟨type, rfl⟩ | ⟨type, value, rfl, _⟩
      · cases isVariable
        refine freshFor_of_not_mem nonemptyHere fun taken => ?_
        -- The names in use are those of the entries, since no variable before was renamed.
        obtain ⟨entry, mem, named | renamed⟩ := mem_names_iff.mp taken
        · exact newHere (List.mem_map.mpr ⟨entry, mem, named⟩)
        · exact newHere (List.mem_map.mpr ⟨entry, mem, (kept entry mem x renamed).symm⟩)
      · cases isVariable

/-- A name is looked up as the innermost variable with this name, if that is how values call it. -/
theorem Built.lookup?_variable (distinct : DistinctFingerprints known) (built : Built known earlier ctx)
    {y : Name} {type : Value} (innermost : ctx.Innermost ⟨y, .assumed type y⟩) :
    ctx.env.lookup? y = some (.neutral type (.var y)) := by
  have namesKnown := built.names_subset
  have found : ctx.binding? y = some (.assumed type y) := binding?_eq_some_iff.mpr innermost
  have bound : y ∈ ctx.entries.map Entry.name := isSome_binding?_iff.mp (by rw [found]; rfl)
  have lookup := built.reachable.coherent.lookup? fun z mem same =>
    distinct z (namesKnown mem) y (namesKnown bound) same
  rw [lookup, found]
  rfl

/-- Each free variable of a normal form is the name that values use for one variable of the context, and
for one only. A term finds this variable under the same name if the variable was called so and nothing
called so was added since; all of them are found if every entry has a name of its own. -/
theorem Built.free_normalize (distinct : DistinctFingerprints known) (built : Built known earlier ctx)
    {fuel : Nat} {term result : Term}
    (run : (ctx.normalize fuel term : Checking Term).outcome = .done result) {y : Name}
    (free : y ∈ result.free) :
    ∃ later x type older, ctx.entries = later ++ ⟨x, .assumed type y⟩ :: older ∧
      (∀ entry ∈ later ++ older, entry.neutralName? ≠ some y) ∧
      (x = y → (∀ entry ∈ later, entry.name ≠ y) →
        ctx.env.lookup? y = some (.neutral type (.var y))) ∧
      ((∀ entry ∈ ctx.entries, entry.name ≠ "") → (ctx.entries.map Entry.name).Nodup →
        x = y ∧ ctx.env.lookup? y = some (.neutral type (.var y))) := by
  obtain ⟨⟨x, binding⟩, mem, isVariable⟩ := built.madeOfVariables.within.normalize run y free
  cases binding with
  | defined type value => cases isVariable
  | assumed type neutralName =>
      obtain rfl : neutralName = y := Option.some.inj isVariable
      obtain ⟨later, older, split⟩ := List.append_of_mem mem
      have found (same : x = neutralName) (unshadowed : ∀ entry ∈ later, entry.name ≠ neutralName) :
          ctx.env.lookup? neutralName = some (.neutral type (.var neutralName)) :=
        built.lookup?_variable distinct ⟨later, older, same ▸ split, unshadowed⟩
      refine ⟨later, x, type, older, split, ?_, found, fun nonempty nodup => ?_⟩
      · have separate := built.reachable.separate
        rw [Separate, split, List.pairwise_append, List.pairwise_cons] at separate
        obtain ⟨_, ⟨newToOlder, _⟩, laterNew⟩ := separate
        intro entry inside sameVariable
        rcases List.mem_append.mp inside with isLater | isOlder
        · exact (laterNew entry isLater _ List.mem_cons_self _ sameVariable).2 rfl
        · exact (newToOlder entry isOlder _ rfl).2 sameVariable
      · have same := (built.reachable.neutralName_eq nonempty nodup _ mem _ rfl).symm
        refine ⟨same, found same fun entry isLater named => ?_⟩
        rw [split, List.map_append, List.map_cons, List.nodup_append] at nodup
        exact nodup.2.2 _ (List.mem_map_of_mem isLater) _ List.mem_cons_self (named.trans same.symm)

/-! ## A number that shadows another -/

/-- Two numbers called `x`; values call the second of them `x'`. -/
def shadowed : Context :=
  (empty.adding "x" (.assumed .nat "x")).adding "x" (.assumed .nat "x'")

def shadowedBeforeNumber : Context :=
  shadowed.adding "y" (.assumed .nat "y")

theorem shadowed_built :
    Built ["x", "x'", "y"] [empty.adding "x" (.assumed .nat "x"), empty] shadowed := by
  have natRun : (empty.eval 1 .nat : Outcome Stuck Value) = .done .nat := rfl
  have first : (empty.assume "x" .nat : Outcome Stuck Context) =
      .done (empty.adding "x" (.assumed .nat "x")) := by decide +kernel
  have second : ((empty.adding "x" (.assumed .nat "x")).assume "x" .nat : Outcome Stuck Context) =
      .done shadowed := by decide +kernel
  exact .assume (.assume .empty (by decide) List.mem_cons_self (List.nil_subset _) trivial natRun first)
    (by decide) (List.mem_cons_of_mem _ List.mem_cons_self) (List.nil_subset _) trivial natRun second

/-- The normal form of the second number is a variable that the context does not know. -/
theorem shadowed_normal_form_out_of_scope :
    DistinctFingerprints ["x", "x'", "y"] ∧
      Built ["x", "x'", "y"] [empty.adding "x" (.assumed .nat "x"), empty] shadowed ∧
      (shadowed.normalize 3 (.var "x") : Checking Term).outcome = .done (.var "x'") ∧
      "x'" ∈ (Term.var "x'").free ∧ (∀ entry ∈ shadowed.entries, entry.name ≠ "x'") ∧
      shadowed.env.lookup? "x'" = none :=
  ⟨by decide +kernel, shadowed_built, by decide +kernel, by decide, by decide +kernel,
    by decide +kernel⟩

/-- With a shadowed name, and with a name of its own for every entry. -/
theorem shadowedBeforeNumber_free_normalize :
    let term : Term := .the (.sigma "y" .nat .nat) (.cons (.var "x") (.var "y"))
    let result : Term := .cons (.var "x'") (.var "y")
    let earlier := [shadowed, empty.adding "x" (.assumed .nat "x"), empty]
    (DistinctFingerprints ["x", "x'", "y"] ∧
      Built ["x", "x'", "y"] earlier shadowedBeforeNumber ∧
      (shadowedBeforeNumber.normalize 9 term : Checking Term).outcome = .done result ∧
      ∀ y ∈ result.free, ∃ later x type older,
        shadowedBeforeNumber.entries = later ++ ⟨x, .assumed type y⟩ :: older ∧
        (∀ entry ∈ later ++ older, entry.neutralName? ≠ some y) ∧
        (x = y → (∀ entry ∈ later, entry.name ≠ y) →
          shadowedBeforeNumber.env.lookup? y = some (.neutral type (.var y)))) ∧
    (DistinctFingerprints TypeAndMember.known ∧
      Built TypeAndMember.known [TypeAndMember.typeOnly, empty] TypeAndMember.small ∧
      (∀ entry ∈ TypeAndMember.small.entries, entry.name ≠ "") ∧
      (TypeAndMember.small.entries.map Entry.name).Nodup ∧
      (TypeAndMember.small.normalize 9 (.the (.var "A") (.var "x")) : Checking Term).outcome =
        .done (.var "x") ∧
      ∃ later type older, TypeAndMember.small.entries = later ++ ⟨"x", .assumed type "x"⟩ :: older ∧
        TypeAndMember.small.env.lookup? "x" = some (.neutral type (.var "x"))) := by
  intro term result earlier
  constructor
  · have distinct : DistinctFingerprints ["x", "x'", "y"] := by decide +kernel
    have natRun : (empty.eval 1 .nat : Outcome Stuck Value) = .done .nat := rfl
    have third : (shadowed.assume "y" .nat : Outcome Stuck Context) =
        .done shadowedBeforeNumber := by decide +kernel
    have built : Built ["x", "x'", "y"] earlier shadowedBeforeNumber :=
      .assume shadowed_built (by decide) (by simp) (List.nil_subset _) trivial natRun third
    have run : (shadowedBeforeNumber.normalize 9 term : Checking Term).outcome = .done result := by
      decide +kernel
    refine ⟨distinct, built, run, fun y free => ?_⟩
    obtain ⟨later, x, type, older, split, unique, found, _⟩ := built.free_normalize distinct run free
    exact ⟨later, x, type, older, split, unique, found⟩
  · have distinct : DistinctFingerprints TypeAndMember.known := by decide +kernel
    have nonempty : ∀ entry ∈ TypeAndMember.small.entries, entry.name ≠ "" := by decide
    have nodup : (TypeAndMember.small.entries.map Entry.name).Nodup := by decide
    have run : (TypeAndMember.small.normalize 9 (.the (.var "A") (.var "x")) :
        Checking Term).outcome = .done (.var "x") := by decide +kernel
    refine ⟨distinct, TypeAndMember.small_built, nonempty, nodup, run, ?_⟩
    obtain ⟨later, _, type, older, split, _, _, ownNames⟩ :=
      TypeAndMember.small_built.free_normalize distinct run List.mem_cons_self
    obtain ⟨rfl, found⟩ := ownNames nonempty nodup
    exact ⟨later, type, older, split, found⟩

end LambdaCalculi.Dependent.Context
