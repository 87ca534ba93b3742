import LambdaCalculi.Proofs.Dependent.Nameless
import LambdaCalculi.Proofs.Dependent.NeutralVariables
import LambdaCalculi.Proofs.Freshness

/-!
# Substitution without capture

A substitution has a term for every name, and is put into a term at all its free variables at once. A
binder keeps its name unless that is free in one of the terms that come to stand below it; then it gets
primes. So what is free in the terms of a substitution stays free in the result. On nameless terms there
is nothing to capture, and substitution only has to replace the free names; the two agree.
-/

set_option autoImplicit false

namespace LambdaCalculi.Dependent

abbrev Substitution := Name → Term

namespace Substitution

def single (x : Name) (term : Term) : Substitution :=
  fun y => if y = x then term else .var y

def bind (substitution : Substitution) (x x' : Name) : Substitution :=
  fun y => if y = x then .var x' else substitution y

/-- What is free in the terms that are put below a binder of `x`. -/
def freeBelow (substitution : Substitution) (x : Name) (body : Term) : List Name :=
  (body.free.filter (· != x)).flatMap fun y => (substitution y).free

/-- The name that a binder of `x` has in the result. -/
def binder (substitution : Substitution) (x : Name) (body : Term) : Name :=
  Name.fresh (substitution.freeBelow x body) x

end Substitution

def Term.substitute (substitution : Substitution) : Term → Term
  | var x => substitution x
  | pi x domain range =>
      let x' := substitution.binder x range
      pi x' (domain.substitute substitution) (range.substitute (substitution.bind x x'))
  | lam x body =>
      let x' := substitution.binder x body
      lam x' (body.substitute (substitution.bind x x'))
  | app function argument =>
      app (function.substitute substitution) (argument.substitute substitution)
  | sigma x carType cdrType =>
      let x' := substitution.binder x cdrType
      sigma x' (carType.substitute substitution) (cdrType.substitute (substitution.bind x x'))
  | cons first second => cons (first.substitute substitution) (second.substitute substitution)
  | car pair => car (pair.substitute substitution)
  | cdr pair => cdr (pair.substitute substitution)
  | nat => nat
  | zero => zero
  | add1 predecessor => add1 (predecessor.substitute substitution)
  | indNat target motive base step =>
      indNat (target.substitute substitution) (motive.substitute substitution)
        (base.substitute substitution) (step.substitute substitution)
  | equal type left right =>
      equal (type.substitute substitution) (left.substitute substitution)
        (right.substitute substitution)
  | same => same
  | replace target motive base =>
      replace (target.substitute substitution) (motive.substitute substitution)
        (base.substitute substitution)
  | trivial => trivial
  | sole => sole
  | absurd => absurd
  | indAbsurd target motive =>
      indAbsurd (target.substitute substitution) (motive.substitute substitution)
  | atom => atom
  | tick symbol => tick symbol
  | univ => univ
  | the type expr => the (type.substitute substitution) (expr.substitute substitution)

namespace Substitution

variable {substitution : Substitution} {x y : Name} {body : Term}

theorem bind_self (x' : Name) : substitution.bind x x' x = .var x' :=
  if_pos rfl

theorem bind_of_ne (different : y ≠ x) (x' : Name) : substitution.bind x x' y = substitution y :=
  if_neg different

theorem mem_freeBelow_iff {z : Name} :
    z ∈ substitution.freeBelow x body ↔ ∃ y ∈ body.free, y ≠ x ∧ z ∈ (substitution y).free := by
  simp [freeBelow, and_assoc]

/-- The binder captures nothing that is put below it. -/
theorem binder_not_mem (free : y ∈ body.free) (different : y ≠ x) :
    substitution.binder x body ∉ (substitution y).free := fun captured =>
  Name.fresh_not_mem _ _ (mem_freeBelow_iff.mpr ⟨y, free, different, captured⟩)

theorem binder_var : binder .var x body = x := by
  refine Name.fresh_of_not_mem fun mem => ?_
  obtain ⟨y, _, different, inVar⟩ := mem_freeBelow_iff.mp mem
  exact different (List.mem_singleton.mp inVar).symm

theorem var_bind (x : Name) : bind .var x x = .var := by
  funext y
  by_cases same : y = x
  · rw [same, bind_self]
  · rw [bind_of_ne same]

end Substitution

/-- A term where every name stands for itself is left as it is. -/
theorem Term.substitute_var (term : Term) : term.substitute .var = term := by
  induction term <;> simp_all [substitute, Substitution.binder_var, Substitution.var_bind]

/-! ## Nameless terms -/

namespace Nameless

/-- An annotated term; if the type is `Absurd`, it does not matter which term. -/
def annotate (type expr : Nameless) : Nameless :=
  if type = absurd then theAbsurd else the type expr

/-- The term with other terms, which refer to no binder, put in place of the free names. -/
def substitute (images : Name → Nameless) : Nameless → Nameless
  | var (.bound index) => var (.bound index)
  | var (.free x) => images x
  | pi domain range => pi (domain.substitute images) (range.substitute images)
  | lam body => lam (body.substitute images)
  | app function argument => app (function.substitute images) (argument.substitute images)
  | sigma carType cdrType => sigma (carType.substitute images) (cdrType.substitute images)
  | cons first second => cons (first.substitute images) (second.substitute images)
  | car pair => car (pair.substitute images)
  | cdr pair => cdr (pair.substitute images)
  | nat => nat
  | zero => zero
  | add1 predecessor => add1 (predecessor.substitute images)
  | indNat target motive base step =>
      indNat (target.substitute images) (motive.substitute images) (base.substitute images)
        (step.substitute images)
  | equal type left right =>
      equal (type.substitute images) (left.substitute images) (right.substitute images)
  | same => same
  | replace target motive base =>
      replace (target.substitute images) (motive.substitute images) (base.substitute images)
  | trivial => trivial
  | sole => sole
  | absurd => absurd
  | indAbsurd target motive => indAbsurd (target.substitute images) (motive.substitute images)
  | atom => atom
  | tick symbol => tick symbol
  | univ => univ
  | theAbsurd => theAbsurd
  | the type expr => annotate (type.substitute images) (expr.substitute images)

end Nameless

namespace Term

/-- The nameless form depends on what the free variables refer to, and on no other binder. -/
theorem nameless_congr {binders binders' : List Name} {term : Term}
    (same : ∀ x ∈ term.free, Reference.resolve binders x = Reference.resolve binders' x) :
    term.nameless binders = term.nameless binders' := by
  have below {x : Name} {body : Term} {binders binders' : List Name}
      (same : ∀ y ∈ body.free.filter (· != x),
        Reference.resolve binders y = Reference.resolve binders' y) :
      ∀ y ∈ body.free, Reference.resolve (x :: binders) y = Reference.resolve (x :: binders') y := by
    intro y mem
    rw [Reference.resolve, Reference.resolve]
    by_cases here : y = x
    · rw [if_pos here, if_pos here]
    · rw [if_neg here, if_neg here, same y (List.mem_filter.mpr ⟨mem, bne_iff_ne.mpr here⟩)]
  induction term generalizing binders binders' with
  | var x => rw [nameless, nameless, same x (List.mem_singleton_self x)]
  | nat | zero | same | trivial | sole | absurd | atom | tick | univ => rfl
  | lam x body bodyIH => rw [nameless, nameless, bodyIH (below same)]
  | pi x first second firstIH secondIH | sigma x first second firstIH secondIH =>
      simp only [free, within_append_iff] at same
      rw [nameless, nameless, firstIH same.1, secondIH (below same.2)]
  | car part partIH | cdr part partIH | add1 part partIH => rw [nameless, nameless, partIH same]
  | app first second firstIH secondIH | cons first second firstIH secondIH
  | indAbsurd first second firstIH secondIH | the first second firstIH secondIH =>
      simp only [free, within_append_iff] at same
      rw [nameless, nameless, firstIH same.1, secondIH same.2]
  | equal first second third firstIH secondIH thirdIH
  | replace first second third firstIH secondIH thirdIH =>
      simp only [free, within_append_iff] at same
      rw [nameless, nameless, firstIH same.1.1, secondIH same.1.2, thirdIH same.2]
  | indNat target motive base step targetIH motiveIH baseIH stepIH =>
      simp only [free, within_append_iff] at same
      rw [nameless, nameless, targetIH same.1.1.1, motiveIH same.1.1.2, baseIH same.1.2,
        stepIH same.2]

theorem nameless_eq_absurd_iff {binders : List Name} {term : Term} :
    term.nameless binders = .absurd ↔ term = absurd := by
  cases term <;> simp [nameless, ite_eq_iff]

end Term

/-- What a substitution looks like below binders, for the names that are needed there: a bound name has
its binder of the result in its place, every other name has the original term, and no binder has
captured a variable of it. -/
structure Substitution.Below (original : Substitution) (needed binders binders' : List Name)
    (substitution : Substitution) : Prop where
  bound : ∀ x ∈ needed, x ∈ binders →
    ∃ x', substitution x = .var x' ∧ Reference.resolve binders' x' = Reference.resolve binders x
  unbound : ∀ x ∈ needed, x ∉ binders →
    substitution x = original x ∧ ∀ y ∈ (original x).free, y ∉ binders'

namespace Substitution.Below

variable {original substitution : Substitution} {needed binders binders' : List Name}

theorem start (substitution : Substitution) (needed : List Name) :
    substitution.Below needed [] [] substitution :=
  ⟨fun _ _ bound => (by cases bound), fun _ _ _ => ⟨rfl, fun _ _ => List.not_mem_nil⟩⟩

theorem fewer (below : original.Below needed binders binders' substitution) {part : List Name}
    (included : part ⊆ needed := by simp +contextual [Term.free, List.subset_def]) :
    original.Below part binders binders' substitution :=
  ⟨fun x mem => below.bound x (included mem), fun x mem => below.unbound x (included mem)⟩

/-- Below one more binder, which is renamed so that it captures nothing. -/
theorem bind {x : Name} {body : Term}
    (below : original.Below (body.free.filter (· != x)) binders binders' substitution) :
    original.Below body.free (x :: binders) (substitution.binder x body :: binders')
      (substitution.bind x (substitution.binder x body)) := by
  have older {y : Name} (free : y ∈ body.free) (different : y ≠ x) :
      y ∈ body.free.filter (· != x) := List.mem_filter.mpr ⟨free, bne_iff_ne.mpr different⟩
  constructor
  · intro y free bound
    by_cases here : y = x
    · subst here
      exact ⟨_, bind_self _, by simp [Reference.resolve]⟩
    · obtain ⟨y', found, sameBinder⟩ :=
        below.bound y (older free here) ((List.mem_cons.mp bound).resolve_left here)
      have apart : y' ≠ substitution.binder x body := by
        have notFree : substitution.binder x body ∉ (substitution y).free := binder_not_mem free here
        rw [found] at notFree
        exact fun same => notFree (List.mem_singleton.mpr same.symm)
      refine ⟨y', by rw [bind_of_ne here, found], ?_⟩
      rw [Reference.resolve, Reference.resolve, if_neg apart, if_neg here, sameBinder]
  · intro y free unbound
    rw [List.mem_cons, not_or] at unbound
    obtain ⟨different, unboundOutside⟩ := unbound
    obtain ⟨kept, notCaptured⟩ := below.unbound y (older free different) unboundOutside
    refine ⟨by rw [bind_of_ne different, kept], fun z mem => ?_⟩
    rw [List.mem_cons, not_or]
    refine ⟨fun same => ?_, notCaptured z mem⟩
    subst same
    exact binder_not_mem free different (kept ▸ mem)

end Substitution.Below

theorem Term.nameless_substitute_below {original substitution : Substitution} {term : Term}
    {binders binders' : List Name}
    (below : original.Below term.free binders binders' substitution) :
    (term.substitute substitution).nameless binders' =
      (term.nameless binders).substitute fun x => (original x).nameless [] := by
  induction term generalizing substitution binders binders' with
  | var x =>
      rw [substitute, nameless]
      by_cases bound : x ∈ binders
      · obtain ⟨x', found, sameBinder⟩ := below.bound x (List.mem_singleton_self x) bound
        obtain ⟨index, isBound⟩ := Reference.exists_resolve_eq_bound bound
        rw [found, nameless, sameBinder, isBound, Nameless.substitute]
      · obtain ⟨kept, notCaptured⟩ := below.unbound x (List.mem_singleton_self x) bound
        rw [kept, Reference.resolve_of_not_mem bound, Nameless.substitute]
        exact nameless_congr fun y mem => Reference.resolve_of_not_mem (notCaptured y mem)
  | nat | zero | same | trivial | sole | absurd | atom | tick | univ => rfl
  | lam x body bodyIH => rw [substitute, nameless, nameless, Nameless.substitute, bodyIH below.bind]
  | pi x first second firstIH secondIH | sigma x first second firstIH secondIH =>
      rw [substitute, nameless, nameless, Nameless.substitute, firstIH below.fewer,
        secondIH below.fewer.bind]
  | car part partIH | cdr part partIH | add1 part partIH =>
      rw [substitute, nameless, nameless, Nameless.substitute, partIH below]
  | app first second firstIH secondIH | cons first second firstIH secondIH
  | indAbsurd first second firstIH secondIH =>
      rw [substitute, nameless, nameless, Nameless.substitute, firstIH below.fewer,
        secondIH below.fewer]
  | equal first second third firstIH secondIH thirdIH
  | replace first second third firstIH secondIH thirdIH =>
      rw [substitute, nameless, nameless, Nameless.substitute, firstIH below.fewer,
        secondIH below.fewer, thirdIH below.fewer]
  | indNat target motive base step targetIH motiveIH baseIH stepIH =>
      rw [substitute, nameless, nameless, Nameless.substitute, targetIH below.fewer,
        motiveIH below.fewer, baseIH below.fewer, stepIH below.fewer]
  | the type expr typeIH exprIH =>
      have typeSame := typeIH below.fewer
      have exprSame := exprIH below.fewer
      rw [substitute, nameless, nameless]
      by_cases isAbsurd : type = absurd
      · subst isAbsurd
        rfl
      · -- The type may become `Absurd`, if a term is put in place of the whole of it.
        rw [if_neg isAbsurd, Nameless.substitute, Nameless.annotate, ← typeSame, ← exprSame]
        simp only [nameless_eq_absurd_iff]

/-- Putting a substitution into a term is replacing the free names of its nameless form, where no binder
has a name to capture anything with. -/
theorem Term.nameless_substitute (substitution : Substitution) (term : Term) :
    (term.substitute substitution).nameless [] =
      (term.nameless []).substitute fun x => (substitution x).nameless [] :=
  nameless_substitute_below (.start substitution term.free)

-- A binder that would capture a variable is renamed, and one that hides the name is left alone.
example :
    (Term.lam "y" (.app (.var "x") (.var "y"))).substitute (.single "x" (.var "y")) =
        .lam "y'" (.app (.var "y") (.var "y'")) ∧
      (Term.lam "x" (.app (.var "x") (.var "y"))).substitute (.single "x" (.var "y")) =
        .lam "x" (.app (.var "x") (.var "y")) := by
  decide

end LambdaCalculi.Dependent
