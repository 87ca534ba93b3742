import LambdaCalculi.Proofs.Untyped.Nameless
import Mathlib.Logic.Relation

/-!
# Beta-reduction

One step contracts one redex, wherever it stands. Reduction is confluent: parallel steps contract any
number of redexes at once, and whatever a term becomes in one of them goes on in another to the
complete development of the term, in which every redex has been contracted. So convertible terms
have a common reduct, and normal forms are unique.
-/

set_option autoImplicit false

namespace LambdaCalculi.Untyped

open Relation (ReflTransGen)

namespace Nameless

inductive Step : Nameless → Nameless → Prop where
  | beta (body argument : Nameless) : Step (.app (.lam body) argument) (body.instantiate argument)
  | lam {body body' : Nameless} (inside : Step body body') : Step (.lam body) (.lam body')
  | function {function function' : Nameless} (argument : Nameless)
      (inside : Step function function') : Step (.app function argument) (.app function' argument)
  | argument {argument argument' : Nameless} (function : Nameless)
      (inside : Step argument argument') : Step (.app function argument) (.app function argument')

abbrev Reduces : Nameless → Nameless → Prop :=
  ReflTransGen Step

abbrev Convertible : Nameless → Nameless → Prop :=
  Relation.EqvGen Step

namespace Reduces

theorem lam {body body' : Nameless} (reduces : Reduces body body') :
    Reduces (.lam body) (.lam body') :=
  ReflTransGen.lift Nameless.lam (fun _ _ => Step.lam) _ _ reduces

theorem app {function function' argument argument' : Nameless}
    (functionReduces : Reduces function function') (argumentReduces : Reduces argument argument') :
    Reduces (.app function argument) (.app function' argument') := by
  have first : Reduces (.app function argument) (.app function' argument) :=
    ReflTransGen.lift (Nameless.app · argument) (fun _ _ => Step.function argument) _ _
      functionReduces
  have second : Reduces (.app function' argument) (.app function' argument') :=
    ReflTransGen.lift (Nameless.app function') (fun _ _ => Step.argument function') _ _
      argumentReduces
  exact first.trans second

theorem convertible {first last : Nameless} (reduces : Reduces first last) :
    Convertible first last := by
  induction reduces with
  | refl => exact .refl _
  | tail _ step ih => exact ih.trans _ _ _ (.rel _ _ step)

end Reduces

/-- Any number of the redexes in a term are contracted at once. -/
inductive Parallel : Nameless → Nameless → Prop where
  | bound (index : Nat) : Parallel (.bound index) (.bound index)
  | free (x : Name) : Parallel (.free x) (.free x)
  | lam {body body' : Nameless} (inside : Parallel body body') : Parallel (.lam body) (.lam body')
  | app {function function' argument argument' : Nameless}
      (functionInside : Parallel function function')
      (argumentInside : Parallel argument argument') :
      Parallel (.app function argument) (.app function' argument')
  | beta {body body' argument argument' : Nameless} (bodyInside : Parallel body body')
      (argumentInside : Parallel argument argument') :
      Parallel (.app (.lam body) argument) (body'.instantiate argument')

namespace Parallel

theorem refl (term : Nameless) : Parallel term term := by
  induction term with
  | bound index => exact bound index
  | free x => exact free x
  | lam body ih => exact lam ih
  | app function argument functionIH argumentIH => exact app functionIH argumentIH

theorem rename {term term' : Nameless} (parallel : Parallel term term') (mapping : Nat → Nat) :
    Parallel (term.rename mapping) (term'.rename mapping) := by
  induction parallel generalizing mapping with
  | bound index => exact refl _
  | free x => exact refl _
  | lam _ ih => exact lam (ih _)
  | app _ _ functionIH argumentIH => exact app (functionIH mapping) (argumentIH mapping)
  | beta _ _ bodyIH argumentIH =>
      rw [rename_instantiate]
      exact beta (bodyIH _) (argumentIH mapping)

theorem lift {substitution substitution' : Nat → Nameless}
    (parallel : ∀ index, Parallel (substitution index) (substitution' index)) (index : Nat) :
    Parallel (Nameless.lift substitution index) (Nameless.lift substitution' index) := by
  cases index with
  | zero => exact bound 0
  | succ index => exact (parallel index).rename (· + 1)

theorem subst {term term' : Nameless} (parallel : Parallel term term')
    {substitution substitution' : Nat → Nameless}
    (parallels : ∀ index, Parallel (substitution index) (substitution' index)) :
    Parallel (term.subst substitution) (term'.subst substitution') := by
  induction parallel generalizing substitution substitution' with
  | bound index => exact parallels index
  | free x => exact free x
  | lam _ ih => exact lam (ih (lift parallels))
  | app _ _ functionIH argumentIH => exact app (functionIH parallels) (argumentIH parallels)
  | beta _ _ bodyIH argumentIH =>
      rw [subst_instantiate]
      exact beta (bodyIH (lift parallels)) (argumentIH parallels)

theorem instantiate {body body' argument argument' : Nameless} (bodyParallel : Parallel body body')
    (argumentParallel : Parallel argument argument') :
    Parallel (body.instantiate argument) (body'.instantiate argument') := by
  refine bodyParallel.subst ?_
  intro index
  cases index with
  | zero => exact argumentParallel
  | succ index => exact bound index

end Parallel

theorem Step.parallel {term term' : Nameless} (step : Step term term') : Parallel term term' := by
  induction step with
  | beta body argument => exact .beta (.refl body) (.refl argument)
  | lam _ ih => exact .lam ih
  | function argument _ ih => exact .app ih (.refl argument)
  | argument function _ ih => exact .app (.refl function) ih

theorem Parallel.reduces {term term' : Nameless} (parallel : Parallel term term') :
    Reduces term term' := by
  induction parallel with
  | bound index => exact .refl
  | free x => exact .refl
  | lam _ ih => exact ih.lam
  | app _ _ functionIH argumentIH => exact functionIH.app argumentIH
  | beta _ _ bodyIH argumentIH => exact (bodyIH.lam.app argumentIH).tail (.beta _ _)

def develop : Nameless → Nameless
  | bound index => bound index
  | free x => free x
  | lam body => lam body.develop
  | app (lam body) argument => body.develop.instantiate argument.develop
  | app function argument => app function.develop argument.develop

/-- What a parallel step has left to contract, another one does. -/
theorem Parallel.develop {term term' : Nameless} (parallel : Parallel term term') :
    Parallel term' term.develop := by
  induction parallel with
  | bound index => exact bound index
  | free x => exact free x
  | lam _ ih => exact lam ih
  | app functionInside _ functionIH argumentIH =>
      cases functionInside with
      | bound index => exact app functionIH argumentIH
      | free x => exact app functionIH argumentIH
      | lam _ =>
          cases functionIH with
          | lam bodyIH => exact beta bodyIH argumentIH
      | app _ _ => exact app functionIH argumentIH
      | beta _ _ => exact app functionIH argumentIH
  | beta _ _ bodyIH argumentIH => exact bodyIH.instantiate argumentIH

theorem reduces_of_parallel {first last : Nameless} (parallels : ReflTransGen Parallel first last) :
    Reduces first last := by
  induction parallels with
  | refl => exact .refl
  | tail _ parallel ih => exact ih.trans parallel.reduces

/-- Convertible terms have a common reduct. -/
theorem Convertible.common_reduct {left right : Nameless} (convertible : Convertible left right) :
    ∃ common, Reduces left common ∧ Reduces right common := by
  have joinable : Equivalence (Relation.Join (ReflTransGen Parallel)) :=
    Relation.equivalence_join_reflTransGen fun term _ _ first second =>
      ⟨term.develop, .single first.develop, .single second.develop⟩
  have joined : Relation.Join (ReflTransGen Parallel) left right := by
    induction convertible with
    | rel left right step => exact ⟨right, .single step.parallel, .refl⟩
    | refl term => exact joinable.refl term
    | symm _ _ _ ih => exact joinable.symm ih
    | trans _ _ _ _ _ first second => exact joinable.trans first second
  obtain ⟨common, leftParallels, rightParallels⟩ := joined
  exact ⟨common, reduces_of_parallel leftParallels, reduces_of_parallel rightParallels⟩

theorem Reduces.eq_of_irreducible {first last : Nameless} (reduces : Reduces first last)
    (irreducible : ∀ next, ¬ Step first next) : first = last := by
  rcases reduces.cases_head with same | ⟨next, step, _⟩
  · exact same
  · exact absurd step (irreducible next)

/-- A class of convertible terms has at most one normal form. -/
theorem Convertible.eq_of_irreducible {left right : Nameless} (convertible : Convertible left right)
    (leftIrreducible : ∀ next, ¬ Step left next) (rightIrreducible : ∀ next, ¬ Step right next) :
    left = right := by
  obtain ⟨common, leftReduces, rightReduces⟩ := convertible.common_reduct
  exact (leftReduces.eq_of_irreducible leftIrreducible).trans
    (rightReduces.eq_of_irreducible rightIrreducible).symm

end Nameless

namespace Term

def isFunction : Term → Bool
  | lam _ _ => true
  | _ => false

def Normal : Term → Prop
  | var _ => True
  | lam _ body => body.Normal
  | app function argument =>
      function.isFunction = false ∧ function.Normal ∧ argument.Normal

instance decidableNormal : DecidablePred Normal
  | var _ => inferInstanceAs (Decidable True)
  | lam _ body => decidableNormal body
  | app function argument =>
      have := decidableNormal function
      have := decidableNormal argument
      inferInstanceAs (Decidable (_ ∧ _ ∧ _))

theorem nameless_ne_lam {term : Term} (blocked : term.isFunction = false) (binders : List Name)
    (body : Nameless) : term.nameless binders ≠ .lam body := by
  cases term with
  | var x => by_cases bound : x ∈ binders <;> simp [nameless, bound]
  | lam x inner => cases blocked
  | app function argument => simp [nameless]

theorem Normal.irreducible {term : Term} (normal : term.Normal) (binders : List Name)
    (next : Nameless) : ¬ Nameless.Step (term.nameless binders) next := by
  intro step
  induction term generalizing binders next with
  | var x =>
      by_cases bound : x ∈ binders
      · simp only [nameless, if_pos bound] at step
        cases step
      · simp only [nameless, if_neg bound] at step
        cases step
  | lam x body ih =>
      cases step with
      | lam inside => exact ih normal _ _ inside
  | app function argument functionIH argumentIH =>
      obtain ⟨blocked, functionNormal, argumentNormal⟩ := normal
      have noRedex := nameless_ne_lam blocked binders
      have stays := functionIH functionNormal binders
      simp only [nameless] at step
      generalize function.nameless binders = head at step noRedex stays
      cases step with
      | beta body _ => exact noRedex body rfl
      | function _ inside => exact stays _ inside
      | argument _ inside => exact argumentIH argumentNormal _ _ inside

def Reduces (first last : Term) : Prop :=
  Nameless.Reduces (first.nameless []) (last.nameless [])

def Convertible (left right : Term) : Prop :=
  Nameless.Convertible (left.nameless []) (right.nameless [])

/-- Terms that reduce to normal terms are convertible exactly when these are alpha-equivalent. -/
theorem Reduces.convertible_iff {left right leftNormal rightNormal : Term}
    (leftReduces : left.Reduces leftNormal) (rightReduces : right.Reduces rightNormal)
    (leftEnds : leftNormal.Normal) (rightEnds : rightNormal.Normal) :
    left.Convertible right ↔ leftNormal.AlphaEquiv rightNormal := by
  have toLeft := Nameless.Reduces.convertible leftReduces
  have toRight := Nameless.Reduces.convertible rightReduces
  constructor
  · intro convertible
    have normals : leftNormal.Convertible rightNormal :=
      (toLeft.symm.trans _ _ _ convertible).trans _ _ _ toRight
    exact Nameless.Convertible.eq_of_irreducible normals (leftEnds.irreducible [])
      (rightEnds.irreducible [])
  · intro alike
    have same : leftNormal.nameless [] = rightNormal.nameless [] := alike
    rw [same] at toLeft
    exact toLeft.trans _ _ _ toRight.symm

end Term

end LambdaCalculi.Untyped
