import LambdaCalculi.Proofs.Dependent.Renaming
import Mathlib.Logic.Basic

/-!
# Nameless terms of the dependent calculus

A nameless term refers to a binder by the number of binders in between, so it forgets how binders are
spelled. It also forgets which member of the empty type an annotation with `Absurd` is about. Nothing
else is lost: two terms have the same nameless form exactly when they are alpha-equivalent, and what
holds of equality holds of alpha-equivalence.
-/

set_option autoImplicit false

namespace LambdaCalculi.Dependent

/-- What a variable refers to: the binder with the given number of binders inside it, or a free name. -/
inductive Reference where
  | bound (index : Nat)
  | free (x : Name)
deriving DecidableEq, Repr

namespace Reference

def outward : Reference → Reference
  | bound index => bound (index + 1)
  | free x => free x

/-- What a name refers to below the binders listed, the innermost first. -/
def resolve : List Name → Name → Reference
  | [], x => free x
  | y :: outer, x => if x = y then bound 0 else (resolve outer x).outward

theorem outward_inj {left right : Reference} : left.outward = right.outward ↔ left = right := by
  cases left <;> cases right <;> simp [outward]

theorem resolve_of_not_mem {binders : List Name} {x : Name} (unbound : x ∉ binders) :
    resolve binders x = free x := by
  induction binders with
  | nil => rfl
  | cons y outer ih =>
      rw [List.mem_cons, not_or] at unbound
      obtain ⟨different, unboundOuter⟩ := unbound
      rw [resolve, if_neg different, ih unboundOuter, outward]

theorem exists_resolve_eq_bound {binders : List Name} {x : Name} (bound : x ∈ binders) :
    ∃ index, resolve binders x = .bound index := by
  induction binders with
  | nil => cases bound
  | cons y outer ih =>
      rw [resolve]
      by_cases here : x = y
      · exact ⟨0, if_pos here⟩
      · obtain ⟨index, found⟩ := ih ((List.mem_cons.mp bound).resolve_left here)
        exact ⟨index + 1, by rw [if_neg here, found, outward]⟩

theorem outward_ne_bound_zero (reference : Reference) : reference.outward ≠ bound 0 := by
  cases reference <;> simp [outward]

end Reference

inductive Nameless where
  | var (reference : Reference)
  | pi (domain range : Nameless)
  | lam (body : Nameless)
  | app (function argument : Nameless)
  | sigma (carType cdrType : Nameless)
  | cons (first second : Nameless)
  | car (pair : Nameless)
  | cdr (pair : Nameless)
  | nat
  | zero
  | add1 (predecessor : Nameless)
  | indNat (target motive base step : Nameless)
  | equal (type left right : Nameless)
  | same
  | replace (target motive base : Nameless)
  | trivial
  | sole
  | absurd
  | indAbsurd (target motive : Nameless)
  | atom
  | tick (symbol : String)
  | univ
  /-- Some member of the empty type, annotated as such. -/
  | theAbsurd
  | the (type expr : Nameless)
deriving DecidableEq, Repr

namespace Term

def nameless (binders : List Name) : Term → Nameless
  | var x => .var (.resolve binders x)
  | pi x domain range => .pi (domain.nameless binders) (range.nameless (x :: binders))
  | lam x body => .lam (body.nameless (x :: binders))
  | app function argument => .app (function.nameless binders) (argument.nameless binders)
  | sigma x carType cdrType => .sigma (carType.nameless binders) (cdrType.nameless (x :: binders))
  | cons first second => .cons (first.nameless binders) (second.nameless binders)
  | car pair => .car (pair.nameless binders)
  | cdr pair => .cdr (pair.nameless binders)
  | nat => .nat
  | zero => .zero
  | add1 predecessor => .add1 (predecessor.nameless binders)
  | indNat target motive base step =>
      .indNat (target.nameless binders) (motive.nameless binders) (base.nameless binders)
        (step.nameless binders)
  | equal type left right =>
      .equal (type.nameless binders) (left.nameless binders) (right.nameless binders)
  | same => .same
  | replace target motive base =>
      .replace (target.nameless binders) (motive.nameless binders) (base.nameless binders)
  | trivial => .trivial
  | sole => .sole
  | absurd => .absurd
  | indAbsurd target motive => .indAbsurd (target.nameless binders) (motive.nameless binders)
  | atom => .atom
  | tick symbol => .tick symbol
  | univ => .univ
  | the type expr =>
      if type = absurd then .theAbsurd else .the (type.nameless binders) (expr.nameless binders)

end Term

/-- Pairs of binders relate two names exactly when these refer to the same on their sides. -/
theorem BinderPairs.relates_iff_resolve_eq (binders : BinderPairs) (x y : Name) :
    binders.relates x y = true ↔
      Reference.resolve (binders.map Prod.fst) x = Reference.resolve (binders.map Prod.snd) y := by
  induction binders with
  | nil => simp [relates, Reference.resolve]
  | cons pair outer ih =>
      obtain ⟨left, right⟩ := pair
      rw [relates_cons_iff, ih]
      have leftOutward := (Reference.resolve (outer.map Prod.fst) x).outward_ne_bound_zero
      have rightOutward := (Reference.resolve (outer.map Prod.snd) y).outward_ne_bound_zero
      by_cases first : x = left <;> by_cases second : y = right <;>
        simp [Reference.resolve, Reference.outward_inj, first, second, leftOutward, rightOutward.symm]

namespace Term

/-- Below pairs of binders, alpha-equivalence is equality of the nameless forms. -/
theorem alphaEquivUnder_iff_nameless_eq (binders : BinderPairs) (left right : Term) :
    left.alphaEquivUnder binders right = true ↔
      left.nameless (binders.map Prod.fst) = right.nameless (binders.map Prod.snd) := by
  induction left generalizing binders right with
  | var x =>
      cases right <;>
        simp [alphaEquivUnder, nameless, BinderPairs.relates_iff_resolve_eq, eq_ite_iff]
  | pi x domain range domainIH rangeIH =>
      cases right <;> simp [alphaEquivUnder, nameless, domainIH, rangeIH, eq_ite_iff]
  | lam x body bodyIH => cases right <;> simp [alphaEquivUnder, nameless, bodyIH, eq_ite_iff]
  | app function argument functionIH argumentIH =>
      cases right <;> simp [alphaEquivUnder, nameless, functionIH, argumentIH, eq_ite_iff]
  | sigma x carType cdrType carIH cdrIH =>
      cases right <;> simp [alphaEquivUnder, nameless, carIH, cdrIH, eq_ite_iff]
  | cons first second firstIH secondIH =>
      cases right <;> simp [alphaEquivUnder, nameless, firstIH, secondIH, eq_ite_iff]
  | car pair pairIH | cdr pair pairIH =>
      cases right <;> simp [alphaEquivUnder, nameless, pairIH, eq_ite_iff]
  | add1 predecessor predecessorIH =>
      cases right <;> simp [alphaEquivUnder, nameless, predecessorIH, eq_ite_iff]
  | indNat target motive base step targetIH motiveIH baseIH stepIH =>
      cases right <;>
        simp [alphaEquivUnder, nameless, targetIH, motiveIH, baseIH, stepIH, eq_ite_iff, and_assoc]
  | equal type first second typeIH firstIH secondIH =>
      cases right <;>
        simp [alphaEquivUnder, nameless, typeIH, firstIH, secondIH, eq_ite_iff, and_assoc]
  | replace target motive base targetIH motiveIH baseIH =>
      cases right <;>
        simp [alphaEquivUnder, nameless, targetIH, motiveIH, baseIH, eq_ite_iff, and_assoc]
  | indAbsurd target motive targetIH motiveIH =>
      cases right <;> simp [alphaEquivUnder, nameless, targetIH, motiveIH, eq_ite_iff]
  | nat | zero | same | trivial | sole | absurd | atom | univ | tick =>
      cases right <;> simp [alphaEquivUnder, nameless, eq_ite_iff]
  | the type expr typeIH exprIH =>
      cases right with
      | the type' expr' =>
          -- Nothing else is alpha-equivalent to `Absurd`, so a collapsed annotation meets collapsed
          -- ones alone.
          by_cases collapsed : type = absurd <;> by_cases collapsed' : type' = absurd <;>
            simp [alphaEquivUnder, nameless, collapsed, collapsed', typeIH, exprIH]
      | _ => simp [alphaEquivUnder, nameless, ite_eq_iff]

/-- Two terms are alpha-equivalent exactly when they have one nameless form, whatever their binders
hide and whichever names are free in them, so alpha-equivalence is an equivalence of all terms. -/
theorem alphaEquiv_iff_nameless_eq :
    (∀ left right : Term, left.alphaEquiv right = true ↔ left.nameless [] = right.nameless []) ∧
      Equivalence fun left right : Term => left.alphaEquiv right = true := by
  have sameForm (left right : Term) :
      left.alphaEquiv right = true ↔ left.nameless [] = right.nameless [] :=
    alphaEquivUnder_iff_nameless_eq [] left right
  refine ⟨sameForm, ?_, ?_, ?_⟩
  · intro term
    exact (sameForm term term).mpr rfl
  · intro left right equivalent
    exact (sameForm right left).mpr ((sameForm left right).mp equivalent).symm
  · intro left middle right first second
    exact (sameForm left right).mpr
      (((sameForm left middle).mp first).trans ((sameForm middle right).mp second))

-- A name bound on one side and free on the other keeps the two apart, also below a binder that hides it.
example :
    (lam "x" (lam "x" (var "x"))).alphaEquiv (lam "x" (lam "y" (var "x"))) = false ∧
      (lam "x" (lam "y" (var "y"))).alphaEquiv (lam "y" (lam "y" (var "y"))) = true := by
  decide

end Term

end LambdaCalculi.Dependent
