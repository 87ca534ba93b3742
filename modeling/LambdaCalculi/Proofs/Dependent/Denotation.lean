import LambdaCalculi.Dependent.AlphaEquiv
import LambdaCalculi.Proofs.Dependent.Meanings

/-!
# The denotation of normal forms

Every term denotes a function of its free variables, without regard to its type: where a construct
asks for an argument of a known type, the argument is made to fit. Terms that are alpha-equivalent
denote the same. Below, the denotation of a normal form is compared with the meaning of the value it
was read back from.
-/

set_option autoImplicit false

namespace LambdaCalculi.Dependent

open Domain

namespace Term

def denote : Term → Meaning
  | var x => fun valuation => valuation x
  | pi x domain range => .pi domain.denote (.family x domain.denote range.denote)
  | lam x body => fun valuation => Domain.lam fun argument =>
      body.denote (Function.update valuation x argument)
  | app function argument => .apply function.denote argument.denote
  | sigma x carType cdrType => .sigma carType.denote (.family x carType.denote cdrType.denote)
  | cons first second => .pair first.denote second.denote
  | car pair => .part 0 pair.denote
  | cdr pair => .part 1 pair.denote
  | nat => .leaf .nat
  | zero => .leaf .zero
  | add1 predecessor => .add1 predecessor.denote
  | indNat target motive base step =>
      .ind target.denote motive.denote
        (fun valuation => fit ((motive.denote valuation).apply (Domain.leaf .zero))
          (base.denote valuation))
        (fun valuation => fit (Domain.stepType (motive.denote valuation)) (step.denote valuation))
  | equal type left right =>
      .equal type.denote (fun valuation => fit (type.denote valuation) (left.denote valuation))
        (fun valuation => fit (type.denote valuation) (right.denote valuation))
  | same => fun _ => proof ∅ ∅ ∅ Domain.same
  | replace target motive base =>
      .replace target.denote motive.denote fun valuation =>
        fit ((motive.denote valuation).apply (leftSide (target.denote valuation)))
          (base.denote valuation)
  | trivial => .leaf .trivial
  | sole => fun _ => ∅
  | absurd => .leaf .absurd
  | indAbsurd _ motive => motive.denote.indAbsurd
  | atom => .leaf .atom
  | tick symbol => .leaf (.tick symbol)
  | univ => .leaf .univ
  | the type expr => fun valuation => fit (type.denote valuation) (expr.denote valuation)

theorem finitary_denote (term : Term) : Finitary term.denote := by
  induction term with
  | var x => exact .place x
  | pi x domain range domainFinitary rangeFinitary =>
      exact .node .pi domainFinitary (Meaning.finitary_family x domainFinitary rangeFinitary) (.const ∅)
  | lam x body bodyFinitary => exact Meaning.finitary_lam_update bodyFinitary x
  | app function argument functionFinitary argumentFinitary =>
      exact functionFinitary.apply argumentFinitary
  | sigma x carType cdrType carFinitary cdrFinitary =>
      exact .node .sigma carFinitary (Meaning.finitary_family x carFinitary cdrFinitary) (.const ∅)
  | cons first second firstFinitary secondFinitary =>
      exact .node .pair firstFinitary secondFinitary (.const ∅)
  | car pair pairFinitary => exact pairFinitary.part 0
  | cdr pair pairFinitary => exact pairFinitary.part 1
  | add1 predecessor predecessorFinitary =>
      exact .node .add1 predecessorFinitary (.const ∅) (.const ∅)
  | indNat target motive base step targetFinitary motiveFinitary baseFinitary stepFinitary =>
      have zeroFinitary := motiveFinitary.apply (.const (Domain.leaf .zero))
      have stepTypeFinitary : Finitary fun valuation => Domain.stepType (motive.denote valuation) :=
        .node .pi (.const _) (finitary_stepRange motiveFinitary) (.const ∅)
      exact finitary_ind targetFinitary motiveFinitary
        (continuous_fit.finitary zeroFinitary baseFinitary)
        (continuous_fit.finitary stepTypeFinitary stepFinitary)
  | equal type left right typeFinitary leftFinitary rightFinitary =>
      exact .node .equal typeFinitary (continuous_fit.finitary typeFinitary leftFinitary)
        (continuous_fit.finitary typeFinitary rightFinitary)
  | replace target motive base targetFinitary motiveFinitary baseFinitary =>
      have leftFinitary := motiveFinitary.apply ((targetFinitary.part 1).part 0)
      exact finitary_replace targetFinitary motiveFinitary
        (continuous_fit.finitary leftFinitary baseFinitary)
  | indAbsurd target motive _ motiveFinitary =>
      exact finitary_indAbsurd motiveFinitary
  | the type expr typeFinitary exprFinitary =>
      exact continuous_fit.finitary typeFinitary exprFinitary
  | nat | zero | same | trivial | sole | absurd | atom | tick | univ => exact .const _

end Term

/-! ## Alpha-equivalence -/

def BinderPairs.Relate (binders : BinderPairs) (valuation other : Valuation) : Prop :=
  ∀ x y, binders.relates x y = true → valuation x = other y

theorem BinderPairs.Relate.cons {binders : BinderPairs} {valuation other : Valuation}
    (relate : binders.Relate valuation other) (x y : Name) (element : Domain) :
    BinderPairs.Relate ((x, y) :: binders) (Function.update valuation x element)
      (Function.update other y element) := by
  intro left right related
  rw [BinderPairs.relates] at related
  by_cases bound : left = x ∨ right = y
  · rw [if_pos bound, Bool.and_eq_true, beq_iff_eq, beq_iff_eq] at related
    obtain ⟨rfl, rfl⟩ := related
    rw [Function.update_self, Function.update_self]
  · rw [if_neg bound] at related
    obtain ⟨leftFree, rightFree⟩ := not_or.mp bound
    rw [Function.update_of_ne leftFree, Function.update_of_ne rightFree]
    exact relate left right related

theorem Term.denote_eq_of_alphaEquivUnder {binders : BinderPairs} {term other : Term}
    (equiv : term.alphaEquivUnder binders other = true) {valuation valuation' : Valuation}
    (relate : binders.Relate valuation valuation') :
    term.denote valuation = other.denote valuation' := by
  induction term generalizing binders other valuation valuation' with
  | var x =>
      cases other with
      | var y => exact relate x y equiv
      | _ => cases equiv
  | pi x domain range domainIh rangeIh =>
      cases other with
      | pi y domain' range' =>
          obtain ⟨domainEquiv, rangeEquiv⟩ := Bool.and_eq_true_iff.mp equiv
          simp only [denote, Meaning.pi, Meaning.family, domainIh domainEquiv relate]
          rw [lam_congr fun argument => rangeIh rangeEquiv (relate.cons x y _)]
      | _ => cases equiv
  | lam x body ih =>
      cases other with
      | lam y body' => exact lam_congr fun argument => ih equiv (relate.cons x y argument)
      | _ => cases equiv
  | app function argument functionIh argumentIh =>
      cases other with
      | app function' argument' =>
          obtain ⟨functionEquiv, argumentEquiv⟩ := Bool.and_eq_true_iff.mp equiv
          simp only [denote, Meaning.apply, functionIh functionEquiv relate,
            argumentIh argumentEquiv relate]
      | _ => cases equiv
  | sigma x carType cdrType carIh cdrIh =>
      cases other with
      | sigma y carType' cdrType' =>
          obtain ⟨carEquiv, cdrEquiv⟩ := Bool.and_eq_true_iff.mp equiv
          simp only [denote, Meaning.sigma, Meaning.family, carIh carEquiv relate]
          rw [lam_congr fun argument => cdrIh cdrEquiv (relate.cons x y _)]
      | _ => cases equiv
  | cons first second firstIh secondIh =>
      cases other with
      | cons first' second' =>
          obtain ⟨firstEquiv, secondEquiv⟩ := Bool.and_eq_true_iff.mp equiv
          simp only [denote, Meaning.pair, firstIh firstEquiv relate, secondIh secondEquiv relate]
      | _ => cases equiv
  | car pair ih =>
      cases other with
      | car pair' => simp only [denote, Meaning.part, ih equiv relate]
      | _ => cases equiv
  | cdr pair ih =>
      cases other with
      | cdr pair' => simp only [denote, Meaning.part, ih equiv relate]
      | _ => cases equiv
  | add1 predecessor ih =>
      cases other with
      | add1 predecessor' => simp only [denote, Meaning.add1, ih equiv relate]
      | _ => cases equiv
  | indNat target motive base step targetIh motiveIh baseIh stepIh =>
      cases other with
      | indNat target' motive' base' step' =>
          obtain ⟨restEquiv, stepEquiv⟩ := Bool.and_eq_true_iff.mp equiv
          obtain ⟨scrutinyEquiv, baseEquiv⟩ := Bool.and_eq_true_iff.mp restEquiv
          obtain ⟨targetEquiv, motiveEquiv⟩ := Bool.and_eq_true_iff.mp scrutinyEquiv
          simp only [denote, Meaning.ind, targetIh targetEquiv relate, motiveIh motiveEquiv relate,
            baseIh baseEquiv relate, stepIh stepEquiv relate]
      | _ => cases equiv
  | equal type left right typeIh leftIh rightIh =>
      cases other with
      | equal type' left' right' =>
          obtain ⟨restEquiv, rightEquiv⟩ := Bool.and_eq_true_iff.mp equiv
          obtain ⟨typeEquiv, leftEquiv⟩ := Bool.and_eq_true_iff.mp restEquiv
          simp only [denote, Meaning.equal, typeIh typeEquiv relate, leftIh leftEquiv relate,
            rightIh rightEquiv relate]
      | _ => cases equiv
  | replace target motive base targetIh motiveIh baseIh =>
      cases other with
      | replace target' motive' base' =>
          obtain ⟨scrutinyEquiv, baseEquiv⟩ := Bool.and_eq_true_iff.mp equiv
          obtain ⟨targetEquiv, motiveEquiv⟩ := Bool.and_eq_true_iff.mp scrutinyEquiv
          simp only [denote, Meaning.replace, targetIh targetEquiv relate, motiveIh motiveEquiv relate,
            baseIh baseEquiv relate]
      | _ => cases equiv
  | indAbsurd target motive _ motiveIh =>
      cases other with
      | indAbsurd target' motive' =>
          obtain ⟨_, motiveEquiv⟩ := Bool.and_eq_true_iff.mp equiv
          simp only [denote, Meaning.indAbsurd, motiveIh motiveEquiv relate]
      | _ => cases equiv
  | tick symbol =>
      cases other with
      | tick symbol' =>
          rw [eq_of_beq equiv]
          rfl
      | _ => cases equiv
  | the type expr typeIh exprIh =>
      cases other with
      | the type' expr' =>
          rcases Bool.or_eq_true_iff.mp equiv with absurds | equivs
          · obtain ⟨absurdType, absurdType'⟩ := Bool.and_eq_true_iff.mp absurds
            rw [of_decide_eq_true absurdType, of_decide_eq_true absurdType']
            simp only [denote, Meaning.leaf, fit_absurd]
          · obtain ⟨typeEquiv, exprEquiv⟩ := Bool.and_eq_true_iff.mp equivs
            simp only [denote, typeIh typeEquiv relate, exprIh exprEquiv relate]
      | _ => cases equiv
  | nat | zero | same | trivial | sole | absurd | atom | univ =>
      -- A constant is equivalent to itself only.
      cases other <;> first | rfl | cases equiv

theorem Term.denote_eq_of_alphaEquiv {left right : Term} (equiv : left.alphaEquiv right = true) :
    left.denote = right.denote := by
  funext valuation
  refine denote_eq_of_alphaEquivUnder equiv fun x y related => ?_
  rw [BinderPairs.relates, beq_iff_eq] at related
  rw [related]

end LambdaCalculi.Dependent
