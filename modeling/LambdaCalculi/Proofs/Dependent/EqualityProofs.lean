import LambdaCalculi.Proofs.Dependent.CheckingSafety

/-!
# Proofs of equality are honest

A program whose result is a proof of an equality gives the canonical proof, and the two sides of the
equality, which are in normal form, are alpha-equivalent. The result of a program has no free
variables, so a proof of an equality is not neutral; it is canonical, and then the sides have one
meaning. Normal forms of one element are alpha-equivalent. This holds for every program that has a
result, also where names with one fingerprint hide each other.
-/

set_option autoImplicit false

namespace LambdaCalculi.Dependent

open Domain Outcome

/-- A value without free variables that proves an equality is canonical, and the sides of the
equality have one meaning. -/
theorem Value.Means.canonical_proof [Lookups] {type value : Value} {code meaning : Meaning}
    (typeMeans : type.Means .empty code (.leaf .univ)) (valueMeans : value.Means .empty meaning code)
    (former : Headed .equal (code World.empty.generic)) :
    Headed .same (part 2 (meaning World.empty.generic)) ∧
      part 1 (code World.empty.generic) = part 2 (code World.empty.generic) := by
  have admits := World.empty.admits_generic
  have typeFormer := typeMeans.former ((former .equal).mpr rfl)
  cases type with
  | equal inner left right =>
      obtain ⟨denotes, shows⟩ := typeMeans
      cases denotes with
      | equal innerMeans leftMeans rightMeans =>
          have isOver := innerMeans.element.isOver.equal leftMeans.element.isOver
            rightMeans.element.isOver
          rcases (valueMeans.retype isOver shows.agree.symm).equality_cases with
            ⟨_, sidesAgree, agree⟩ | ⟨_, _, _, _, _, _, _, _, blockedMeans⟩
          · refine ⟨?_, ?_⟩
            · rw [agree _ admits, part_two_proof]
              exact headed_same
            · rw [shows.agree _ admits]
              simp only [Meaning.equal, Domain.equal, part_one_node, part_two_node]
              exact sidesAgree _ admits
          · exact blockedMeans.not_closed.elim
  | _ => cases typeFormer

/-- Whatever a program went through, if its result proves an equality then the sides of the equality
are alpha-equivalent, and the proof is the canonical one. -/
theorem Program.alphaEquiv_of_run_equal (program : Program) (fuel : Nat) {type left right proof : Term}
    (run : (program.run fuel : Checking NormalForm).outcome =
      .done ⟨.equal type left right, proof⟩) :
    left.alphaEquiv right = true ∧ proof = .same := by
  -- Names need not be found: it is enough that this run has a result.
  let _ : Lookups := ⟨False⟩
  have checks := program.checks_run False.elim fuel
  rw [Checks, run] at checks
  obtain ⟨typeValue, value, typeMeaning, meaning, readFrom⟩ := checks
  cases readFrom.typeReads.normal with
  | equal former _ leftNormal rightNormal =>
      obtain ⟨head, sides⟩ := readFrom.typeMeans.canonical_proof readFrom.valueMeans former
      rw [sides] at leftNormal
      refine ⟨leftNormal.unique rightNormal .nil, ?_⟩
      cases readFrom.valueReads.normal with
      | same => rfl
      | proof _ head' _ => cases head.unique head'
      | _ => cases former.unique ‹_›
  | neutral _ normal => cases normal

/-- From two assumptions of the empty type, a number is eliminated out of the first or out of the
second; replacement along the equality of the two functions gives the equality again. -/
def eitherElimination : Program :=
  let type : Term := .pi "f" .absurd (.pi "g" .absurd .nat)
  ⟨[⟨"first", .the type (.lam "f" (.lam "g" (.indAbsurd (.var "f") .nat)))⟩,
      ⟨"second", .the type (.lam "f" (.lam "g" (.indAbsurd (.var "g") .nat)))⟩],
    .replace (.the (.equal type (.var "first") (.var "second")) .same)
      (.lam "x" (.equal type (.var "first") (.var "x"))) .same⟩

theorem eitherElimination_alphaEquiv :
    let type : Term := .pi "f" .absurd (.pi "g" .absurd .nat)
    let side : Name → Term := fun x =>
      .lam "f" (.lam "g" (.indAbsurd (.the .absurd (.var x)) .nat))
    ∃ proof, (eitherElimination.run 11 : Checking NormalForm).outcome =
        .done ⟨.equal type (side "f") (side "g"), proof⟩ ∧
      (side "f").alphaEquiv (side "g") = true ∧ proof = .same := by
  intro type side
  have run : (eitherElimination.run 11 : Checking NormalForm).outcome =
      .done ⟨.equal type (side "f") (side "g"), .same⟩ := by decide +kernel
  exact ⟨.same, run, eitherElimination.alphaEquiv_of_run_equal 11 run⟩

end LambdaCalculi.Dependent
