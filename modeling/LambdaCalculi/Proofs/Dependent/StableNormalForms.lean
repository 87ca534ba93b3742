import LambdaCalculi.Proofs.Dependent.Bounds
import LambdaCalculi.Proofs.Dependent.CheckingCompleteness
import LambdaCalculi.Proofs.Dependent.RenamedPrograms

/-!
# Normal forms are stable

The result of a program, written as an annotated term, is accepted under the definitions of the
program, and its normal form is the result again, up to the names of bound variables. The result has
the meaning of the value it was read back from, so the checker accepts it; what it evaluates to has
that meaning too, and normal forms of one meaning are alpha-equivalent.
-/

set_option autoImplicit false

namespace LambdaCalculi.Dependent

open Outcome

section Stability

variable [Lookups] {known : List Name} {world : World} {ctx : Context} {scope : Scope}
  {result : NormalForm} {typeMeaning meaning : Meaning}

/-- The parts of the result are normal forms of the meanings, and they have the meanings as terms. -/
structure NormalForm.Regained (known : List Name) (world : World) (result : NormalForm)
    (typeMeaning meaning : Meaning) : Prop where
  typeReads : ReadsType world typeMeaning result.type
  termReads : Reads world typeMeaning meaning result.term
  typeRegains : Regains Term.Inferable known world typeMeaning (.leaf .univ) result.type
  termRegains : Regains Term.Checkable known world meaning typeMeaning result.term

theorem Context.Models.run_regained (clear : DistinctFingerprints known)
    (models : ctx.Models known scope world) {term : Term} (termKnown : term.names ⊆ known)
    (fuel : Nat) :
    Checks (fun result => ∃ typeMeaning meaning, result.Regained known world typeMeaning meaning)
      (ctx.run fuel term : Checking NormalForm) := by
  refine .bind ((safeChecking (fun _ => clear) fuel).synth models termKnown) fun type synthesized => ?_
  obtain ⟨meaning, typeMeaning, means, typeMeans⟩ := synthesized
  refine .bind (.compute (models.eval means fuel)) fun value valueMeans => ?_
  refine .bind (.compute (((safeReadBack fuel).readBackType models.named typeMeans).and
    ((typedReadBack clear fuel).readBackType models.named typeMeans)))
    fun typeTerm ⟨typeReads, typeRegains⟩ => ?_
  refine .bind (.compute (((safeReadBack fuel).readBack models.named typeMeans valueMeans).and
    ((typedReadBack clear fuel).readBack models.named typeMeans valueMeans)))
    fun valueTerm ⟨termReads, termRegains⟩ => ?_
  exact .pure ⟨typeMeaning, meaning, ⟨typeReads, termReads, typeRegains, termRegains⟩⟩

/-- In a context of definitions, a result is accepted and has itself as its normal form. -/
theorem NormalForm.Regained.run_accepts (regained : result.Regained known .empty typeMeaning meaning)
    (models : ctx.Models known scope .empty) (included : result.annotated.names ⊆ known) (fuel : Nat) :
    Accepts result.AlphaEquiv (ctx.run fuel result.annotated : Checking NormalForm) := by
  have spells : scope.Spells known .empty := ⟨fun _ mem => (by cases mem), models.known⟩
  obtain ⟨typeIncluded, termIncluded⟩ := List.append_subset.mp included
  have typeMeans := regained.typeRegains.means spells typeIncluded
  have termMeans := regained.termRegains.means spells termIncluded
  have means : result.annotated.Means scope .empty meaning typeMeaning :=
    ⟨.the typeMeans termMeans, termMeans.element.shows⟩
  have form : result.annotated.Inferable :=
    .the (.infer regained.typeRegains.hasForm) regained.termRegains.hasForm
  refine .bind ((completeChecking fuel).synth models.realizes form means)
    fun type typeValueMeans => ?_
  refine .bind (.compute (models.eval means fuel)) fun value valueMeans => ?_
  refine .bind (.compute ((safeReadBack fuel).readBackType models.named typeValueMeans))
    fun typeTerm typeReads => ?_
  refine .bind (.compute ((safeReadBack fuel).readBack models.named typeValueMeans valueMeans))
    fun valueTerm termReads => ?_
  exact .pure ⟨regained.typeReads.normal.unique typeReads.normal .nil,
    regained.termReads.normal.unique termReads.normal .nil⟩

/-- With another bound, definitions that were accepted give the same context, or the bound is
reached. -/
theorem Context.ofDefinitions_accepts {definitions : List Definition} {fuel : Nat}
    (run : (Context.ofDefinitions fuel definitions : Checking Context).outcome = .done ctx)
    (more : Nat) :
    Accepts (fun other => other = ctx) (Context.ofDefinitions more definitions) := by
  have step := fun fuel => Context.addDefinitions_below fuel .empty definitions
  rw [Accepts, Context.ofDefinitions]
  rcases (Settles.of_done step run).below step more with reached | same
  · rw [reached]
    trivial
  · rw [same]
    exact rfl

end Stability

/-- The result of a program, run in place of its body, is not rejected and never stuck, and gives the
same result up to the names of bound variables, unless the bound on the depth is reached. -/
theorem Program.run_result_again (program : Program) {fuel : Nat} {result : NormalForm}
    (run : (program.run fuel : Checking NormalForm).outcome = .done result)
    (clear : DistinctFingerprints (program.names ++ result.annotated.names)) (more : Nat) :
    let again : Program := ⟨program.definitions, result.annotated⟩
    (again.run more : Checking NormalForm).outcome = .exhausted ∨
      ∃ result', (again.run more : Checking NormalForm).outcome = .done result' ∧
        result.AlphaEquiv result' := by
  let _ : Lookups := ⟨True⟩
  simp only [Program.run, Traced.outcome_bind, bind_eq_done_iff] at run
  obtain ⟨ctx, definitionsRun, bodyRun⟩ := run
  have modeled := program.models_definitions (fun _ => clear) (List.subset_append_left _ _) fuel
  rw [Checks, definitionsRun] at modeled
  obtain ⟨scope, models⟩ := modeled
  have bodyKnown := List.subset_append_of_subset_left result.annotated.names program.body_names_subset
  have regains := models.run_regained clear bodyKnown fuel
  rw [Checks, bodyRun] at regains
  obtain ⟨typeMeaning, meaning, regained⟩ := regains
  have accepts := regained.run_accepts models (List.subset_append_right _ _) more
  have defined := Context.ofDefinitions_accepts definitionsRun more
  exact (Accepts.bind defined fun _ same => same ▸ accepts).exhausted_or_done trivial

/-- If a number equals its copy, which an induction makes, then the copy equals the number. -/
def copiedEquality : Program :=
  ⟨[⟨"n", .the .nat (.add1 .zero)⟩,
      ⟨"copy", .the (.pi "n" .nat .nat) (.lam "n" (.indNat (.var "n") (.lam "k" .nat) .zero
        (.lam "n-1" (.lam "almost" (.add1 (.var "almost"))))))⟩],
    .the (.pi "n" .nat (.pi "same" (.equal .nat (.var "n") (.app (.var "copy") (.var "n")))
        (.equal .nat (.app (.var "copy") (.var "n")) (.var "n"))))
      (.lam "n" (.lam "same" (.replace (.var "same")
        (.lam "m" (.equal .nat (.var "m") (.var "n"))) .same)))⟩

def copiedEqualityResult : NormalForm :=
  let copy : Term := .indNat (.var "n'") (.lam "k" .nat) .zero
    (.lam "n-1" (.lam "almost" (.add1 (.var "almost"))))
  ⟨.pi "n'" .nat (.pi "same" (.equal .nat (.var "n'") copy) (.equal .nat copy (.var "n'"))),
    .lam "n'" (.lam "same" (.replace (.var "same")
      (.lam "x" (.equal .nat (.var "x") (.var "n'"))) .same))⟩

theorem copiedEquality_run_result_again :
    let again : Program := ⟨copiedEquality.definitions, copiedEqualityResult.annotated⟩
    (copiedEquality.run 16 : Checking NormalForm).outcome = .done copiedEqualityResult ∧
      DistinctFingerprints (copiedEquality.names ++ copiedEqualityResult.annotated.names) ∧
      (again.run 16 : Checking NormalForm).outcome = .done copiedEqualityResult ∧
      ((again.run 16 : Checking NormalForm).outcome = .exhausted ∨
        ∃ result', (again.run 16 : Checking NormalForm).outcome = .done result' ∧
          copiedEqualityResult.AlphaEquiv result') := by
  have run : (copiedEquality.run 16 : Checking NormalForm).outcome = .done copiedEqualityResult := by
    decide +kernel
  have clear : DistinctFingerprints
      (copiedEquality.names ++ copiedEqualityResult.annotated.names) := by
    decide +kernel
  exact ⟨run, clear, by decide +kernel, copiedEquality.run_result_again run clear 16⟩

end LambdaCalculi.Dependent
