import LambdaCalculi.Proofs.Dependent.InlinedChecking
import LambdaCalculi.Proofs.Dependent.RenamedPrograms
import LambdaCalculi.Proofs.Dependent.ScopedChecking

/-!
# Definitions are transparent

A program and its body with all definitions put in have the same normal form. The context of the
definitions corresponds to every context of the second side, because a definition that was accepted
is accepted again wherever its name stands: it has no variables in it, so the context of that place
does not matter, and the definitions before it are put into it in turn.
-/

set_option autoImplicit false

namespace LambdaCalculi.Dependent

open Outcome

/-- A context of definitions only: for each there is a term to be put in, and with these terms the
context corresponds to every context. -/
structure Context.InlinedBy (inlining : Inlining) (ctx : Context) : Prop where
  inlined : ∀ ctx', ctx.Inlined [] inlining ctx'
  defined : ∀ x ∈ ctx.entries.map Entry.name, inlining x ≠ none

namespace Context.InlinedBy

variable {inlining : Inlining} {ctx inner final : Context} {fuel : Nat}

theorem empty : Context.empty.InlinedBy .empty :=
  ⟨fun _ => .empty, List.forall_mem_nil _⟩

/-- A term that has a type has only definitions for its free variables, and these are put in. -/
theorem free_inline (inlined : ctx.InlinedBy inlining) {term : Term} {type : Value}
    (run : (ctx.synth fuel term : Checking Value).outcome = .done type) :
    (term.inline inlining).free = [] := by
  refine List.eq_nil_iff_forall_not_mem.mpr fun y mem => ?_
  obtain ⟨free, kept⟩ := Term.mem_free_inline (inlined.inlined .empty).closed mem
  exact inlined.defined y (((checksInScope fuel).synth ctx term).known run y free) kept

theorem addDefinition (inlined : ctx.InlinedBy inlining) {x : Name} {term : Term}
    (run : (ctx.addDefinition fuel x term : Checking Context).outcome = .done inner) :
    inner.InlinedBy (inlining.add x (term.inline inlining)) := by
  obtain ⟨type, value, _, typeRun, valueRun, same⟩ := addDefinition_eq_done run
  have entries : inner.entries = ⟨x, .defined type value⟩ :: ctx.entries := by rw [same]
  have evaluates : ∀ place : Env, place.Clear (term.inline inlining) →
      ∃ value', place.EvaluatesTo (term.inline inlining) value' ∧ value.Substituted [] value' := by
    intro place clear
    have placed : ctx.InlinedAt [] inlining ⟨[], place⟩ term := ⟨inlined.inlined _, clear⟩
    rw [Term.inline_eq_substitute (inlined.inlined ctx).closed]
    exact placed.substitutedAt.eval fuel value valueRun
  have synthesizes : ∀ place : Context, place.env.Clear (term.inline inlining) →
      ∃ type', ChecksTo (fun fuel => place.synth fuel (term.inline inlining)) (.done type') ∧
        type.Substituted [] type' := by
    intro place clear
    have placed : ctx.InlinedAt [] inlining place term := ⟨inlined.inlined place, clear⟩
    exact placed.synth fuel type typeRun
  refine ⟨fun ctx' => ?_, fun y mem missing => ?_⟩
  · obtain ⟨closed, env, types, _⟩ := inlined.inlined ctx'
    refine ⟨closed.add x (inlined.free_inline typeRun), ?_, types.define entries synthesizes, .nil⟩
    rw [same]
    exact .define env x evaluates
  · rw [entries] at mem
    rw [Inlining.add] at missing
    split at missing
    · cases missing
    · exact inlined.defined y ((List.mem_cons.mp mem).resolve_left ‹_›) missing

theorem addDefinitions (inlined : ctx.InlinedBy inlining) {definitions : List Definition}
    (run : (ctx.addDefinitions fuel definitions : Checking Context).outcome = .done final) :
    final.InlinedBy (definitions.foldl Inlining.define inlining) := by
  induction definitions generalizing ctx inlining with
  | nil =>
      cases run
      exact inlined
  | cons definition rest ih =>
      obtain ⟨inner, innerRun, restRun⟩ := addDefinitions_cons_eq_done run
      exact ih (inlined.addDefinition innerRun) restRun

end Context.InlinedBy

/-- A program that has a normal form has the same one, up to the names of bound variables, when every
definition is put in place of its name. -/
theorem Program.run_inlined (program : Program) (clear : DistinctFingerprints program.names)
    {fuel : Nat} {result : NormalForm}
    (run : (program.run fuel : Checking NormalForm).outcome = .done result) :
    ∃ result', ChecksTo (fun fuel => program.inlined.run fuel) (.done result') ∧
      result.AlphaEquiv result' := by
  simp only [Program.run, Traced.outcome_bind, bind_eq_done_iff] at run
  obtain ⟨ctx, definitionsRun, bodyRun⟩ := run
  have inlined : ctx.InlinedBy (.ofDefinitions program.definitions) :=
    Context.InlinedBy.empty.addDefinitions definitionsRun
  have bodyClear : Context.empty.env.Clear program.inlined.body :=
    clear.mono program.names_inlined
  obtain ⟨result', settled, typeRenamed, termRenamed⟩ :=
    Context.InlinedAt.run ⟨inlined.inlined .empty, bodyClear⟩ fuel result bodyRun
  refine ⟨result', ?_, typeRenamed.alphaEquivUnder, termRenamed.alphaEquivUnder⟩
  exact ChecksTo.bind (.done Context.empty) settled

/-- A pair of a number and a proof that it is `two`; the body binds `two` again. -/
def taggedTwo : Program :=
  ⟨[⟨"two", .the .nat (.add1 (.add1 .zero))⟩,
      ⟨"tagged", .the (.sigma "n" .nat (.equal .nat (.var "n") (.var "two")))
        (.cons (.var "two") .same)⟩],
    .the (.pi "two" .nat (.equal .nat (.car (.var "tagged")) (.add1 (.add1 .zero))))
      (.lam "two" (.cdr (.var "tagged")))⟩

theorem taggedTwo_run_inlined :
    DistinctFingerprints taggedTwo.names ∧
      (taggedTwo.run 20 : Checking NormalForm).outcome =
        .done ⟨.pi "two'" .nat (.equal .nat (.add1 (.add1 .zero)) (.add1 (.add1 .zero))),
          .lam "two'" .same⟩ ∧
      (taggedTwo.inlined.run 20 : Checking NormalForm).outcome =
        .done ⟨.pi "two" .nat (.equal .nat (.add1 (.add1 .zero)) (.add1 (.add1 .zero))),
          .lam "two" .same⟩ ∧
      ∃ result', ChecksTo (fun fuel => taggedTwo.inlined.run fuel) (.done result') ∧
        NormalForm.AlphaEquiv
          ⟨.pi "two'" .nat (.equal .nat (.add1 (.add1 .zero)) (.add1 (.add1 .zero))),
            .lam "two'" .same⟩ result' := by
  have clear : DistinctFingerprints taggedTwo.names := by decide +kernel
  have run : (taggedTwo.run 20 : Checking NormalForm).outcome =
      .done ⟨.pi "two'" .nat (.equal .nat (.add1 (.add1 .zero)) (.add1 (.add1 .zero))),
        .lam "two'" .same⟩ := by decide +kernel
  exact ⟨clear, run, by decide +kernel, taggedTwo.run_inlined clear run⟩

end LambdaCalculi.Dependent
