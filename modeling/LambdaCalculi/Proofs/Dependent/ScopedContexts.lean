import LambdaCalculi.Proofs.Dependent.ScopedChecking
import LambdaCalculi.Proofs.Dependent.ScopedEvaluation

/-!
# Scope safety

The type checker and the environment of a context have the same notion of scope. What the checker
accepts, or rejects as unbound, is decided by the names of the entries; and a term whose free variables
are names of entries can be evaluated and read back without a variable that has no value, accepted or
not. For the second part, the types of the variables have to come from terms that were in scope; those
of the definitions did, since they were accepted.
-/

set_option autoImplicit false

namespace LambdaCalculi.Dependent

open Outcome

namespace Context

abbrev BuiltInScope : List Name → List Context → Context → Prop :=
  BuiltFrom fun source term => term.free ⊆ source.entries.map Entry.name

/-- The environment binds the names of the entries, all of them known, to values in scope. -/
structure InScope (known : List Name) (ctx : Context) : Prop where
  env : ctx.env.InScope
  names : ctx.env.names = ctx.entries.map Entry.name
  known : ctx.env.names ⊆ known

namespace InScope

variable {known : List Name} {ctx : Context} {term : Term}

theorem empty : Context.empty.InScope known :=
  ⟨True.intro, rfl, List.nil_subset _⟩

theorem add {x : Name} {binding : Binding} (inScope : ctx.InScope known) (nameKnown : x ∈ known)
    (valueInScope : binding.value.InScope) : (ctx.adding x binding).InScope known where
  env := ⟨valueInScope, inScope.env⟩
  names := congrArg (x :: ·) inScope.names
  known := List.cons_subset.mpr ⟨nameKnown, inScope.known⟩

theorem eval (inScope : ctx.InScope known) (distinct : DistinctFingerprints known)
    (termKnown : term.names ⊆ known) (free : term.free ⊆ ctx.entries.map Entry.name) (fuel : Nat) :
    Evaluated (ctx.eval fuel term) := by
  refine inScope.env.eval ⟨inScope.names ▸ free, ?_⟩ fuel
  exact distinct.mono (List.append_subset.mpr ⟨inScope.known, termKnown⟩)

theorem value (inScope : ctx.InScope known) (distinct : DistinctFingerprints known)
    (termKnown : term.names ⊆ known) (free : term.free ⊆ ctx.entries.map Entry.name) {fuel : Nat}
    {value : Value} (run : (ctx.eval fuel term : Outcome Stuck Value) = .done value) :
    value.InScope := by
  have evaluated := inScope.eval distinct termKnown free fuel
  rw [run] at evaluated
  exact evaluated

end InScope

variable {known : List Name} {earlier : List Context} {ctx : Context}

theorem BuiltInScope.inScope (built : BuiltInScope known earlier ctx)
    (distinct : DistinctFingerprints known) : ∀ source ∈ ctx :: earlier, source.InScope known := by
  induction built with
  | empty => exact List.forall_mem_singleton.mpr .empty
  | @assume _ ctx source _ x _ _ type _ nameKnown passed termKnown free typeRun run ih =>
      have typeInScope := (ih source passed).value distinct termKnown free typeRun
      cases run
      refine List.forall_mem_cons.mpr ⟨?_, ih⟩
      exact (ih ctx List.mem_cons_self).add nameKnown ⟨typeInScope, True.intro⟩
  | @define _ ctx _ x term fuel _ nameKnown termKnown run ih =>
      obtain ⟨type, value, _, typeRun, valueRun, rfl⟩ := addDefinition_eq_done run
      have ctxInScope := ih ctx List.mem_cons_self
      -- A definition was accepted, so its free variables are names of entries.
      have free : term.free ⊆ ctx.entries.map Entry.name := fun x mem =>
        ((checksInScope fuel).synth ctx term).known typeRun x mem
      have valueInScope := ctxInScope.value distinct termKnown free valueRun
      exact List.forall_mem_cons.mpr ⟨ctxInScope.add nameKnown valueInScope, ih⟩

theorem ne_unbound_of_safe {α : Type} {result : α → Prop} {outcome : Outcome Stuck α}
    (safe : Safe Stuck.NotUnbound result outcome) (x : Name) : outcome ≠ .failed (.unbound x) := by
  rintro rfl
  exact safe

/-- A term that is accepted is in scope, a variable that is rejected as unbound is free in the term and
out of scope, and a term in scope is evaluated and read back without a variable that has no value. -/
theorem BuiltInScope.scope_safe (built : BuiltInScope known earlier ctx) (term : Term) :
    (∀ fuel type, ((∃ found, (ctx.synth fuel term : Checking Value).outcome = .done found) ∨
        (ctx.check fuel term type : Checking Unit).outcome = .done ()) →
      term.free ⊆ ctx.entries.map Entry.name) ∧
    (∀ fuel type definition? x,
      ((ctx.synth fuel term : Checking Value).outcome =
          .failed (.rejected definition? (.unbound x)) ∨
        (ctx.check fuel term type : Checking Unit).outcome =
          .failed (.rejected definition? (.unbound x))) →
      x ∈ term.free ∧ x ∉ ctx.entries.map Entry.name) ∧
    (DistinctFingerprints known → term.names ⊆ known → term.free ⊆ ctx.entries.map Entry.name →
      (∀ fuel x, (ctx.eval fuel term : Outcome Stuck Value) ≠ .failed (.unbound x)) ∧
      ∀ typeTerm : Term, typeTerm.names ⊆ known → typeTerm.free ⊆ ctx.entries.map Entry.name →
        ∀ typeFuel type, (ctx.eval typeFuel typeTerm : Outcome Stuck Value) = .done type →
        ∀ valueFuel value, (ctx.eval valueFuel term : Outcome Stuck Value) = .done value →
        ∀ fuel x, (ctx.readBack fuel type value : Outcome Stuck Term) ≠ .failed (.unbound x)) := by
  refine ⟨?_, ?_, fun distinct termKnown free => ⟨fun fuel => ?_, ?_⟩⟩
  · rintro fuel type (⟨found, run⟩ | run)
    · exact ((checksInScope fuel).synth ctx term).known run
    · exact ((checksInScope fuel).check ctx term type).known run
  · rintro fuel type definition? x (run | run)
    · exact ((checksInScope fuel).synth ctx term).unknown run
    · exact ((checksInScope fuel).check ctx term type).unknown run
  · have inScope := built.inScope distinct ctx List.mem_cons_self
    exact ne_unbound_of_safe (inScope.eval distinct termKnown free fuel)
  · intro typeTerm typeKnown typeFree typeFuel type typeRun valueFuel value valueRun fuel
    have inScope := built.inScope distinct ctx List.mem_cons_self
    have typeInScope := inScope.value distinct typeKnown typeFree typeRun
    have valueInScope := inScope.value distinct termKnown free valueRun
    exact ne_unbound_of_safe (Context.readBack_inScope typeInScope valueInScope fuel)

/-! ## A family of types over a number -/

def numberAndFamily : Context :=
  (empty.adding "n" (.assumed .nat "n")).adding "P" (.assumed (.pi .nat (.mk .nil "k" .univ)) "P")

theorem numberAndFamily_builtInScope :
    BuiltInScope ["n", "P", "k"] [empty.adding "n" (.assumed .nat "n"), empty] numberAndFamily := by
  have natRun : (empty.eval 1 .nat : Outcome Stuck Value) = .done .nat := rfl
  have number : (empty.assume "n" .nat : Outcome Stuck Context) =
      .done (empty.adding "n" (.assumed .nat "n")) := by decide +kernel
  have typeRun : (empty.eval 2 (.pi "k" .nat .univ) : Outcome Stuck Value) =
      .done (.pi .nat (.mk .nil "k" .univ)) := rfl
  have families : ((empty.adding "n" (.assumed .nat "n")).assume "P"
      (.pi .nat (.mk .nil "k" .univ)) : Outcome Stuck Context) = .done numberAndFamily := by
    decide +kernel
  exact .assume (.assume .empty (by decide) List.mem_cons_self (by decide) (by decide) natRun number)
    (by decide) (by simp) (by decide) (by decide) typeRun families

/-- An induction whose base is no member of the family. It would not be accepted. -/
def wrongInduction : Term :=
  .indNat (.var "n") (.var "P") .zero (.lam "k" (.var "P"))

theorem wrongInduction_scope_safe :
    let known := ["n", "P", "k"]
    let motive : Value := .ofVar (.pi .nat (.mk .nil "k" .univ)) "P"
    let type : Value := .neutral .univ (.app (.var "P") (.mk .nat (.ofVar .nat "n")))
    let baseType : Value := .neutral .univ (.app (.var "P") (.mk .nat .zero))
    let step : Value := .lam (.mk numberAndFamily.env "k" (.var "P"))
    let value : Value := .neutral type (.indNat (.var "n") (.mk Value.natMotiveType motive)
      (.mk baseType .zero) (.mk (Value.natStepType motive) step))
    DistinctFingerprints known ∧
      BuiltInScope known [empty.adding "n" (.assumed .nat "n"), empty] numberAndFamily ∧
      (numberAndFamily.eval 5 (.app (.var "P") (.var "n")) : Outcome Stuck Value) = .done type ∧
      (numberAndFamily.eval 5 wrongInduction : Outcome Stuck Value) = .done value ∧
      (numberAndFamily.readBack 12 type value : Outcome Stuck Term) = .failed .readBack ∧
      ∀ fuel x,
        (numberAndFamily.readBack fuel type value : Outcome Stuck Term) ≠ .failed (.unbound x) := by
  intro known motive type baseType step value
  have distinct : DistinctFingerprints known := by decide +kernel
  have typeRun : (numberAndFamily.eval 5 (.app (.var "P") (.var "n")) : Outcome Stuck Value) =
      .done type := by decide +kernel
  have valueRun : (numberAndFamily.eval 5 wrongInduction : Outcome Stuck Value) = .done value := by
    decide +kernel
  obtain ⟨_, _, safe⟩ := numberAndFamily_builtInScope.scope_safe wrongInduction
  obtain ⟨_, readBackSafe⟩ := safe distinct (by decide) (by decide)
  exact ⟨distinct, numberAndFamily_builtInScope, typeRun, valueRun, by decide +kernel,
    readBackSafe (.app (.var "P") (.var "n")) (by decide) (by decide) 5 type typeRun 5 value valueRun⟩

end Context

end LambdaCalculi.Dependent
