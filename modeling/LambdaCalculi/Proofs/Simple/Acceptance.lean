import LambdaCalculi.Proofs.Simple.Theory
import LambdaCalculi.Proofs.Simple.TypingRules

/-!
# What the checker accepts is typed

The nameless form of a term has the type that was found for it, or that it was checked against, over
the types of the names in scope.
-/

set_option autoImplicit false

namespace LambdaCalculi.Simple

namespace Context

def types (ctx : Context) : Types :=
  ctx.map Prod.snd

theorem lookup_idxOf {ctx : Context} {x : Name} {type : Ty} (found : ctx.lookup x = some type) :
    x ∈ ctx.names ∧ ctx.types[ctx.names.idxOf x]? = some type := by
  induction ctx with
  | nil => cases found
  | cons entry outer ih =>
      obtain ⟨y, other⟩ := entry
      have shape : names ((y, other) :: outer) = y :: names outer := rfl
      rw [shape]
      by_cases same : x = y
      · rw [same, List.lookup_cons_self] at found
        rw [same, List.idxOf_cons_self]
        exact ⟨List.mem_cons_self, found⟩
      · have different : (x == y) = false := beq_false_of_ne same
        rw [List.lookup_cons, different] at found
        obtain ⟨mem, place⟩ := ih found
        rw [List.idxOf_cons_ne _ (Ne.symm same)]
        exact ⟨List.mem_cons_of_mem _ mem, place⟩

end Context

/-- The nameless form of a term has the types that are derivable for the term. -/
theorem Derivable.nameless {ctx : Context} {term : Term} {type : Ty}
    (derivable : Derivable ctx term type) :
    HasType ctx.types (term.nameless ctx.names) type := by
  induction derivable with
  | var binds =>
      obtain ⟨mem, place⟩ := Context.lookup_idxOf (Context.lookup_eq_some_iff_binds.mpr binds)
      rw [Term.nameless, if_pos mem]
      exact .bound place
  | lam _ ih => exact .lam ih
  | app _ _ functionIH argumentIH => exact .app functionIH argumentIH
  | zero => exact .zero
  | add1 _ ih => exact .add1 ih
  | recNat _ _ _ targetIH baseIH stepIH => exact .recNat targetIH baseIH stepIH
  | ann _ ih => exact .ann ih

/-- The nameless form has the type that was found for a term, or that it was checked against. -/
structure Term.Typed (term : Term) : Prop where
  synth : ∀ {ctx : Context} {type : Ty}, term.synth ctx = .ok type →
    HasType ctx.types (term.nameless ctx.names) type
  check : ∀ {ctx : Context} {type : Ty}, term.check ctx type = .ok () →
    HasType ctx.types (term.nameless ctx.names) type

theorem Term.typed (term : Term) : term.Typed where
  synth found := (derivable_of_synth found).nameless
  check checked := (derivable_of_check checked).nameless

/-! ## Runs that finish -/

open Outcome

theorem Scope.typedValue_eq_done {fuel : Nat} {scope : Scope} {term : Term} {type : Ty}
    {value : Value} (run : scope.typedValue fuel term = .done (type, value)) :
    term.synth scope.context = .ok type ∧ scope.env.eval fuel term = .done value := by
  rw [typedValue] at run
  split at run
  · cases run
  · next found =>
      obtain ⟨result, evaluated, finished⟩ := bind_eq_done_iff.mp run
      cases finished
      exact ⟨found, mapFault_eq_done_iff.mp evaluated⟩

/-- A run that finishes found a type for the body, evaluated it and read its value back. -/
theorem Program.run_eq_done {fuel : Nat} {program : Program} {normal : Term}
    (ran : program.run fuel = .done normal) :
    ∃ scope type value, Scope.ofDefinitions fuel program.definitions = .done scope ∧
      program.body.synth scope.context = .ok type ∧
      scope.env.eval fuel program.body = .done value ∧
      value.readBack fuel scope.names type = .done normal := by
  obtain ⟨scope, defined, ran⟩ := bind_eq_done_iff.mp ran
  obtain ⟨⟨type, value⟩, found, read⟩ := bind_eq_done_iff.mp ran
  obtain ⟨synthesized, evaluated⟩ := Scope.typedValue_eq_done found
  exact ⟨scope, type, value, defined, synthesized, evaluated, mapFault_eq_done_iff.mp read⟩

end LambdaCalculi.Simple
