import LambdaCalculi.Proofs.Dependent.Invariants

/-!
# A larger bound changes no result

Raising the bound on the depth by one leaves every outcome as it is, unless the bound was reached.
This holds of evaluation, of reading back and of type checking, and so of the run of a program.
-/

set_option autoImplicit false

namespace LambdaCalculi.Dependent

open Outcome

/-! ## Evaluation and reading back -/

def Invariant.same : Invariant Comparison.below where
  values _ _ := True
  closures _ _ := True
  neutrals _ _ := True
  names _ := True
  scopes _ _ _ := True
  values_iff {_ value} := by
    refine iff_of_true trivial ?_
    cases value <;> constructor <;> trivial
  neutrals_iff {_ blocked} := by
    have normal (normal : Normal) : Normal.Congruent (fun _ _ => True) normal normal := by
      cases normal
      exact .mk trivial trivial
    refine iff_of_true trivial ?_
    cases blocked <;> constructor <;> first | trivial | exact normal _
  values_mono _ := id
  closures_mono _ := id
  neutrals_mono _ := id
  scopes_mono _ := id
  motives _ _ := trivial
  natStepType := id
  parts {_ _ term} _ := by cases term <;> constructor <;> trivial
  lookup {fuel _ env x} _ := by
    refine Comparison.below.spend (.inr ?_)
    simp only [Env.eval]
    cases env.lookup? x with
    | none => exact .failed rfl
    | some value => exact .done ⟨rfl, trivial⟩
  extend _ _ := .inr (.done ⟨rfl, trivial⟩)

def Invariant.sameContexts : Invariant.same.OfContexts where
  contexts _ _ := True
  contexts_mono _ := id
  names _ := trivial
  assume _ _ := .inr (.done ⟨rfl, trivial⟩)

theorem Invariant.same_value (value : Value) : Invariant.same.correspondence.values () value value :=
  ⟨rfl, trivial⟩

theorem Invariant.same_context (ctx : Context) : sameContexts.reading.contexts () () ctx ctx :=
  ⟨rfl, trivial⟩

/-- Outcomes with the same values differ only by a bound that was reached. -/
theorem below_of_alike {ε α : Type} {results : α → α → Prop} {smaller larger : Outcome ε α}
    (ends : smaller = .exhausted ∨ Alike Eq results smaller larger)
    (same : ∀ value value', results value value' → value = value') : Below smaller larger :=
  ends.imp_right fun alike => (alike.mono same).eq

section

variable (fuel : Nat)

theorem Env.eval_below (env : Env) (term : Term) :
    Below (env.eval fuel term : Outcome Stuck Value) (env.eval (fuel + 1) term) := by
  have scopes : Invariant.same.correspondence.scopes () env term env term := ⟨rfl, rfl, trivial⟩
  exact below_of_alike ((Invariant.same.correspondence.evaluates fuel).eval scopes) fun _ _ => And.left

theorem Closure.instantiate_below (closure : Closure) (argument : Value) :
    Below (closure.instantiate fuel argument : Outcome Stuck Value)
      (closure.instantiate (fuel + 1) argument) := by
  have closures : Invariant.same.correspondence.closures () closure closure := ⟨rfl, trivial⟩
  exact below_of_alike ((Invariant.same.correspondence.evaluates fuel).instantiate closures
    (Invariant.same_value argument)) fun _ _ => And.left

theorem Value.apply_below (function argument : Value) :
    Below (function.apply fuel argument : Outcome Stuck Value) (function.apply (fuel + 1) argument) :=
  below_of_alike ((Invariant.same.correspondence.evaluates fuel).apply (Invariant.same_value function)
    (Invariant.same_value argument)) fun _ _ => And.left

theorem Value.cdr_below (pair : Value) :
    Below (pair.cdr fuel : Outcome Stuck Value) (pair.cdr (fuel + 1)) :=
  below_of_alike ((Invariant.same.correspondence.evaluates fuel).cdr (Invariant.same_value pair))
    fun _ _ => And.left

theorem Context.readBack_below (ctx : Context) (type value : Value) :
    Below (ctx.readBack fuel type value : Outcome Stuck Term) (ctx.readBack (fuel + 1) type value) :=
  below_of_alike ((Invariant.sameContexts.reading.readsBack fuel).readBack (Invariant.same_context ctx)
    (Invariant.same_value type) (Invariant.same_value value)) fun _ _ => id

theorem Context.readBackNeutral_below (ctx : Context) (blocked : Neutral) :
    Below (ctx.readBackNeutral fuel blocked : Outcome Stuck Term)
      (ctx.readBackNeutral (fuel + 1) blocked) :=
  below_of_alike ((Invariant.sameContexts.reading.readsBack fuel).readBackNeutral
    (Invariant.same_context ctx) ⟨rfl, trivial⟩) fun _ _ => id

end

/-! ## Type checking -/

/-- The first computation reached its bound, or the two have the same outcome. -/
def ChecksBelow {α : Type} (smaller larger : Checking α) : Prop :=
  Below smaller.outcome larger.outcome

namespace ChecksBelow

variable {α β : Type}

theorem refl (checking : Checking α) : ChecksBelow checking checking :=
  Below.refl _

theorem bind {first first' : Checking α} {next next' : α → Checking β}
    (below : ChecksBelow first first')
    (nextBelow : ∀ value, ChecksBelow (next value) (next' value)) :
    ChecksBelow (first >>= next) (first' >>= next') := by
  rw [ChecksBelow, Traced.outcome_bind, Traced.outcome_bind]
  exact Below.bind below nextBelow

theorem within {first first' : Checking α} (below : ChecksBelow first first') (x : Name) :
    ChecksBelow (Judging.within x first) (Judging.within x first') :=
  Below.mapFault _ below

end ChecksBelow

def Verdicts.below : Verdicts Invariant.sameContexts.reading (Traced Fault) (Traced Fault) where
  Ends results fuel _ first second :=
    first.outcome = .exhausted ∨ Alike Eq (results ()) first.outcome (second (fuel + 1)).outcome
  events _ _ := True
  errors := Eq
  done related := .inr (.done related)
  bind ends nextEnds := by
    simp only [Traced.outcome_bind]
    exact Alike.bind_of_exhausted_or ends fun _ _ related => nextEnds le_rfl related
  spend ends := ends
  spent _ := .inl rfl
  compute ends := by
    refine ends.imp (fun reached => ?_) fun alike => alike.mapFault fun _ _ => congrArg Fault.stuck
    rw [Judging.compute, reached]
    rfl
  record _ := .inr (.done trivial)
  reject same := .inr (.failed (congrArg _ same))
  alphaEquiv_eq := by
    rintro _ _ _ _ _ rfl rfl
    rfl
  mismatch := by
    rintro _ _ _ _ _ rfl rfl
    exact ⟨trivial, rfl⟩
  wrongFormer _ := by
    rintro _ _ rfl
    rfl
  definition _ := ⟨trivial, rfl⟩

def Deciding.below : Deciding Verdicts.below :=
  Invariant.sameContexts.deciding (fun _ => trivial) (fun _ => rfl) (fun _ => trivial)
    fun _ _ => trivial

namespace Context

variable (fuel : Nat) (ctx : Context) (term : Term)

theorem judged_below : Deciding.below.judged () () ctx term ctx term :=
  ⟨⟨rfl, trivial⟩, rfl⟩

theorem addDefinition_below (x : Name) :
    ChecksBelow (ctx.addDefinition fuel x term) (ctx.addDefinition (fuel + 1) x term) := by
  have ends : Verdicts.below.Ends (fun _ => Eq) fuel () (ctx.addDefinition fuel x term)
      fun bound => ctx.addDefinition bound x term := by
    refine Deciding.below.addDefinition fuel () () x (ctx.judged_below term) rfl ?_
    intro _ type _ value _ _ types values
    rw [types.1, values.1]
    exact .inr (.done rfl)
  exact below_of_alike ends fun _ _ => id

theorem addDefinitions_below (definitions : List Definition) :
    ChecksBelow (ctx.addDefinitions fuel definitions)
      (ctx.addDefinitions (fuel + 1) definitions) := by
  induction definitions generalizing ctx with
  | nil => exact .refl _
  | cons definition rest ih =>
      rw [addDefinitions, addDefinitions, List.foldlM_cons, List.foldlM_cons]
      exact .bind ((ctx.addDefinition_below fuel definition.term definition.name).within _)
        fun inner => ih inner

theorem run_below : ChecksBelow (ctx.run fuel term) (ctx.run (fuel + 1) term) := by
  refine below_of_alike (Deciding.below.run fuel () () (ctx.judged_below term)) ?_
  rintro ⟨type, value⟩ ⟨type', value'⟩ ⟨types, values⟩
  exact congr (congrArg NormalForm.mk types) values

end Context

theorem Program.run_below (fuel : Nat) (program : Program) :
    ChecksBelow (program.run fuel) (program.run (fuel + 1)) :=
  .bind (Context.addDefinitions_below fuel .empty program.definitions) fun ctx =>
    ctx.run_below fuel program.body

end LambdaCalculi.Dependent
