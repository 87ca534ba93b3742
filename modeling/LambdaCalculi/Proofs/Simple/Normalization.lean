import LambdaCalculi.Proofs.Simple.Acceptance
import LambdaCalculi.Proofs.Simple.Adequacy
import LambdaCalculi.Proofs.Simple.Agreement
import LambdaCalculi.Proofs.Simple.Bounds
import LambdaCalculi.Proofs.Simple.Gluing
import LambdaCalculi.Simple.Arithmetic

/-!
# Programs have normal forms, and normal forms decide equality

Unfolding replaces each defined name by its term, in which the earlier names are unfolded already. An
accepted scope follows its unfoldings: its values agree with the values of the unfolded terms. So the
run of a program always ends, with the normal form of its body or with a rejection, and two bodies of
one type have alpha-equivalent normal forms exactly when their unfoldings are equal in the theory.
-/

set_option autoImplicit false

namespace LambdaCalculi.Simple

open Outcome
open Leveled (EvaluateAlike)

/-- The names defined, the innermost first, with closed terms for them. -/
abbrev Unfolding := List (Name × Nameless)

namespace Unfolding

def names (unfolding : Unfolding) : List Name :=
  unfolding.map Prod.fst

/-- The unfolding of the name that is bound at each place. -/
def substitution : Unfolding → Nat → Nameless
  | [], index => .bound index
  | (_, term) :: _, 0 => term
  | _ :: outer, index + 1 => substitution outer index

end Unfolding

def Term.unfold (unfolding : Unfolding) (term : Term) : Nameless :=
  (term.nameless unfolding.names).subst unfolding.substitution

/-- The unfolding with the definitions added, each unfolded by those before it. -/
def Unfolding.define (unfolding : Unfolding) (definitions : List Definition) : Unfolding :=
  definitions.foldl
    (fun earlier definition => (definition.name, definition.term.unfold earlier) :: earlier)
    unfolding

def Program.unfolded (program : Program) : Nameless :=
  program.body.unfold (Unfolding.define [] program.definitions)

namespace Scope

/-- The scope has values that agree with those of the unfoldings of its names. -/
structure Follows (scope : Scope) (unfolding : Unfolding) (values : List Leveled.Value) : Prop where
  names : scope.context.names = unfolding.names
  env : scope.env.Matches [] values
  typed : ∀ (index : Nat) (type : Ty), scope.context.types[index]? = some type →
    HasType [] (unfolding.substitution index) type
  agree : ∀ (index : Nat) (type : Ty), scope.context.types[index]? = some type →
    EvaluateAlike type [] (unfolding.substitution index) values (.bound index)

theorem names_env (scope : Scope) : scope.env.names = scope.context.names := by
  induction scope with
  | nil => rfl
  | cons definition outer ih =>
      have step : Scope.env (definition :: outer) =
        (Scope.env outer).extend definition.name definition.value := rfl
      rw [step, Env.names_extend, ih]
      rfl

theorem Follows.nil : Follows [] [] [] where
  names := rfl
  env := .nil
  typed := by
    intro index type found
    cases found
  agree := by
    intro index type found
    cases found

variable {scope : Scope} {unfolding : Unfolding} {values : List Leveled.Value}

/-- An accepted term has a type and a value, which agrees with the value of its unfolding. -/
theorem Follows.typedValue_settles (follows : Follows scope unfolding values) {term : Term}
    {type : Ty} (accepted : term.synth scope.context = .ok type) :
    HasType [] (term.unfold unfolding) type ∧
      ∃ value value' unfolded,
        Settles (fun fuel => scope.typedValue fuel term) (.done (type, value)) ∧
        value.Matches [] value' ∧ Leveled.Evaluates [] (term.unfold unfolding) unfolded ∧
        Leveled.Value.Agree type unfolded value' := by
  have typed := (Term.typed term).synth accepted
  rw [follows.names] at typed
  have substituted : SubstitutedAgree scope.context.types unfolding.substitution [] values :=
    ⟨[], Leveled.EnvAgree.nil, fun index type found =>
      ⟨follows.typed index type found, follows.agree index type found⟩⟩
  obtain ⟨unfolded, value', unfoldedEvaluates, evaluates, agree⟩ :=
    typed.evaluateAlike_subst substituted
  have spelled : term.nameless scope.env.names = term.nameless unfolding.names := by
    rw [names_env, follows.names]
  obtain ⟨value, run, valueMatches⟩ := evaluates.settles follows.env spelled
  refine ⟨typed.subst follows.typed, value, value', unfolded, ?_, valueMatches, unfoldedEvaluates,
    agree⟩
  simp only [typedValue, accepted]
  exact (run.mapFault Fault.stuck).bind (.const _)

theorem typedValue_rejected {term : Term} {error : TypeError}
    (rejected : term.synth scope.context = .error error) :
    Settles (fun fuel => scope.typedValue fuel term) (.failed (.rejected error)) := by
  simp only [typedValue, rejected]
  exact .const _

theorem Follows.define (follows : Follows scope unfolding values) {name : Name} {type : Ty}
    {term : Nameless} (typed : HasType [] term type) {value : Value} {value' unfolded : Leveled.Value}
    (valueMatches : value.Matches [] value') (evaluates : Leveled.Evaluates [] term unfolded)
    (agree : Leveled.Value.Agree type unfolded value') :
    Follows (⟨name, type, value⟩ :: scope) ((name, term) :: unfolding) (value' :: values) where
  names := congrArg (name :: ·) follows.names
  env := .cons valueMatches follows.env
  typed := by
    intro index other found
    cases index with
    | zero =>
        cases found
        exact typed
    | succ index => exact follows.typed index other found
  agree := by
    intro index other found
    cases index with
    | zero =>
        cases found
        exact ⟨unfolded, value', evaluates, .bound rfl, agree⟩
    | succ index =>
        obtain ⟨earlier, earlier', earlierEvaluates, lookup, earlierAgree⟩ :=
          follows.agree index other found
        cases lookup with
        | bound place => exact ⟨earlier, earlier', earlierEvaluates, .bound place, earlierAgree⟩

def define (fuel : Nat) (scope : Scope) (definition : Definition) : Outcome Fault Scope := do
  let (type, value) ← typedValue fuel scope definition.term
  return ⟨definition.name, type, value⟩ :: scope

/-- Checking definitions settles on a rejection or on a scope that follows their unfoldings. -/
theorem Follows.define_settles (definitions : List Definition) :
    ∀ {scope : Scope} {unfolding : Unfolding} {values : List Leveled.Value},
      Follows scope unfolding values →
      (∃ error, Settles (fun fuel => definitions.foldlM (Scope.define fuel) scope)
          (.failed (.rejected error))) ∨
        ∃ scope' values', Settles (fun fuel => definitions.foldlM (Scope.define fuel) scope)
            (.done scope') ∧
          Follows scope' (unfolding.define definitions) values' := by
  induction definitions with
  | nil =>
      intro scope unfolding values follows
      exact .inr ⟨scope, values, .const _, follows⟩
  | cons definition rest ih =>
      intro scope unfolding values follows
      simp only [List.foldlM_cons]
      cases checked : definition.term.synth scope.context with
      | error error =>
          have step : Settles (fun fuel => scope.define fuel definition)
              (.failed (.rejected error)) := (typedValue_rejected checked).bind_failed
          exact .inl ⟨error, step.bind_failed⟩
      | ok type =>
          obtain ⟨typed, value, value', unfolded, settled, valueMatches, evaluates, agree⟩ :=
            follows.typedValue_settles checked
          have step : Settles (fun fuel => scope.define fuel definition)
              (.done (⟨definition.name, type, value⟩ :: scope)) := settled.bind (.const _)
          rcases ih (follows.define typed valueMatches evaluates agree) with
            ⟨error, rejected⟩ | ⟨scope', values', finished, followed⟩
          · exact .inl ⟨error, step.bind rejected⟩
          · exact .inr ⟨scope', values', step.bind finished, followed⟩

/-- What every result of a run that accepts the definitions follows. -/
theorem follows_of_ofDefinitions {fuel : Nat} {definitions : List Definition} {scope : Scope}
    (defined : ofDefinitions fuel definitions = .done scope) :
    Settles (fun fuel => ofDefinitions fuel definitions) (.done scope) ∧
      ∃ values, Follows scope (Unfolding.define [] definitions) values := by
  have steady := fun fuel => ofDefinitions_below fuel definitions
  rcases Follows.define_settles definitions Follows.nil with
    ⟨error, rejected⟩ | ⟨scope', values, settled, follows⟩
  · have below : Below (ofDefinitions fuel definitions) _ := rejected.below steady fuel
    rw [defined] at below
    rcases below with reached | same
    · cases reached
    · cases same
  · have below : Below (ofDefinitions fuel definitions) _ := settled.below steady fuel
    rw [defined] at below
    rcases below with reached | same
    · cases reached
    · cases same
      exact ⟨settled, values, follows⟩

end Scope

/-- The term is a normal form of a closed nameless term: the theory proves the two equal, and it is
what the value of the nameless term reads back to. -/
structure Term.IsNormalFormOf (normal : Term) (term : Nameless) (type : Ty) : Prop where
  equal : Equal [] term (normal.nameless []) type
  reads : ∃ value, Leveled.Evaluates [] term value ∧
    Leveled.ReadsBack 0 type value (normal.nameless [])

/-- Normal forms at one type are alpha-equivalent exactly when their terms are equal. -/
theorem Term.IsNormalFormOf.alphaEquiv_iff {normal normal' : Term} {term term' : Nameless} {type : Ty}
    (form : normal.IsNormalFormOf term type) (form' : normal'.IsNormalFormOf term' type) :
    normal.AlphaEquiv normal' ↔ Equal [] term term' type := by
  constructor
  · intro alike
    have same : normal.nameless [] = normal'.nameless [] := alike
    have equal := form.equal
    rw [same] at equal
    exact equal.trans form'.equal.symm
  · intro equal
    obtain ⟨value, evaluates, reads⟩ := form.reads
    obtain ⟨value', evaluates', reads'⟩ := form'.reads
    obtain ⟨other, other', otherEvaluates, otherEvaluates', agree⟩ :=
      equal.evaluateAlike Leveled.EnvAgree.nil
    cases otherEvaluates.unique evaluates
    cases otherEvaluates'.unique evaluates'
    obtain ⟨common, commonReads, commonReads'⟩ := agree.readAlike 0
    exact (reads.unique commonReads).trans (commonReads'.unique reads')

/-- A value that agrees with the value of a typed term is read back to its normal form. -/
theorem Value.readBack_settles {type : Ty} {term : Nameless} (typed : HasType [] term type)
    {value : Value} {value' unfolded : Leveled.Value} (valueMatches : value.Matches [] value')
    (evaluates : Leveled.Evaluates [] term unfolded)
    (agree : Leveled.Value.Agree type unfolded value') (used : List Name) :
    ∃ normal, Settles (fun fuel => value.readBack fuel used type) (.done normal) ∧
      normal.IsNormalFormOf term type := by
  have nothing : Leveled.EnvStandsFor [] [] [] Nameless.bound := by
    intro index type found
    cases found
  obtain ⟨standing, standingEvaluates, stands⟩ := typed.standsFor nothing
  cases standingEvaluates.unique evaluates
  rw [Nameless.subst_bound] at stands
  obtain ⟨normalTerm, reads, equal⟩ := stands.reads
  obtain ⟨alike, alikeReads, valueReads⟩ := agree.readAlike 0
  cases reads.unique alikeReads
  obtain ⟨normal, run, rfl⟩ := valueReads.settles rfl (List.nil_subset used) valueMatches
  exact ⟨normal, run, equal, unfolded, evaluates, reads⟩

/-- Where the definitions and the body are accepted, the run settles on the normal form of the
unfolded body. -/
theorem Scope.Follows.run_settles {program : Program} {scope : Scope} {values : List Leveled.Value}
    (follows : scope.Follows (Unfolding.define [] program.definitions) values)
    (defined : Settles (fun fuel => Scope.ofDefinitions fuel program.definitions) (.done scope))
    {type : Ty} (accepted : program.body.synth scope.context = .ok type) :
    ∃ normal, Settles (fun fuel => program.run fuel) (.done normal) ∧
      normal.IsNormalFormOf program.unfolded type := by
  obtain ⟨typed, value, value', unfolded, settled, valueMatches, evaluates, agree⟩ :=
    follows.typedValue_settles accepted
  obtain ⟨normal, run, form⟩ :=
    Value.readBack_settles typed valueMatches evaluates agree scope.names
  exact ⟨normal, defined.bind (settled.bind (run.mapFault Fault.stuck)), form⟩

namespace Program

/-- The run of every program ends, and its result is a term or a rejection: every large enough bound
gives this result, and no bound gives another. -/
theorem run_terminates (program : Program) :
    ∃ result : Outcome Fault Term,
      ((∃ term, result = .done term) ∨ ∃ error, result = .failed (.rejected error)) ∧
      (∃ bound, ∀ fuel, bound ≤ fuel → program.run fuel = result) ∧
      ∀ fuel, program.run fuel = .exhausted ∨ program.run fuel = result := by
  have steady := fun fuel => run_below fuel program
  rcases Scope.Follows.define_settles program.definitions Scope.Follows.nil with
    ⟨error, rejected⟩ | ⟨scope, values, defined, follows⟩
  · have settled : Settles (fun fuel => program.run fuel) (.failed (.rejected error)) :=
      rejected.bind_failed
    exact ⟨_, .inr ⟨error, rfl⟩, settled, settled.below steady⟩
  · cases checked : program.body.synth scope.context with
    | error error =>
        have settled : Settles (fun fuel => program.run fuel) (.failed (.rejected error)) :=
          defined.bind (Scope.typedValue_rejected checked).bind_failed
        exact ⟨_, .inr ⟨error, rfl⟩, settled, settled.below steady⟩
    | ok type =>
        obtain ⟨normal, settled, _⟩ := follows.run_settles defined checked
        exact ⟨_, .inl ⟨normal, rfl⟩, settled, settled.below steady⟩

/-- Under accepted definitions, two bodies of one type run to normal forms that are alpha-equivalent
exactly when the unfolded bodies are equal in the theory. -/
theorem run_decides_equality {fuel : Nat} {definitions : List Definition} {scope : Scope}
    (defined : Scope.ofDefinitions fuel definitions = .done scope) {left right : Term} {type : Ty}
    (leftAccepted : left.synth scope.context = .ok type)
    (rightAccepted : right.synth scope.context = .ok type) :
    ∃ bound leftNormal rightNormal,
      (∀ fuel, bound ≤ fuel → Program.run fuel ⟨definitions, left⟩ = .done leftNormal ∧
        Program.run fuel ⟨definitions, right⟩ = .done rightNormal) ∧
      (leftNormal.AlphaEquiv rightNormal ↔
        Equal [] (unfolded ⟨definitions, left⟩) (unfolded ⟨definitions, right⟩) type) := by
  obtain ⟨settled, values, follows⟩ := Scope.follows_of_ofDefinitions defined
  obtain ⟨leftNormal, ⟨leftBound, leftRun⟩, leftForm⟩ :=
    @Scope.Follows.run_settles ⟨definitions, left⟩ _ _ follows settled _ leftAccepted
  obtain ⟨rightNormal, ⟨rightBound, rightRun⟩, rightForm⟩ :=
    @Scope.Follows.run_settles ⟨definitions, right⟩ _ _ follows settled _ rightAccepted
  refine ⟨max leftBound rightBound, leftNormal, rightNormal, ?_, leftForm.alphaEquiv_iff rightForm⟩
  intro fuel enough
  exact ⟨leftRun fuel (by omega), rightRun fuel (by omega)⟩

end Program

def arithmeticScope : Scope :=
  let two : Checked := ⟨"two", .nat, .add1 (.add1 .zero)⟩
  let three : Checked := ⟨"three", .nat, .add1 (.add1 (.add1 .zero))⟩
  [⟨"+", .arrow .nat (.arrow .nat .nat),
      .closure (Scope.env [three, two]) "n" (.lam "k" (.recNat .nat (.var "n") (.var "k")
        (.lam "pred" (.lam "almostSum" (.add1 (.var "almostSum"))))))⟩,
    three, two]

/-- The decision for addition of two and for the function that adds one twice. -/
theorem addTwo_equality_decided :
    Scope.ofDefinitions 9 Arithmetic.definitions = .done arithmeticScope ∧
      (Term.app (.var "+") (.var "two")).synth arithmeticScope.context =
        .ok (.arrow .nat .nat) ∧
      (Term.ann (.lam "k" (.add1 (.add1 (.var "k")))) (.arrow .nat .nat)).synth
        arithmeticScope.context = .ok (.arrow .nat .nat) ∧
      ∃ bound leftNormal rightNormal,
        (∀ fuel, bound ≤ fuel →
          Program.run fuel ⟨Arithmetic.definitions, .app (.var "+") (.var "two")⟩ =
            .done leftNormal ∧
          Program.run fuel ⟨Arithmetic.definitions,
            .ann (.lam "k" (.add1 (.add1 (.var "k")))) (.arrow .nat .nat)⟩ = .done rightNormal) ∧
        (leftNormal.AlphaEquiv rightNormal ↔
          Equal [] (Program.unfolded ⟨Arithmetic.definitions, .app (.var "+") (.var "two")⟩)
            (Program.unfolded ⟨Arithmetic.definitions,
              .ann (.lam "k" (.add1 (.add1 (.var "k")))) (.arrow .nat .nat)⟩)
            (.arrow .nat .nat)) := by
  have defined : Scope.ofDefinitions 9 Arithmetic.definitions = .done arithmeticScope := by
    decide +kernel
  have leftAccepted : (Term.app (.var "+") (.var "two")).synth arithmeticScope.context =
      .ok (.arrow .nat .nat) := by
    decide +kernel
  have rightAccepted : (Term.ann (.lam "k" (.add1 (.add1 (.var "k")))) (.arrow .nat .nat)).synth
      arithmeticScope.context = .ok (.arrow .nat .nat) := by
    decide +kernel
  exact ⟨defined, leftAccepted, rightAccepted,
    Program.run_decides_equality defined leftAccepted rightAccepted⟩

end LambdaCalculi.Simple
