import LambdaCalculi.Dependent.Program

/-!
# Checks that succeed

What is known when a step of the type checker succeeds: a kind of type that was asked for was
found, the type of a term comes from the types and values of its parts, and a definition has a type
and a value.
-/

set_option autoImplicit false

namespace LambdaCalculi.Dependent.Context

variable {fuel : Nat} {ctx : Context} {type : Value}

theorem rejectFormer_ne_done {α : Type} {want : TypeFormer} {value : α} :
    (ctx.rejectFormer fuel want type : Checking α).outcome ≠ .done value := by
  intro run
  simp only [rejectFormer, Traced.outcome_bind, Outcome.bind_eq_done_iff,
    Checking.outcome_reject] at run
  obtain ⟨_, _, impossible⟩ := run
  cases impossible

theorem expectPi_eq_done {found : Value × Closure}
    (run : (ctx.expectPi fuel type : Checking (Value × Closure)).outcome = .done found) :
    type = .pi found.1 found.2 := by
  unfold expectPi at run
  split at run
  · cases run
    rfl
  · exact absurd run rejectFormer_ne_done

theorem expectSigma_eq_done {found : Value × Closure}
    (run : (ctx.expectSigma fuel type : Checking (Value × Closure)).outcome = .done found) :
    type = .sigma found.1 found.2 := by
  unfold expectSigma at run
  split at run
  · cases run
    rfl
  · exact absurd run rejectFormer_ne_done

theorem expectEqual_eq_done {found : Value × Value × Value}
    (run : (ctx.expectEqual fuel type : Checking (Value × Value × Value)).outcome = .done found) :
    type = .equal found.1 found.2.1 found.2.2 := by
  unfold expectEqual at run
  split at run
  · cases run
    rfl
  · exact absurd run rejectFormer_ne_done

/-- Where the type of a term comes from: it is that of a variable, the type of all types, part of the
type of a subterm, the value of a subterm, or one of these applied to another. -/
inductive TypeSource (fuel : Nat) (ctx : Context) : Term → Value → Prop where
  | var {x : Name} {type : Value} (run : (ctx.lookupType x : Checking Value).outcome = .done type) :
      TypeSource fuel ctx (.var x) type
  | former {term : Term} : TypeSource fuel ctx term .univ
  | app {function argument : Term} {domain argumentValue type : Value} {range : Closure}
      (functionRun : (ctx.synth fuel function : Checking Value).outcome = .done (.pi domain range))
      (argumentRun : (ctx.eval fuel argument : Outcome Stuck Value) = .done argumentValue)
      (run : (range.instantiate fuel argumentValue : Outcome Stuck Value) = .done type) :
      TypeSource fuel ctx (.app function argument) type
  | car {pair : Term} {carType : Value} {cdrType : Closure}
      (run : (ctx.synth fuel pair : Checking Value).outcome = .done (.sigma carType cdrType)) :
      TypeSource fuel ctx (.car pair) carType
  | cdr {pair : Term} {carType pairValue first type : Value} {cdrType : Closure}
      (pairRun : (ctx.synth fuel pair : Checking Value).outcome = .done (.sigma carType cdrType))
      (valueRun : (ctx.eval fuel pair : Outcome Stuck Value) = .done pairValue)
      (firstRun : (pairValue.car : Outcome Stuck Value) = .done first)
      (run : (cdrType.instantiate fuel first : Outcome Stuck Value) = .done type) :
      TypeSource fuel ctx (.cdr pair) type
  | indNat {target motive base step : Term} {motiveValue targetValue type : Value}
      (motiveRun : (ctx.eval fuel motive : Outcome Stuck Value) = .done motiveValue)
      (targetRun : (ctx.eval fuel target : Outcome Stuck Value) = .done targetValue)
      (run : (motiveValue.apply fuel targetValue : Outcome Stuck Value) = .done type) :
      TypeSource fuel ctx (.indNat target motive base step) type
  | replace {target motive base : Term} {ofType left right motiveValue type : Value}
      (targetRun : (ctx.synth fuel target : Checking Value).outcome = .done (.equal ofType left right))
      (motiveRun : (ctx.eval fuel motive : Outcome Stuck Value) = .done motiveValue)
      (run : (motiveValue.apply fuel right : Outcome Stuck Value) = .done type) :
      TypeSource fuel ctx (.replace target motive base) type
  | indAbsurd {target motive : Term} {type : Value}
      (run : (ctx.eval fuel motive : Outcome Stuck Value) = .done type) :
      TypeSource fuel ctx (.indAbsurd target motive) type
  | the {given expr : Term} {type : Value}
      (run : (ctx.eval fuel given : Outcome Stuck Value) = .done type) :
      TypeSource fuel ctx (.the given expr) type

theorem synth_eq_done {term : Term}
    (run : (ctx.synth (fuel + 1) term : Checking Value).outcome = .done type) :
    TypeSource fuel ctx term type := by
  cases term with
  | var x =>
      simp only [synth, Traced.outcome_bind, Checking.outcome_record, Outcome.done_bind] at run
      exact .var run
  | app function argument =>
      simp only [synth, Traced.outcome_bind, Checking.outcome_record, Checking.outcome_compute,
        Outcome.done_bind, Outcome.bind_eq_done_iff, Outcome.mapFault_eq_done_iff] at run
      obtain ⟨functionType, functionRun, pi, isPi, _, _, argumentValue, argumentRun, run⟩ := run
      exact .app (expectPi_eq_done isPi ▸ functionRun) argumentRun run
  | car pair =>
      simp only [synth, Traced.outcome_bind, Checking.outcome_record, Outcome.done_bind,
        Outcome.bind_eq_done_iff] at run
      obtain ⟨pairType, pairRun, sigma, isSigma, run⟩ := run
      cases run
      exact .car (expectSigma_eq_done isSigma ▸ pairRun)
  | cdr pair =>
      simp only [synth, Traced.outcome_bind, Checking.outcome_record, Checking.outcome_compute,
        Outcome.done_bind, Outcome.bind_eq_done_iff, Outcome.mapFault_eq_done_iff] at run
      obtain ⟨pairType, pairRun, sigma, isSigma, pairValue, valueRun, first, firstRun, run⟩ := run
      exact .cdr (expectSigma_eq_done isSigma ▸ pairRun) valueRun firstRun run
  | indNat target motive base step =>
      simp only [synth, Traced.outcome_bind, Checking.outcome_record, Checking.outcome_compute,
        Outcome.done_bind, Outcome.bind_eq_done_iff, Outcome.mapFault_eq_done_iff] at run
      obtain ⟨_, _, _, _, _, _, motiveValue, motiveRun, _, _, _, _, _, _, targetValue, targetRun,
        run⟩ := run
      exact .indNat motiveRun targetRun run
  | replace target motive base =>
      simp only [synth, Traced.outcome_bind, Checking.outcome_record, Checking.outcome_compute,
        Outcome.done_bind, Outcome.bind_eq_done_iff, Outcome.mapFault_eq_done_iff] at run
      obtain ⟨targetType, targetRun, equal, isEqual, _, _, motiveValue, motiveRun, _, _, _, _,
        run⟩ := run
      exact .replace (expectEqual_eq_done isEqual ▸ targetRun) motiveRun run
  | indAbsurd target motive =>
      simp only [synth, Traced.outcome_bind, Checking.outcome_record, Checking.outcome_compute,
        Outcome.done_bind, Outcome.bind_eq_done_iff, Outcome.mapFault_eq_done_iff] at run
      obtain ⟨_, _, _, _, _, _, run⟩ := run
      exact .indAbsurd run
  | the given expr =>
      simp only [synth, Traced.outcome_bind, Checking.outcome_record, Checking.outcome_compute,
        Outcome.done_bind, Outcome.bind_eq_done_iff, Outcome.mapFault_eq_done_iff] at run
      obtain ⟨_, _, typeValue, typeRun, _, _, run⟩ := run
      cases run
      exact .the typeRun
  | pi | sigma | equal =>
      simp only [synth, Traced.outcome_bind, Checking.outcome_record, Outcome.done_bind,
        Outcome.bind_eq_done_iff] at run
      obtain ⟨_, _, _, _, _, _, _, _, run⟩ := run
      cases run
      exact .former
  | nat | trivial | absurd | atom | univ =>
      simp only [synth, Traced.outcome_bind, Checking.outcome_record, Outcome.done_bind] at run
      cases run
      exact .former
  | lam | cons | zero | add1 | same | sole | tick => simp [synth] at run

/-- A definition that is accepted has a new name, a type and a value. -/
theorem addDefinition_eq_done {x : Name} {term : Term} {inner : Context}
    (run : (ctx.addDefinition fuel x term : Checking Context).outcome = .done inner) :
    ∃ type value, ctx.binding? x = none ∧ (ctx.synth fuel term : Checking Value).outcome = .done type ∧
      (ctx.eval fuel term : Outcome Stuck Value) = .done value ∧
      inner = ⟨⟨x, .defined type value⟩ :: ctx.entries, ctx.env.extend x value⟩ := by
  unfold addDefinition at run
  split at run
  · cases run
  · rename_i unbound
    simp only [Traced.outcome_bind, Checking.outcome_record, Checking.outcome_compute,
      Outcome.done_bind, Outcome.bind_eq_done_iff, Outcome.mapFault_eq_done_iff] at run
    obtain ⟨type, typeRun, value, valueRun, run⟩ := run
    cases run
    exact ⟨type, value, by simpa using unbound, typeRun, valueRun, rfl⟩

theorem addDefinitions_cons_eq_done {definition : Definition} {rest : List Definition} {final : Context}
    (run : (ctx.addDefinitions fuel (definition :: rest) : Checking Context).outcome = .done final) :
    ∃ inner, (ctx.addDefinition fuel definition.name definition.term : Checking Context).outcome =
        .done inner ∧ (inner.addDefinitions fuel rest : Checking Context).outcome = .done final := by
  simpa only [addDefinitions, List.foldlM_cons, Traced.outcome_bind, Checking.outcome_within,
    Outcome.bind_eq_done_iff, Outcome.mapFault_eq_done_iff] using run

end LambdaCalculi.Dependent.Context
