import LambdaCalculi.Proofs.Simple.NaturalSemantics
import LambdaCalculi.Proofs.Simple.Theory

/-!
# Values that agree at a type

Two values of a type agree when no use of them can tell them apart: numbers and blocked computations
when they have the same normal form, functions when they take agreeing arguments to agreeing results.
Agreement is symmetric and transitive, values that agree have the same normal form, and terms that are
equal in the theory have values that agree. In particular every typed term has a value and a normal
form.
-/

set_option autoImplicit false

namespace LambdaCalculi.Simple.Leveled

namespace Neutral

def Agree (left right : Neutral) : Prop :=
  ∀ depth, ∃ term, NeutralReadsBack depth left term ∧ NeutralReadsBack depth right term

theorem Agree.var (level : Nat) : Agree (.var level) (.var level) :=
  fun _ => ⟨_, .var, .var⟩

theorem Agree.symm {left right : Neutral} (agree : Agree left right) : Agree right left := by
  intro depth
  obtain ⟨term, leftTerm, rightTerm⟩ := agree depth
  exact ⟨term, rightTerm, leftTerm⟩

theorem Agree.trans {left middle right : Neutral} (first : Agree left middle)
    (second : Agree middle right) : Agree left right := by
  intro depth
  obtain ⟨term, leftTerm, middleTerm⟩ := first depth
  obtain ⟨other, otherMiddle, rightTerm⟩ := second depth
  cases middleTerm.unique otherMiddle
  exact ⟨term, leftTerm, rightTerm⟩

end Neutral

namespace Value

inductive AgreeAsNats : Value → Value → Prop where
  | zero : AgreeAsNats .zero .zero
  | add1 {left right : Value} : AgreeAsNats left right → AgreeAsNats (.add1 left) (.add1 right)
  | neutral {left right : Neutral} :
      left.Agree right → AgreeAsNats (.neutral .nat left) (.neutral .nat right)

def Agree : Ty → Value → Value → Prop
  | .nat, left, right => AgreeAsNats left right
  | .arrow domain codomain, left, right =>
      ∀ argument argument', Agree domain argument argument' →
        ∃ result result', Applies left argument result ∧ Applies right argument' result' ∧
          Agree codomain result result'

def ReadAlike (type : Ty) (left right : Value) : Prop :=
  ∀ depth, ∃ term, ReadsBack depth type left term ∧ ReadsBack depth type right term

theorem AgreeAsNats.readAlike {left right : Value} (agree : AgreeAsNats left right) :
    ReadAlike .nat left right := by
  intro depth
  induction agree with
  | zero => exact ⟨.zero, .zero, .zero⟩
  | add1 _ ih =>
      obtain ⟨term, leftTerm, rightTerm⟩ := ih
      exact ⟨.add1 term, .add1 leftTerm, .add1 rightTerm⟩
  | neutral agree =>
      obtain ⟨term, leftTerm, rightTerm⟩ := agree depth
      exact ⟨term, .neutral leftTerm, .neutral rightTerm⟩

/-- Agreement holds of blocked computations with the same terms and implies equal normal forms. The
two facts need each other at the domain and the codomain of a function type. -/
theorem agree_neutral_and_readAlike (type : Ty) :
    (∀ left right : Neutral, left.Agree right → Agree type (.neutral type left) (.neutral type right)) ∧
      ∀ left right : Value, Agree type left right → ReadAlike type left right := by
  induction type with
  | nat => exact ⟨fun _ _ agree => .neutral agree, fun _ _ agree => agree.readAlike⟩
  | arrow domain codomain domainIH codomainIH =>
      refine ⟨?_, ?_⟩
      · intro left right agree argument argument' argumentsAgree
        refine ⟨_, _, .neutral, .neutral, codomainIH.1 _ _ ?_⟩
        intro depth
        obtain ⟨term, leftTerm, rightTerm⟩ := agree depth
        obtain ⟨argumentTerm, leftArgument, rightArgument⟩ :=
          domainIH.2 argument argument' argumentsAgree depth
        exact ⟨.app term argumentTerm, .app leftTerm leftArgument, .app rightTerm rightArgument⟩
      · intro left right agree depth
        have variableAgrees := domainIH.1 _ _ (Neutral.Agree.var depth)
        obtain ⟨result, result', leftApplies, rightApplies, resultsAgree⟩ :=
          agree _ _ variableAgrees
        obtain ⟨body, leftBody, rightBody⟩ := codomainIH.2 result result' resultsAgree (depth + 1)
        exact ⟨.lam body, .function leftApplies leftBody, .function rightApplies rightBody⟩

theorem Agree.neutral {type : Ty} {left right : Neutral} (agree : left.Agree right) :
    Agree type (.neutral type left) (.neutral type right) :=
  (agree_neutral_and_readAlike type).1 left right agree

theorem Agree.readAlike {type : Ty} {left right : Value} (agree : Agree type left right) :
    ReadAlike type left right :=
  (agree_neutral_and_readAlike type).2 left right agree

theorem AgreeAsNats.symm {left right : Value} (agree : AgreeAsNats left right) :
    AgreeAsNats right left := by
  induction agree with
  | zero => exact .zero
  | add1 _ ih => exact .add1 ih
  | neutral agree => exact .neutral agree.symm

theorem AgreeAsNats.trans {left middle right : Value} (first : AgreeAsNats left middle)
    (second : AgreeAsNats middle right) : AgreeAsNats left right := by
  induction first generalizing right with
  | zero => exact second
  | add1 _ ih =>
      cases second with
      | add1 second => exact .add1 (ih second)
  | neutral first =>
      cases second with
      | neutral second => exact .neutral (first.trans second)

theorem Agree.symm {type : Ty} {left right : Value} (agree : Agree type left right) :
    Agree type right left := by
  induction type generalizing left right with
  | nat => exact AgreeAsNats.symm agree
  | arrow domain codomain domainIH codomainIH =>
      intro argument argument' argumentsAgree
      obtain ⟨result, result', leftApplies, rightApplies, resultsAgree⟩ :=
        agree _ _ (domainIH argumentsAgree)
      exact ⟨result', result, rightApplies, leftApplies, codomainIH resultsAgree⟩

theorem Agree.trans {type : Ty} {left middle right : Value} (first : Agree type left middle)
    (second : Agree type middle right) : Agree type left right := by
  induction type generalizing left middle right with
  | nat => exact AgreeAsNats.trans first second
  | arrow domain codomain domainIH codomainIH =>
      intro argument argument' argumentsAgree
      -- The middle function is taken at the first argument, which agrees with itself.
      have argumentAgrees := domainIH argumentsAgree argumentsAgree.symm
      obtain ⟨result, between, leftApplies, middleApplies, firstAgree⟩ := first _ _ argumentAgrees
      obtain ⟨between', result', middleApplies', rightApplies, secondAgree⟩ :=
        second _ _ argumentsAgree
      cases middleApplies.unique middleApplies'
      exact ⟨result, result', leftApplies, rightApplies, codomainIH firstAgree secondAgree⟩

theorem Agree.self {type : Ty} {left right : Value} (agree : Agree type left right) :
    Agree type left left :=
  agree.trans agree.symm

theorem AgreeAsNats.recurse {type : Ty} {base base' step step' target target' : Value}
    (targetsAgree : AgreeAsNats target target') (basesAgree : Agree type base base')
    (stepsAgree : Agree type.step step step') :
    ∃ result result', Recurses type base step target result ∧
      Recurses type base' step' target' result' ∧ Agree type result result' := by
  induction targetsAgree with
  | zero => exact ⟨base, base', .zero, .zero, basesAgree⟩
  | add1 predecessorsAgree ih =>
      obtain ⟨almost, almost', recurses, recurses', almostAgree⟩ := ih
      obtain ⟨stepAt, stepAt', applies, applies', stepAtAgree⟩ := stepsAgree _ _ predecessorsAgree
      obtain ⟨result, result', final, final', resultsAgree⟩ := stepAtAgree _ _ almostAgree
      exact ⟨result, result', .add1 applies recurses final, .add1 applies' recurses' final',
        resultsAgree⟩
  | neutral agree =>
      refine ⟨_, _, .neutral, .neutral, Agree.neutral ?_⟩
      intro depth
      obtain ⟨targetTerm, targetRead, targetRead'⟩ := agree depth
      obtain ⟨baseTerm, baseRead, baseRead'⟩ := basesAgree.readAlike depth
      obtain ⟨stepTerm, stepRead, stepRead'⟩ := stepsAgree.readAlike depth
      exact ⟨.recNat type targetTerm baseTerm stepTerm, .recNat targetRead baseRead stepRead,
        .recNat targetRead' baseRead' stepRead'⟩

end Value

open LambdaCalculi.Simple.Leveled.Value

def EnvAgree (types : Types) (left right : List Value) : Prop :=
  ∀ (index : Nat) (type : Ty), types[index]? = some type →
    ∃ value value', left[index]? = some value ∧ right[index]? = some value' ∧
      Agree type value value'

namespace EnvAgree

theorem nil : EnvAgree [] [] [] := by
  intro index type found
  cases found

theorem cons {types : Types} {left right : List Value} {type : Ty} {value value' : Value}
    (agree : EnvAgree types left right) (valuesAgree : Agree type value value') :
    EnvAgree (type :: types) (value :: left) (value' :: right) := by
  intro index other found
  cases index with
  | zero =>
      cases found
      exact ⟨value, value', rfl, rfl, valuesAgree⟩
  | succ index => exact agree index other found

theorem symm {types : Types} {left right : List Value} (agree : EnvAgree types left right) :
    EnvAgree types right left := by
  intro index type found
  obtain ⟨value, value', leftFound, rightFound, valuesAgree⟩ := agree index type found
  exact ⟨value', value, rightFound, leftFound, valuesAgree.symm⟩

theorem self {types : Types} {left right : List Value} (agree : EnvAgree types left right) :
    EnvAgree types left left := by
  intro index type found
  obtain ⟨value, value', leftFound, rightFound, valuesAgree⟩ := agree index type found
  exact ⟨value, value, leftFound, leftFound, valuesAgree.self⟩

end EnvAgree

def EvaluateAlike (type : Ty) (env : List Value) (term : Nameless) (env' : List Value)
    (term' : Nameless) : Prop :=
  ∃ value value', Evaluates env term value ∧ Evaluates env' term' value' ∧ Agree type value value'

namespace EvaluateAlike

variable {type : Ty} {env env' : List Value}

theorem symm {term term' : Nameless} (alike : EvaluateAlike type env term env' term') :
    EvaluateAlike type env' term' env term := by
  obtain ⟨value, value', evaluates, evaluates', agree⟩ := alike
  exact ⟨value', value, evaluates', evaluates, agree.symm⟩

theorem trans {env'' : List Value} {term term' term'' : Nameless}
    (first : EvaluateAlike type env term env' term')
    (second : EvaluateAlike type env' term' env'' term'') :
    EvaluateAlike type env term env'' term'' := by
  obtain ⟨value, middle, evaluates, middleEvaluates, agree⟩ := first
  obtain ⟨middle', value'', middleEvaluates', evaluates'', agree'⟩ := second
  cases middleEvaluates.unique middleEvaluates'
  exact ⟨value, value'', evaluates, evaluates'', agree.trans agree'⟩

theorem lam {domain codomain : Ty} {body body' : Nameless}
    (alike : ∀ argument argument', Agree domain argument argument' →
      EvaluateAlike codomain (argument :: env) body (argument' :: env') body') :
    EvaluateAlike (.arrow domain codomain) env (.lam body) env' (.lam body') := by
  refine ⟨_, _, .lam, .lam, ?_⟩
  intro argument argument' argumentsAgree
  obtain ⟨result, result', evaluates, evaluates', agree⟩ := alike argument argument' argumentsAgree
  exact ⟨result, result', .closure evaluates, .closure evaluates', agree⟩

theorem app {domain codomain : Ty} {function function' argument argument' : Nameless}
    (functions : EvaluateAlike (.arrow domain codomain) env function env' function')
    (arguments : EvaluateAlike domain env argument env' argument') :
    EvaluateAlike codomain env (.app function argument) env' (.app function' argument') := by
  obtain ⟨_, _, functionEvaluates, functionEvaluates', functionsAgree⟩ := functions
  obtain ⟨_, _, argumentEvaluates, argumentEvaluates', argumentsAgree⟩ := arguments
  obtain ⟨result, result', applies, applies', agree⟩ := functionsAgree _ _ argumentsAgree
  exact ⟨result, result', .app functionEvaluates argumentEvaluates applies,
    .app functionEvaluates' argumentEvaluates' applies', agree⟩

theorem zero : EvaluateAlike .nat env .zero env' .zero :=
  ⟨_, _, .zero, .zero, AgreeAsNats.zero⟩

theorem add1 {predecessor predecessor' : Nameless}
    (predecessors : EvaluateAlike .nat env predecessor env' predecessor') :
    EvaluateAlike .nat env (.add1 predecessor) env' (.add1 predecessor') := by
  obtain ⟨_, _, evaluates, evaluates', agree⟩ := predecessors
  exact ⟨_, _, .add1 evaluates, .add1 evaluates', AgreeAsNats.add1 agree⟩

theorem recNat {target target' base base' step step' : Nameless}
    (targets : EvaluateAlike .nat env target env' target')
    (bases : EvaluateAlike type env base env' base')
    (steps : EvaluateAlike type.step env step env' step') :
    EvaluateAlike type env (.recNat type target base step) env'
      (.recNat type target' base' step') := by
  obtain ⟨_, _, targetEvaluates, targetEvaluates', targetsAgree⟩ := targets
  obtain ⟨_, _, baseEvaluates, baseEvaluates', basesAgree⟩ := bases
  obtain ⟨_, _, stepEvaluates, stepEvaluates', stepsAgree⟩ := steps
  obtain ⟨result, result', recurses, recurses', agree⟩ :=
    AgreeAsNats.recurse targetsAgree basesAgree stepsAgree
  exact ⟨result, result', .recNat targetEvaluates baseEvaluates stepEvaluates recurses,
    .recNat targetEvaluates' baseEvaluates' stepEvaluates' recurses', agree⟩

theorem ann {stated stated' : Ty} {expr expr' : Nameless}
    (exprs : EvaluateAlike type env expr env' expr') :
    EvaluateAlike type env (.ann expr stated) env' (.ann expr' stated') := by
  obtain ⟨value, value', evaluates, evaluates', agree⟩ := exprs
  exact ⟨value, value', .ann evaluates, .ann evaluates', agree⟩

end EvaluateAlike

/-! ## Substitution

A term under a substitution agrees with the term in the environment of the substituted values. The
induction is done once, for any condition on substitutions and environments that a binder keeps; it is
used for renumberings first, because under a binder a substitution is renumbered. -/

theorem evaluateAlike_subst_of_lift
    (condition : Types → (Nat → Nameless) → List Value → List Value → Prop)
    (atVariable : ∀ {types substitution env env'}, condition types substitution env env' →
      ∀ index type, types[index]? = some type →
        EvaluateAlike type env (substitution index) env' (.bound index))
    (underBinder : ∀ {types substitution env env'}, condition types substitution env env' →
      ∀ {domain argument argument'}, Agree domain argument argument' →
        condition (domain :: types) (Nameless.lift substitution) (argument :: env)
          (argument' :: env'))
    {types : Types} {term : Nameless} {type : Ty} (typed : HasType types term type) :
    ∀ {substitution : Nat → Nameless} {env env' : List Value},
      condition types substitution env env' →
      EvaluateAlike type env (term.subst substitution) env' term := by
  induction typed with
  | bound found =>
      intro substitution env env' holds
      exact atVariable holds _ _ found
  | lam _ ih =>
      intro substitution env env' holds
      refine .lam ?_
      intro argument argument' argumentsAgree
      exact ih (underBinder holds argumentsAgree)
  | app _ _ functionIH argumentIH =>
      intro substitution env env' holds
      exact .app (functionIH holds) (argumentIH holds)
  | zero =>
      intro substitution env env' _
      exact .zero
  | add1 _ ih =>
      intro substitution env env' holds
      exact .add1 (ih holds)
  | recNat _ _ _ targetIH baseIH stepIH =>
      intro substitution env env' holds
      exact .recNat (targetIH holds) (baseIH holds) (stepIH holds)
  | ann _ ih =>
      intro substitution env env' holds
      exact .ann (ih holds)

/-- The values that a renumbering picks agree with those of the variables. -/
def RenumberedAgree (types : Types) (substitution : Nat → Nameless) (env env' : List Value) : Prop :=
  ∃ mapping : Nat → Nat, (substitution = fun index => .bound (mapping index)) ∧
    ∀ index type, types[index]? = some type →
      ∃ value value', env[mapping index]? = some value ∧ env'[index]? = some value' ∧
        Agree type value value'

theorem RenumberedAgree.lift {types : Types} {substitution : Nat → Nameless} {env env' : List Value}
    (holds : RenumberedAgree types substitution env env') {domain : Ty} {argument argument' : Value}
    (argumentsAgree : Agree domain argument argument') :
    RenumberedAgree (domain :: types) (Nameless.lift substitution) (argument :: env)
      (argument' :: env') := by
  obtain ⟨mapping, rfl, agree⟩ := holds
  refine ⟨Nameless.liftRenaming mapping, ?_, ?_⟩
  · funext index
    cases index <;> rfl
  · intro index type found
    cases index with
    | zero =>
        cases found
        exact ⟨argument, argument', rfl, rfl, argumentsAgree⟩
    | succ index => exact agree index type found

end LambdaCalculi.Simple.Leveled

namespace LambdaCalculi.Simple

open Leveled (EnvAgree EvaluateAlike RenumberedAgree evaluateAlike_subst_of_lift)
open Leveled.Value (Agree)

theorem HasType.evaluateAlike_rename {types : Types} {term : Nameless} {type : Ty}
    (typed : HasType types term type) {mapping : Nat → Nat} {env env' : List Leveled.Value}
    (agree : ∀ index type, types[index]? = some type →
      ∃ value value', env[mapping index]? = some value ∧ env'[index]? = some value' ∧
        Agree type value value') :
    EvaluateAlike type env (term.rename mapping) env' term := by
  rw [Nameless.rename_eq_subst]
  refine evaluateAlike_subst_of_lift RenumberedAgree ?_ (fun holds => holds.lift) typed
    ⟨mapping, rfl, agree⟩
  rintro types substitution env env' ⟨mapping, rfl, agree⟩ index type found
  obtain ⟨value, value', valueFound, valueFound', valuesAgree⟩ := agree index type found
  exact ⟨value, value', .bound valueFound, .bound valueFound', valuesAgree⟩

/-- A typed term has values that agree in environments that agree. -/
theorem HasType.evaluateAlike {types : Types} {term : Nameless} {type : Ty}
    (typed : HasType types term type) {env env' : List Leveled.Value} (agree : EnvAgree types env env') :
    EvaluateAlike type env term env' term := by
  have renamed := HasType.evaluateAlike_rename typed agree
  rw [Nameless.rename_eq_subst, Nameless.subst_bound] at renamed
  exact renamed

theorem HasType.evaluateAlike_shift {types : Types} {term : Nameless} {type : Ty}
    (typed : HasType types term type) {env env' : List Leveled.Value} (agree : EnvAgree types env env')
    (value : Leveled.Value) : EvaluateAlike type (value :: env) (term.shift 1) env' term :=
  HasType.evaluateAlike_rename typed fun index other found => agree index other found

def SubstitutedAgree (types : Types) (substitution : Nat → Nameless) (env env' : List Leveled.Value) : Prop :=
  ∃ inner : Types, EnvAgree inner env env ∧
    ∀ index type, types[index]? = some type → HasType inner (substitution index) type ∧
      EvaluateAlike type env (substitution index) env' (.bound index)

theorem SubstitutedAgree.lift {types : Types} {substitution : Nat → Nameless}
    {env env' : List Leveled.Value} (holds : SubstitutedAgree types substitution env env') {domain : Ty}
    {argument argument' : Leveled.Value} (argumentsAgree : Agree domain argument argument') :
    SubstitutedAgree (domain :: types) (Nameless.lift substitution) (argument :: env)
      (argument' :: env') := by
  obtain ⟨inner, innerAgree, each⟩ := holds
  refine ⟨domain :: inner, innerAgree.cons argumentsAgree.self, ?_⟩
  intro index type found
  cases index with
  | zero =>
      cases found
      exact ⟨.bound rfl, argument, argument', .bound rfl, .bound rfl, argumentsAgree⟩
  | succ index =>
      obtain ⟨typed, alike⟩ := each index type found
      refine ⟨typed.shift [domain], ?_⟩
      obtain ⟨value, value', evaluates, evaluates', agree⟩ :=
        (typed.evaluateAlike_shift innerAgree argument).trans alike
      cases evaluates' with
      | bound valueFound => exact ⟨value, value', evaluates, .bound valueFound, agree⟩

theorem HasType.evaluateAlike_subst {types : Types} {term : Nameless} {type : Ty}
    (typed : HasType types term type) {substitution : Nat → Nameless} {env env' : List Leveled.Value}
    (holds : SubstitutedAgree types substitution env env') :
    EvaluateAlike type env (term.subst substitution) env' term := by
  refine evaluateAlike_subst_of_lift SubstitutedAgree ?_ (fun holds => holds.lift) typed holds
  rintro types substitution env env' ⟨_, _, each⟩ index type found
  exact (each index type found).2

theorem HasType.evaluateAlike_instantiate {types : Types} {domain codomain : Ty}
    {body argument : Nameless} (typed : HasType (domain :: types) body codomain)
    (argumentTyped : HasType types argument domain) {env env' : List Leveled.Value}
    (agree : EnvAgree types env env') {value : Leveled.Value} (evaluates : Leveled.Evaluates env' argument value) :
    EvaluateAlike codomain env (body.instantiate argument) (value :: env') body := by
  refine typed.evaluateAlike_subst ⟨types, agree.self, ?_⟩
  intro index type found
  cases index with
  | zero =>
      cases found
      obtain ⟨_, _, here, there, valuesAgree⟩ := argumentTyped.evaluateAlike agree
      cases there.unique evaluates
      exact ⟨argumentTyped, _, _, here, .bound rfl, valuesAgree⟩
  | succ index =>
      obtain ⟨_, _, here, there, valuesAgree⟩ := agree index type found
      exact ⟨.bound found, _, _, .bound here, .bound there, valuesAgree⟩

/-! ## Equal terms -/

theorem Equal.evaluateAlike {types : Types} {left right : Nameless} {type : Ty}
    (equal : Equal types left right type) :
    ∀ {env env' : List Leveled.Value}, EnvAgree types env env' → EvaluateAlike type env left env' right := by
  induction equal with
  | refl typed =>
      intro env env' agree
      exact typed.evaluateAlike agree
  | symm _ ih =>
      intro env env' agree
      exact (ih agree.symm).symm
  | trans _ _ firstIH secondIH =>
      intro env env' agree
      exact (firstIH agree.self).trans (secondIH agree)
  | lam _ ih =>
      intro env env' agree
      refine .lam ?_
      intro argument argument' argumentsAgree
      exact ih (agree.cons argumentsAgree)
  | app _ _ functionIH argumentIH =>
      intro env env' agree
      exact .app (functionIH agree) (argumentIH agree)
  | add1 _ ih =>
      intro env env' agree
      exact .add1 (ih agree)
  | recNat _ _ _ targetIH baseIH stepIH =>
      intro env env' agree
      exact .recNat (targetIH agree) (baseIH agree) (stepIH agree)
  | ann _ ih =>
      intro env env' agree
      exact .ann (ih agree)
  | beta bodyTyped argumentTyped =>
      intro env env' agree
      obtain ⟨value, _, evaluates, _, _⟩ := argumentTyped.evaluateAlike agree
      obtain ⟨result', result, instantiated, bodyEvaluates, resultsAgree⟩ :=
        bodyTyped.evaluateAlike_instantiate argumentTyped agree.symm evaluates
      exact ⟨result, result', .app .lam evaluates (.closure bodyEvaluates), instantiated,
        resultsAgree.symm⟩
  | eta typed =>
      intro env env' agree
      obtain ⟨function, _, evaluates, _, functionAgrees⟩ := typed.evaluateAlike agree
      refine ⟨function, _, evaluates, .lam, ?_⟩
      intro argument argument' argumentsAgree
      obtain ⟨shifted, original, shiftedEvaluates, originalEvaluates, shiftedAgrees⟩ :=
        typed.evaluateAlike_shift agree.symm argument'
      cases originalEvaluates.unique evaluates
      obtain ⟨result, result', applies, applies', resultsAgree⟩ :=
        shiftedAgrees.symm _ _ argumentsAgree
      exact ⟨result, result', applies,
        .closure (.app shiftedEvaluates (.bound rfl) applies'), resultsAgree⟩
  | recNatZero baseTyped stepTyped =>
      intro env env' agree
      obtain ⟨base, base', baseEvaluates, baseEvaluates', basesAgree⟩ :=
        baseTyped.evaluateAlike agree
      obtain ⟨_, _, stepEvaluates, _, _⟩ := stepTyped.evaluateAlike agree
      exact ⟨base, base', .recNat .zero baseEvaluates stepEvaluates .zero, baseEvaluates',
        basesAgree⟩
  | recNatAdd1 predecessorTyped baseTyped stepTyped =>
      intro env env' agree
      have unfolded : HasType _ _ _ := .app (.app stepTyped predecessorTyped)
        (.recNat predecessorTyped baseTyped stepTyped)
      obtain ⟨result, result', evaluates, evaluates', resultsAgree⟩ := unfolded.evaluateAlike agree
      refine ⟨result, result', ?_, evaluates', resultsAgree⟩
      -- The value of the right side in the first environment computes the left side as well.
      cases evaluates with
      | app stepAtPredecessor recursion final =>
          cases stepAtPredecessor with
          | app stepEvaluates predecessorEvaluates applies =>
              cases recursion with
              | recNat target base step recurses =>
                  cases target.unique predecessorEvaluates
                  cases step.unique stepEvaluates
                  exact .recNat (.add1 target) base step (.add1 applies recurses final)
  | erase typed =>
      intro env env' agree
      obtain ⟨value, value', evaluates, evaluates', agree⟩ := typed.evaluateAlike agree
      exact ⟨value, value', .ann evaluates, evaluates', agree⟩

end LambdaCalculi.Simple
