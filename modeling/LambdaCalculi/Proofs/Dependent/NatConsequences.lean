import LambdaCalculi.Dependent.NatEquality
import LambdaCalculi.Proofs.Dependent.Bounds
import LambdaCalculi.Proofs.Dependent.Canonicity
import LambdaCalculi.Proofs.Dependent.ReachableContexts
import LambdaCalculi.Proofs.Dependent.Shadowing

/-!
# The consequences of an equality of numerals

The development about equal natural numbers, run on all pairs of numerals. `nat=consequence` computes
by two nested inductions, so what it returns for numerals is found by induction on them. The proof that
the consequences hold is a replacement along the equality. On `same` it returns the proof for a number
and itself; on a variable it is blocked, and its normal form shows `nat=consequence` at a numeral and a
variable, where the inner induction is blocked as well.
-/

set_option autoImplicit false

namespace LambdaCalculi.Dependent

open Outcome

/-! ## Numerals -/

def Value.ofNat : Nat → Value
  | 0 => zero
  | n + 1 => add1 (ofNat n)

namespace Term

theorem ofNat_evaluates (env : Env) (n : Nat) : env.EvaluatesTo (ofNat n) (.ofNat n) := by
  induction n with
  | zero => exact .spend (.const _)
  | succ n ih => exact .add1 ih

theorem ofNat_readsBack (ctx : Context) (n : Nat) : ctx.ReadsBackTo .nat (.ofNat n) (ofNat n) := by
  induction n with
  | zero => exact .spend (.const _)
  | succ n ih => exact .spend (ih.bind (.const _))

/-- An equality of natural numbers is read back by its two sides. -/
theorem equal_nat_readsBack {ctx : Context} {left right : Value} {leftTerm rightTerm : Term}
    (leftReads : ctx.ReadsBackTo .nat left leftTerm)
    (rightReads : ctx.ReadsBackTo .nat right rightTerm) :
    ctx.ReadsTypeBackTo (.equal .nat left right) (.equal .nat leftTerm rightTerm) := by
  have natReads : ctx.ReadsTypeBackTo .nat .nat := .spend (.const _)
  exact .spend (natReads.bind (leftReads.bind (rightReads.bind (.const _))))

theorem ofNat_checks (ctx : Context) (n : Nat) :
    ChecksTo (fun fuel => ctx.check fuel (ofNat n) .nat) (.done ()) := by
  induction n with
  | zero => exact .rule _ _ (fun _ => rfl) (.done _)
  | succ n ih => exact .rule _ _ (fun _ => rfl) (.bind (.done _) ih)

theorem ofNat_alphaEquiv (m n : Nat) : (ofNat m).alphaEquiv (ofNat n) = decide (m = n) := by
  induction m generalizing n with
  | zero =>
      cases n with
      | zero => rfl
      | succ n => rfl
  | succ m ih =>
      cases n with
      | zero => rfl
      | succ n =>
          simp only [Nat.add_right_cancel_iff]
          exact ih n

end Term

/-! ## Induction on a numeral -/

namespace Env.EvaluatesTo

variable {env : Env} {x : Name}

theorem lam {body : Term} : env.EvaluatesTo (.lam x body) (.lam (.mk env x body)) :=
  .spend (.const _)

theorem equal {type left right : Term} {typeValue leftValue rightValue : Value}
    (typeEvaluates : env.EvaluatesTo type typeValue) (leftEvaluates : env.EvaluatesTo left leftValue)
    (rightEvaluates : env.EvaluatesTo right rightValue) :
    env.EvaluatesTo (.equal type left right) (.equal typeValue leftValue rightValue) :=
  .spend (typeEvaluates.bind (leftEvaluates.bind (rightEvaluates.bind (.const _))))

theorem nat : env.EvaluatesTo .nat .nat :=
  .spend (.const _)

variable {target motive base body : Term} {p q : Name} {motiveValue baseValue : Value}

theorem indNat {step : Term} {targetValue stepValue value : Value}
    (targetEvaluates : env.EvaluatesTo target targetValue)
    (motiveEvaluates : env.EvaluatesTo motive motiveValue)
    (baseEvaluates : env.EvaluatesTo base baseValue) (stepEvaluates : env.EvaluatesTo step stepValue)
    (inducts : Settles
      (fun fuel => (targetValue.indNat fuel motiveValue baseValue stepValue : Outcome Stuck Value))
      (.done value)) :
    env.EvaluatesTo (.indNat target motive base step) value :=
  .spend (targetEvaluates.bind (motiveEvaluates.bind (baseEvaluates.bind (stepEvaluates.bind inducts))))

/-- What the step keeps from each number to the next holds of the value of the induction. -/
theorem indNat_ofNat {n : Nat} (targetEvaluates : env.EvaluatesTo target (.ofNat n))
    (motiveEvaluates : env.EvaluatesTo motive motiveValue)
    (baseEvaluates : env.EvaluatesTo base baseValue) (invariant : Nat → Value → Prop)
    (starts : invariant 0 baseValue)
    (steps : ∀ i almost, invariant i almost →
      ∃ value, ((env.extend p (.ofNat i)).extend q almost).EvaluatesTo body value ∧
        invariant (i + 1) value) :
    ∃ value, env.EvaluatesTo (.indNat target motive base (.lam p (.lam q body))) value ∧
      invariant n value := by
  have inducts : ∀ n, ∃ value, Settles
      (fun fuel => ((Value.ofNat n).indNat fuel motiveValue baseValue
        (.lam (.mk env p (.lam q body))) : Outcome Stuck Value)) (.done value) ∧ invariant n value := by
    intro n
    -- The step is given the result for the predecessor, so all smaller results are computed first.
    induction n with
    | zero => exact ⟨baseValue, .spend (.const _), starts⟩
    | succ n ih =>
        obtain ⟨almost, almostInducts, holds⟩ := ih
        obtain ⟨value, evaluates, holdsNext⟩ := steps n almost holds
        have stepApplies : (Value.lam (.mk env p (.lam q body))).AppliesTo (.ofNat n) _ :=
          lam.instantiates.applies
        exact ⟨value, .spend (stepApplies.bind (almostInducts.bind evaluates.instantiates.applies)),
          holdsNext⟩
  obtain ⟨value, inducts, holds⟩ := inducts n
  exact ⟨value, .indNat targetEvaluates motiveEvaluates baseEvaluates lam inducts, holds⟩

/-- An induction that computes a function of the number, step by step. -/
theorem indNat_ofNat_eq {n : Nat} (result : Nat → Value)
    (targetEvaluates : env.EvaluatesTo target (.ofNat n))
    (motiveEvaluates : env.EvaluatesTo motive motiveValue)
    (baseEvaluates : env.EvaluatesTo base (result 0))
    (steps : ∀ i,
      ((env.extend p (.ofNat i)).extend q (result i)).EvaluatesTo body (result (i + 1))) :
    env.EvaluatesTo (.indNat target motive base (.lam p (.lam q body))) (result n) := by
  obtain ⟨value, evaluates, rfl⟩ := indNat_ofNat targetEvaluates motiveEvaluates baseEvaluates
    (fun i value => value = result i) rfl (by
      rintro i _ rfl
      exact ⟨_, steps i, rfl⟩)
  exact evaluates

end Env.EvaluatesTo

/-! ## Induction on a variable -/

/-- The value is read back as a type in every context. -/
def Value.Shown (value : Value) : Prop :=
  ∀ ctx : Context, ∃ term, ctx.ReadsTypeBackTo value term

theorem Value.Shown.absurd : Value.absurd.Shown :=
  fun _ => ⟨.absurd, .spend (.const _)⟩

theorem Value.Shown.trivial : Value.trivial.Shown :=
  fun _ => ⟨.trivial, .spend (.const _)⟩

theorem Value.Shown.equal_ofVar (n : Nat) (x : Name) :
    (Value.equal .nat (.ofNat n) (.ofVar .nat x)).Shown :=
  fun ctx => ⟨_, Term.equal_nat_readsBack (Term.ofNat_readsBack ctx n) (.ofVar (.inl rfl) x)⟩

/-- The function is read back when its results for variables are. -/
theorem Context.readsBackTo_pi {ctx : Context} {domain function : Value} {range : Closure}
    (reads : ∀ (inner : Context) (x : Name), ∃ bodyType body term,
      range.InstantiatesTo (.ofVar domain x) bodyType ∧ function.AppliesTo (.ofVar domain x) body ∧
        inner.ReadsBackTo bodyType body term) :
    ∃ term, ctx.ReadsBackTo (.pi domain range) function (.lam (ctx.freshFor range.binder) term) := by
  let x := ctx.freshFor range.binder
  obtain ⟨inner, assumed, -, -⟩ := ctx.assume_settles x domain
  obtain ⟨bodyType, body, term, instantiates, applies, bodyReads⟩ := reads inner x
  refine ⟨term, .spend ?_⟩
  simp only [readBack]
  exact assumed.bind (instantiates.bind (applies.bind (bodyReads.bind (.const _))))

/-- The step of an induction that computes a type is read back when its results are. -/
theorem Context.readsBackTo_natStepType {ctx : Context} {motive step : Value}
    (constant : ∀ value, motive.AppliesTo value .univ)
    (stepShown : ∀ y : Name, ∃ stepAt, step.AppliesTo (.ofVar .nat y) stepAt ∧
      ∀ almost, ∃ value, stepAt.AppliesTo almost value ∧ value.Shown) :
    ∃ term, ctx.ReadsBackTo (Value.natStepType motive) step (.lam (ctx.freshFor "n-1") term) := by
  refine readsBackTo_pi fun inner y => ?_
  let env := (Env.nil.extend "mot" motive).extend "n-1" (.ofVar .nat y)
  obtain ⟨stepAt, stepApplies, results⟩ := stepShown y
  have almostType : env.EvaluatesTo (.app (.var "mot") (.var "n-1")) .univ :=
    .app (.var rfl) (.var rfl) (constant _)
  have resultType : ∀ almost,
      (env.extend "almost" almost).EvaluatesTo (.app (.var "mot") (.add1 (.var "n-1"))) .univ :=
    fun almost => .app (.var rfl) (.add1 (.var rfl)) (constant _)
  obtain ⟨term, reads⟩ : ∃ term, inner.ReadsBackTo
      (.pi .univ (.mk env "almost" (.app (.var "mot") (.add1 (.var "n-1"))))) stepAt
      (.lam (inner.freshFor "almost") term) := by
    refine readsBackTo_pi fun innermost z => ?_
    obtain ⟨value, applies, shown⟩ := results (.ofVar .univ z)
    obtain ⟨term, reads⟩ := shown innermost
    exact ⟨.univ, value, term, (resultType _).instantiates, applies, reads.univ⟩
  exact ⟨_, stepAt, .lam _ term, Env.EvaluatesTo.instantiates (.pi almostType), stepApplies, reads⟩

/-- An induction on a variable that computes a type is blocked, and is read back when the base is
and all results of the step are. -/
theorem Env.EvaluatesTo.indNat_ofVar {env : Env} {target base body : Term} {p q r x : Name}
    {baseValue : Value} (targetEvaluates : env.EvaluatesTo target (.ofVar .nat x))
    (baseEvaluates : env.EvaluatesTo base baseValue) (baseShown : baseValue.Shown)
    (stepShown : ∀ (y : Name) almost, ∃ value,
      ((env.extend p (.ofVar .nat y)).extend q almost).EvaluatesTo body value ∧ value.Shown) :
    ∃ value, env.EvaluatesTo (.indNat target (.lam r .univ) base (.lam p (.lam q body))) value ∧
      value.Shown := by
  let motive : Value := .lam (.mk env r .univ)
  let step : Value := .lam (.mk env p (.lam q body))
  have constant : ∀ value, motive.AppliesTo value .univ := fun value =>
    (instantiates (.spend (.const _))).applies
  have inducts : Settles
      (fun fuel => ((Value.ofVar .nat x).indNat fuel motive baseValue step : Outcome Stuck Value))
      (.done (.neutral .univ (.indNat (.var x) (.mk Value.natMotiveType motive) (.mk .univ baseValue)
        (.mk (Value.natStepType motive) step)))) :=
    .spend ((constant _).bind ((constant _).bind (.const _)))
  refine ⟨_, .indNat targetEvaluates lam baseEvaluates lam inducts, ?_⟩
  intro ctx
  -- The motive and the step are functions: reading them back calls them on new variables.
  obtain ⟨baseTerm, baseReads⟩ := baseShown ctx
  obtain ⟨motiveTerm, motiveReads⟩ : ∃ term,
      ctx.ReadsBackTo Value.natMotiveType motive (.lam (ctx.freshFor "k") term) :=
    Context.readsBackTo_pi fun inner y => ⟨.univ, .univ, .univ, instantiates (.spend (.const _)),
      constant _, .spend (.spend (.const _))⟩
  obtain ⟨stepTerm, stepReads⟩ : ∃ term,
      ctx.ReadsBackTo (Value.natStepType motive) step (.lam (ctx.freshFor "n-1") term) := by
    refine Context.readsBackTo_natStepType constant fun y => ⟨_, lam.instantiates.applies, ?_⟩
    intro almost
    obtain ⟨value, evaluates, shown⟩ := stepShown y almost
    exact ⟨value, evaluates.instantiates.applies, shown⟩
  have targetReads : ctx.ReadsNeutralBackTo (.var x) (.var x) := .spend (.const _)
  exact ⟨_, .spend (.spend (targetReads.bind (.bind (.spend motiveReads)
    (.bind (.spend baseReads.univ) (.bind (.spend stepReads) (.const _))))))⟩

/-! ## Checking step by step -/

namespace Context

variable {ctx : Context} {function argument term : Term} {domain argumentValue type value : Value}
  {range : Closure}

theorem synth_settles_var {x : Name} (found : ctx.type? x = some type) :
    ChecksTo (fun fuel => ctx.synth fuel (.var x)) (.done type) := by
  refine .rule _ (fun _ => ctx.lookupType x) (fun _ => rfl) ?_
  rw [lookupType, found]
  exact .done type

theorem synth_settles_app
    (functionChecks : ChecksTo (fun fuel => ctx.synth fuel function) (.done (.pi domain range)))
    (argumentChecks : ChecksTo (fun fuel => ctx.check fuel argument domain) (.done ()))
    (evaluates : ctx.env.EvaluatesTo argument argumentValue)
    (instantiates : range.InstantiatesTo argumentValue type) :
    ChecksTo (fun fuel => ctx.synth fuel (.app function argument)) (.done type) :=
  .rule _ _ (fun _ => rfl) (.bind functionChecks (.bind (.done _) (.bind argumentChecks
    (.bind (.compute evaluates) (.compute instantiates)))))

/-- An application whose argument is rejected is rejected. -/
theorem synth_settles_app_failed {fault : Fault}
    (functionChecks : ChecksTo (fun fuel => ctx.synth fuel function) (.done (.pi domain range)))
    (argumentFails : ChecksTo (fun fuel => ctx.check fuel argument domain) (.failed fault)) :
    ChecksTo (fun fuel => ctx.synth fuel (.app function argument)) (.failed fault) :=
  .rule _ _ (fun _ => rfl) (.bind functionChecks (.bind (.done _) (.bind_failed argumentFails)))

theorem run_settles {typeTerm normal : Term}
    (checks : ChecksTo (fun fuel => ctx.synth fuel term) (.done type))
    (evaluates : ctx.env.EvaluatesTo term value) (typeReads : ctx.ReadsTypeBackTo type typeTerm)
    (reads : ctx.ReadsBackTo type value normal) :
    ChecksTo (fun fuel => ctx.run fuel term) (.done ⟨typeTerm, normal⟩) :=
  .bind checks (.bind (.compute evaluates) (.bind (.compute typeReads)
    (.bind (.compute reads) (.done _))))

end Context

namespace NatEquality

/-! ## The definitions in scope -/

/-- The type of `(nat=consequence j k)` for numerals. -/
def consequenceType : Nat → Nat → Term
  | 0, 0 => .trivial
  | 0, _ + 1 => .absurd
  | _ + 1, 0 => .absurd
  | m + 1, n + 1 => .equal .nat (.ofNat m) (.ofNat n)

def consequenceValue : Nat → Nat → Value
  | 0, 0 => .trivial
  | 0, _ + 1 => .absurd
  | _ + 1, 0 => .absurd
  | m + 1, n + 1 => .equal .nat (.ofNat m) (.ofNat n)

def zeroChoice : Term :=
  .indNat (.var "k") (.lam "_" .univ) .trivial (.lam "_" (.lam "_" .absurd))

def succChoice : Term :=
  .indNat (.var "k") (.lam "_" .univ) .absurd
    (.lam "k-1" (.lam "_" (.equal .nat (.var "j-1") (.var "k-1"))))

def consequenceBody : Term :=
  .indNat (.var "j") (.lam "_" .univ) zeroChoice (.lam "j-1" (.lam "_" succChoice))

def numbers : Context :=
  (Context.empty.adding "two" (.defined .nat (.ofNat 2))).adding "three" (.defined .nat (.ofNat 3))

def consequenceFunction : Value :=
  .lam (.mk numbers.env "j" (.lam "k" consequenceBody))

def withConsequence : Context :=
  numbers.adding "nat=consequence"
    (.defined (.pi .nat (.mk numbers.env "j" (.pi "k" .nat .univ))) consequenceFunction)

def reflFunction : Value :=
  .lam (.mk withConsequence.env "n"
    (.indNat (.var "n") (.lam "k" (consequence (.var "k") (.var "k"))) .sole
      (.lam "n-1" (.lam "_" .same))))

def withRefl : Context :=
  withConsequence.adding "nat=consequence-refl"
    (.defined (.pi .nat (.mk withConsequence.env "n" (consequence (.var "n") (.var "n")))) reflFunction)

def implication : Term :=
  .pi "j=k" (.equal .nat (.var "j") (.var "k")) (consequence (.var "j") (.var "k"))

/-- The proof for a number and itself, moved along the equality. -/
def transport : Term :=
  .replace (.var "j=k") (.lam "n" (consequence (.var "j") (.var "n")))
    (.app (.var "nat=consequence-refl") (.var "j"))

def development : Context :=
  withRefl.adding "there-are-consequences"
    (.defined (.pi .nat (.mk withRefl.env "j" (.pi "k" .nat implication)))
      (.lam (.mk withRefl.env "j" (.lam "k" (.lam "j=k" transport)))))

theorem ofDefinitions_settles :
    ChecksTo (fun fuel => Context.ofDefinitions fuel definitions) (.done development) := by
  have run : (Context.ofDefinitions 24 definitions : Checking Context).outcome = .done development := by
    decide +kernel
  exact Settles.of_done (fun fuel => Context.addDefinitions_below fuel .empty definitions) run

/-! ## `nat=consequence` -/

def choiceEnv (j k : Value) : Env :=
  (numbers.env.extend "j" j).extend "k" k

/-- What holds of the choice for zero and of all choices for successors holds of what is returned. -/
theorem consequence_evaluates {env : Env} {j k : Term} {m : Nat} {second : Value}
    (found : env.lookup? "nat=consequence" = some consequenceFunction)
    (firstEvaluates : env.EvaluatesTo j (.ofNat m)) (secondEvaluates : env.EvaluatesTo k second)
    (invariant : Nat → Value → Prop)
    (atZero : ∃ value, (choiceEnv (.ofNat m) second).EvaluatesTo zeroChoice value ∧ invariant 0 value)
    (atSucc : ∀ i almost, ∃ value,
      (((choiceEnv (.ofNat m) second).extend "j-1" (.ofNat i)).extend "_" almost).EvaluatesTo
        succChoice value ∧ invariant (i + 1) value) :
    ∃ value, env.EvaluatesTo (consequence j k) value ∧ invariant m value := by
  obtain ⟨base, baseEvaluates, baseHolds⟩ := atZero
  obtain ⟨value, evaluates, holds⟩ : ∃ value,
      (choiceEnv (.ofNat m) second).EvaluatesTo consequenceBody value ∧ invariant m value :=
    Env.EvaluatesTo.indNat_ofNat (.var rfl) .lam baseEvaluates invariant baseHolds
      fun i almost _ => atSucc i almost
  have applies : consequenceFunction.AppliesTo (.ofNat m) _ := Env.EvaluatesTo.lam.instantiates.applies
  exact ⟨value, .app (.app (.var found) firstEvaluates applies) secondEvaluates
    evaluates.instantiates.applies, holds⟩

/-- For numerals, the consequences are the ones listed. -/
theorem consequence_ofNat_evaluates {env : Env} {j k : Term} {m n : Nat}
    (found : env.lookup? "nat=consequence" = some consequenceFunction)
    (firstEvaluates : env.EvaluatesTo j (.ofNat m)) (secondEvaluates : env.EvaluatesTo k (.ofNat n)) :
    env.EvaluatesTo (consequence j k) (consequenceValue m n) := by
  have zeroEvaluates : (choiceEnv (.ofNat m) (.ofNat n)).EvaluatesTo zeroChoice (consequenceValue 0 n) :=
    .indNat_ofNat_eq (consequenceValue 0) (.var rfl) .lam (.spend (.const _)) fun _ => .spend (.const _)
  have succEvaluates : ∀ i almost,
      (((choiceEnv (.ofNat m) (.ofNat n)).extend "j-1" (.ofNat i)).extend "_" almost).EvaluatesTo
        succChoice (consequenceValue (i + 1) n) := fun i almost =>
    .indNat_ofNat_eq (consequenceValue (i + 1)) (.var rfl) .lam (.spend (.const _)) fun _ =>
      .equal .nat (.var rfl) (.var rfl)
  obtain ⟨value, evaluates, rfl⟩ := consequence_evaluates found firstEvaluates secondEvaluates
    (fun i value => value = consequenceValue i n) ⟨_, zeroEvaluates, rfl⟩
    fun i almost => ⟨_, succEvaluates i almost, rfl⟩
  exact evaluates

/-- For a numeral and a variable, the consequences are blocked, but can be shown. -/
theorem consequence_ofVar_evaluates {env : Env} {j k : Term} {m : Nat} {x : Name}
    (found : env.lookup? "nat=consequence" = some consequenceFunction)
    (firstEvaluates : env.EvaluatesTo j (.ofNat m))
    (secondEvaluates : env.EvaluatesTo k (.ofVar .nat x)) :
    ∃ value, env.EvaluatesTo (consequence j k) value ∧ value.Shown := by
  refine consequence_evaluates found firstEvaluates secondEvaluates (fun _ value => value.Shown) ?_ ?_
  · exact Env.EvaluatesTo.indNat_ofVar (.var rfl) (.spend (.const _)) .trivial
      fun _ _ => ⟨.absurd, .spend (.const _), .absurd⟩
  · intro i almost
    refine Env.EvaluatesTo.indNat_ofVar (.var rfl) (.spend (.const _)) .absurd fun y _ => ?_
    exact ⟨_, .equal .nat (.var rfl) (.var rfl), .equal_ofVar i y⟩

/-! ## The proofs -/

def reflTerm : Nat → Term
  | 0 => .sole
  | _ + 1 => .same

def reflValue : Nat → Value
  | 0 => .sole
  | _ + 1 => .same

theorem reflTerm_eq (m : Nat) : reflTerm m = if m = 0 then .sole else .same := by
  cases m <;> rfl

theorem refl_evaluates {env : Env} {j : Term} {m : Nat}
    (found : env.lookup? "nat=consequence-refl" = some reflFunction)
    (evaluates : env.EvaluatesTo j (.ofNat m)) :
    env.EvaluatesTo (.app (.var "nat=consequence-refl") j) (reflValue m) := by
  refine .app (.var found) evaluates (Env.EvaluatesTo.instantiates ?_).applies
  exact .indNat_ofNat_eq reflValue (.var rfl) .lam (.spend (.const _)) fun _ => .spend (.const _)

theorem consequence_readsBack (ctx : Context) (m n : Nat) :
    ctx.ReadsTypeBackTo (consequenceValue m n) (consequenceType m n) := by
  match m, n with
  | 0, 0 => exact .spend (.const _)
  | 0, _ + 1 => exact .spend (.const _)
  | _ + 1, 0 => exact .spend (.const _)
  | m + 1, n + 1 =>
      exact Term.equal_nat_readsBack (Term.ofNat_readsBack ctx m) (Term.ofNat_readsBack ctx n)

theorem refl_readsBack (ctx : Context) (m : Nat) :
    ctx.ReadsBackTo (consequenceValue m m) (reflValue m) (reflTerm m) := by
  cases m with
  | zero => exact .spend (.const _)
  | succ m => exact .spend (.const _)

/-- A blocked proof of the consequences is read back when its computation is. -/
theorem blocked_readsBack {ctx : Context} {blocked : Neutral} {term : Term}
    (reads : ctx.ReadsNeutralBackTo blocked term) (m n : Nat) : ∃ normal,
      ctx.ReadsBackTo (consequenceValue m n) (.neutral (consequenceValue m n) blocked) normal := by
  match m, n with
  | 0, 0 => exact ⟨.sole, .spend (.const _)⟩
  | 0, _ + 1 => exact ⟨.the .absurd term, .spend (reads.bind (.const _))⟩
  | _ + 1, 0 => exact ⟨.the .absurd term, .spend (reads.bind (.const _))⟩
  | _ + 1, _ + 1 => exact ⟨term, .spend reads⟩

/-! ## Moving a proof along an equality -/

def numeralEnv (m n : Nat) : Env :=
  (withRefl.env.extend "j" (.ofNat m)).extend "k" (.ofNat n)

def transportEnv (m n : Nat) (equality : Value) : Env :=
  (numeralEnv m n).extend "j=k" equality

def transportMotive (m n : Nat) (equality : Value) : Value :=
  .lam (.mk (transportEnv m n equality) "n" (consequence (.var "j") (.var "n")))

section Transport

variable {m n : Nat} {equality : Value}

theorem transportMotive_ofNat (i : Nat) :
    (transportMotive m n equality).AppliesTo (.ofNat i) (consequenceValue m i) := by
  refine (Env.EvaluatesTo.instantiates ?_).applies
  exact consequence_ofNat_evaluates rfl (.var rfl) (.var rfl)

theorem transportMotive_ofVar (m n : Nat) (equality : Value) (x : Name) :
    ∃ value, (transportMotive m n equality).AppliesTo (.ofVar .nat x) value ∧ value.Shown := by
  let env := (transportEnv m n equality).extend "n" (.ofVar .nat x)
  have firstEvaluates : env.EvaluatesTo (.var "j") (.ofNat m) := .var rfl
  have secondEvaluates : env.EvaluatesTo (.var "n") (.ofVar .nat x) := .var rfl
  obtain ⟨value, evaluates, shown⟩ := consequence_ofVar_evaluates rfl firstEvaluates secondEvaluates
  exact ⟨value, evaluates.instantiates.applies, shown⟩

theorem transport_evaluates {value : Value}
    (replaces : Settles (fun fuel => (equality.replace fuel (transportMotive m n equality)
      (reflValue m) : Outcome Stuck Value)) (.done value)) :
    (transportEnv m n equality).EvaluatesTo transport value := by
  have equalityEvaluates : (transportEnv m n equality).EvaluatesTo (.var "j=k") equality := .var rfl
  have baseEvaluates : (transportEnv m n equality).EvaluatesTo
      (.app (.var "nat=consequence-refl") (.var "j")) (reflValue m) := refl_evaluates rfl (.var rfl)
  exact .spend (equalityEvaluates.bind (Env.EvaluatesTo.lam.bind (baseEvaluates.bind replaces)))

theorem transport_same : (transportEnv m n .same).EvaluatesTo transport (reflValue m) :=
  transport_evaluates (.spend (.const _))

/-- Along a variable the proof is blocked, and it is read back with the consequences for a variable. -/
theorem transport_ofVar (ctx : Context) (m n : Nat) (x : Name) : ∃ value normal,
    (transportEnv m n (.ofVar (.equal .nat (.ofNat m) (.ofNat n)) x)).EvaluatesTo transport value ∧
      ctx.ReadsBackTo (consequenceValue m n) value normal := by
  let equality : Value := .ofVar (.equal .nat (.ofNat m) (.ofNat n)) x
  let motive := transportMotive m n equality
  have replaces : Settles (fun fuel => (equality.replace fuel motive (reflValue m) : Outcome Stuck Value))
      (.done (.neutral (consequenceValue m n) (.replace (.var x)
        (.mk (Value.equalMotiveType .nat) motive) (.mk (consequenceValue m m) (reflValue m))))) :=
    .spend ((transportMotive_ofNat n).bind ((transportMotive_ofNat m).bind (.const _)))
  -- The second argument of `nat=consequence` is a variable only here, in the motive that is shown.
  obtain ⟨motiveTerm, motiveReads⟩ : ∃ term,
      ctx.ReadsBackTo (Value.equalMotiveType .nat) motive (.lam (ctx.freshFor "x") term) := by
    refine Context.readsBackTo_pi fun inner y => ?_
    obtain ⟨value, applies, shown⟩ := transportMotive_ofVar m n equality y
    obtain ⟨term, reads⟩ := shown inner
    exact ⟨.univ, value, term, Env.EvaluatesTo.instantiates (.spend (.const _)), applies, reads.univ⟩
  have varReads : ctx.ReadsNeutralBackTo (.var x) (.var x) := .spend (.const _)
  have blockedReads : ctx.ReadsNeutralBackTo
      (.replace (.var x) (.mk (Value.equalMotiveType .nat) motive)
        (.mk (consequenceValue m m) (reflValue m)))
      (.replace (.var x) (.lam (ctx.freshFor "x") motiveTerm) (reflTerm m)) :=
    .spend (varReads.bind (.bind (.spend motiveReads)
      (.bind (.spend (refl_readsBack ctx m)) (.const _))))
  obtain ⟨normal, reads⟩ := blocked_readsBack blockedReads m n
  exact ⟨_, normal, transport_evaluates replaces, reads⟩

end Transport

/-! ## Runs -/

/-- `((there-are-consequences j) k)` for two terms. -/
def thereAre (j k : Term) : Term :=
  .app (.app (.var "there-are-consequences") j) k

theorem consequence_synth (m n : Nat) :
    ChecksTo (fun fuel => development.synth fuel (consequence (.ofNat m) (.ofNat n))) (.done .univ) := by
  have functionChecks : ChecksTo (fun fuel => development.synth fuel (.var "nat=consequence"))
      (.done (.pi .nat (.mk numbers.env "j" (.pi "k" .nat .univ)))) := Context.synth_settles_var rfl
  have firstChecks := Context.synth_settles_app functionChecks (Term.ofNat_checks development m)
    (Term.ofNat_evaluates _ m) (Env.EvaluatesTo.instantiates (.pi .nat))
  exact Context.synth_settles_app firstChecks (Term.ofNat_checks development n) (Term.ofNat_evaluates _ n)
    (Env.EvaluatesTo.instantiates (.spend (.const _)))

def implicationType (m n : Nat) : Value :=
  .pi (.equal .nat (.ofNat m) (.ofNat n))
    (.mk (numeralEnv m n) "j=k" (consequence (.var "j") (.var "k")))

def implicationProof (m n : Nat) : Value :=
  .lam (.mk (numeralEnv m n) "j=k" transport)

theorem freshFor_equality : development.freshFor "j=k" = "j=k" := by
  decide +kernel

theorem thereAre_synth (m n : Nat) :
    ChecksTo (fun fuel => development.synth fuel (thereAre (.ofNat m) (.ofNat n)))
      (.done (implicationType m n)) := by
  have functionChecks : ChecksTo (fun fuel => development.synth fuel (.var "there-are-consequences"))
      (.done (.pi .nat (.mk withRefl.env "j" (.pi "k" .nat implication)))) := Context.synth_settles_var rfl
  have firstChecks := Context.synth_settles_app functionChecks (Term.ofNat_checks development m)
    (Term.ofNat_evaluates _ m) (Env.EvaluatesTo.instantiates (.pi .nat))
  exact Context.synth_settles_app firstChecks (Term.ofNat_checks development n) (Term.ofNat_evaluates _ n)
    (Env.EvaluatesTo.instantiates (.pi (.equal .nat (.var rfl) (.var rfl))))

theorem thereAre_evaluates (m n : Nat) :
    development.env.EvaluatesTo (thereAre (.ofNat m) (.ofNat n)) (implicationProof m n) := by
  have functionEvaluates : development.env.EvaluatesTo (.app (.var "there-are-consequences") (.ofNat m))
      (.lam (.mk (withRefl.env.extend "j" (.ofNat m)) "k" (.lam "j=k" transport))) :=
    .app (.var rfl) (Term.ofNat_evaluates _ m) Env.EvaluatesTo.lam.instantiates.applies
  exact .app functionEvaluates (Term.ofNat_evaluates _ n) Env.EvaluatesTo.lam.instantiates.applies

theorem implication_instantiates (m n : Nat) (equality : Value) :
    (Closure.mk (numeralEnv m n) "j=k" (consequence (.var "j") (.var "k"))).InstantiatesTo equality
      (consequenceValue m n) := by
  refine Env.EvaluatesTo.instantiates ?_
  exact consequence_ofNat_evaluates rfl (.var rfl) (.var rfl)

theorem implicationType_readsBack (m n : Nat) :
    development.ReadsTypeBackTo (implicationType m n)
      (.pi "j=k" (.equal .nat (.ofNat m) (.ofNat n)) (consequenceType m n)) := by
  have domainReads := Term.equal_nat_readsBack (Term.ofNat_readsBack development m)
    (Term.ofNat_readsBack development n)
  obtain ⟨inner, assumed, -, -⟩ := development.assume_settles (development.freshFor "j=k")
    (.equal .nat (.ofNat m) (.ofNat n))
  have reads : development.ReadsTypeBackTo (implicationType m n)
      (.pi (development.freshFor "j=k") (.equal .nat (.ofNat m) (.ofNat n)) (consequenceType m n)) :=
    .spend ((implication_instantiates m n _).bind (domainReads.bind (assumed.bind
      ((consequence_readsBack inner m n).bind (.const _)))))
  rwa [freshFor_equality] at reads

theorem implicationProof_readsBack (m n : Nat) : ∃ body,
    development.ReadsBackTo (implicationType m n) (implicationProof m n) (.lam "j=k" body) := by
  obtain ⟨body, reads⟩ : ∃ body, development.ReadsBackTo (implicationType m n) (implicationProof m n)
      (.lam (development.freshFor "j=k") body) := by
    refine Context.readsBackTo_pi fun inner x => ?_
    obtain ⟨value, normal, evaluates, reads⟩ := transport_ofVar inner m n x
    exact ⟨_, value, normal, implication_instantiates m n _, evaluates.instantiates.applies, reads⟩
  rw [freshFor_equality] at reads
  exact ⟨body, reads⟩

/-- `same` is accepted as an equality of two numerals exactly when they are the same number. -/
theorem same_checks (ctx : Context) (m n : Nat) :
    ChecksTo (fun fuel => ctx.check fuel .same (.equal .nat (.ofNat m) (.ofNat n)))
      (if m = n then .done () else .failed (.rejected none (.notSame (.ofNat m) (.ofNat n)))) := by
  refine .rule _ _ (fun _ => rfl) (.bind (.done _) ?_)
  by_cases same : m = n
  · subst same
    rw [if_pos rfl]
    have reads := Term.ofNat_readsBack ctx m
    refine .bind (.compute reads) (.bind (.compute reads) ?_)
    simp only [Term.ofNat_alphaEquiv, decide_true, if_true]
    exact .done _
  · rw [if_neg same]
    exact Context.convert_rejects (Term.ofNat_readsBack ctx m) (Term.ofNat_readsBack ctx n)
      (by simp [Term.ofNat_alphaEquiv, same])

/-- The development is accepted, and in its context the consequences of an equality of two numerals
are computed, follow from a proof of the equality, and hold for `same` exactly when the numerals are
the same; `same` is rejected otherwise. -/
theorem consequences_of_numerals :
    ∃ ctx, ChecksTo (fun fuel => Context.ofDefinitions fuel definitions) (.done ctx) ∧
      ∀ m n : Nat,
        ChecksTo (fun fuel => ctx.run fuel (consequence (.ofNat m) (.ofNat n)))
          (.done ⟨.univ, consequenceType m n⟩) ∧
        (∃ body, ChecksTo (fun fuel => ctx.run fuel (thereAre (.ofNat m) (.ofNat n)))
          (.done ⟨.pi "j=k" (.equal .nat (.ofNat m) (.ofNat n)) (consequenceType m n),
            .lam "j=k" body⟩)) ∧
        ChecksTo (fun fuel => ctx.run fuel (.app (thereAre (.ofNat m) (.ofNat n)) .same))
          (if m = n then .done ⟨consequenceType m m, if m = 0 then .sole else .same⟩
            else .failed (.rejected none (.notSame (.ofNat m) (.ofNat n)))) := by
  refine ⟨development, ofDefinitions_settles, fun m n => ⟨?computed, ?implied, ?applied⟩⟩
  case computed =>
    have evaluates : development.env.EvaluatesTo (consequence (.ofNat m) (.ofNat n))
        (consequenceValue m n) :=
      consequence_ofNat_evaluates rfl (Term.ofNat_evaluates _ m) (Term.ofNat_evaluates _ n)
    exact Context.run_settles (consequence_synth m n) evaluates (.spend (.const _))
      (consequence_readsBack development m n).univ
  case implied =>
    obtain ⟨body, reads⟩ := implicationProof_readsBack m n
    exact ⟨body, Context.run_settles (thereAre_synth m n) (thereAre_evaluates m n)
      (implicationType_readsBack m n) reads⟩
  case applied =>
    have sameChecks := same_checks development m n
    by_cases same : m = n
    · subst same
      rw [if_pos rfl] at sameChecks ⊢
      have evaluates : development.env.EvaluatesTo (.app (thereAre (.ofNat m) (.ofNat m)) .same)
          (reflValue m) :=
        .app (thereAre_evaluates m m) (.spend (.const _)) transport_same.instantiates.applies
      have checks := Context.synth_settles_app (thereAre_synth m m) sameChecks (.spend (.const _))
        (implication_instantiates m m .same)
      rw [← reflTerm_eq]
      exact Context.run_settles checks evaluates (consequence_readsBack development m m)
        (refl_readsBack development m)
    · rw [if_neg same] at sameChecks ⊢
      exact .bind_failed (Context.synth_settles_app_failed (thereAre_synth m n) sameChecks)

end NatEquality

end LambdaCalculi.Dependent
