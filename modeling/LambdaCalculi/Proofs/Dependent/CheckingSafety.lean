import LambdaCalculi.Dependent.NatEquality
import LambdaCalculi.Proofs.Dependent.Fingerprints
import LambdaCalculi.Proofs.Dependent.ReadBackSafety

/-!
# Type checking is never stuck

A context models a scope when its environment gives every name a value of its meaning and the types
of its entries mean the types in the scope. In such a context, a term that is accepted has a meaning
and a type, so every evaluation and every reading back on the way is safe; what is not accepted is
rejected. Two types that are accepted as the same agree, because their normal forms denote the same.

Names are looked up by fingerprint. An evaluation is stuck only where the names of the program do
not have different fingerprints, and even then what is accepted and evaluated has its meaning.
-/

set_option autoImplicit false

namespace LambdaCalculi

namespace Dependent

open Domain Outcome

/-! ## Safe checking computations -/

section Computations

variable {α β : Type} {allowed : Fault → Prop} {result : α → Prop}

theorem Checking.safe_bind {first : Checking α} {next : α → Checking β} {nextResult : β → Prop}
    (safe : first.outcome.Safe allowed result)
    (nextSafe : ∀ value, result value → (next value).outcome.Safe allowed nextResult) :
    (first >>= next).outcome.Safe allowed nextResult := by
  rw [Traced.outcome_bind]
  exact Safe.bind safe nextSafe

theorem Checking.safe_compute [Lookups] {outcome : Outcome Stuck α}
    (safe : outcome.Safe Tolerated result)
    (tolerates : ∀ place, Tolerated place → allowed (.stuck place)) :
    (Judging.compute outcome : Checking α).outcome.Safe allowed result := by
  rw [Checking.outcome_compute]
  cases outcome with
  | done value => exact safe
  | failed place => exact tolerates place safe
  | exhausted => trivial

end Computations

section Safety

variable [Lookups]

def Fault.IsExpected : Fault → Prop
  | rejected _ _ => True
  | stuck place => Tolerated place

def Checks {α : Type} (result : α → Prop) (checking : Checking α) : Prop :=
  checking.outcome.Safe Fault.IsExpected result

namespace Checks

variable {α β : Type} {result : α → Prop}

theorem pure {value : α} (holds : result value) : Checks result (Pure.pure value) :=
  holds

theorem bind {first : Checking α} {next : α → Checking β} {nextResult : β → Prop}
    (checks : Checks result first) (nextChecks : ∀ value, result value → Checks nextResult (next value)) :
    Checks nextResult (first >>= next) :=
  Checking.safe_bind checks nextChecks

theorem mono {weaker : α → Prop} {checking : Checking α} (checks : Checks result checking)
    (weaken : ∀ value, result value → weaker value) : Checks weaker checking :=
  Safe.mono checks weaken

theorem compute {outcome : Outcome Stuck α} (safe : outcome.Safe Tolerated result) :
    Checks result (Judging.compute outcome) :=
  Checking.safe_compute safe fun _ tolerated => tolerated

theorem computed {outcome : Outcome Stuck α} {value : α} (run : outcome = .done value) :
    Checks (fun other => other = value) (Judging.compute outcome) := by
  rw [run]
  exact rfl

theorem record (event : Event) : Checks (fun _ => True) (Judging.record event : Checking Unit) :=
  trivial

theorem reject (error : TypeError) : Checks result (Judging.reject error : Checking α) :=
  trivial

theorem within {checking : Checking α} (checks : Checks result checking) (x : Name) :
    Checks result (Judging.within x checking) := by
  rw [Checks, Checking.outcome_within]
  rw [Checks] at checks
  cases outcome : checking.outcome with
  | done value =>
      rw [outcome] at checks
      exact checks
  | failed fault =>
      rw [outcome] at checks
      cases fault with
      | rejected definition? error => trivial
      | stuck place => exact checks
  | exhausted => trivial

end Checks

/-! ## Contexts -/

/-- The context gives the names of the scope their meanings, in the world of its variables. -/
structure Context.Models (names : List Name) (ctx : Context) (scope : Scope) (world : World) : Prop where
  env : ctx.env.Means world scope
  entries : List.Forall₂ (fun (entry : Entry) (bound : Bound) => entry.name = bound.name ∧
    entry.binding.type.Means world bound.type (.leaf .univ)) ctx.entries scope
  named : world.names ⊆ ctx.names
  known : ∀ bound ∈ scope, bound.name ∈ names

theorem Env.Means.scopeOver {world : World} {env : Env} {scope : Scope} (means : env.Means world scope) :
    scope.Over world.names := by
  induction scope generalizing env with
  | nil => exact fun _ mem => by cases mem
  | cons bound outer ih =>
      cases means with
      | cons valueMeans outerMeans =>
          have isElement := valueMeans.element
          exact List.forall_mem_cons.mpr ⟨⟨isElement.isOver, isElement.typeOver⟩, ih outerMeans⟩

namespace Context

namespace Models

variable {names : List Name} {ctx : Context} {scope : Scope} {world : World}

theorem empty : Context.empty.Models names [] .empty :=
  ⟨.nil, .nil, List.nil_subset _, fun _ mem => by cases mem⟩

theorem eval (models : ctx.Models names scope world) {term : Term} {meaning type : Meaning}
    (means : term.Means scope world meaning type) (fuel : Nat) :
    Yields world meaning type (ctx.eval fuel term) := by
  have realizes : ctx.env.Realizes world world (fun valuation => valuation) scope := by
    refine ⟨.refl world, models.env.scopeOver, ?_⟩
    rw [Scope.after_self]
    exact models.env
  exact (safeEvaluation fuel).eval realizes means

theorem define (models : ctx.Models names scope world) {type value : Value} {meaning typeMeaning : Meaning}
    (typeMeans : type.Means world typeMeaning (.leaf .univ))
    (valueMeans : value.Means world meaning typeMeaning) {x : Name} (known : x ∈ names) :
    ∃ inner, (ctx.define x type value : Outcome Stuck Context) = .done inner ∧
      inner.Models names (⟨x, meaning, typeMeaning⟩ :: scope) world := by
  refine ⟨⟨⟨x, .defined type value⟩ :: ctx.entries, ctx.env.extend x value⟩, rfl, ?_⟩
  refine ⟨.cons valueMeans models.env, .cons ⟨rfl, typeMeans⟩ models.entries, ?_,
    List.forall_mem_cons.mpr ⟨known, models.known⟩⟩
  exact List.Subset.trans models.named (List.Subset.trans (List.subset_cons_self x _) (names_cons rfl))

theorem assume (models : ctx.Models names scope world) {type : Value} {typeMeaning : Meaning}
    (typeMeans : type.Means world typeMeaning (.leaf .univ)) {x : Name} (known : x ∈ names) :
    ∃ (inner : Context) (new : world.New (ctx.freshFor x) typeMeaning),
      (ctx.assume x type : Outcome Stuck Context) = .done inner ∧
      inner.Models names (scope.bind x (ctx.freshFor x) typeMeaning) (world.extend new) := by
  have new := SafeReadBack.newVariable models.named typeMeans x
  obtain ⟨inner, run, entries, env⟩ := ctx.assume_eq_done x type
  refine ⟨inner, new, run, ⟨?_, ?_, ?_, List.forall_mem_cons.mpr ⟨known, models.known⟩⟩⟩
  · rw [env]
    exact .cons (typeMeans.ofVar new) (models.env.extend new)
  · rw [entries]
    refine .cons ⟨rfl, typeMeans.extend new⟩ (models.entries.imp fun entry bound => ?_)
    exact fun related => ⟨related.1, related.2.extend new⟩
  · have older := List.Subset.trans (List.subset_cons_self x _) (names_cons entries)
    exact List.cons_subset.mpr ⟨freshFor_mem_names entries, List.Subset.trans models.named older⟩

/-- The context has a type for the names of the scope, and each means the type in the scope. -/
theorem type?_related (models : ctx.Models names scope world) (x : Name) :
    Option.Rel (fun (type : Value) (bound : Bound) => type.Means world bound.type (.leaf .univ))
      (ctx.type? x) (scope.innermost? x) := by
  obtain ⟨entries, env⟩ := ctx
  have related : List.Forall₂ _ entries scope := models.entries
  clear models
  induction related with
  | nil => exact .none
  | @cons entry bound _ _ head _ ih =>
      rw [Scope.innermost?, ← head.1]
      by_cases same : entry.name = x
      · simpa [Context.type?, Context.binding?, same] using head.2
      · simpa [Context.type?, Context.binding?, same] using ih

theorem type? (models : ctx.Models names scope world) {x : Name} {type : Value}
    (found : ctx.type? x = some type) :
    ∃ bound, scope.innermost? x = some bound ∧ type.Means world bound.type (.leaf .univ) := by
  have related := models.type?_related x
  rw [found] at related
  generalize scope.innermost? x = innermost at related ⊢
  cases related with
  | some typeMeans => exact ⟨_, rfl, typeMeans⟩

theorem exists_type? (models : ctx.Models names scope world) {x : Name} {bound : Bound}
    (innermost : scope.innermost? x = some bound) :
    ∃ type, ctx.type? x = some type ∧ type.Means world bound.type (.leaf .univ) := by
  have related := models.type?_related x
  rw [innermost] at related
  generalize ctx.type? x = found at related ⊢
  cases related with
  | some typeMeans => exact ⟨_, rfl, typeMeans⟩

end Models

end Context

/-! ## Asking for a kind of type -/

section Expectations

variable {names : List Name} {ctx : Context} {scope : Scope} {world : World} {fuel : Nat} {type : Value}
  {typeMeaning : Meaning}

theorem Context.Models.rejectFormer (models : ctx.Models names scope world)
    (typeMeans : type.Means world typeMeaning (.leaf .univ)) {α : Type} {result : α → Prop}
    (want : TypeFormer) : Checks result (ctx.rejectFormer fuel want type) :=
  .bind (.compute ((safeReadBack fuel).readBackType models.named typeMeans)) fun _ _ => .reject _

theorem Context.Models.expectPi (models : ctx.Models names scope world)
    (typeMeans : type.Means world typeMeaning (.leaf .univ)) :
    Checks (fun found : Value × Closure => ∃ domain range, world.Agree typeMeaning (.pi domain range) ∧
        found.1.Means world domain (.leaf .univ) ∧
        found.2.Denotes world domain range .constantUniv) (ctx.expectPi fuel type) := by
  unfold Context.expectPi
  split
  · obtain ⟨denotes, shows⟩ := typeMeans
    cases denotes with
    | pi domainMeans rangeDenotes => exact ⟨_, _, shows.agree, domainMeans, rangeDenotes⟩
  · exact models.rejectFormer typeMeans .pi

theorem Context.Models.expectSigma (models : ctx.Models names scope world)
    (typeMeans : type.Means world typeMeaning (.leaf .univ)) :
    Checks (fun found : Value × Closure => ∃ carType cdrType,
        world.Agree typeMeaning (.sigma carType cdrType) ∧
        found.1.Means world carType (.leaf .univ) ∧
        found.2.Denotes world carType cdrType .constantUniv) (ctx.expectSigma fuel type) := by
  unfold Context.expectSigma
  split
  · obtain ⟨denotes, shows⟩ := typeMeans
    cases denotes with
    | sigma carMeans cdrDenotes => exact ⟨_, _, shows.agree, carMeans, cdrDenotes⟩
  · exact models.rejectFormer typeMeans .sigma

theorem Context.Models.expectEqual (models : ctx.Models names scope world)
    (typeMeans : type.Means world typeMeaning (.leaf .univ)) :
    Checks (fun found : Value × Value × Value => ∃ inner left right,
        world.Agree typeMeaning (.equal inner left right) ∧
        found.1.Means world inner (.leaf .univ) ∧ found.2.1.Means world left inner ∧
        found.2.2.Means world right inner) (ctx.expectEqual fuel type) := by
  unfold Context.expectEqual
  split
  · obtain ⟨denotes, shows⟩ := typeMeans
    cases denotes with
    | equal innerMeans leftMeans rightMeans =>
        exact ⟨_, _, _, shows.agree, innerMeans, leftMeans, rightMeans⟩
  · exact models.rejectFormer typeMeans .equal

theorem Context.Models.expectNat (models : ctx.Models names scope world)
    (typeMeans : type.Means world typeMeaning (.leaf .univ)) :
    Checks (fun _ => world.Agree typeMeaning (.leaf .nat)) (ctx.expectNat fuel type) := by
  unfold Context.expectNat
  split
  · obtain ⟨denotes, shows⟩ := typeMeans
    cases denotes
    exact shows.agree
  · exact models.rejectFormer typeMeans .nat

theorem Context.Models.expectTrivial (models : ctx.Models names scope world)
    (typeMeans : type.Means world typeMeaning (.leaf .univ)) :
    Checks (fun _ => world.Agree typeMeaning (.leaf .trivial)) (ctx.expectTrivial fuel type) := by
  unfold Context.expectTrivial
  split
  · obtain ⟨denotes, shows⟩ := typeMeans
    cases denotes
    exact shows.agree
  · exact models.rejectFormer typeMeans .trivial

theorem Context.Models.expectAbsurd (models : ctx.Models names scope world)
    (typeMeans : type.Means world typeMeaning (.leaf .univ)) :
    Checks (fun _ => world.Agree typeMeaning (.leaf .absurd)) (ctx.expectAbsurd fuel type) := by
  unfold Context.expectAbsurd
  split
  · obtain ⟨denotes, shows⟩ := typeMeans
    cases denotes
    exact shows.agree
  · exact models.rejectFormer typeMeans .absurd

theorem Context.Models.expectAtom (models : ctx.Models names scope world)
    (typeMeans : type.Means world typeMeaning (.leaf .univ)) :
    Checks (fun _ => world.Agree typeMeaning (.leaf .atom)) (ctx.expectAtom fuel type) := by
  unfold Context.expectAtom
  split
  · obtain ⟨denotes, shows⟩ := typeMeans
    cases denotes
    exact shows.agree
  · exact models.rejectFormer typeMeans .atom

theorem Context.Models.convert (models : ctx.Models names scope world) {left right : Value}
    {leftMeaning rightMeaning : Meaning} (typeMeans : type.Means world typeMeaning (.leaf .univ))
    (leftMeans : left.Means world leftMeaning typeMeaning)
    (rightMeans : right.Means world rightMeaning typeMeaning) :
    Checks (fun _ => world.Agree leftMeaning rightMeaning) (ctx.convert fuel type left right) := by
  refine .bind (.compute ((safeReadBack fuel).readBack models.named typeMeans leftMeans))
    fun leftTerm leftReads => ?_
  refine .bind (.compute ((safeReadBack fuel).readBack models.named typeMeans rightMeans))
    fun rightTerm rightReads => ?_
  by_cases equiv : leftTerm.alphaEquiv rightTerm = true
  · rw [if_pos equiv]
    -- Each normal form denotes the meaning of its value, and the two denote the same.
    refine .pure fun valuation admits => ?_
    have leftEq := leftReads.denotes valuation admits
    rw [Term.denote_eq_of_alphaEquiv equiv] at leftEq
    exact leftEq.symm.trans (rightReads.denotes valuation admits)
  · rw [if_neg equiv]
    exact .bind (.record _) fun _ _ => .reject _

end Expectations

/-! ## Synthesis and checking -/

section Terms

variable {scope : Scope} {world : World}

def Synthesized (scope : Scope) (world : World) (term : Term) (type : Value) : Prop :=
  ∃ meaning typeMeaning, term.Means scope world meaning typeMeaning ∧
    type.Means world typeMeaning (.leaf .univ)

theorem Synthesized.ofType {term : Term} {meaning : Meaning}
    (denotes : term.Denotes scope world meaning (.leaf .univ))
    (isOver : Meaning.Over world.names meaning) : Synthesized scope world term .univ :=
  ⟨meaning, .leaf .univ, denotes.asType isOver, .univ⟩

end Terms

structure SafeChecking (names : List Name) (fuel : Nat) : Prop where
  synth : ∀ {ctx : Context} {scope : Scope} {world : World} {term : Term},
    ctx.Models names scope world → term.names ⊆ names →
    Checks (Synthesized scope world term) (ctx.synth fuel term)
  check : ∀ {ctx : Context} {scope : Scope} {world : World} {term : Term} {type : Value}
    {typeMeaning : Meaning}, ctx.Models names scope world → term.names ⊆ names →
    type.Means world typeMeaning (.leaf .univ) →
    Checks (fun _ => ∃ meaning, term.Means scope world meaning typeMeaning) (ctx.check fuel term type)

namespace SafeChecking

variable {names : List Name} {fuel : Nat} {ctx : Context} {scope : Scope} {world : World}

theorem zero : SafeChecking names 0 where
  synth _ _ := trivial
  check _ _ _ := trivial

theorem synth_var (clear : Lookups.reliable → DistinctFingerprints names)
    (models : ctx.Models names scope world) {x : Name} (known : x ∈ names) :
    Checks (Synthesized scope world (.var x)) (ctx.lookupType x : Checking Value) := by
  rw [Context.lookupType]
  cases found : ctx.type? x with
  | none => exact .reject _
  | some type =>
      obtain ⟨bound, innermost, typeMeans⟩ := models.type? found
      obtain ⟨value, _, valueMeans⟩ := models.env.innermost innermost
      have unclouded : scope.Unclouded x :=
        fun reliable other mem => clear reliable other.name (models.known other mem) x known
      exact ⟨bound.value, bound.type, ⟨.var innermost unclouded, valueMeans.element.shows⟩, typeMeans⟩

/-- A type and a family of types over it, as function types and pair types have them. -/
theorem check_family (smaller : SafeChecking names fuel) (models : ctx.Models names scope world)
    {x : Name} {domain range : Term} (known : x ∈ names) (domainKnown : domain.names ⊆ names)
    (rangeKnown : range.names ⊆ names) {result : Value → Prop}
    (accepted : ∀ {n : Name} {domainMeaning body : Meaning} (new : world.New n domainMeaning),
      domain.Means scope world domainMeaning (.leaf .univ) →
      range.Means (scope.bind x n domainMeaning) (world.extend new) body (.leaf .univ) →
      result .univ) :
    Checks result (do
      ctx.check fuel domain .univ
      let domainValue ← Judging.compute (ctx.eval fuel domain)
      let inner ← Judging.compute (ctx.assume x domainValue)
      inner.check fuel range .univ
      return .univ : Checking Value) := by
  refine .bind (smaller.check models domainKnown .univ) fun _ ⟨domainMeaning, domainMeans⟩ => ?_
  refine .bind (.compute (models.eval domainMeans fuel)) fun domainValue domainValueMeans => ?_
  obtain ⟨inner, new, run, innerModels⟩ := models.assume domainValueMeans known
  refine .bind (.computed run) fun _ same => ?_
  subst same
  refine .bind (smaller.check innerModels rangeKnown .univ) fun _ ⟨body, rangeMeans⟩ => ?_
  exact .pure (accepted new domainMeans rangeMeans)

theorem synth_app (smaller : SafeChecking names fuel) (models : ctx.Models names scope world)
    {function argument : Term} (known : (Term.app function argument).names ⊆ names) :
    Checks (Synthesized scope world (.app function argument))
      (ctx.synth (fuel + 1) (.app function argument)) := by
  obtain ⟨functionKnown, argumentKnown⟩ := List.append_subset.mp known
  refine .bind (.record _) fun _ _ => ?_
  refine .bind (smaller.synth models functionKnown) fun functionType synthesized => ?_
  obtain ⟨functionMeaning, functionTypeMeaning, functionMeans, functionTypeMeans⟩ := synthesized
  refine .bind (models.expectPi functionTypeMeans) fun (domainValue, rangeClosure) found => ?_
  obtain ⟨domain, range, agree, domainMeans, rangeDenotes⟩ := found
  have isOver := domainMeans.element.isOver.pi rangeDenotes.element.isOver
  replace functionMeans := functionMeans.retype isOver agree.symm
  refine .bind (smaller.check models argumentKnown domainMeans)
    fun _ ⟨argumentMeaning, argumentMeans⟩ => ?_
  refine .bind (.compute (models.eval argumentMeans fuel)) fun argumentValue argumentValueMeans => ?_
  refine .mono (.compute ((safeEvaluation fuel).instantiateType rangeDenotes argumentValueMeans))
    fun type typeMeans => ?_
  exact ⟨_, _, ⟨.app functionMeans argumentMeans,
    (functionMeans.element.apply argumentMeans.element).shows⟩, typeMeans⟩

theorem synth_car (smaller : SafeChecking names fuel) (models : ctx.Models names scope world)
    {pair : Term} (known : pair.names ⊆ names) :
    Checks (Synthesized scope world (.car pair)) (ctx.synth (fuel + 1) (.car pair)) := by
  refine .bind (.record _) fun _ _ => ?_
  refine .bind (smaller.synth models known) fun pairType synthesized => ?_
  obtain ⟨pairMeaning, pairTypeMeaning, pairMeans, pairTypeMeans⟩ := synthesized
  refine .bind (models.expectSigma pairTypeMeans) fun (carValue, cdrClosure) found => ?_
  obtain ⟨carType, cdrType, agree, carMeans, cdrDenotes⟩ := found
  have isOver := carMeans.element.isOver.sigma cdrDenotes.element.isOver
  replace pairMeans := pairMeans.retype isOver agree.symm
  exact .pure ⟨_, _, ⟨.car pairMeans, pairMeans.element.car.shows⟩, carMeans⟩

theorem synth_cdr (smaller : SafeChecking names fuel) (models : ctx.Models names scope world)
    {pair : Term} (known : pair.names ⊆ names) :
    Checks (Synthesized scope world (.cdr pair)) (ctx.synth (fuel + 1) (.cdr pair)) := by
  refine .bind (.record _) fun _ _ => ?_
  refine .bind (smaller.synth models known) fun pairType synthesized => ?_
  obtain ⟨pairMeaning, pairTypeMeaning, pairMeans, pairTypeMeans⟩ := synthesized
  refine .bind (models.expectSigma pairTypeMeans) fun (carValue, cdrClosure) found => ?_
  obtain ⟨carType, cdrType, agree, carMeans, cdrDenotes⟩ := found
  have isOver := carMeans.element.isOver.sigma cdrDenotes.element.isOver
  replace pairMeans := pairMeans.retype isOver agree.symm
  refine .bind (.compute (models.eval pairMeans fuel)) fun pairValue pairValueMeans => ?_
  refine .bind (.compute pairValueMeans.yields_car) fun first firstMeans => ?_
  refine .mono (.compute ((safeEvaluation fuel).instantiateType cdrDenotes firstMeans))
    fun type typeMeans => ?_
  exact ⟨_, _, ⟨.cdr pairMeans, pairMeans.element.cdr.shows⟩, typeMeans⟩

theorem synth_indNat (smaller : SafeChecking names fuel) (models : ctx.Models names scope world)
    {target motive base step : Term} (known : (Term.indNat target motive base step).names ⊆ names) :
    Checks (Synthesized scope world (.indNat target motive base step))
      (ctx.synth (fuel + 1) (.indNat target motive base step)) := by
  obtain ⟨restKnown, stepKnown⟩ := List.append_subset.mp known
  obtain ⟨scrutinyKnown, baseKnown⟩ := List.append_subset.mp restKnown
  obtain ⟨targetKnown, motiveKnown⟩ := List.append_subset.mp scrutinyKnown
  refine .bind (.record _) fun _ _ => ?_
  refine .bind (smaller.synth models targetKnown) fun targetType synthesized => ?_
  obtain ⟨number, targetTypeMeaning, targetMeans, targetTypeMeans⟩ := synthesized
  refine .bind (models.expectNat targetTypeMeans) fun _ agree => ?_
  replace targetMeans := targetMeans.retype (.const _) (World.Agree.symm agree)
  refine .bind (smaller.check models motiveKnown (Value.Means.nat.motiveType "k"))
    fun _ ⟨family, motiveMeans⟩ => ?_
  refine .bind (.compute (models.eval motiveMeans fuel)) fun motiveValue motiveValueMeans => ?_
  refine .bind (.compute ((safeEvaluation fuel).applyMotive motiveValueMeans .zero))
    fun baseType baseTypeMeans => ?_
  refine .bind (smaller.check models baseKnown baseTypeMeans) fun _ ⟨start, baseMeans⟩ => ?_
  refine .bind (smaller.check models stepKnown motiveValueMeans.natStepType)
    fun _ ⟨next, stepMeans⟩ => ?_
  refine .bind (.compute (models.eval targetMeans fuel)) fun targetValue targetValueMeans => ?_
  refine .mono (.compute ((safeEvaluation fuel).applyMotive motiveValueMeans targetValueMeans))
    fun type typeMeans => ?_
  exact ⟨_, _, ⟨.indNat targetMeans motiveMeans baseMeans stepMeans,
    (targetMeans.element.ind motiveMeans.element.isOver baseMeans.element stepMeans.element).shows⟩,
    typeMeans⟩

theorem synth_replace (smaller : SafeChecking names fuel) (models : ctx.Models names scope world)
    {target motive base : Term} (known : (Term.replace target motive base).names ⊆ names) :
    Checks (Synthesized scope world (.replace target motive base))
      (ctx.synth (fuel + 1) (.replace target motive base)) := by
  obtain ⟨scrutinyKnown, baseKnown⟩ := List.append_subset.mp known
  obtain ⟨targetKnown, motiveKnown⟩ := List.append_subset.mp scrutinyKnown
  refine .bind (.record _) fun _ _ => ?_
  refine .bind (smaller.synth models targetKnown) fun targetType synthesized => ?_
  obtain ⟨evidence, targetTypeMeaning, targetMeans, targetTypeMeans⟩ := synthesized
  refine .bind (models.expectEqual targetTypeMeans) fun (typeValue, leftValue, rightValue) found => ?_
  obtain ⟨type, left, right, agree, typeMeans, leftMeans, rightMeans⟩ := found
  have isOver := typeMeans.element.isOver.equal leftMeans.element.isOver rightMeans.element.isOver
  replace targetMeans := targetMeans.retype isOver agree.symm
  refine .bind (smaller.check models motiveKnown (typeMeans.motiveType "x"))
    fun _ ⟨family, motiveMeans⟩ => ?_
  refine .bind (.compute (models.eval motiveMeans fuel)) fun motiveValue motiveValueMeans => ?_
  refine .bind (.compute ((safeEvaluation fuel).applyMotive motiveValueMeans leftMeans))
    fun baseType baseTypeMeans => ?_
  refine .bind (smaller.check models baseKnown baseTypeMeans) fun _ ⟨start, baseMeans⟩ => ?_
  refine .mono (.compute ((safeEvaluation fuel).applyMotive motiveValueMeans rightMeans))
    fun resultType resultTypeMeans => ?_
  exact ⟨_, _, ⟨.replace targetMeans motiveMeans baseMeans,
    (targetMeans.element.replace motiveMeans.element.isOver baseMeans.element).shows⟩, resultTypeMeans⟩

theorem synth_indAbsurd (smaller : SafeChecking names fuel) (models : ctx.Models names scope world)
    {target motive : Term} (known : (Term.indAbsurd target motive).names ⊆ names) :
    Checks (Synthesized scope world (.indAbsurd target motive))
      (ctx.synth (fuel + 1) (.indAbsurd target motive)) := by
  obtain ⟨targetKnown, motiveKnown⟩ := List.append_subset.mp known
  refine .bind (.record _) fun _ _ => ?_
  refine .bind (smaller.synth models targetKnown) fun targetType synthesized => ?_
  obtain ⟨evidence, targetTypeMeaning, targetMeans, targetTypeMeans⟩ := synthesized
  refine .bind (models.expectAbsurd targetTypeMeans) fun _ agree => ?_
  replace targetMeans := targetMeans.retype (.const _) (World.Agree.symm agree)
  refine .bind (smaller.check models motiveKnown .univ) fun _ ⟨type, motiveMeans⟩ => ?_
  refine .mono (.compute (models.eval motiveMeans fuel)) fun motiveValue motiveValueMeans => ?_
  exact ⟨_, _, ⟨.indAbsurd targetMeans motiveMeans,
    (World.Element.indAbsurd motiveMeans.element.isOver).shows⟩, motiveValueMeans⟩

theorem synth_equal (smaller : SafeChecking names fuel) (models : ctx.Models names scope world)
    {type left right : Term} (known : (Term.equal type left right).names ⊆ names) :
    Checks (Synthesized scope world (.equal type left right))
      (ctx.synth (fuel + 1) (.equal type left right)) := by
  obtain ⟨restKnown, rightKnown⟩ := List.append_subset.mp known
  obtain ⟨typeKnown, leftKnown⟩ := List.append_subset.mp restKnown
  refine .bind (.record _) fun _ _ => ?_
  refine .bind (smaller.check models typeKnown .univ) fun _ ⟨typeMeaning, typeMeans⟩ => ?_
  refine .bind (.compute (models.eval typeMeans fuel)) fun typeValue typeValueMeans => ?_
  refine .bind (smaller.check models leftKnown typeValueMeans) fun _ ⟨leftMeaning, leftMeans⟩ => ?_
  refine .bind (smaller.check models rightKnown typeValueMeans) fun _ ⟨rightMeaning, rightMeans⟩ => ?_
  exact .pure (.ofType (.equal typeMeans leftMeans rightMeans)
    (typeMeans.element.isOver.equal leftMeans.element.isOver rightMeans.element.isOver))

theorem synth_the (smaller : SafeChecking names fuel) (models : ctx.Models names scope world)
    {type expr : Term} (known : (Term.the type expr).names ⊆ names) :
    Checks (Synthesized scope world (.the type expr)) (ctx.synth (fuel + 1) (.the type expr)) := by
  obtain ⟨typeKnown, exprKnown⟩ := List.append_subset.mp known
  refine .bind (.record _) fun _ _ => ?_
  refine .bind (smaller.check models typeKnown .univ) fun _ ⟨typeMeaning, typeMeans⟩ => ?_
  refine .bind (.compute (models.eval typeMeans fuel)) fun typeValue typeValueMeans => ?_
  refine .bind (smaller.check models exprKnown typeValueMeans) fun _ ⟨meaning, exprMeans⟩ => ?_
  exact .pure ⟨_, _, ⟨.the typeMeans exprMeans, exprMeans.element.shows⟩, typeValueMeans⟩

theorem synth_succ (clear : Lookups.reliable → DistinctFingerprints names)
    (smaller : SafeChecking names fuel) (models : ctx.Models names scope world) {term : Term}
    (known : term.names ⊆ names) :
    Checks (Synthesized scope world term) (ctx.synth (fuel + 1) term) := by
  cases term with
  | var x =>
      exact .bind (.record _) fun _ _ => synth_var clear models (known List.mem_cons_self)
  | pi x domain range =>
      obtain ⟨xKnown, partsKnown⟩ := List.cons_subset.mp known
      obtain ⟨domainKnown, rangeKnown⟩ := List.append_subset.mp partsKnown
      refine .bind (.record _) fun _ _ => smaller.check_family models xKnown domainKnown rangeKnown ?_
      intro n domainMeaning body new domainMeans rangeMeans
      exact .ofType (.pi domainMeans new rangeMeans)
        (domainMeans.element.isOver.pi (domainMeans.element.isOver.family rangeMeans.element.isOver))
  | sigma x carType cdrType =>
      obtain ⟨xKnown, partsKnown⟩ := List.cons_subset.mp known
      obtain ⟨carKnown, cdrKnown⟩ := List.append_subset.mp partsKnown
      refine .bind (.record _) fun _ _ => smaller.check_family models xKnown carKnown cdrKnown ?_
      intro n carMeaning body new carMeans cdrMeans
      exact .ofType (.sigma carMeans new cdrMeans)
        (carMeans.element.isOver.sigma (carMeans.element.isOver.family cdrMeans.element.isOver))
  | app function argument => exact smaller.synth_app models known
  | car pair => exact smaller.synth_car models known
  | cdr pair => exact smaller.synth_cdr models known
  | indNat target motive base step => exact smaller.synth_indNat models known
  | equal type left right => exact smaller.synth_equal models known
  | replace target motive base => exact smaller.synth_replace models known
  | indAbsurd target motive => exact smaller.synth_indAbsurd models known
  | the type expr => exact smaller.synth_the models known
  | nat => exact .bind (.record _) fun _ _ => .pure (.ofType .nat (.const _))
  | trivial => exact .bind (.record _) fun _ _ => .pure (.ofType .trivial (.const _))
  | absurd => exact .bind (.record _) fun _ _ => .pure (.ofType .absurd (.const _))
  | atom => exact .bind (.record _) fun _ _ => .pure (.ofType .atom (.const _))
  | univ => exact .bind (.record _) fun _ _ => .pure (.ofType .univ (.const _))
  | lam | cons | zero | add1 | same | sole | tick =>
      exact .bind (.record _) fun _ _ => .reject _

section Check

variable {type : Value} {typeMeaning : Meaning}

theorem check_lam (smaller : SafeChecking names fuel) (models : ctx.Models names scope world)
    {x : Name} {body : Term} (known : (Term.lam x body).names ⊆ names)
    (typeMeans : type.Means world typeMeaning (.leaf .univ)) :
    Checks (fun _ => ∃ meaning, (Term.lam x body).Means scope world meaning typeMeaning)
      (ctx.check (fuel + 1) (.lam x body) type) := by
  obtain ⟨xKnown, bodyKnown⟩ := List.cons_subset.mp known
  refine .bind (.record _) fun _ _ => ?_
  refine .bind (models.expectPi typeMeans) fun (domainValue, rangeClosure) found => ?_
  obtain ⟨domain, range, agree, domainMeans, rangeDenotes⟩ := found
  obtain ⟨inner, new, run, innerModels⟩ := models.assume domainMeans xKnown
  refine .bind (.computed run) fun _ same => ?_
  subst same
  refine .bind (.compute ((safeEvaluation fuel).instantiateType (rangeDenotes.extend new)
    (domainMeans.ofVar new))) fun bodyType bodyTypeMeans => ?_
  refine .mono (smaller.check innerModels bodyKnown bodyTypeMeans) fun _ ⟨bodyMeaning, bodyMeans⟩ => ?_
  have lamMeans : (Term.lam x body).Means scope world _ _ :=
    ⟨.lam new bodyMeans, bodyMeans.element.lam.shows⟩
  refine ⟨_, lamMeans.retype typeMeans.element.isOver (agree.trans fun valuation admits => ?_)⟩
  have rangeAgree := Meaning.agree_family new rangeDenotes.element (.refl _) (.refl _)
  simp only [Meaning.pi, rangeAgree valuation admits]

theorem check_cons (smaller : SafeChecking names fuel) (models : ctx.Models names scope world)
    {first second : Term} (known : (Term.cons first second).names ⊆ names)
    (typeMeans : type.Means world typeMeaning (.leaf .univ)) :
    Checks (fun _ => ∃ meaning, (Term.cons first second).Means scope world meaning typeMeaning)
      (ctx.check (fuel + 1) (.cons first second) type) := by
  obtain ⟨firstKnown, secondKnown⟩ := List.append_subset.mp known
  refine .bind (.record _) fun _ _ => ?_
  refine .bind (models.expectSigma typeMeans) fun (carValue, cdrClosure) found => ?_
  obtain ⟨carType, cdrType, agree, carMeans, cdrDenotes⟩ := found
  refine .bind (smaller.check models firstKnown carMeans) fun _ ⟨firstMeaning, firstMeans⟩ => ?_
  refine .bind (.compute (models.eval firstMeans fuel)) fun firstValue firstValueMeans => ?_
  refine .bind (.compute ((safeEvaluation fuel).instantiateType cdrDenotes firstValueMeans))
    fun secondType secondTypeMeans => ?_
  refine .mono (smaller.check models secondKnown secondTypeMeans)
    fun _ ⟨secondMeaning, secondMeans⟩ => ?_
  have pairElement := firstMeans.element.pair secondMeans.element cdrDenotes.element.isOver
  have pairMeans : (Term.cons first second).Means scope world _ _ :=
    ⟨.cons firstMeans secondMeans, pairElement.shows⟩
  exact ⟨_, pairMeans.retype typeMeans.element.isOver agree⟩

theorem check_same (models : ctx.Models names scope world)
    (typeMeans : type.Means world typeMeaning (.leaf .univ)) :
    Checks (fun _ => ∃ meaning, Term.same.Means scope world meaning typeMeaning)
      (ctx.check (fuel + 1) .same type) := by
  refine .bind (.record _) fun _ _ => ?_
  refine .bind (models.expectEqual typeMeans) fun (innerValue, leftValue, rightValue) found => ?_
  obtain ⟨inner, left, right, agree, innerMeans, leftMeans, rightMeans⟩ := found
  refine .mono (models.convert innerMeans leftMeans rightMeans) fun _ sidesAgree => ?_
  have isElement := World.Element.same innerMeans.element.isOver leftMeans.element.isOver
    rightMeans.element.isOver
  have sameMeans : Term.same.Means scope world _ _ := ⟨.same sidesAgree, isElement.shows⟩
  exact ⟨_, sameMeans.retype typeMeans.element.isOver agree⟩

/-- A term without a rule of its own is checked by comparing the type it has. -/
theorem check_synth (smaller : SafeChecking names fuel) (models : ctx.Models names scope world)
    {term : Term} (known : term.names ⊆ names) (typeMeans : type.Means world typeMeaning (.leaf .univ)) :
    Checks (fun _ => ∃ meaning, term.Means scope world meaning typeMeaning) (do
      Judging.record (.check term)
      let synthesized ← ctx.synth fuel term
      ctx.convert fuel .univ synthesized type : Checking Unit) := by
  refine .bind (.record _) fun _ _ => ?_
  refine .bind (smaller.synth models known) fun synthesized ⟨meaning, _, means, synthesizedMeans⟩ => ?_
  refine .mono (models.convert .univ synthesizedMeans typeMeans) fun _ agree => ?_
  exact ⟨meaning, means.retype typeMeans.element.isOver (World.Agree.symm agree)⟩

theorem check_succ (smaller : SafeChecking names fuel) (models : ctx.Models names scope world)
    {term : Term} (known : term.names ⊆ names) (typeMeans : type.Means world typeMeaning (.leaf .univ)) :
    Checks (fun _ => ∃ meaning, term.Means scope world meaning typeMeaning)
      (ctx.check (fuel + 1) term type) := by
  have isOver := typeMeans.element.isOver
  cases term with
  | lam x body => exact smaller.check_lam models known typeMeans
  | cons first second => exact smaller.check_cons models known typeMeans
  | zero =>
      refine .bind (.record _) fun _ _ => .mono (models.expectNat typeMeans) fun _ agree => ?_
      exact ⟨_, Term.Means.retype ⟨.zero, World.Element.zero.shows⟩ isOver agree⟩
  | add1 predecessor =>
      refine .bind (.record _) fun _ _ => .bind (models.expectNat typeMeans) fun _ agree => ?_
      refine .mono (smaller.check models known .nat) fun _ ⟨meaning, predecessorMeans⟩ => ?_
      exact ⟨_, Term.Means.retype ⟨.add1 predecessorMeans, predecessorMeans.element.add1.shows⟩ isOver
        agree⟩
  | same => exact check_same models typeMeans
  | sole =>
      refine .bind (.record _) fun _ _ => .mono (models.expectTrivial typeMeans) fun _ agree => ?_
      exact ⟨_, Term.Means.retype ⟨.sole, World.Element.sole.shows⟩ isOver agree⟩
  | tick symbol =>
      refine .bind (.record _) fun _ _ => .mono (models.expectAtom typeMeans) fun _ agree => ?_
      exact ⟨_, Term.Means.retype ⟨.tick, (World.Element.tick symbol).shows⟩ isOver agree⟩
  | _ => exact smaller.check_synth models known typeMeans

end Check

end SafeChecking

theorem safeChecking {names : List Name} (clear : Lookups.reliable → DistinctFingerprints names)
    (fuel : Nat) : SafeChecking names fuel := by
  induction fuel with
  | zero => exact .zero
  | succ fuel smaller =>
      exact ⟨fun models known => smaller.synth_succ clear models known,
        fun models known typeMeans => smaller.check_succ models known typeMeans⟩

/-! ## Programs -/

namespace Context.Models

variable {names : List Name} {ctx : Context} {scope : Scope} {world : World}

theorem addDefinition (clear : Lookups.reliable → DistinctFingerprints names)
    (models : ctx.Models names scope world) {x : Name} {term : Term} (xKnown : x ∈ names)
    (known : term.names ⊆ names) (fuel : Nat) :
    Checks (fun final : Context => ∃ scope, final.Models names scope world)
      (ctx.addDefinition fuel x term) := by
  rw [Context.addDefinition]
  by_cases defined : (ctx.binding? x).isSome = true
  · rw [if_pos defined]
    exact .reject _
  · rw [if_neg defined]
    refine .bind ((safeChecking clear fuel).synth models known) fun type synthesized => ?_
    obtain ⟨meaning, typeMeaning, means, typeMeans⟩ := synthesized
    refine .bind (.record _) fun _ _ => ?_
    refine .bind (.compute (models.eval means fuel)) fun value valueMeans => ?_
    obtain ⟨inner, run, innerModels⟩ := models.define typeMeans valueMeans xKnown
    exact .mono (.computed run) fun _ same => same ▸ ⟨_, innerModels⟩

theorem addDefinitions (clear : Lookups.reliable → DistinctFingerprints names) (fuel : Nat)
    {definitions : List Definition}
    (known : ∀ definition ∈ definitions, definition.name ∈ names ∧ definition.term.names ⊆ names)
    (models : ctx.Models names scope world) :
    Checks (fun final : Context => ∃ scope, final.Models names scope world)
      (ctx.addDefinitions fuel definitions) := by
  induction definitions generalizing ctx scope with
  | nil => exact .pure ⟨scope, models⟩
  | cons definition rest ih =>
      obtain ⟨⟨nameKnown, termKnown⟩, restKnown⟩ := List.forall_mem_cons.mp known
      rw [Context.addDefinitions, List.foldlM_cons]
      refine .bind (.within (models.addDefinition clear nameKnown termKnown fuel) definition.name) ?_
      rintro inner ⟨innerScope, innerModels⟩
      exact ih restKnown innerModels

end Context.Models

structure NormalForm.ReadFrom (world : World) (result : NormalForm) (type value : Value)
    (typeMeaning meaning : Meaning) : Prop where
  typeMeans : type.Means world typeMeaning (.leaf .univ)
  valueMeans : value.Means world meaning typeMeaning
  typeReads : ReadsType world typeMeaning result.type
  valueReads : Reads world typeMeaning meaning result.term

theorem Context.Models.run {names : List Name} {ctx : Context} {scope : Scope} {world : World}
    (clear : Lookups.reliable → DistinctFingerprints names) (models : ctx.Models names scope world)
    {term : Term} (known : term.names ⊆ names) (fuel : Nat) :
    Checks (fun result => ∃ type value typeMeaning meaning,
        result.ReadFrom world type value typeMeaning meaning)
      (ctx.run fuel term : Checking NormalForm) := by
  rw [Context.run]
  refine .bind ((safeChecking clear fuel).synth models known) fun type synthesized => ?_
  obtain ⟨meaning, typeMeaning, means, typeMeans⟩ := synthesized
  refine .bind (.compute (models.eval means fuel)) fun value valueMeans => ?_
  refine .bind (.compute ((safeReadBack fuel).readBackType models.named typeMeans))
    fun typeTerm typeReads => ?_
  refine .bind (.compute ((safeReadBack fuel).readBack models.named typeMeans valueMeans))
    fun valueTerm valueReads => ?_
  exact .pure ⟨type, value, typeMeaning, meaning, ⟨typeMeans, valueMeans, typeReads, valueReads⟩⟩

/-- The definitions of a program give a context without variables. -/
theorem Program.models_definitions (program : Program) {names : List Name}
    (clear : Lookups.reliable → DistinctFingerprints names) (included : program.names ⊆ names)
    (fuel : Nat) :
    Checks (fun ctx : Context => ∃ scope, ctx.Models names scope .empty)
      (Context.ofDefinitions fuel program.definitions) := by
  refine Context.Models.empty.addDefinitions clear fuel fun definition mem => ?_
  obtain ⟨nameKnown, termKnown⟩ := Program.definition_names_subset mem
  exact ⟨included nameKnown, List.Subset.trans termKnown included⟩

/-- What a program gives was read back from a value without free variables. -/
theorem Program.checks_run (program : Program)
    (clear : Lookups.reliable → DistinctFingerprints program.names) (fuel : Nat) :
    Checks (fun result => ∃ type value typeMeaning meaning,
        result.ReadFrom .empty type value typeMeaning meaning)
      (program.run fuel : Checking NormalForm) := by
  rw [Program.run]
  refine .bind (program.models_definitions clear (List.Subset.refl _) fuel) ?_
  rintro ctx ⟨scope, models⟩
  exact models.run clear program.body_names_subset fuel

end Safety

/-- A program whose names have different fingerprints is never stuck: unless the bound on the depth is
reached, it has a result or is rejected by the type checker. -/
theorem Program.run_never_stuck (program : Program) (clear : DistinctFingerprints program.names)
    (fuel : Nat) :
    (program.run fuel : Checking NormalForm).outcome = .exhausted ∨
      (∃ result, (program.run fuel : Checking NormalForm).outcome = .done result) ∨
      ∃ definition? error,
        (program.run fuel : Checking NormalForm).outcome = .failed (.rejected definition? error) := by
  let _ : Lookups := ⟨True⟩
  have checks := program.checks_run (fun _ => clear) fuel
  rw [Checks] at checks
  cases outcome : (program.run fuel : Checking NormalForm).outcome with
  | exhausted => exact .inl rfl
  | done result => exact .inr (.inl ⟨result, rfl⟩)
  | failed fault =>
      rw [outcome] at checks
      cases fault with
      | rejected definition? error => exact .inr (.inr ⟨definition?, error, rfl⟩)
      | stuck place => exact (checks trivial).elim

def consequencesOfTwo : Program :=
  ⟨NatEquality.definitions,
    .app (.app (.app (.var "there-are-consequences") (.var "two")) (.var "two"))
      (.the (.equal .nat (.var "two") (.var "two")) .same)⟩

theorem consequencesOfTwo_never_stuck :
    DistinctFingerprints consequencesOfTwo.names ∧
      (consequencesOfTwo.run 24 : Checking NormalForm).outcome =
        .done ⟨.equal .nat (.add1 .zero) (.add1 .zero), .same⟩ ∧
      ((consequencesOfTwo.run 24 : Checking NormalForm).outcome = .exhausted ∨
        (∃ result, (consequencesOfTwo.run 24 : Checking NormalForm).outcome = .done result) ∨
        ∃ definition? error, (consequencesOfTwo.run 24 : Checking NormalForm).outcome =
          .failed (.rejected definition? error)) := by
  have clear : DistinctFingerprints consequencesOfTwo.names := by decide +kernel
  exact ⟨clear, by decide +kernel, consequencesOfTwo.run_never_stuck clear 24⟩

-- Two names with one fingerprint hide each other, and then an accepted program can be stuck.
example :
    ((Program.mk [] (.the (.pi "costarring" .nat (.pi "liquid" .nat .nat))
      (.lam "costarring" (.lam "liquid" (.var "liquid"))))).run 20 : Checking NormalForm).outcome =
      .failed (.stuck (.unbound "liquid")) := by
  decide +kernel

end Dependent

end LambdaCalculi
