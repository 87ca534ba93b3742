import LambdaCalculi.Proofs.Dependent.CanonicalForms
import LambdaCalculi.Proofs.Freshness
import LambdaCalculi.Proofs.Safety

/-!
# Evaluation of meaningful terms is never stuck

A term that has a meaning and a type evaluates to a value of that meaning and type, unless the bound
on the depth is reached; so does every operation on values of the right types. Where bound names may
not be found, evaluation may also stop at such a name. The induction is on the bound. Evaluation
happens in an environment whose names have their meanings in another world than the one the term was
judged in, so that a closure can be entered with any argument of its domain.
-/

set_option autoImplicit false

namespace LambdaCalculi.Dependent

open Domain Outcome
open Meaning (Over)

/-! ## Scopes and families -/

section Scopes

variable {world target : World} {sending : Valuation → Valuation}

namespace Scope

theorem innermost?_after (sending : Valuation → Valuation) (scope : Scope) (x : Name) :
    (scope.after sending).innermost? x = (scope.innermost? x).map fun bound =>
      ⟨bound.name, fun valuation => bound.value (sending valuation),
        fun valuation => bound.type (sending valuation)⟩ := by
  induction scope with
  | nil => rfl
  | cons bound outer ih =>
      rw [after, List.map_cons, innermost?, innermost?]
      by_cases same : bound.name = x
      · rw [if_pos same, if_pos same, Option.map_some]
      · rw [if_neg same, if_neg same, ← ih, after]

theorem Over.bind {scope : Scope} (isOver : scope.Over world.names) {n : Name} {type : Meaning}
    (new : world.New n type) (x : Name) : (scope.bind x n type).Over (n :: world.names) := by
  intro bound mem
  rcases List.mem_cons.mp mem with rfl | inside
  · exact ⟨.valueOf List.mem_cons_self, new.isOver.mono (List.subset_cons_self _ _)⟩
  · obtain ⟨valueOver, typeOver⟩ := isOver bound inside
    exact ⟨valueOver.mono (List.subset_cons_self _ _), typeOver.mono (List.subset_cons_self _ _)⟩

theorem after_update {scope : Scope} (isOver : scope.Over target.names) {n : Name} {type : Meaning}
    (new : target.New n type) (x : Name) (argument : Meaning) :
    ((scope.bind x n type).after fun valuation =>
        Function.update (sending valuation) n (argument valuation)) =
      ⟨x, argument, fun valuation => type (sending valuation)⟩ :: scope.after sending := by
  rw [bind, after, List.map_cons]
  congr 1
  · simp only [Function.update_self, new.isOver.update_eq new.fresh]
  · refine List.map_congr_left fun bound mem => ?_
    obtain ⟨valueOver, typeOver⟩ := isOver bound mem
    simp only [valueOver.update_eq new.fresh, typeOver.update_eq new.fresh]

theorem after_self (scope : Scope) : (scope.after fun valuation => valuation) = scope :=
  List.map_id scope

end Scope

theorem World.exists_new (world : World) {type : Meaning} (isOver : Over world.names type) :
    ∃ n, world.New n type :=
  ⟨Name.fresh world.names "x", Name.fresh_not_mem world.names "x", isOver⟩

theorem apply_constantUniv (world : World) (argument : Meaning) :
    world.Agree (.leaf .univ) (Meaning.constantUniv.apply argument) :=
  fun valuation _ => (apply_lam (.const _) (argument valuation)).symm

theorem stepRange_agree {family : Meaning} (isOver : Over world.names family) {n m : Name}
    {type : Meaning} (new : world.New n (.leaf .nat)) (newer : (world.extend new).New m type) :
    world.Agree (.stepRange family) (.family n (.leaf .nat)
      (.pi (family.apply fun valuation => valuation n)
        (.family m (family.apply fun valuation => valuation n)
          (family.apply (.add1 fun valuation => valuation n))))) := by
  have different : n ≠ m := fun same => newer.fresh (same ▸ List.mem_cons_self)
  have fresh : m ∉ world.names := fun mem => newer.fresh (List.mem_cons_of_mem _ mem)
  intro valuation _
  simp only [Domain.stepRange, Meaning.family, Meaning.pi, Meaning.apply, Meaning.add1, fit_nat,
    Function.update_self, Function.update_of_ne different, isOver.update_eq new.fresh,
    isOver.update_eq fresh]

end Scopes

variable [Lookups]

/-! ## Environments -/

section Environments

variable {world target : World} {sending : Valuation → Valuation}

theorem Env.Means.names_eq {env : Env} {scope : Scope} (means : env.Means world scope) :
    env.names = scope.map Bound.name := by
  induction scope generalizing env with
  | nil =>
      cases means
      rfl
  | cons bound outer ih =>
      cases means with
      | cons _ outerMeans => rw [Env.names, ih outerMeans, List.map_cons]

theorem Env.Means.innermost {env : Env} {scope : Scope} (means : env.Means world scope) {x : Name}
    {bound : Bound} (found : scope.innermost? x = some bound) :
    ∃ value, env.innermost? x = some value ∧ value.Means world bound.value bound.type := by
  induction scope generalizing env with
  | nil => cases found
  | cons head outer ih =>
      cases means with
      | @cons _ y value _ _ _ _ valueMeans outerMeans =>
          rw [Scope.innermost?] at found
          by_cases same : y = x
          · rw [if_pos same] at found
            cases found
            exact ⟨value, by rw [Env.innermost?, if_pos same], valueMeans⟩
          · rw [if_neg same] at found
            obtain ⟨inner, lookup, innerMeans⟩ := ih outerMeans found
            exact ⟨inner, by rw [Env.innermost?, if_neg same, lookup], innerMeans⟩

theorem Env.Means.lookup {env : Env} {scope : Scope} (means : env.Means world scope) {x : Name}
    {bound : Bound} (found : scope.innermost? x = some bound) (unclouded : scope.Unclouded x) :
    (∃ value, env.lookup? x = some value ∧ value.Means world bound.value bound.type) ∨
      env.lookup? x = none ∧ ¬ Lookups.reliable := by
  obtain ⟨value, lookup, valueMeans⟩ := means.innermost found
  by_cases clouds : env.clouds x = true
  · refine .inr ⟨by rw [Env.lookup?, if_pos clouds], fun reliable => ?_⟩
    rw [Env.clouds_iff, means.names_eq] at clouds
    obtain ⟨y, mem, different, alike⟩ := clouds
    obtain ⟨other, inside, rfl⟩ := List.mem_map.mp mem
    exact different (unclouded reliable other inside alike)
  · exact .inl ⟨value, by rw [Env.lookup?, if_neg clouds, lookup], valueMeans⟩

theorem Scope.Unclouded.after {scope : Scope} {x : Name} (unclouded : scope.Unclouded x) :
    (scope.after sending).Unclouded x := by
  intro reliable bound mem
  obtain ⟨inner, inside, rfl⟩ := List.mem_map.mp mem
  exact unclouded reliable inner inside

end Environments

/-! ## The types that evaluation makes -/

section MadeTypes

variable {world target : World} {sending : Valuation → Valuation}

theorem Closure.Denotes.intro {scope : Scope} {env : Env} {x n : Name} {body : Term}
    {type bodyMeaning bodyType : Meaning} (sends : world.Sends target sending)
    (scopeOver : scope.Over target.names) (envMeans : env.Means world (scope.after sending))
    {new : target.New n type}
    (bodyMeans : body.Means (scope.bind x n type) (target.extend new) bodyMeaning bodyType) :
    (Closure.mk env x body).Denotes world (fun valuation => type (sending valuation))
      (fun valuation => Meaning.family n type bodyMeaning (sending valuation))
      fun valuation => Meaning.family n type bodyType (sending valuation) :=
  .mk (sends.element bodyMeans.element.lam) sends scopeOver envMeans new bodyMeans (.refl _) (.refl _)
    (.refl _)

theorem Value.Means.motiveType {domain : Value} {domainMeaning : Meaning}
    (means : domain.Means world domainMeaning (.leaf .univ)) (x : Name) :
    (Value.pi domain (.mk .nil x .univ)).Means world (.motiveType domainMeaning) (.leaf .univ) := by
  have isOver := means.element.isOver
  obtain ⟨n, new⟩ := world.exists_new isOver
  have univMeans : Term.univ.Means (Scope.bind [] x n domainMeaning) (world.extend new) (.leaf .univ)
      (.leaf .univ) := Term.Denotes.univ.asType (.const _)
  have scopeOver : Scope.Over [] world.names := fun _ mem => by cases mem
  have rangeDenotes := Closure.Denotes.intro (.refl world) scopeOver .nil univMeans
  exact (Value.Denotes.pi means rangeDenotes).asType isOver.motiveType

theorem Term.Means.applyMotive {scope : Scope} {motive argument : Term}
    {family argumentMeaning domain : Meaning}
    (motiveMeans : motive.Means scope world family (.motiveType domain))
    (argumentMeans : argument.Means scope world argumentMeaning domain) :
    (Term.app motive argument).Means scope world (.apply family argumentMeaning) (.leaf .univ) := by
  have isOver := motiveMeans.element.isOver.apply argumentMeans.element.isOver
  exact ⟨.app motiveMeans argumentMeans,
    ⟨.ofType isOver, .refl _, apply_constantUniv world argumentMeaning⟩⟩

def stepNames : List Name :=
  ["mot", "n-1", "almost"]

theorem Scope.unclouded_of_stepNames {scope : Scope} (named : ∀ bound ∈ scope, bound.name ∈ stepNames)
    {x : Name} (mem : x ∈ stepNames) : scope.Unclouded x := by
  have clear : ∀ x ∈ stepNames, ∀ y ∈ stepNames, Name.fingerprint x = Name.fingerprint y → x = y := by
    decide +kernel
  exact fun _ bound inside => clear bound.name (named bound inside) x mem

theorem Value.Means.natStepType {motive : Value} {family : Meaning}
    (means : motive.Means world family (.motiveType (.leaf .nat))) :
    (Value.natStepType motive).Means world (.stepType family) (.leaf .univ) := by
  have isElement := means.element
  have familyOver := isElement.isOver
  let scope : Scope := [⟨"mot", family, .motiveType (.leaf .nat)⟩]
  have scopeOver : scope.Over world.names := by
    intro bound mem
    obtain rfl := List.mem_singleton.mp mem
    exact ⟨familyOver, isElement.typeOver⟩
  obtain ⟨n, new⟩ := world.exists_new (.const (Domain.leaf .nat))
  have number := World.Element.newest new
  let outer := scope.bind "n-1" n (.leaf .nat)
  have outerNamed : ∀ bound ∈ outer, bound.name ∈ stepNames := by
    simp [outer, scope, Scope.bind, stepNames]
  have domainMeans : (Term.app (.var "mot") (.var "n-1")).Means outer (world.extend new)
      (family.apply fun valuation => valuation n) (.leaf .univ) :=
    .applyMotive
      ⟨.var rfl (Scope.unclouded_of_stepNames outerNamed (by simp [stepNames])),
        (isElement.extend new).shows⟩
      ⟨.var rfl (Scope.unclouded_of_stepNames outerNamed (by simp [stepNames])), number.shows⟩
  obtain ⟨m, newer⟩ := (world.extend new).exists_new domainMeans.element.isOver
  let inner := outer.bind "almost" m (family.apply fun valuation => valuation n)
  have innerNamed : ∀ bound ∈ inner, bound.name ∈ stepNames :=
    List.forall_mem_cons.mpr ⟨by simp [stepNames], outerNamed⟩
  have rangeMeans : (Term.app (.var "mot") (.add1 (.var "n-1"))).Means inner
      ((world.extend new).extend newer) (family.apply (.add1 fun valuation => valuation n))
      (.leaf .univ) :=
    .applyMotive
      ⟨.var rfl (Scope.unclouded_of_stepNames innerNamed (by simp [stepNames])),
        ((isElement.extend new).extend newer).shows⟩
      ⟨.add1 ⟨.var rfl (Scope.unclouded_of_stepNames innerNamed (by simp [stepNames])),
        (number.extend newer).shows⟩, (number.extend newer).add1.shows⟩
  have bodyOver := domainMeans.element.isOver.pi
    (domainMeans.element.isOver.family rangeMeans.element.isOver)
  have envMeans : (Env.nil.extend "mot" motive).Means world (scope.after fun valuation => valuation) :=
    .cons means .nil
  have rangeDenotes := Closure.Denotes.intro (.refl world) scopeOver envMeans
    ((Term.Denotes.pi domainMeans newer rangeMeans).asType bodyOver)
  have agree := stepRange_agree familyOver new newer
  have stepDenotes := rangeDenotes.exchangeFamily (.const _) familyOver.stepRange (.refl _) agree
  exact (Value.Denotes.pi .nat stepDenotes).asType (.pi (.const _) familyOver.stepRange)

end MadeTypes

/-! ## Values and operations on them -/

def Tolerated {ε : Type} (_ : ε) : Prop :=
  ¬ Lookups.reliable

abbrev Yields (world : World) (meaning type : Meaning) (outcome : Outcome Stuck Value) : Prop :=
  outcome.Safe Tolerated fun value => value.Means world meaning type

theorem Yields.exchange {world : World} {meaning type shown shownType : Meaning}
    {outcome : Outcome Stuck Value} (yields : Yields world shown shownType outcome)
    (shows : world.Shows meaning type shown shownType) : Yields world meaning type outcome :=
  yields.mono fun _ means => means.exchange shows

/-- The environment gives every name of the scope a value, for the variables that `sending` gives a
meaning to. -/
structure Env.Realizes (world target : World) (sending : Valuation → Valuation) (env : Env)
    (scope : Scope) : Prop where
  sends : world.Sends target sending
  scopeOver : scope.Over target.names
  means : env.Means world (scope.after sending)

theorem Neutral.Means.value {world : World} {neutral : Neutral} {meaning type : Meaning}
    {typeValue : Value} (means : neutral.Means world meaning type)
    (typeMeans : typeValue.Means world type (.leaf .univ)) :
    (Value.neutral typeValue neutral).Means world meaning type :=
  ⟨.neutral typeMeans means, means.element.shows⟩

theorem Value.Means.ofVar {world : World} {typeValue : Value} {type : Meaning} {x : Name}
    (means : typeValue.Means world type (.leaf .univ)) (new : world.New x type) :
    (Value.ofVar typeValue x).Means (world.extend new) (fun valuation => valuation x) type :=
  Neutral.Means.value ⟨.var List.mem_cons_self, (World.Element.newest new).shows⟩ (means.extend new)

section WithoutFuel

variable {world : World} {meaning : Meaning}

theorem Value.Means.yields_car {value : Value} {carType cdrType : Meaning}
    (means : value.Means world meaning (.sigma carType cdrType)) :
    Yields world (.part 0 meaning) carType value.car := by
  rcases means.pair_cases with ⟨first, second, rfl, firstMeans, _⟩ |
    ⟨carValue, cdrValue, blocked, rfl, carMeans, _, blockedMeans⟩
  · exact firstMeans
  · have carNeutral : Neutral.Means world (.car blocked) (.part 0 meaning) carType :=
      ⟨.car blockedMeans, means.element.car.shows⟩
    exact carNeutral.value carMeans

theorem Value.Means.yields_indAbsurd {target motive : Value} {type : Meaning}
    (targetMeans : target.Means world meaning (.leaf .absurd))
    (motiveMeans : motive.Means world type (.leaf .univ)) :
    Yields world type.indAbsurd type (target.indAbsurd motive) := by
  obtain ⟨blocked, rfl, blockedMeans⟩ := targetMeans.exists_neutral_absurd
  have neutral : Neutral.Means world (.indAbsurd blocked (.mk .univ motive)) type.indAbsurd type :=
    ⟨.indAbsurd blockedMeans (.mk .univ motiveMeans),
      (World.Element.indAbsurd motiveMeans.element.isOver).shows⟩
  exact neutral.value motiveMeans

end WithoutFuel

structure SafeEvaluation (fuel : Nat) : Prop where
  eval : ∀ {world target : World} {sending : Valuation → Valuation} {scope : Scope} {env : Env}
    {term : Term} {meaning type : Meaning}, env.Realizes world target sending scope →
    term.Means scope target meaning type →
    Yields world (fun valuation => meaning (sending valuation))
      (fun valuation => type (sending valuation)) (env.eval fuel term)
  instantiate : ∀ {world : World} {closure : Closure} {argument : Value}
    {domain function range meaning : Meaning}, closure.Denotes world domain function range →
    argument.Means world meaning domain →
    Yields world (.apply function meaning) (.apply range meaning) (closure.instantiate fuel argument)
  apply : ∀ {world : World} {function argument : Value}
    {functionMeaning domain range meaning : Meaning},
    function.Means world functionMeaning (.pi domain range) → argument.Means world meaning domain →
    Yields world (.apply functionMeaning meaning) (.apply range meaning)
      (function.apply fuel argument)
  cdr : ∀ {world : World} {pair : Value} {meaning carType cdrType : Meaning},
    pair.Means world meaning (.sigma carType cdrType) →
    Yields world (.part 1 meaning) (.apply cdrType (.part 0 meaning)) (pair.cdr fuel)
  indNat : ∀ {world : World} {target motive base step : Value} {number family start next : Meaning},
    target.Means world number (.leaf .nat) → motive.Means world family (.motiveType (.leaf .nat)) →
    base.Means world start (.apply family (.leaf .zero)) →
    step.Means world next (.stepType family) →
    Yields world (.ind number family start next) (.apply family number)
      (target.indNat fuel motive base step)
  replace : ∀ {world : World} {target motive base : Value}
    {evidence type left right family start : Meaning},
    target.Means world evidence (.equal type left right) →
    motive.Means world family (.motiveType type) → base.Means world start (.apply family left) →
    Yields world (.replace evidence family start) (.apply family right)
      (target.replace fuel motive base)

namespace SafeEvaluation

theorem zero : SafeEvaluation 0 where
  eval _ _ := trivial
  instantiate _ _ := trivial
  apply _ _ := trivial
  cdr _ := trivial
  indNat _ _ _ _ := trivial
  replace _ _ _ := trivial

variable {fuel : Nat} {world : World}

theorem instantiateType (safe : SafeEvaluation fuel) {closure : Closure} {argument : Value}
    {domain function meaning : Meaning} (denotes : closure.Denotes world domain function .constantUniv)
    (argumentMeans : argument.Means world meaning domain) :
    Yields world (.apply function meaning) (.leaf .univ) (closure.instantiate fuel argument) :=
  (safe.instantiate denotes argumentMeans).exchange
    ⟨.ofType (denotes.element.isOver.apply argumentMeans.element.isOver), .refl _,
      apply_constantUniv world meaning⟩

theorem applyMotive (safe : SafeEvaluation fuel) {motive argument : Value}
    {domain family meaning : Meaning} (motiveMeans : motive.Means world family (.motiveType domain))
    (argumentMeans : argument.Means world meaning domain) :
    Yields world (.apply family meaning) (.leaf .univ) (motive.apply fuel argument) :=
  (safe.apply motiveMeans argumentMeans).exchange
    ⟨.ofType (motiveMeans.element.isOver.apply argumentMeans.element.isOver), .refl _,
      apply_constantUniv world meaning⟩

theorem instantiate_succ (smaller : SafeEvaluation fuel) {closure : Closure} {argument : Value}
    {domain function range meaning : Meaning} (denotes : closure.Denotes world domain function range)
    (argumentMeans : argument.Means world meaning domain) :
    Yields world (.apply function meaning) (.apply range meaning)
      (closure.instantiate (fuel + 1) argument) := by
  obtain @⟨target, sending, scope, env, x, n, body, type, bodyMeaning, bodyType, _, _, _, isElement,
    sends, scopeOver, envMeans, new, bodyMeans, domainAgree, functionAgree, rangeAgree⟩ := denotes
  -- The body has its meaning in the world where the closure was made. That world is sent into this
  -- one, and the variable of the closure goes to the argument.
  have argumentElement := argumentMeans.element
  have sentElement : world.Element meaning fun valuation => type (sending valuation) :=
    argumentElement.exchange argumentElement.isOver (sends.isOver new.isOver) (.refl _) domainAgree.symm
  have realizes : (env.extend x argument).Realizes world (target.extend new)
      (fun valuation => Function.update (sending valuation) n (meaning valuation))
      (scope.bind x n type) := by
    refine ⟨sends.update new sentElement, scopeOver.bind new x, ?_⟩
    rw [Scope.after_update scopeOver new]
    exact .cons (argumentMeans.exchange ⟨sentElement, .refl _, domainAgree.symm⟩) envMeans
  simp only [Closure.instantiate, extend_eq_done, done_bind]
  refine (smaller.eval realizes bodyMeans).exchange ⟨isElement.apply argumentElement, ?_, ?_⟩
  · intro valuation admits
    simp only [Meaning.apply]
    rw [functionAgree valuation admits]
    exact Meaning.family_apply bodyMeans.element.isOver.finitary n (sentElement.member valuation admits)
  · intro valuation admits
    simp only [Meaning.apply]
    rw [rangeAgree valuation admits]
    exact Meaning.family_apply bodyMeans.element.typeOver.finitary n
      (sentElement.member valuation admits)

theorem apply_succ (smaller : SafeEvaluation fuel) {function argument : Value}
    {functionMeaning domain range meaning : Meaning}
    (functionMeans : function.Means world functionMeaning (.pi domain range))
    (argumentMeans : argument.Means world meaning domain) :
    Yields world (.apply functionMeaning meaning) (.apply range meaning)
      (function.apply (fuel + 1) argument) := by
  rcases functionMeans.function_cases with ⟨body, rfl, bodyDenotes⟩ |
    ⟨domainValue, rangeClosure, blocked, rfl, domainMeans, rangeDenotes, blockedMeans⟩
  · exact smaller.instantiate bodyDenotes argumentMeans
  · refine .bind (smaller.instantiateType rangeDenotes argumentMeans) fun type typeMeans => ?_
    have neutral : Neutral.Means world (.app blocked (.mk domainValue argument))
        (.apply functionMeaning meaning) (.apply range meaning) :=
      ⟨.app blockedMeans (.mk domainMeans argumentMeans),
        (functionMeans.element.apply argumentMeans.element).shows⟩
    exact neutral.value typeMeans

theorem cdr_succ (smaller : SafeEvaluation fuel) {pair : Value} {meaning carType cdrType : Meaning}
    (pairMeans : pair.Means world meaning (.sigma carType cdrType)) :
    Yields world (.part 1 meaning) (.apply cdrType (.part 0 meaning)) (pair.cdr (fuel + 1)) := by
  rcases pairMeans.pair_cases with ⟨first, second, rfl, _, secondMeans⟩ |
    ⟨carValue, cdrValue, blocked, rfl, carMeans, cdrDenotes, blockedMeans⟩
  · exact secondMeans
  · have carNeutral : Neutral.Means world (.car blocked) (.part 0 meaning) carType :=
      ⟨.car blockedMeans, pairMeans.element.car.shows⟩
    refine .bind (smaller.instantiateType cdrDenotes (carNeutral.value carMeans)) fun type typeMeans => ?_
    have cdrNeutral : Neutral.Means world (.cdr blocked) (.part 1 meaning)
        (.apply cdrType (.part 0 meaning)) := ⟨.cdr blockedMeans, pairMeans.element.cdr.shows⟩
    exact cdrNeutral.value typeMeans

theorem indNat_succ (smaller : SafeEvaluation fuel) {target motive base step : Value}
    {number family start next : Meaning} (targetMeans : target.Means world number (.leaf .nat))
    (motiveMeans : motive.Means world family (.motiveType (.leaf .nat)))
    (baseMeans : base.Means world start (.apply family (.leaf .zero)))
    (stepMeans : step.Means world next (.stepType family)) :
    Yields world (.ind number family start next) (.apply family number)
      (target.indNat (fuel + 1) motive base step) := by
  have isElement := targetMeans.element.ind motiveMeans.element.isOver baseMeans.element
    stepMeans.element
  rcases targetMeans.number_cases with ⟨rfl, agree⟩ | ⟨predecessor, rfl, predecessorMeans, agree⟩ |
    ⟨blocked, rfl, blockedMeans⟩
  · refine baseMeans.exchange ⟨isElement, fun valuation admits => ?_, (World.Agree.refl _).apply agree⟩
    simp only [Meaning.ind]
    rw [agree valuation admits]
    exact ind_zero (baseMeans.element.member valuation admits)
  · -- The type of the step at the predecessor is a function type that ignores its argument.
    have rangeEq : (Meaning.stepRange family).apply (.part 0 number) =
        .pi (.apply family (.part 0 number))
          fun valuation => lam fun _ => (family valuation).apply (add1 (part 0 (number valuation))) :=
      funext fun valuation => stepRange_apply _ _
    have stepYields := smaller.apply stepMeans predecessorMeans
    rw [rangeEq] at stepYields
    refine .bind stepYields fun stepAtPredecessor stepAtPredecessorMeans => ?_
    refine .bind (smaller.indNat predecessorMeans motiveMeans baseMeans stepMeans)
      fun almost almostMeans => ?_
    refine Yields.exchange (smaller.apply stepAtPredecessorMeans almostMeans)
      ⟨isElement, fun valuation admits => ?_, fun valuation admits => ?_⟩
    · have unfolded := ind_add1 (stepMeans.element.member valuation admits)
        (part 0 (number valuation)) (start valuation)
      have shape : number valuation = add1 (part 0 (number valuation)) := agree valuation admits
      rw [← shape] at unfolded
      exact unfolded
    · have shape : number valuation = add1 (part 0 (number valuation)) := agree valuation admits
      simp only [Meaning.apply]
      rw [apply_lam (.const _), ← shape]
  · refine .bind (smaller.applyMotive motiveMeans targetMeans) fun type typeMeans => ?_
    refine .bind (smaller.applyMotive motiveMeans .zero) fun baseType baseTypeMeans => ?_
    have neutral : Neutral.Means world (.indNat blocked (.mk Value.natMotiveType motive)
        (.mk baseType base) (.mk (Value.natStepType motive) step)) (.ind number family start next)
        (.apply family number) :=
      ⟨.indNat blockedMeans (.mk (Value.Means.nat.motiveType "k") motiveMeans) (.mk baseTypeMeans baseMeans)
        (.mk motiveMeans.natStepType stepMeans), isElement.shows⟩
    exact neutral.value typeMeans

theorem replace_succ (smaller : SafeEvaluation fuel) {target motive base : Value}
    {evidence type left right family start : Meaning}
    (targetMeans : target.Means world evidence (.equal type left right))
    (motiveMeans : motive.Means world family (.motiveType type))
    (baseMeans : base.Means world start (.apply family left)) :
    Yields world (.replace evidence family start) (.apply family right)
      (target.replace (fuel + 1) motive base) := by
  have isElement := targetMeans.element.replace motiveMeans.element.isOver baseMeans.element
  rcases targetMeans.equality_cases with ⟨rfl, sidesAgree, agree⟩ |
    ⟨typeValue, leftValue, rightValue, blocked, rfl, typeMeans, leftMeans, rightMeans, blockedMeans⟩
  · have typesAgree : world.Agree (.apply family right) (.apply family left) :=
      (World.Agree.refl _).apply sidesAgree.symm
    refine baseMeans.exchange ⟨isElement, fun valuation admits => ?_, typesAgree⟩
    simp only [Meaning.replace]
    rw [agree valuation admits]
    refine replace_same ?_
    have baseMember := baseMeans.element.member valuation admits
    rw [← typesAgree valuation admits] at baseMember
    exact baseMember
  · refine .bind (smaller.applyMotive motiveMeans rightMeans) fun resultType resultTypeMeans => ?_
    refine .bind (smaller.applyMotive motiveMeans leftMeans) fun baseType baseTypeMeans => ?_
    have neutral : Neutral.Means world (.replace blocked (.mk (Value.equalMotiveType typeValue) motive)
        (.mk baseType base)) (.replace evidence family start) (.apply family right) :=
      ⟨.replace blockedMeans leftMeans.element rightMeans.element
        (.mk (typeMeans.motiveType "x") motiveMeans) (.mk baseTypeMeans baseMeans), isElement.shows⟩
    exact neutral.value resultTypeMeans

theorem eval_succ (smaller : SafeEvaluation fuel) {target : World} {sending : Valuation → Valuation}
    {scope : Scope} {env : Env} {term : Term} {meaning type : Meaning}
    (realizes : env.Realizes world target sending scope)
    (termMeans : term.Means scope target meaning type) :
    Yields world (fun valuation => meaning (sending valuation))
      (fun valuation => type (sending valuation)) (env.eval (fuel + 1) term) := by
  obtain ⟨denotes, shows⟩ := termMeans
  replace shows := realizes.sends.shows shows
  cases denotes with
  | @var _ _ x bound found unclouded =>
      have foundAfter := scope.innermost?_after sending x
      rw [found, Option.map_some] at foundAfter
      rcases realizes.means.lookup foundAfter unclouded.after with
        ⟨value, lookup, valueMeans⟩ | ⟨lookup, unreliable⟩
      · simp only [Env.eval, lookup]
        exact valueMeans.exchange shows
      · simp only [Env.eval, lookup]
        exact unreliable
  | pi domainMeans new rangeMeans =>
      refine .bind (smaller.eval realizes domainMeans) fun domainValue domainValueMeans => ?_
      exact ⟨.pi domainValueMeans (.intro realizes.sends realizes.scopeOver realizes.means rangeMeans),
        shows⟩
  | lam new bodyMeans =>
      exact ⟨.lam (.intro realizes.sends realizes.scopeOver realizes.means bodyMeans), shows⟩
  | app functionMeans argumentMeans =>
      refine .bind (smaller.eval realizes functionMeans) fun function functionValueMeans => ?_
      refine .bind (smaller.eval realizes argumentMeans) fun argument argumentValueMeans => ?_
      exact Yields.exchange (smaller.apply functionValueMeans argumentValueMeans) shows
  | sigma carMeans new cdrMeans =>
      refine .bind (smaller.eval realizes carMeans) fun carValue carValueMeans => ?_
      exact ⟨.sigma carValueMeans (.intro realizes.sends realizes.scopeOver realizes.means cdrMeans),
        shows⟩
  | cons firstMeans secondMeans =>
      refine .bind (smaller.eval realizes firstMeans) fun first firstValueMeans => ?_
      refine .bind (smaller.eval realizes secondMeans) fun second secondValueMeans => ?_
      exact ⟨.pair firstValueMeans secondValueMeans, shows⟩
  | car pairMeans =>
      refine .bind (smaller.eval realizes pairMeans) fun pair pairValueMeans => ?_
      exact Yields.exchange pairValueMeans.yields_car shows
  | cdr pairMeans =>
      refine .bind (smaller.eval realizes pairMeans) fun pair pairValueMeans => ?_
      exact Yields.exchange (smaller.cdr pairValueMeans) shows
  | nat => exact ⟨.nat, shows⟩
  | zero => exact ⟨.zero, shows⟩
  | add1 predecessorMeans =>
      refine .bind (smaller.eval realizes predecessorMeans) fun predecessor predecessorValueMeans => ?_
      exact ⟨.add1 predecessorValueMeans, shows⟩
  | indNat targetMeans motiveMeans baseMeans stepMeans =>
      refine .bind (smaller.eval realizes targetMeans) fun targetValue targetValueMeans => ?_
      refine .bind (smaller.eval realizes motiveMeans) fun motive motiveValueMeans => ?_
      refine .bind (smaller.eval realizes baseMeans) fun base baseValueMeans => ?_
      refine .bind (smaller.eval realizes stepMeans) fun step stepValueMeans => ?_
      exact Yields.exchange
        (smaller.indNat targetValueMeans motiveValueMeans baseValueMeans stepValueMeans) shows
  | equal typeMeans leftMeans rightMeans =>
      refine .bind (smaller.eval realizes typeMeans) fun typeValue typeValueMeans => ?_
      refine .bind (smaller.eval realizes leftMeans) fun left leftValueMeans => ?_
      refine .bind (smaller.eval realizes rightMeans) fun right rightValueMeans => ?_
      exact ⟨.equal typeValueMeans leftValueMeans rightValueMeans, shows⟩
  | same agree => exact ⟨.same fun _ admits => agree _ (realizes.sends.admits admits), shows⟩
  | replace targetMeans motiveMeans baseMeans =>
      refine .bind (smaller.eval realizes targetMeans) fun targetValue targetValueMeans => ?_
      refine .bind (smaller.eval realizes motiveMeans) fun motive motiveValueMeans => ?_
      refine .bind (smaller.eval realizes baseMeans) fun base baseValueMeans => ?_
      exact Yields.exchange
        (smaller.replace targetValueMeans motiveValueMeans baseValueMeans) shows
  | trivial => exact ⟨.trivial, shows⟩
  | sole => exact ⟨.sole, shows⟩
  | absurd => exact ⟨.absurd, shows⟩
  | indAbsurd targetMeans motiveMeans =>
      refine .bind (smaller.eval realizes targetMeans) fun targetValue targetValueMeans => ?_
      refine .bind (smaller.eval realizes motiveMeans) fun motive motiveValueMeans => ?_
      exact Yields.exchange (targetValueMeans.yields_indAbsurd motiveValueMeans) shows
  | atom => exact ⟨.atom, shows⟩
  | tick => exact ⟨.tick, shows⟩
  | univ => exact ⟨.univ, shows⟩
  | the typeMeans exprMeans =>
      exact (smaller.eval realizes exprMeans).exchange shows

end SafeEvaluation

theorem safeEvaluation (fuel : Nat) : SafeEvaluation fuel := by
  induction fuel with
  | zero => exact .zero
  | succ fuel smaller =>
      exact ⟨smaller.eval_succ, smaller.instantiate_succ, smaller.apply_succ, smaller.cdr_succ,
        smaller.indNat_succ, smaller.replace_succ⟩

end LambdaCalculi.Dependent
