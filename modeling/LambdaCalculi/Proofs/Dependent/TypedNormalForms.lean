import LambdaCalculi.Proofs.Dependent.Fingerprints
import LambdaCalculi.Proofs.Dependent.ReadBackSafety

/-!
# Normal forms are typed terms

What a value is read back to is a term of the calculus again, and it has the meaning and the type of
the value. Its constructors stand where their types are given and its eliminators where types are
found, as bidirectional checking needs them. The binders of a normal form are new names, so a scope
that has each variable of a world under its own name stays one below them. The induction is on the
bound, like the one that reading back is safe.
-/

set_option autoImplicit false

namespace LambdaCalculi.Dependent

open Domain Outcome

/-! ## Terms for bidirectional checking -/

mutual

/-- The type of the term is found, given the types of its variables. -/
inductive Term.Inferable : Term → Prop where
  | var {x : Name} : Inferable (.var x)
  | pi {x : Name} {domain range : Term} (domainForm : domain.Checkable)
      (rangeForm : range.Checkable) : Inferable (.pi x domain range)
  | app {function argument : Term} (functionForm : function.Inferable)
      (argumentForm : argument.Checkable) : Inferable (.app function argument)
  | sigma {x : Name} {carType cdrType : Term} (carForm : carType.Checkable)
      (cdrForm : cdrType.Checkable) : Inferable (.sigma x carType cdrType)
  | car {pair : Term} (pairForm : pair.Inferable) : Inferable (.car pair)
  | cdr {pair : Term} (pairForm : pair.Inferable) : Inferable (.cdr pair)
  | nat : Inferable .nat
  | indNat {target motive base step : Term} (targetForm : target.Inferable)
      (motiveForm : motive.Checkable) (baseForm : base.Checkable) (stepForm : step.Checkable) :
      Inferable (.indNat target motive base step)
  | equal {type left right : Term} (typeForm : type.Checkable) (leftForm : left.Checkable)
      (rightForm : right.Checkable) : Inferable (.equal type left right)
  | replace {target motive base : Term} (targetForm : target.Inferable)
      (motiveForm : motive.Checkable) (baseForm : base.Checkable) :
      Inferable (.replace target motive base)
  | trivial : Inferable .trivial
  | absurd : Inferable .absurd
  | indAbsurd {target motive : Term} (targetForm : target.Inferable)
      (motiveForm : motive.Checkable) : Inferable (.indAbsurd target motive)
  | atom : Inferable .atom
  | univ : Inferable .univ
  | the {type expr : Term} (typeForm : type.Checkable) (exprForm : expr.Checkable) :
      Inferable (.the type expr)

/-- The term can be checked against a type that is given. -/
inductive Term.Checkable : Term → Prop where
  | lam {x : Name} {body : Term} (bodyForm : body.Checkable) : Checkable (.lam x body)
  | cons {first second : Term} (firstForm : first.Checkable) (secondForm : second.Checkable) :
      Checkable (.cons first second)
  | zero : Checkable .zero
  | add1 {predecessor : Term} (predecessorForm : predecessor.Checkable) :
      Checkable (.add1 predecessor)
  | same : Checkable .same
  | sole : Checkable .sole
  | tick {symbol : String} : Checkable (.tick symbol)
  | infer {term : Term} (form : term.Inferable) : Checkable term

end

/-! ## Variables under their own names -/

/-- The scope has every variable of the world under its own name, and has only known names. -/
structure Scope.Spells (known : List Name) (world : World) (scope : Scope) : Prop where
  found : ∀ assumption ∈ world.assumptions, scope.innermost? assumption.name =
    some ⟨assumption.name, fun valuation => valuation assumption.name, assumption.type⟩
  named : ∀ bound ∈ scope, bound.name ∈ known

theorem Scope.Spells.bind {known : List Name} {world : World} {scope : Scope} {x : Name}
    {type : Meaning} (spells : scope.Spells known world) (new : world.New x type) (mem : x ∈ known) :
    (scope.bind x x type).Spells known (world.extend new) := by
  refine ⟨fun assumption inside => ?_, List.forall_mem_cons.mpr ⟨mem, spells.named⟩⟩
  rw [Scope.bind, Scope.innermost?]
  rcases List.mem_cons.mp inside with rfl | older
  · rw [if_pos rfl]
  · have different : x ≠ assumption.name :=
      fun same => new.fresh (same ▸ List.mem_map.mpr ⟨assumption, older, rfl⟩)
    rw [if_neg different, spells.found assumption older]

/-- A function is given by what it does to a new variable of its domain. -/
theorem World.Element.agree_family {world : World} {x : Name} {function domain range : Meaning}
    (isElement : world.Element function (.pi domain range)) (new : world.New x domain) :
    world.Agree function (.family x domain (.apply function fun valuation => valuation x)) := by
  intro valuation admits
  have isMember := isElement.member valuation admits
  conv_lhs => rw [← isMember, fit_pi]
  rw [Meaning.family]
  refine lam_congr fun argument => ?_
  simp only [Meaning.apply, Function.update_self, isElement.isOver.update_eq new.fresh]
  exact isMember.apply (member_fit (domain valuation) argument)

variable [Lookups]

/-- The term is of the given form, and where the variables of the world have their own names and its
names are known, it has the meaning and the type. -/
structure Regains (form : Term → Prop) (known : List Name) (world : World) (meaning type : Meaning)
    (term : Term) : Prop where
  hasForm : form term
  means : ∀ {scope : Scope}, scope.Spells known world → term.names ⊆ known →
    term.Means scope world meaning type

section Regaining

variable {known : List Name} {world : World} {meaning type : Meaning}

theorem Regains.check {term : Term} (regains : Regains Term.Inferable known world meaning type term) :
    Regains Term.Checkable known world meaning type term :=
  ⟨.infer regains.hasForm, regains.means⟩

theorem Regains.exchange {form : Term → Prop} {term : Term} {shown shownType : Meaning}
    (regains : Regains form known world shown shownType term)
    (shows : world.Shows meaning type shown shownType) :
    Regains form known world meaning type term :=
  ⟨regains.hasForm, fun spells included => (regains.means spells included).exchange shows⟩

theorem Regains.lam {x : Name} {domain range : Meaning} {new : world.New x domain} {body : Term}
    (isElement : world.Element meaning (.pi domain range))
    (rangeElement : world.Element range (.motiveType domain))
    (bodyRegains : Regains Term.Checkable known (world.extend new)
      (.apply meaning fun valuation => valuation x) (.apply range fun valuation => valuation x) body) :
    Regains Term.Checkable known world meaning (.pi domain range) (.lam x body) := by
  refine ⟨.lam bodyRegains.hasForm, fun spells included => ?_⟩
  obtain ⟨mem, bodyIncluded⟩ := List.cons_subset.mp included
  have bodyMeans := bodyRegains.means (spells.bind new mem) bodyIncluded
  refine ⟨.lam new bodyMeans, isElement, isElement.agree_family new, fun valuation admits => ?_⟩
  have rangeAgree := Meaning.agree_family new rangeElement (.refl _) (.refl _)
  simp only [Meaning.pi, rangeAgree valuation admits]

theorem Regains.cons {carType cdrType : Meaning} {first second : Term}
    (isElement : world.Element meaning (.sigma carType cdrType))
    (firstRegains : Regains Term.Checkable known world (.part 0 meaning) carType first)
    (secondRegains : Regains Term.Checkable known world (.part 1 meaning)
      (.apply cdrType (.part 0 meaning)) second) :
    Regains Term.Checkable known world meaning (.sigma carType cdrType) (.cons first second) := by
  refine ⟨.cons firstRegains.hasForm secondRegains.hasForm, fun spells included => ?_⟩
  obtain ⟨firstIncluded, secondIncluded⟩ := List.append_subset.mp included
  exact ⟨.cons (firstRegains.means spells firstIncluded) (secondRegains.means spells secondIncluded),
    isElement, fun valuation admits => (isElement.member valuation admits).eq_pair, .refl _⟩

theorem Regains.pi {x : Name} {domain range : Meaning} {new : world.New x domain}
    {domainTerm rangeTerm : Term} (rangeElement : world.Element range (.motiveType domain))
    (domainRegains : Regains Term.Inferable known world domain (.leaf .univ) domainTerm)
    (rangeRegains : Regains Term.Inferable known (world.extend new)
      (.apply range fun valuation => valuation x) (.leaf .univ) rangeTerm) :
    Regains Term.Inferable known world (.pi domain range) (.leaf .univ) (.pi x domainTerm rangeTerm) := by
  refine ⟨.pi (.infer domainRegains.hasForm) (.infer rangeRegains.hasForm), fun spells included => ?_⟩
  obtain ⟨mem, partsIncluded⟩ := List.cons_subset.mp included
  obtain ⟨domainIncluded, rangeIncluded⟩ := List.append_subset.mp partsIncluded
  have domainMeans := domainRegains.means spells domainIncluded
  have rangeMeans := rangeRegains.means (spells.bind new mem) rangeIncluded
  refine ⟨.pi domainMeans new rangeMeans, .ofType (new.isOver.pi rangeElement.isOver),
    fun valuation admits => ?_, .refl _⟩
  have rangeAgree := Meaning.agree_family new rangeElement (.refl _) (.refl _)
  simp only [Meaning.pi, rangeAgree valuation admits]

theorem Regains.sigma {x : Name} {carType cdrType : Meaning} {new : world.New x carType}
    {carTerm cdrTerm : Term} (cdrElement : world.Element cdrType (.motiveType carType))
    (carRegains : Regains Term.Inferable known world carType (.leaf .univ) carTerm)
    (cdrRegains : Regains Term.Inferable known (world.extend new)
      (.apply cdrType fun valuation => valuation x) (.leaf .univ) cdrTerm) :
    Regains Term.Inferable known world (.sigma carType cdrType) (.leaf .univ)
      (.sigma x carTerm cdrTerm) := by
  refine ⟨.sigma (.infer carRegains.hasForm) (.infer cdrRegains.hasForm), fun spells included => ?_⟩
  obtain ⟨mem, partsIncluded⟩ := List.cons_subset.mp included
  obtain ⟨carIncluded, cdrIncluded⟩ := List.append_subset.mp partsIncluded
  have carMeans := carRegains.means spells carIncluded
  have cdrMeans := cdrRegains.means (spells.bind new mem) cdrIncluded
  refine ⟨.sigma carMeans new cdrMeans, .ofType (new.isOver.sigma cdrElement.isOver),
    fun valuation admits => ?_, .refl _⟩
  have cdrAgree := Meaning.agree_family new cdrElement (.refl _) (.refl _)
  simp only [Meaning.sigma, cdrAgree valuation admits]

theorem Regains.sole (isElement : world.Element meaning (.leaf .trivial)) :
    Regains Term.Checkable known world meaning (.leaf .trivial) .sole :=
  ⟨.sole, fun _ _ => ⟨.sole, isElement,
    fun valuation admits => (isElement.member valuation admits).eq_empty_of_trivial, .refl _⟩⟩

theorem Regains.the_absurd {term : Term}
    (regains : Regains Term.Inferable known world meaning (.leaf .absurd) term) :
    Regains Term.Inferable known world meaning (.leaf .absurd) (.the .absurd term) := by
  refine ⟨.the (.infer .absurd) (.infer regains.hasForm), fun spells included => ?_⟩
  have termMeans := regains.means spells included
  exact ⟨.the (Term.Denotes.absurd.asType (.const _)) termMeans, termMeans.element.shows⟩

end Regaining

/-! ## Reading back -/

structure TypedReadBack (known : List Name) (fuel : Nat) : Prop where
  readBack : ∀ {world : World} {ctx : Context} {type value : Value} {typeMeaning meaning : Meaning},
    world.names ⊆ ctx.names → type.Means world typeMeaning (.leaf .univ) →
    value.Means world meaning typeMeaning →
    (ctx.readBack fuel type value : Outcome Stuck Term).Safe Tolerated
      (Regains Term.Checkable known world meaning typeMeaning)
  readBackType : ∀ {world : World} {ctx : Context} {type : Value} {meaning : Meaning},
    world.names ⊆ ctx.names → type.Means world meaning (.leaf .univ) →
    (ctx.readBackType fuel type : Outcome Stuck Term).Safe Tolerated
      (Regains Term.Inferable known world meaning (.leaf .univ))
  readBackNeutral : ∀ {world : World} {ctx : Context} {neutral : Neutral} {meaning type : Meaning},
    world.names ⊆ ctx.names → neutral.Means world meaning type →
    (ctx.readBackNeutral fuel neutral : Outcome Stuck Term).Safe Tolerated
      (Regains Term.Inferable known world meaning type)
  readBackNormal : ∀ {world : World} {ctx : Context} {normal : Normal} {meaning type : Meaning},
    world.names ⊆ ctx.names → normal.Means world meaning type →
    (ctx.readBackNormal fuel normal : Outcome Stuck Term).Safe Tolerated
      (Regains Term.Checkable known world meaning type)

namespace TypedReadBack

theorem zero {known : List Name} : TypedReadBack known 0 where
  readBack _ _ _ := trivial
  readBackType _ _ := trivial
  readBackNeutral _ _ := trivial
  readBackNormal _ _ := trivial

variable {known : List Name} {fuel : Nat} {world : World} {ctx : Context}

theorem regains_neutral (smaller : TypedReadBack known fuel) (named : world.names ⊆ ctx.names)
    {neutral : Neutral} {meaning type : Meaning} (means : neutral.Means world meaning type) :
    (ctx.readBackNeutral fuel neutral : Outcome Stuck Term).Safe Tolerated
      (Regains Term.Checkable known world meaning type) :=
  (smaller.readBackNeutral named means).mono fun _ regains => regains.check

theorem readBack_pi (smaller : TypedReadBack known fuel) (named : world.names ⊆ ctx.names)
    {domain value : Value} {range : Closure} {domainMeaning rangeMeaning meaning : Meaning}
    (domainMeans : domain.Means world domainMeaning (.leaf .univ))
    (rangeDenotes : range.Denotes world domainMeaning rangeMeaning .constantUniv)
    (valueMeans : value.Means world meaning (.pi domainMeaning rangeMeaning)) :
    (ctx.readBack (fuel + 1) (.pi domain range) value : Outcome Stuck Term).Safe Tolerated
      (Regains Term.Checkable known world meaning (.pi domainMeaning rangeMeaning)) := by
  obtain ⟨inner, new, assumed, innerNamed⟩ := SafeReadBack.assume_new named domainMeans range.binder
  have variableMeans := domainMeans.ofVar new
  simp only [Context.readBack, assumed, done_bind]
  refine .bind ((safeEvaluation fuel).instantiateType (rangeDenotes.extend new) variableMeans)
    fun bodyType bodyTypeMeans => ?_
  refine .bind ((safeEvaluation fuel).apply (valueMeans.extend new) variableMeans)
    fun body bodyMeans => ?_
  refine .bind (smaller.readBack innerNamed bodyTypeMeans bodyMeans) fun bodyTerm bodyRegains => ?_
  exact bodyRegains.lam valueMeans.element rangeDenotes.element

theorem readBack_sigma (smaller : TypedReadBack known fuel) (named : world.names ⊆ ctx.names)
    {carType value : Value} {cdrType : Closure} {carMeaning cdrMeaning meaning : Meaning}
    (carMeans : carType.Means world carMeaning (.leaf .univ))
    (cdrDenotes : cdrType.Denotes world carMeaning cdrMeaning .constantUniv)
    (valueMeans : value.Means world meaning (.sigma carMeaning cdrMeaning)) :
    (ctx.readBack (fuel + 1) (.sigma carType cdrType) value : Outcome Stuck Term).Safe Tolerated
      (Regains Term.Checkable known world meaning (.sigma carMeaning cdrMeaning)) := by
  refine .bind valueMeans.yields_car fun first firstMeans => ?_
  refine .bind (smaller.readBack named carMeans firstMeans) fun firstTerm firstRegains => ?_
  refine .bind ((safeEvaluation fuel).instantiateType cdrDenotes firstMeans)
    fun secondType secondTypeMeans => ?_
  refine .bind ((safeEvaluation fuel).cdr valueMeans) fun second secondMeans => ?_
  refine .bind (smaller.readBack named secondTypeMeans secondMeans) fun secondTerm secondRegains => ?_
  exact firstRegains.cons valueMeans.element secondRegains

theorem readBack_nat (smaller : TypedReadBack known fuel) (named : world.names ⊆ ctx.names)
    {value : Value} {meaning : Meaning} (valueMeans : value.Means world meaning (.leaf .nat)) :
    (ctx.readBack (fuel + 1) .nat value : Outcome Stuck Term).Safe Tolerated
      (Regains Term.Checkable known world meaning (.leaf .nat)) := by
  have isElement := valueMeans.element
  rcases valueMeans.number_cases with ⟨rfl, agree⟩ | ⟨predecessor, rfl, predecessorMeans, agree⟩ |
    ⟨blocked, rfl, blockedMeans⟩
  · exact ⟨.zero, fun _ _ => ⟨.zero, isElement, agree, .refl _⟩⟩
  · refine .bind (smaller.readBack named .nat predecessorMeans)
      fun predecessorTerm predecessorRegains => ?_
    exact ⟨.add1 predecessorRegains.hasForm, fun spells included =>
      ⟨.add1 (predecessorRegains.means spells included), isElement, agree, .refl _⟩⟩
  · exact smaller.regains_neutral named blockedMeans

theorem readBack_equal (smaller : TypedReadBack known fuel) (named : world.names ⊆ ctx.names)
    {type left right value : Value} {typeMeaning leftMeaning rightMeaning meaning : Meaning}
    (valueMeans : value.Means world meaning (.equal typeMeaning leftMeaning rightMeaning)) :
    (ctx.readBack (fuel + 1) (.equal type left right) value : Outcome Stuck Term).Safe Tolerated
      (Regains Term.Checkable known world meaning (.equal typeMeaning leftMeaning rightMeaning)) := by
  have isElement := valueMeans.element
  rcases valueMeans.equality_cases with ⟨rfl, sidesAgree, agree⟩ |
    ⟨_, _, _, blocked, rfl, _, _, _, blockedMeans⟩
  · exact ⟨.same, fun _ _ => ⟨.same sidesAgree, isElement, agree, .refl _⟩⟩
  · exact smaller.regains_neutral named blockedMeans

theorem readBack_atom (smaller : TypedReadBack known fuel) (named : world.names ⊆ ctx.names)
    {value : Value} {meaning : Meaning} (valueMeans : value.Means world meaning (.leaf .atom)) :
    (ctx.readBack (fuel + 1) .atom value : Outcome Stuck Term).Safe Tolerated
      (Regains Term.Checkable known world meaning (.leaf .atom)) := by
  have isElement := valueMeans.element
  rcases valueMeans.atom_cases with ⟨symbol, rfl, agree⟩ | ⟨type, blocked, rfl, blockedMeans⟩
  · exact ⟨.tick, fun _ _ => ⟨.tick, isElement, agree, .refl _⟩⟩
  · exact smaller.regains_neutral named blockedMeans

theorem readBack_absurd (smaller : TypedReadBack known fuel) (named : world.names ⊆ ctx.names)
    {value : Value} {meaning : Meaning} (valueMeans : value.Means world meaning (.leaf .absurd)) :
    (ctx.readBack (fuel + 1) .absurd value : Outcome Stuck Term).Safe Tolerated
      (Regains Term.Checkable known world meaning (.leaf .absurd)) := by
  obtain ⟨blocked, rfl, blockedMeans⟩ := valueMeans.exists_neutral_absurd
  exact .bind (smaller.readBackNeutral named blockedMeans) fun _ regains => regains.the_absurd.check

theorem readBack_succ (smaller : TypedReadBack known fuel) (named : world.names ⊆ ctx.names)
    {type value : Value} {typeMeaning meaning : Meaning}
    (typeMeans : type.Means world typeMeaning (.leaf .univ))
    (valueMeans : value.Means world meaning typeMeaning) :
    (ctx.readBack (fuel + 1) type value : Outcome Stuck Term).Safe Tolerated
      (Regains Term.Checkable known world meaning typeMeaning) := by
  have sort := typeMeans.sort_of_type
  obtain ⟨denotes, shows⟩ := typeMeans
  -- The rule for the type gives a meaning that agrees with the given one.
  have retyped : ∀ {shown : Meaning}, world.Agree typeMeaning shown → ∀ term,
      Regains Term.Checkable known world meaning shown term →
      Regains Term.Checkable known world meaning typeMeaning term :=
    fun agree _ regains => regains.exchange ⟨valueMeans.element, .refl _, agree⟩
  cases denotes with
  | pi domainMeans rangeDenotes =>
      have isOver := domainMeans.element.isOver.pi rangeDenotes.element.isOver
      exact (smaller.readBack_pi named domainMeans rangeDenotes
        (valueMeans.retype isOver shows.agree.symm)).mono (retyped shows.agree)
  | sigma carMeans cdrDenotes =>
      have isOver := carMeans.element.isOver.sigma cdrDenotes.element.isOver
      exact (smaller.readBack_sigma named carMeans cdrDenotes
        (valueMeans.retype isOver shows.agree.symm)).mono (retyped shows.agree)
  | nat =>
      exact (smaller.readBack_nat named (valueMeans.retype (.const _) shows.agree.symm)).mono
        (retyped shows.agree)
  | equal innerMeans leftMeans rightMeans =>
      have isOver := innerMeans.element.isOver.equal leftMeans.element.isOver rightMeans.element.isOver
      exact (smaller.readBack_equal named (valueMeans.retype isOver shows.agree.symm)).mono
        (retyped shows.agree)
  | trivial =>
      exact retyped shows.agree _
        (.sole (valueMeans.retype (.const _) shows.agree.symm).element)
  | absurd =>
      exact (smaller.readBack_absurd named (valueMeans.retype (.const _) shows.agree.symm)).mono
        (retyped shows.agree)
  | atom =>
      exact (smaller.readBack_atom named (valueMeans.retype (.const _) shows.agree.symm)).mono
        (retyped shows.agree)
  | univ =>
      exact (smaller.readBackType named (valueMeans.retype (.const _) shows.agree.symm)).mono
        fun term regains => retyped shows.agree term regains.check
  | neutral innerMeans blockedMeans =>
      -- A blocked type shows no other constructor at the generic valuation, so its elements are
      -- blocked too.
      obtain ⟨spine, isBlocked⟩ := (blockedMeans.exchange shows).blocked
      rw [fit_univ] at isBlocked
      have shown : Token.tag .blocked ∈ typeMeaning world.generic := by
        rw [isBlocked, tag_mem_blocked]
      obtain ⟨valueType, valueBlocked, rfl⟩ := valueMeans.exists_neutral shown
      exact smaller.regains_neutral named valueMeans.neutral_parts.2
  | lam | pair | zero | add1 | same | sole | tick => rcases sort with sort | sort <;> cases sort

/-- Under a new variable of the first component of a type, the second is read back. -/
theorem readBackType_family (smaller : TypedReadBack known fuel) (named : world.names ⊆ ctx.names)
    {domain : Value} {range : Closure} {domainMeaning rangeMeaning : Meaning}
    (domainMeans : domain.Means world domainMeaning (.leaf .univ))
    (rangeDenotes : range.Denotes world domainMeaning rangeMeaning .constantUniv)
    {next : Name → Term → Term → Term} {meaning : Meaning}
    (made : ∀ {x : Name} {domainTerm rangeTerm : Term} (new : world.New x domainMeaning),
      Regains Term.Inferable known world domainMeaning (.leaf .univ) domainTerm →
      Regains Term.Inferable known (world.extend new)
        (.apply rangeMeaning fun valuation => valuation x) (.leaf .univ) rangeTerm →
      Regains Term.Inferable known world meaning (.leaf .univ) (next x domainTerm rangeTerm)) :
    (do
      let x := ctx.freshFor range.binder
      let rangeAtX ← range.instantiate fuel (.ofVar domain x)
      let domainTerm ← ctx.readBackType fuel domain
      let inner ← ctx.assume x domain
      let rangeTerm ← inner.readBackType fuel rangeAtX
      return next x domainTerm rangeTerm : Outcome Stuck Term).Safe Tolerated
        (Regains Term.Inferable known world meaning (.leaf .univ)) := by
  obtain ⟨inner, new, assumed, innerNamed⟩ := SafeReadBack.assume_new named domainMeans range.binder
  have variableMeans := domainMeans.ofVar new
  simp only [assumed, done_bind]
  refine .bind ((safeEvaluation fuel).instantiateType (rangeDenotes.extend new) variableMeans)
    fun rangeAtX rangeMeans => ?_
  refine .bind (smaller.readBackType named domainMeans) fun domainTerm domainRegains => ?_
  refine .bind (smaller.readBackType innerNamed rangeMeans) fun rangeTerm rangeRegains => ?_
  exact made new domainRegains rangeRegains

theorem readBackType_succ (smaller : TypedReadBack known fuel) (named : world.names ⊆ ctx.names)
    {type : Value} {meaning : Meaning} (typeMeans : type.Means world meaning (.leaf .univ)) :
    (ctx.readBackType (fuel + 1) type : Outcome Stuck Term).Safe Tolerated
      (Regains Term.Inferable known world meaning (.leaf .univ)) := by
  have sort := typeMeans.sort_of_type
  obtain ⟨denotes, shows⟩ := typeMeans
  cases denotes with
  | pi domainMeans rangeDenotes =>
      exact smaller.readBackType_family named domainMeans rangeDenotes fun _ domainRegains rangeRegains =>
        (Regains.pi rangeDenotes.element domainRegains rangeRegains).exchange shows
  | sigma carMeans cdrDenotes =>
      exact smaller.readBackType_family named carMeans cdrDenotes fun _ carRegains cdrRegains =>
        (Regains.sigma cdrDenotes.element carRegains cdrRegains).exchange shows
  | equal innerMeans leftMeans rightMeans =>
      refine .bind (smaller.readBackType named innerMeans) fun typeTerm typeRegains => ?_
      refine .bind (smaller.readBack named innerMeans leftMeans) fun leftTerm leftRegains => ?_
      refine .bind (smaller.readBack named innerMeans rightMeans) fun rightTerm rightRegains => ?_
      refine ⟨.equal (.infer typeRegains.hasForm) leftRegains.hasForm rightRegains.hasForm,
        fun spells included => ?_⟩
      obtain ⟨restIncluded, rightIncluded⟩ := List.append_subset.mp included
      obtain ⟨typeIncluded, leftIncluded⟩ := List.append_subset.mp restIncluded
      exact ⟨.equal (typeRegains.means spells typeIncluded) (leftRegains.means spells leftIncluded)
        (rightRegains.means spells rightIncluded), shows⟩
  | neutral innerMeans blockedMeans =>
      exact smaller.readBackNeutral named (blockedMeans.exchange shows)
  | lam | pair | zero | add1 | same | sole | tick => rcases sort with sort | sort <;> cases sort
  | nat => exact ⟨.nat, fun _ _ => ⟨.nat, shows⟩⟩
  | trivial => exact ⟨.trivial, fun _ _ => ⟨.trivial, shows⟩⟩
  | absurd => exact ⟨.absurd, fun _ _ => ⟨.absurd, shows⟩⟩
  | atom => exact ⟨.atom, fun _ _ => ⟨.atom, shows⟩⟩
  | univ => exact ⟨.univ, fun _ _ => ⟨.univ, shows⟩⟩

theorem readBackNormal_succ (smaller : TypedReadBack known fuel) (named : world.names ⊆ ctx.names)
    {normal : Normal} {meaning type : Meaning} (means : normal.Means world meaning type) :
    (ctx.readBackNormal (fuel + 1) normal : Outcome Stuck Term).Safe Tolerated
      (Regains Term.Checkable known world meaning type) := by
  obtain ⟨typeMeans, valueMeans⟩ := means
  exact smaller.readBack named typeMeans valueMeans

theorem readBackNeutral_succ (clear : DistinctFingerprints known)
    (smaller : TypedReadBack known fuel) (named : world.names ⊆ ctx.names)
    {neutral : Neutral} {meaning type : Meaning} (means : neutral.Means world meaning type) :
    (ctx.readBackNeutral (fuel + 1) neutral : Outcome Stuck Term).Safe Tolerated
      (Regains Term.Inferable known world meaning type) := by
  obtain ⟨denotes, shows⟩ := means
  cases denotes with
  | @var x type mem =>
      refine ⟨.var, fun {scope} spells included => ⟨.var (spells.found _ mem) ?_, shows⟩⟩
      exact fun _ other inside => clear other.name (spells.named other inside) x
        (included List.mem_cons_self)
  | app functionMeans argumentMeans =>
      refine .bind (smaller.readBackNeutral named functionMeans) fun function functionRegains => ?_
      refine .bind (smaller.readBackNormal named argumentMeans) fun argument argumentRegains => ?_
      refine ⟨.app functionRegains.hasForm argumentRegains.hasForm, fun spells included => ?_⟩
      obtain ⟨functionIncluded, argumentIncluded⟩ := List.append_subset.mp included
      exact ⟨.app (functionRegains.means spells functionIncluded)
        (argumentRegains.means spells argumentIncluded), shows⟩
  | car pairMeans =>
      refine .bind (smaller.readBackNeutral named pairMeans) fun pair pairRegains => ?_
      exact ⟨.car pairRegains.hasForm,
        fun spells included => ⟨.car (pairRegains.means spells included), shows⟩⟩
  | cdr pairMeans =>
      refine .bind (smaller.readBackNeutral named pairMeans) fun pair pairRegains => ?_
      exact ⟨.cdr pairRegains.hasForm,
        fun spells included => ⟨.cdr (pairRegains.means spells included), shows⟩⟩
  | indNat targetMeans motiveMeans baseMeans stepMeans =>
      refine .bind (smaller.readBackNeutral named targetMeans) fun target targetRegains => ?_
      refine .bind (smaller.readBackNormal named motiveMeans) fun motive motiveRegains => ?_
      refine .bind (smaller.readBackNormal named baseMeans) fun base baseRegains => ?_
      refine .bind (smaller.readBackNormal named stepMeans) fun step stepRegains => ?_
      refine ⟨.indNat targetRegains.hasForm motiveRegains.hasForm baseRegains.hasForm
        stepRegains.hasForm, fun spells included => ?_⟩
      obtain ⟨restIncluded, stepIncluded⟩ := List.append_subset.mp included
      obtain ⟨scrutinyIncluded, baseIncluded⟩ := List.append_subset.mp restIncluded
      obtain ⟨targetIncluded, motiveIncluded⟩ := List.append_subset.mp scrutinyIncluded
      exact ⟨.indNat (targetRegains.means spells targetIncluded)
        (motiveRegains.means spells motiveIncluded) (baseRegains.means spells baseIncluded)
        (stepRegains.means spells stepIncluded), shows⟩
  | replace targetMeans _ _ motiveMeans baseMeans =>
      refine .bind (smaller.readBackNeutral named targetMeans) fun target targetRegains => ?_
      refine .bind (smaller.readBackNormal named motiveMeans) fun motive motiveRegains => ?_
      refine .bind (smaller.readBackNormal named baseMeans) fun base baseRegains => ?_
      refine ⟨.replace targetRegains.hasForm motiveRegains.hasForm baseRegains.hasForm,
        fun spells included => ?_⟩
      obtain ⟨scrutinyIncluded, baseIncluded⟩ := List.append_subset.mp included
      obtain ⟨targetIncluded, motiveIncluded⟩ := List.append_subset.mp scrutinyIncluded
      exact ⟨.replace (targetRegains.means spells targetIncluded)
        (motiveRegains.means spells motiveIncluded) (baseRegains.means spells baseIncluded), shows⟩
  | indAbsurd targetMeans motiveMeans =>
      refine .bind (smaller.readBackNeutral named targetMeans) fun target targetRegains => ?_
      refine .bind (smaller.readBackNormal named motiveMeans) fun motive motiveRegains => ?_
      replace targetRegains := targetRegains.the_absurd
      refine ⟨.indAbsurd targetRegains.hasForm motiveRegains.hasForm, fun spells included => ?_⟩
      obtain ⟨targetIncluded, motiveIncluded⟩ := List.append_subset.mp included
      exact ⟨.indAbsurd (targetRegains.means spells targetIncluded)
        (motiveRegains.means spells motiveIncluded), shows⟩

end TypedReadBack

theorem typedReadBack {known : List Name} (clear : DistinctFingerprints known) (fuel : Nat) :
    TypedReadBack known fuel := by
  induction fuel with
  | zero => exact .zero
  | succ fuel smaller =>
      exact ⟨fun named => smaller.readBack_succ named, fun named => smaller.readBackType_succ named,
        fun named => smaller.readBackNeutral_succ clear named,
        fun named => smaller.readBackNormal_succ named⟩

end LambdaCalculi.Dependent
