import LambdaCalculi.Dependent.ReadBack
import LambdaCalculi.Proofs.Dependent.Contexts
import LambdaCalculi.Proofs.Dependent.Denotation
import LambdaCalculi.Proofs.Dependent.EvaluationSafety
import LambdaCalculi.Proofs.Dependent.NormalForms

/-!
# Reading back is never stuck and keeps the meaning

A value of a type is read back without a fault, and the normal form, made to fit into the type,
denotes the meaning of the value. Types and neutral values denote their meaning as they are. At the
generic valuation, the term is the normal form of what the value means. The induction is on the
bound. A new variable is fresh for the context, hence for the world, and the body read back under it
is compared with the value applied to every member of the domain.
-/

set_option autoImplicit false

namespace LambdaCalculi.Dependent

open Domain Outcome

/-! ## What a normal form denotes -/

namespace Domain

theorem fit_motive_apply (domain motive argument : Domain) :
    (fit (pi domain (lam fun _ => leaf .univ)) motive).apply argument =
      motive.apply (fit domain argument) := by
  rw [apply_fit_pi, apply_lam (.const _), fit_univ]

theorem stepRange_congr {motive motive' : Domain}
    (alike : ∀ argument, motive.apply argument = motive'.apply argument) :
    stepRange motive = stepRange motive' := by
  simp only [stepRange, alike]

end Domain

/-- The term, made to fit into the type, denotes the meaning, and it is a normal form of it. -/
structure Reads (world : World) (type meaning : Meaning) (term : Term) : Prop where
  denotes : ∀ valuation, world.Admits valuation →
    fit (type valuation) (term.denote valuation) = meaning valuation
  normal : NormalAt world.vars (type world.generic) (meaning world.generic) term

structure ReadsType (world : World) (meaning : Meaning) (term : Term) : Prop where
  agree : world.Agree term.denote meaning
  normal : TypeAt world.vars (meaning world.generic) term

/-- The term denotes the meaning, and it is the computation that is blocked. -/
structure ReadsNeutral (world : World) (type meaning : Meaning) (term : Term) : Prop where
  agree : world.Agree term.denote meaning
  normal : ∃ spine, NeutralAt world.vars spine (type world.generic) term ∧
    meaning world.generic = fit (type world.generic) (blocked spine)

section Normal

variable {world : World} {meaning type : Meaning}

theorem Reads.exchange {shownType : Meaning} {term : Term} (reads : Reads world shownType meaning term)
    (typeAgree : world.Agree type shownType) : Reads world type meaning term := by
  refine ⟨fun valuation admits => ?_, ?_⟩
  · rw [typeAgree valuation admits]
    exact reads.denotes valuation admits
  · rw [typeAgree _ world.admits_generic]
    exact reads.normal

theorem Reads.ofAgree {term : Term} (isElement : world.Element meaning type)
    (agree : world.Agree term.denote meaning)
    (normal : NormalAt world.vars (type world.generic) (meaning world.generic) term) :
    Reads world type meaning term := by
  refine ⟨fun valuation admits => ?_, normal⟩
  rw [agree valuation admits]
  exact isElement.member valuation admits

theorem ReadsType.exchange {shown : Meaning} {term : Term} (reads : ReadsType world shown term)
    (agree : world.Agree meaning shown) : ReadsType world meaning term := by
  refine ⟨reads.agree.trans agree.symm, ?_⟩
  rw [agree _ world.admits_generic]
  exact reads.normal

theorem Reads.lam {x : Name} {domain range : Meaning} {new : world.New x domain} {body : Term}
    (isElement : world.Element meaning (.pi domain range))
    (reads : Reads (world.extend new) (.apply range fun valuation => valuation x)
      (.apply meaning fun valuation => valuation x) body) :
    Reads world (.pi domain range) meaning (.lam x body) := by
  have rangeOver := isElement.typeOver.node_second
  refine ⟨fun valuation admits => ?_, ?_⟩
  · -- Members of a function type are equal when they agree on the members of the domain.
    refine (member_fit _ _).ext (isElement.member valuation admits) fun argument argumentMember => ?_
    have bodyFinitary := Meaning.finitaryMap_update body.finitary_denote x valuation
    have inside := reads.denotes _ (admits.extend new argumentMember)
    simp only [Meaning.apply, Function.update_self, rangeOver.update_eq new.fresh,
      isElement.isOver.update_eq new.fresh] at inside
    rw [apply_fit_pi, argumentMember, Term.denote, apply_lam bodyFinitary]
    exact inside
  · have fresh : x ∉ world.vars.names := world.names_vars ▸ new.fresh
    have bodyNormal := reads.normal
    simp only [Meaning.apply, World.vars_extend, World.generic_extend, Function.update_self,
      rangeOver.update_eq new.fresh, isElement.isOver.update_eq new.fresh] at bodyNormal
    exact .ofFunction fresh bodyNormal

theorem Reads.cons {carType cdrType : Meaning} {first second : Term}
    (isElement : world.Element meaning (.sigma carType cdrType))
    (firstReads : Reads world carType (.part 0 meaning) first)
    (secondReads : Reads world (.apply cdrType (.part 0 meaning)) (.part 1 meaning) second) :
    Reads world (.sigma carType cdrType) meaning (.cons first second) := by
  refine ⟨fun valuation admits => ?_, .ofPair firstReads.normal secondReads.normal⟩
  have firstEq := firstReads.denotes valuation admits
  have secondEq := secondReads.denotes valuation admits
  simp only [Meaning.part, Meaning.apply] at firstEq secondEq
  rw [(isElement.member valuation admits).eq_pair, fit_sigma]
  simp only [Term.denote, Meaning.pair, pair, part_zero_node, part_one_node, firstEq, secondEq]

end Normal

theorem Meaning.agree_family {world : World} {x : Name} {domain range domain' range' : Meaning}
    (new : world.New x domain) (isElement : world.Element range (.motiveType domain))
    (domainAgree : world.Agree domain' domain)
    (rangeAgree : (world.extend new).Agree range' (.apply range fun valuation => valuation x)) :
    world.Agree (.family x domain' range') range := by
  intro valuation admits
  rw [← isElement.member valuation admits, fit_pi, Meaning.family]
  refine lam_congr fun argument => ?_
  have inside := rangeAgree _ (admits.extend new (member_fit (domain valuation) argument))
  simp only [Meaning.apply, Function.update_self, isElement.isOver.update_eq new.fresh] at inside
  rw [domainAgree valuation admits, inside, apply_lam (.const _), fit_univ]

section Blocked

variable {world : World}

theorem ReadsNeutral.app {functionMeaning argumentMeaning domain range : Meaning} {function argument : Term}
    (isElement : world.Element functionMeaning (.pi domain range))
    (argumentElement : world.Element argumentMeaning domain)
    (functionReads : ReadsNeutral world (.pi domain range) functionMeaning function)
    (argumentReads : Reads world domain argumentMeaning argument) :
    ReadsNeutral world (.apply range argumentMeaning) (.apply functionMeaning argumentMeaning)
      (.app function argument) := by
  refine ⟨fun valuation admits => ?_, ?_⟩
  · have argumentEq := argumentReads.denotes valuation admits
    simp only [Term.denote, Meaning.apply, functionReads.agree valuation admits]
    rw [← (isElement.member valuation admits).apply_fit, argumentEq]
  · obtain ⟨spine, functionNormal, function⟩ := functionReads.normal
    refine ⟨_, .ofApp functionNormal argumentReads.normal, ?_⟩
    simp only [Meaning.apply, function]
    exact apply_fit_blocked spine (argumentElement.member _ world.admits_generic)

theorem ReadsNeutral.car {meaning carType cdrType : Meaning} {pair : Term}
    (pairReads : ReadsNeutral world (.sigma carType cdrType) meaning pair) :
    ReadsNeutral world carType (.part 0 meaning) (.car pair) := by
  refine ⟨pairReads.agree.map (part 0), ?_⟩
  obtain ⟨spine, pairNormal, pairEq⟩ := pairReads.normal
  refine ⟨_, .ofCar pairNormal, ?_⟩
  simp only [Meaning.part, pairEq]
  exact part_zero_fit_blocked spine _ _

theorem ReadsNeutral.cdr {meaning carType cdrType : Meaning} {pair : Term}
    (pairReads : ReadsNeutral world (.sigma carType cdrType) meaning pair) :
    ReadsNeutral world (.apply cdrType (.part 0 meaning)) (.part 1 meaning) (.cdr pair) := by
  refine ⟨pairReads.agree.map (part 1), ?_⟩
  obtain ⟨spine, pairNormal, pairEq⟩ := pairReads.normal
  simp only [Meaning.part, Meaning.apply, pairEq, part_zero_fit_blocked, part_one_fit_blocked]
  exact ⟨_, .ofCdr pairNormal, rfl⟩

theorem ReadsNeutral.indNat {number family start next : Meaning} {target motive base step : Term}
    (familyElement : world.Element family (.motiveType (.leaf .nat)))
    (targetReads : ReadsNeutral world (.leaf .nat) number target)
    (motiveReads : Reads world (.motiveType (.leaf .nat)) family motive)
    (baseReads : Reads world (.apply family (.leaf .zero)) start base)
    (stepReads : Reads world (.stepType family) next step) :
    ReadsNeutral world (.apply family number) (.ind number family start next)
      (.indNat target motive base step) := by
  refine ⟨fun valuation admits => ?_, ?_⟩
  · -- Only applications of the motive matter, and there the normal form is as good as the value.
    have alike : ∀ argument,
        (motive.denote valuation).apply argument = (family valuation).apply argument := by
      intro argument
      rw [← motiveReads.denotes valuation admits, fit_motive_apply, fit_nat]
    have baseEq := baseReads.denotes valuation admits
    have stepEq := stepReads.denotes valuation admits
    simp only [Meaning.apply] at baseEq
    simp only [Term.denote, Meaning.ind, targetReads.agree valuation admits, alike, Domain.stepType,
      stepRange_congr alike, baseEq, stepEq]
    exact ind_congr alike (number valuation)
  · obtain ⟨spine, targetNormal, target⟩ := targetReads.normal
    have isFamily := familyElement.member _ world.admits_generic
    simp only [Meaning.ind, Meaning.apply, target, fit_nat, ind_blocked]
    exact ⟨_, .ofIndNat isFamily targetNormal motiveReads.normal baseReads.normal stepReads.normal, rfl⟩

theorem ReadsNeutral.replace {evidence type left right family start : Meaning}
    {target motive base : Term} (isElement : world.Element evidence (.equal type left right))
    (leftElement : world.Element left type) (rightElement : world.Element right type)
    (familyElement : world.Element family (.motiveType type))
    (targetReads : ReadsNeutral world (.equal type left right) evidence target)
    (motiveReads : Reads world (.motiveType type) family motive)
    (baseReads : Reads world (.apply family left) start base) :
    ReadsNeutral world (.apply family right) (.replace evidence family start)
      (.replace target motive base) := by
  refine ⟨fun valuation admits => ?_, ?_⟩
  · have alike : ∀ argument, Member (type valuation) argument →
        (motive.denote valuation).apply argument = (family valuation).apply argument := by
      intro argument argumentMember
      rw [← motiveReads.denotes valuation admits, fit_motive_apply, argumentMember]
    have leftAlike := alike _ (leftElement.member valuation admits)
    have baseEq := baseReads.denotes valuation admits
    simp only [Meaning.apply] at baseEq
    simp only [Term.denote, Meaning.replace, targetReads.agree valuation admits]
    rw [(isElement.member valuation admits).eq_proof, leftSide_proof, leftAlike, baseEq]
    exact replace_congr alike (rightElement.member valuation admits) _
  · obtain ⟨spine, targetNormal, target⟩ := targetReads.normal
    have isFamily := familyElement.member _ world.admits_generic
    simp only [Meaning.replace, Meaning.apply, target, replace_fit_blocked]
    exact ⟨_, .ofReplace isFamily targetNormal motiveReads.normal baseReads.normal, rfl⟩

theorem ReadsNeutral.indAbsurd {type : Meaning} {target motive : Term}
    (motiveReads : Reads world (.leaf .univ) type motive) :
    ReadsNeutral world type type.indAbsurd (.indAbsurd (.the .absurd target) motive) := by
  refine ⟨fun valuation admits => ?_, ?_⟩
  · have motiveEq := motiveReads.denotes valuation admits
    simp only [Meaning.leaf, fit_univ] at motiveEq
    simp only [Term.denote, Meaning.indAbsurd, motiveEq]
  · exact ⟨_, .ofIndAbsurd motiveReads.normal.ofUniv, rfl⟩

theorem ReadsNeutral.exchange {meaning type shown shownType : Meaning} {term : Term}
    (reads : ReadsNeutral world shownType shown term)
    (shows : world.Shows meaning type shown shownType) : ReadsNeutral world type meaning term := by
  refine ⟨reads.agree.trans shows.agree.symm, ?_⟩
  rw [shows.agree _ world.admits_generic, shows.typeAgree _ world.admits_generic]
  exact reads.normal

theorem ReadsNeutral.type {meaning : Meaning} {term : Term}
    (reads : ReadsNeutral world (.leaf .univ) meaning term) : ReadsType world meaning term := by
  obtain ⟨spine, normal, isBlocked⟩ := reads.normal
  rw [fit_univ] at isBlocked
  exact ⟨reads.agree, isBlocked ▸ normal.type⟩

end Blocked

/-! ## Reading back -/

variable [Lookups]

structure SafeReadBack (fuel : Nat) : Prop where
  readBack : ∀ {world : World} {ctx : Context} {type value : Value} {typeMeaning meaning : Meaning},
    world.names ⊆ ctx.names → type.Means world typeMeaning (.leaf .univ) →
    value.Means world meaning typeMeaning →
    (ctx.readBack fuel type value : Outcome Stuck Term).Safe Tolerated (Reads world typeMeaning meaning)
  readBackType : ∀ {world : World} {ctx : Context} {type : Value} {meaning : Meaning},
    world.names ⊆ ctx.names → type.Means world meaning (.leaf .univ) →
    (ctx.readBackType fuel type : Outcome Stuck Term).Safe Tolerated (ReadsType world meaning)
  readBackNeutral : ∀ {world : World} {ctx : Context} {neutral : Neutral} {meaning type : Meaning},
    world.names ⊆ ctx.names → neutral.Means world meaning type →
    (ctx.readBackNeutral fuel neutral : Outcome Stuck Term).Safe Tolerated
      (ReadsNeutral world type meaning)
  readBackNormal : ∀ {world : World} {ctx : Context} {normal : Normal} {meaning type : Meaning},
    world.names ⊆ ctx.names → normal.Means world meaning type →
    (ctx.readBackNormal fuel normal : Outcome Stuck Term).Safe Tolerated (Reads world type meaning)

namespace SafeReadBack

theorem zero : SafeReadBack 0 where
  readBack _ _ _ := trivial
  readBackType _ _ := trivial
  readBackNeutral _ _ := trivial
  readBackNormal _ _ := trivial

variable {fuel : Nat} {world : World} {ctx : Context}

theorem newVariable {type : Value} {meaning : Meaning} (named : world.names ⊆ ctx.names)
    (means : type.Means world meaning (.leaf .univ)) (x : Name) :
    world.New (ctx.freshFor x) meaning :=
  ⟨fun mem => ctx.freshFor_not_mem x (named mem), means.element.isOver⟩

/-- Reading back below a binder takes a new variable of the domain. -/
theorem assume_new {type : Value} {meaning : Meaning} (named : world.names ⊆ ctx.names)
    (means : type.Means world meaning (.leaf .univ)) (x : Name) :
    ∃ (inner : Context) (new : world.New (ctx.freshFor x) meaning),
      (ctx.assume (ctx.freshFor x) type : Outcome Stuck Context) = .done inner ∧
      (world.extend new).names ⊆ inner.names := by
  obtain ⟨inner, assumed, entries, _⟩ := ctx.assume_eq_done (ctx.freshFor x) type
  exact ⟨inner, newVariable named means x, assumed,
    List.Subset.trans (List.cons_subset_cons _ named) (Context.names_cons entries)⟩

/-- At types whose blocked elements are left as they are, a neutral value is read back as it is. -/
theorem reads_neutral (smaller : SafeReadBack fuel) (named : world.names ⊆ ctx.names) {type : Value}
    {blocked : Neutral} {meaning typeMeaning : Meaning}
    (means : (Value.neutral type blocked).Means world meaning typeMeaning)
    (normal : ∀ {spine : Domain} {term : Term},
      NeutralAt world.vars spine (typeMeaning world.generic) term →
      NormalAt world.vars (typeMeaning world.generic)
        (fit (typeMeaning world.generic) (Domain.blocked spine)) term) :
    (ctx.readBackNeutral fuel blocked : Outcome Stuck Term).Safe Tolerated
      (Reads world typeMeaning meaning) := by
  refine (smaller.readBackNeutral named means.neutral_parts.2).mono fun term reads => ?_
  obtain ⟨spine, neutralNormal, isBlocked⟩ := reads.normal
  exact .ofAgree means.element reads.agree (isBlocked ▸ normal neutralNormal)

theorem readBack_pi (smaller : SafeReadBack fuel) (named : world.names ⊆ ctx.names)
    {domain value : Value} {range : Closure} {domainMeaning rangeMeaning meaning : Meaning}
    (domainMeans : domain.Means world domainMeaning (.leaf .univ))
    (rangeDenotes : range.Denotes world domainMeaning rangeMeaning .constantUniv)
    (valueMeans : value.Means world meaning (.pi domainMeaning rangeMeaning)) :
    (ctx.readBack (fuel + 1) (.pi domain range) value : Outcome Stuck Term).Safe Tolerated
      (Reads world (.pi domainMeaning rangeMeaning) meaning) := by
  obtain ⟨inner, new, assumed, innerNamed⟩ := assume_new named domainMeans range.binder
  have variableMeans := domainMeans.ofVar new
  simp only [Context.readBack, assumed, done_bind]
  refine .bind ((safeEvaluation fuel).instantiateType (rangeDenotes.extend new) variableMeans)
    fun bodyType bodyTypeMeans => ?_
  refine .bind ((safeEvaluation fuel).apply (valueMeans.extend new) variableMeans)
    fun body bodyMeans => ?_
  refine .bind (smaller.readBack innerNamed bodyTypeMeans bodyMeans) fun bodyTerm bodyReads => ?_
  exact bodyReads.lam valueMeans.element

theorem readBack_sigma (smaller : SafeReadBack fuel) (named : world.names ⊆ ctx.names)
    {carType value : Value} {cdrType : Closure} {carMeaning cdrMeaning meaning : Meaning}
    (carMeans : carType.Means world carMeaning (.leaf .univ))
    (cdrDenotes : cdrType.Denotes world carMeaning cdrMeaning .constantUniv)
    (valueMeans : value.Means world meaning (.sigma carMeaning cdrMeaning)) :
    (ctx.readBack (fuel + 1) (.sigma carType cdrType) value : Outcome Stuck Term).Safe Tolerated
      (Reads world (.sigma carMeaning cdrMeaning) meaning) := by
  refine .bind valueMeans.yields_car fun first firstMeans => ?_
  refine .bind (smaller.readBack named carMeans firstMeans) fun firstTerm firstReads => ?_
  refine .bind ((safeEvaluation fuel).instantiateType cdrDenotes firstMeans)
    fun secondType secondTypeMeans => ?_
  refine .bind ((safeEvaluation fuel).cdr valueMeans) fun second secondMeans => ?_
  refine .bind (smaller.readBack named secondTypeMeans secondMeans) fun secondTerm secondReads => ?_
  exact firstReads.cons valueMeans.element secondReads

theorem readBack_nat (smaller : SafeReadBack fuel) (named : world.names ⊆ ctx.names) {value : Value}
    {meaning : Meaning} (valueMeans : value.Means world meaning (.leaf .nat)) :
    (ctx.readBack (fuel + 1) .nat value : Outcome Stuck Term).Safe Tolerated
      (Reads world (.leaf .nat) meaning) := by
  rcases valueMeans.number_cases with ⟨rfl, agree⟩ | ⟨predecessor, rfl, predecessorMeans, agree⟩ |
    ⟨blocked, rfl, _⟩
  · have head : Headed .zero (meaning world.generic) :=
      agree _ world.admits_generic ▸ headed_node _ _ _ _
    exact Reads.ofAgree valueMeans.element agree.symm (.zero (headed_node _ _ _ _) head)
  · refine .bind (smaller.readBack named .nat predecessorMeans)
      fun predecessorTerm predecessorReads => ?_
    have head : Headed .add1 (meaning world.generic) :=
      agree _ world.admits_generic ▸ headed_node _ _ _ _
    refine Reads.ofAgree valueMeans.element (World.Agree.trans ?_ agree.symm)
      (.add1 (headed_node _ _ _ _) head predecessorReads.normal)
    intro valuation admits
    have predecessorEq := predecessorReads.denotes valuation admits
    simp only [Meaning.leaf, fit_nat] at predecessorEq
    simp only [Term.denote, Meaning.add1, predecessorEq]
  · exact smaller.reads_neutral named valueMeans NeutralAt.number

theorem readBack_equal (smaller : SafeReadBack fuel) (named : world.names ⊆ ctx.names)
    {type left right value : Value} {typeMeaning leftMeaning rightMeaning meaning : Meaning}
    (valueMeans : value.Means world meaning (.equal typeMeaning leftMeaning rightMeaning)) :
    (ctx.readBack (fuel + 1) (.equal type left right) value : Outcome Stuck Term).Safe Tolerated
      (Reads world (.equal typeMeaning leftMeaning rightMeaning) meaning) := by
  rcases valueMeans.equality_cases with ⟨rfl, _, agree⟩ |
    ⟨_, _, _, blocked, rfl, _, _, _, _⟩
  · refine ⟨fun valuation admits => ?_, .same (headed_node _ _ _ _) ?_⟩
    · rw [agree valuation admits]
      simp only [Term.denote, fit_equal, part_two_proof]
    · rw [agree _ world.admits_generic, part_two_proof]
      exact headed_same
  · exact smaller.reads_neutral named valueMeans NeutralAt.proof

theorem readBack_atom (smaller : SafeReadBack fuel) (named : world.names ⊆ ctx.names) {value : Value}
    {meaning : Meaning} (valueMeans : value.Means world meaning (.leaf .atom)) :
    (ctx.readBack (fuel + 1) .atom value : Outcome Stuck Term).Safe Tolerated
      (Reads world (.leaf .atom) meaning) := by
  rcases valueMeans.atom_cases with ⟨symbol, rfl, agree⟩ | ⟨type, blocked, rfl, _⟩
  · have head : Headed (.tick symbol) (meaning world.generic) :=
      agree _ world.admits_generic ▸ headed_node _ _ _ _
    exact Reads.ofAgree valueMeans.element agree.symm (.tick (headed_node _ _ _ _) head)
  · exact smaller.reads_neutral named valueMeans NeutralAt.atom

theorem readBack_absurd (smaller : SafeReadBack fuel) (named : world.names ⊆ ctx.names)
    {value : Value} {meaning : Meaning} (valueMeans : value.Means world meaning (.leaf .absurd)) :
    (ctx.readBack (fuel + 1) .absurd value : Outcome Stuck Term).Safe Tolerated
      (Reads world (.leaf .absurd) meaning) := by
  obtain ⟨blocked, rfl, blockedMeans⟩ := valueMeans.exists_neutral_absurd
  refine .bind (smaller.readBackNeutral named blockedMeans) fun blockedTerm _ => ?_
  refine ⟨fun valuation admits => ?_, .absurd (headed_node _ _ _ _)⟩
  rw [(valueMeans.element.member valuation admits).eq_empty_of_absurd]
  exact fit_absurd _

theorem readBack_succ (smaller : SafeReadBack fuel) (named : world.names ⊆ ctx.names)
    {type value : Value} {typeMeaning meaning : Meaning}
    (typeMeans : type.Means world typeMeaning (.leaf .univ))
    (valueMeans : value.Means world meaning typeMeaning) :
    (ctx.readBack (fuel + 1) type value : Outcome Stuck Term).Safe Tolerated
      (Reads world typeMeaning meaning) := by
  have sort := typeMeans.sort_of_type
  obtain ⟨denotes, shows⟩ := typeMeans
  cases denotes with
  | pi domainMeans rangeDenotes =>
      have isOver := domainMeans.element.isOver.pi rangeDenotes.element.isOver
      exact (smaller.readBack_pi named domainMeans rangeDenotes
        (valueMeans.retype isOver shows.agree.symm)).mono fun _ reads => reads.exchange shows.agree
  | sigma carMeans cdrDenotes =>
      have isOver := carMeans.element.isOver.sigma cdrDenotes.element.isOver
      exact (smaller.readBack_sigma named carMeans cdrDenotes
        (valueMeans.retype isOver shows.agree.symm)).mono fun _ reads => reads.exchange shows.agree
  | nat =>
      exact (smaller.readBack_nat named (valueMeans.retype (.const _) shows.agree.symm)).mono
        fun _ reads => reads.exchange shows.agree
  | equal typeMeans leftMeans rightMeans =>
      have isOver := typeMeans.element.isOver.equal leftMeans.element.isOver rightMeans.element.isOver
      exact (smaller.readBack_equal named (valueMeans.retype isOver shows.agree.symm)).mono
        fun _ reads => reads.exchange shows.agree
  | trivial =>
      refine Reads.exchange ⟨fun valuation admits => ?_, .sole (headed_node _ _ _ _)⟩ shows.agree
      have isMember := valueMeans.element.member valuation admits
      rw [shows.agree valuation admits] at isMember
      rw [isMember.eq_empty_of_trivial]
      exact fit_trivial _
  | absurd =>
      exact (smaller.readBack_absurd named (valueMeans.retype (.const _) shows.agree.symm)).mono
        fun _ reads => reads.exchange shows.agree
  | atom =>
      exact (smaller.readBack_atom named (valueMeans.retype (.const _) shows.agree.symm)).mono
        fun _ reads => reads.exchange shows.agree
  | univ =>
      have valueIsType := valueMeans.retype (.const _) shows.agree.symm
      exact (smaller.readBackType named valueIsType).mono fun _ reads =>
        Reads.exchange (.ofAgree valueIsType.element reads.agree (.type (headed_node _ _ _ _) reads.normal))
          shows.agree
  | neutral innerMeans blockedMeans =>
      -- A blocked type shows no other constructor at the generic valuation, so its elements are
      -- blocked too.
      obtain ⟨spine, isBlocked⟩ := (blockedMeans.exchange shows).blocked
      rw [fit_univ] at isBlocked
      have shown : Token.tag .blocked ∈ typeMeaning world.generic := by
        rw [isBlocked, tag_mem_blocked]
      obtain ⟨valueType, valueBlocked, rfl⟩ := valueMeans.exists_neutral shown
      refine smaller.reads_neutral named valueMeans fun normal => ?_
      rw [isBlocked]
      exact normal.member
  | lam | pair | zero | add1 | same | sole | tick => rcases sort with sort | sort <;> cases sort

/-- Under a new variable of the first component of a type, the second is read back. -/
theorem readBackType_family (smaller : SafeReadBack fuel) (named : world.names ⊆ ctx.names)
    {domain : Value} {range : Closure} {domainMeaning rangeMeaning : Meaning}
    (domainMeans : domain.Means world domainMeaning (.leaf .univ))
    (rangeDenotes : range.Denotes world domainMeaning rangeMeaning .constantUniv)
    {next : Name → Term → Term → Term} {meaning : Meaning}
    (made : ∀ {x : Name} {domainTerm rangeTerm : Term}, x ∉ world.vars.names →
      ReadsType world domainMeaning domainTerm →
      world.Agree (Meaning.family x domainTerm.denote rangeTerm.denote) rangeMeaning →
      TypeAt ((x, domainMeaning world.generic) :: world.vars)
        ((rangeMeaning world.generic).apply (world.vars.newest (domainMeaning world.generic)))
        rangeTerm →
      ReadsType world meaning (next x domainTerm rangeTerm)) :
    (do
      let x := ctx.freshFor range.binder
      let rangeAtX ← range.instantiate fuel (.ofVar domain x)
      let domainTerm ← ctx.readBackType fuel domain
      let inner ← ctx.assume x domain
      let rangeTerm ← inner.readBackType fuel rangeAtX
      return next x domainTerm rangeTerm : Outcome Stuck Term).Safe Tolerated
        (ReadsType world meaning) := by
  obtain ⟨inner, new, assumed, innerNamed⟩ := assume_new named domainMeans range.binder
  have variableMeans := domainMeans.ofVar new
  simp only [assumed, done_bind]
  refine .bind ((safeEvaluation fuel).instantiateType (rangeDenotes.extend new) variableMeans)
    fun rangeAtX rangeMeans => ?_
  refine .bind (smaller.readBackType named domainMeans) fun domainTerm domainReads => ?_
  refine .bind (smaller.readBackType innerNamed rangeMeans) fun rangeTerm rangeReads => ?_
  have fresh : ctx.freshFor range.binder ∉ world.vars.names := world.names_vars ▸ new.fresh
  have rangeNormal := rangeReads.normal
  simp only [Meaning.apply, World.vars_extend, World.generic_extend, Function.update_self,
    rangeDenotes.element.isOver.update_eq new.fresh] at rangeNormal
  exact made fresh domainReads
    (Meaning.agree_family new rangeDenotes.element domainReads.agree rangeReads.agree) rangeNormal

theorem readBackType_succ (smaller : SafeReadBack fuel) (named : world.names ⊆ ctx.names)
    {type : Value} {meaning : Meaning} (typeMeans : type.Means world meaning (.leaf .univ)) :
    (ctx.readBackType (fuel + 1) type : Outcome Stuck Term).Safe Tolerated
      (ReadsType world meaning) := by
  have sort := typeMeans.sort_of_type
  obtain ⟨denotes, shows⟩ := typeMeans
  cases denotes with
  | pi domainMeans rangeDenotes =>
      refine smaller.readBackType_family named domainMeans rangeDenotes
        fun fresh domainReads rangeAgree rangeNormal => ReadsType.exchange
          ⟨fun valuation admits => ?_, .ofPi fresh domainReads.normal rangeNormal⟩ shows.agree
      simp only [Term.denote, Meaning.pi, domainReads.agree valuation admits,
        rangeAgree valuation admits]
  | sigma carMeans cdrDenotes =>
      refine smaller.readBackType_family named carMeans cdrDenotes
        fun fresh carReads cdrAgree cdrNormal => ReadsType.exchange
          ⟨fun valuation admits => ?_, .ofSigma fresh carReads.normal cdrNormal⟩ shows.agree
      simp only [Term.denote, Meaning.sigma, carReads.agree valuation admits,
        cdrAgree valuation admits]
  | equal innerMeans leftMeans rightMeans =>
      refine .bind (smaller.readBackType named innerMeans) fun typeTerm typeReads => ?_
      refine .bind (smaller.readBack named innerMeans leftMeans) fun leftTerm leftReads => ?_
      refine .bind (smaller.readBack named innerMeans rightMeans) fun rightTerm rightReads => ?_
      refine ReadsType.exchange ⟨fun valuation admits => ?_,
        .ofEqual typeReads.normal leftReads.normal rightReads.normal⟩ shows.agree
      simp only [Term.denote, Meaning.equal, typeReads.agree valuation admits,
        leftReads.denotes valuation admits, rightReads.denotes valuation admits]
  | neutral innerMeans blockedMeans =>
      exact (smaller.readBackNeutral named (blockedMeans.exchange shows)).mono fun _ reads => reads.type
  | lam | pair | zero | add1 | same | sole | tick => rcases sort with sort | sort <;> cases sort
  | nat => exact ReadsType.exchange ⟨.refl _, .nat (headed_node _ _ _ _)⟩ shows.agree
  | trivial => exact ReadsType.exchange ⟨.refl _, .trivial (headed_node _ _ _ _)⟩ shows.agree
  | absurd => exact ReadsType.exchange ⟨.refl _, .absurd (headed_node _ _ _ _)⟩ shows.agree
  | atom => exact ReadsType.exchange ⟨.refl _, .atom (headed_node _ _ _ _)⟩ shows.agree
  | univ => exact ReadsType.exchange ⟨.refl _, .univ (headed_node _ _ _ _)⟩ shows.agree

theorem readBackNormal_succ (smaller : SafeReadBack fuel) (named : world.names ⊆ ctx.names)
    {normal : Normal} {meaning type : Meaning} (means : normal.Means world meaning type) :
    (ctx.readBackNormal (fuel + 1) normal : Outcome Stuck Term).Safe Tolerated
      (Reads world type meaning) := by
  obtain ⟨typeMeans, valueMeans⟩ := means
  exact smaller.readBack named typeMeans valueMeans

theorem readBackNeutral_denotes (smaller : SafeReadBack fuel) (named : world.names ⊆ ctx.names)
    {neutral : Neutral} {meaning type : Meaning} (denotes : neutral.Denotes world meaning type) :
    (ctx.readBackNeutral (fuel + 1) neutral : Outcome Stuck Term).Safe Tolerated
      (ReadsNeutral world type meaning) := by
  cases denotes with
  | var mem =>
      exact ⟨.refl _, _, .var (headed_node _ _ _ _) (World.assumed?_level mem), World.generic_eq mem⟩
  | app functionMeans argumentMeans =>
      refine .bind (smaller.readBackNeutral named functionMeans) fun function functionReads => ?_
      refine .bind (smaller.readBackNormal named argumentMeans) fun argument argumentReads => ?_
      exact .app functionMeans.element argumentMeans.element functionReads argumentReads
  | car pairMeans =>
      exact .bind (smaller.readBackNeutral named pairMeans) fun pair pairReads => pairReads.car
  | cdr pairMeans =>
      exact .bind (smaller.readBackNeutral named pairMeans) fun pair pairReads => pairReads.cdr
  | indNat targetMeans motiveMeans baseMeans stepMeans =>
      refine .bind (smaller.readBackNeutral named targetMeans) fun target targetReads => ?_
      refine .bind (smaller.readBackNormal named motiveMeans) fun motive motiveReads => ?_
      refine .bind (smaller.readBackNormal named baseMeans) fun base baseReads => ?_
      refine .bind (smaller.readBackNormal named stepMeans) fun step stepReads => ?_
      exact .indNat motiveMeans.element targetReads motiveReads baseReads stepReads
  | replace targetMeans leftElement rightElement motiveMeans baseMeans =>
      refine .bind (smaller.readBackNeutral named targetMeans) fun target targetReads => ?_
      refine .bind (smaller.readBackNormal named motiveMeans) fun motive motiveReads => ?_
      refine .bind (smaller.readBackNormal named baseMeans) fun base baseReads => ?_
      exact .replace targetMeans.element leftElement rightElement motiveMeans.element targetReads
        motiveReads baseReads
  | indAbsurd targetMeans motiveMeans =>
      refine .bind (smaller.readBackNeutral named targetMeans) fun target _ => ?_
      refine .bind (smaller.readBackNormal named motiveMeans) fun motive motiveReads => ?_
      exact .indAbsurd motiveReads

theorem readBackNeutral_succ (smaller : SafeReadBack fuel) (named : world.names ⊆ ctx.names)
    {neutral : Neutral} {meaning type : Meaning} (means : neutral.Means world meaning type) :
    (ctx.readBackNeutral (fuel + 1) neutral : Outcome Stuck Term).Safe Tolerated
      (ReadsNeutral world type meaning) := by
  obtain ⟨denotes, shows⟩ := means
  exact (smaller.readBackNeutral_denotes named denotes).mono fun _ reads => reads.exchange shows

end SafeReadBack

theorem safeReadBack (fuel : Nat) : SafeReadBack fuel := by
  induction fuel with
  | zero => exact .zero
  | succ fuel smaller =>
      exact ⟨fun named => smaller.readBack_succ named, fun named => smaller.readBackType_succ named,
        fun named => smaller.readBackNeutral_succ named,
        fun named => smaller.readBackNormal_succ named⟩

end LambdaCalculi.Dependent
