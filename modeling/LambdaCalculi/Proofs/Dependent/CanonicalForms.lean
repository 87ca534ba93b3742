import LambdaCalculi.Proofs.Dependent.Judgements

/-!
# Canonical forms of values

At the generic valuation of a world, a neutral value is a blocked computation made to fit into its
type, so as a type it shows no constructor but that it is blocked. A value that is a type and agrees
with a function type is therefore a function type, and so for the other formers of types; a value of
a function type is an abstraction or neutral, and so for the other types.
-/

set_option autoImplicit false

namespace LambdaCalculi.Dependent

open Domain

variable [Lookups] {world : World}

/-! ## Neutral values are blocked -/

mutual

theorem Neutral.Means.blocked {neutral : Neutral} {meaning type : Meaning} :
    neutral.Means world meaning type →
      ∃ spine, meaning world.generic = fit (type world.generic) (Domain.blocked spine)
  | .mk denotes shows => by
      rw [shows.agree _ world.admits_generic, shows.typeAgree _ world.admits_generic]
      exact denotes.blocked
termination_by structural means => means

theorem Neutral.Denotes.blocked {neutral : Neutral} {meaning type : Meaning} :
    neutral.Denotes world meaning type →
      ∃ spine, meaning world.generic = fit (type world.generic) (Domain.blocked spine)
  | .var mem => ⟨_, World.generic_eq mem⟩
  | .app functionMeans argumentMeans => by
      obtain ⟨spine, function⟩ := functionMeans.blocked
      simp only [Meaning.apply]
      rw [function, apply_fit_blocked spine (argumentMeans.element.member _ world.admits_generic)]
      exact ⟨_, rfl⟩
  | .car pairMeans => by
      obtain ⟨spine, pair⟩ := pairMeans.blocked
      simp only [Meaning.part]
      rw [pair, part_zero_fit_blocked]
      exact ⟨_, rfl⟩
  | .cdr pairMeans => by
      obtain ⟨spine, pair⟩ := pairMeans.blocked
      simp only [Meaning.part, Meaning.apply]
      rw [pair, part_zero_fit_blocked, part_one_fit_blocked]
      exact ⟨_, rfl⟩
  | .indNat targetMeans _ _ _ => by
      obtain ⟨spine, target⟩ := targetMeans.blocked
      simp only [Meaning.ind, Meaning.apply]
      rw [target, fit_nat, ind_blocked]
      exact ⟨_, rfl⟩
  | .replace targetMeans _ _ _ _ => by
      obtain ⟨spine, target⟩ := targetMeans.blocked
      simp only [Meaning.replace, Meaning.apply]
      rw [target, replace_fit_blocked]
      exact ⟨_, rfl⟩
  | .indAbsurd _ _ => ⟨_, rfl⟩
termination_by structural denotes => denotes

end

/-! ## Neutral values need variables -/

mutual

theorem Neutral.Means.not_closed {neutral : Neutral} {meaning type : Meaning} :
    neutral.Means .empty meaning type → False
  | .mk denotes _ => denotes.not_closed
termination_by structural means => means

theorem Neutral.Denotes.not_closed {neutral : Neutral} {meaning type : Meaning} :
    neutral.Denotes .empty meaning type → False
  | .var mem => by cases mem
  | .app functionMeans _ => functionMeans.not_closed
  | .car pairMeans => pairMeans.not_closed
  | .cdr pairMeans => pairMeans.not_closed
  | .indNat targetMeans _ _ _ => targetMeans.not_closed
  | .replace targetMeans _ _ _ _ => targetMeans.not_closed
  | .indAbsurd targetMeans _ => targetMeans.not_closed
termination_by structural denotes => denotes

end

namespace Value

/-- The former of the types that the value is made for; a neutral value may be of any type. -/
def sort? : Value → Option Tag
  | lam _ => some .pi
  | pair _ _ => some .sigma
  | zero => some .nat
  | add1 _ => some .nat
  | same => some .equal
  | sole => some .trivial
  | tick _ => some .atom
  | neutral _ _ => none
  | _ => some .univ

def former? : Value → Option Tag
  | pi _ _ => some .pi
  | sigma _ _ => some .sigma
  | nat => some .nat
  | equal _ _ _ => some .equal
  | trivial => some .trivial
  | absurd => some .absurd
  | atom => some .atom
  | univ => some .univ
  | neutral _ _ => some .blocked
  | _ => none

variable {value : Value} {meaning type : Meaning}

/-- The type of a value that is not neutral shows the constructor that the value is made for. -/
theorem Means.sort?_cases (means : value.Means world meaning type) :
    value.sort? = none ∨ ∃ tag, value.sort? = some tag ∧
      ∀ other, Token.tag other ∈ type world.generic ↔ other = tag := by
  obtain ⟨denotes, shows⟩ := means
  rw [shows.typeAgree _ world.admits_generic]
  cases denotes with
  | neutral => exact .inl rfl
  | _ => exact .inr ⟨_, rfl, tag_mem_node _ _ _ _⟩

theorem Means.sort (means : value.Means world meaning type) {tag : Tag}
    (shown : Token.tag tag ∈ type world.generic) : value.sort? = none ∨ value.sort? = some tag := by
  rcases means.sort?_cases with sort | ⟨other, sort, only⟩
  · exact .inl sort
  · rw [(only tag).mp shown]
    exact .inr sort

theorem Means.exists_neutral (means : value.Means world meaning type)
    (shown : Token.tag .blocked ∈ type world.generic) :
    ∃ typeValue blocked, value = neutral typeValue blocked := by
  have sort := means.sort shown
  cases value with
  | neutral typeValue blocked => exact ⟨typeValue, blocked, rfl⟩
  | _ => rcases sort with sort | sort <;> cases sort

theorem Means.neutral_parts {typeValue : Value} {blocked : Neutral}
    (means : (neutral typeValue blocked).Means world meaning type) :
    typeValue.Means world type (.leaf .univ) ∧ blocked.Means world meaning type := by
  obtain ⟨denotes, shows⟩ := means
  cases denotes with
  | neutral typeMeans blockedMeans =>
      exact ⟨typeMeans.exchange ⟨.ofType shows.typeOver, shows.typeAgree, .refl _⟩,
        blockedMeans.exchange shows⟩

theorem Means.sort_of_type (means : value.Means world meaning (.leaf .univ)) :
    value.sort? = none ∨ value.sort? = some .univ := by
  have shown : Token.tag .univ ∈ Meaning.leaf .univ world.generic := by simp [Domain.leaf]
  exact means.sort shown

theorem Means.former (means : value.Means world meaning (.leaf .univ)) {tag : Tag}
    (shown : Token.tag tag ∈ meaning world.generic) : value.former? = some tag := by
  rcases means.sort_of_type with sort | sort
  · cases value with
    | neutral typeValue blocked =>
        obtain ⟨spine, isBlocked⟩ := means.neutral_parts.2.blocked
        rw [isBlocked, fit_univ, tag_mem_blocked] at shown
        rw [shown]
        rfl
    | _ => cases sort
  · obtain ⟨denotes, shows⟩ := means
    rw [shows.agree _ world.admits_generic] at shown
    cases denotes with
    | lam | pair | zero | add1 | same | sole | tick | neutral => cases sort
    | _ =>
        simp only [Domain.pi, Domain.sigma, Domain.equal, Domain.leaf, tag_mem_node] at shown
        subst shown
        rfl

/-! ## Types -/

section Types

variable {first second third : Meaning}

theorem Means.exists_pi (means : value.Means world (.pi first second) (.leaf .univ)) :
    ∃ domain range, value = .pi domain range ∧ domain.Means world first (.leaf .univ) ∧
      range.Denotes world first second .constantUniv := by
  have shown : Token.tag .pi ∈ Meaning.pi first second world.generic := by simp [Domain.pi]
  have former := means.former shown
  cases value with
  | pi domain range =>
      obtain ⟨denotes, shows⟩ := means
      cases denotes with
      | pi domainMeans rangeDenotes =>
          obtain ⟨firstAgree, secondAgree⟩ := shows.agree.pi_parts
          refine ⟨domain, range, rfl, domainMeans.exchange ?_, ?_⟩
          · exact ⟨.ofType shows.isOver.node_first, firstAgree, .refl _⟩
          · exact rangeDenotes.exchangeFamily shows.isOver.node_first shows.isOver.node_second firstAgree
              secondAgree
  | _ => cases former

theorem Means.exists_sigma (means : value.Means world (.sigma first second) (.leaf .univ)) :
    ∃ carType cdrType, value = .sigma carType cdrType ∧ carType.Means world first (.leaf .univ) ∧
      cdrType.Denotes world first second .constantUniv := by
  have shown : Token.tag .sigma ∈ Meaning.sigma first second world.generic := by simp [Domain.sigma]
  have former := means.former shown
  cases value with
  | sigma carType cdrType =>
      obtain ⟨denotes, shows⟩ := means
      cases denotes with
      | sigma carMeans cdrDenotes =>
          obtain ⟨firstAgree, secondAgree⟩ := shows.agree.sigma_parts
          refine ⟨carType, cdrType, rfl, carMeans.exchange ?_, ?_⟩
          · exact ⟨.ofType shows.isOver.node_first, firstAgree, .refl _⟩
          · exact cdrDenotes.exchangeFamily shows.isOver.node_first shows.isOver.node_second firstAgree
              secondAgree
  | _ => cases former

theorem Means.exists_equal (means : value.Means world (.equal first second third) (.leaf .univ)) :
    ∃ type left right, value = .equal type left right ∧ type.Means world first (.leaf .univ) ∧
      left.Means world second first ∧ right.Means world third first := by
  have shown : Token.tag .equal ∈ Meaning.equal first second third world.generic := by
    simp [Domain.equal]
  have former := means.former shown
  cases value with
  | equal type left right =>
      obtain ⟨denotes, shows⟩ := means
      cases denotes with
      | equal typeMeans leftMeans rightMeans =>
          obtain ⟨firstAgree, secondAgree, thirdAgree⟩ := shows.agree.equal_parts
          have firstOver := shows.isOver.node_first
          refine ⟨type, left, right, rfl, typeMeans.exchange ?_, leftMeans.exchange ?_,
            rightMeans.exchange ?_⟩
          · exact ⟨.ofType firstOver, firstAgree, .refl _⟩
          · exact ⟨leftMeans.element.exchange shows.isOver.node_second firstOver secondAgree firstAgree,
              secondAgree, firstAgree⟩
          · exact ⟨rightMeans.element.exchange shows.isOver.node_third firstOver thirdAgree firstAgree,
              thirdAgree, firstAgree⟩
  | _ => cases former

theorem Means.eq_nat (means : value.Means world (.leaf .nat) (.leaf .univ)) : value = .nat := by
  have shown : Token.tag .nat ∈ Meaning.leaf .nat world.generic := by simp [Domain.leaf]
  have former := means.former shown
  cases value with
  | nat => rfl
  | _ => cases former

theorem Means.eq_trivial (means : value.Means world (.leaf .trivial) (.leaf .univ)) :
    value = .trivial := by
  have shown : Token.tag .trivial ∈ Meaning.leaf .trivial world.generic := by simp [Domain.leaf]
  have former := means.former shown
  cases value with
  | trivial => rfl
  | _ => cases former

theorem Means.eq_absurd (means : value.Means world (.leaf .absurd) (.leaf .univ)) :
    value = .absurd := by
  have shown : Token.tag .absurd ∈ Meaning.leaf .absurd world.generic := by simp [Domain.leaf]
  have former := means.former shown
  cases value with
  | absurd => rfl
  | _ => cases former

theorem Means.eq_atom (means : value.Means world (.leaf .atom) (.leaf .univ)) : value = .atom := by
  have shown : Token.tag .atom ∈ Meaning.leaf .atom world.generic := by simp [Domain.leaf]
  have former := means.former shown
  cases value with
  | atom => rfl
  | _ => cases former

end Types

/-! ## Elements -/

section Elements

variable {first second third : Meaning}

theorem Means.lam_closure {body : Closure} (means : (lam body).Means world meaning (.pi first second)) :
    body.Denotes world first meaning second := by
  obtain ⟨denotes, shows⟩ := means
  cases denotes with
  | lam bodyDenotes =>
      obtain ⟨firstAgree, secondAgree⟩ := shows.typeAgree.pi_parts
      exact bodyDenotes.exchange shows.toElement firstAgree shows.agree secondAgree

theorem Means.function_cases (means : value.Means world meaning (.pi first second)) :
    (∃ body, value = lam body ∧ body.Denotes world first meaning second) ∨
      ∃ domain range blocked, value = neutral (.pi domain range) blocked ∧
        domain.Means world first (.leaf .univ) ∧
        range.Denotes world first second .constantUniv ∧
        blocked.Means world meaning (.pi first second) := by
  have shown : Token.tag .pi ∈ Meaning.pi first second world.generic := by simp [Domain.pi]
  have sort := means.sort shown
  cases value with
  | lam body => exact .inl ⟨body, rfl, means.lam_closure⟩
  | neutral typeValue blocked =>
      obtain ⟨typeMeans, blockedMeans⟩ := means.neutral_parts
      obtain ⟨domain, range, rfl, domainMeans, rangeDenotes⟩ := typeMeans.exists_pi
      exact .inr ⟨domain, range, blocked, rfl, domainMeans, rangeDenotes, blockedMeans⟩
  | _ => rcases sort with sort | sort <;> cases sort

theorem Means.pair_parts {left right : Value}
    (means : (pair left right).Means world meaning (.sigma first second)) :
    left.Means world (.part 0 meaning) first ∧
      right.Means world (.part 1 meaning) (.apply second (.part 0 meaning)) := by
  have isElement := means.element
  obtain ⟨denotes, shows⟩ := means
  cases denotes with
  | pair firstMeans secondMeans =>
      obtain ⟨carAgree, cdrAgree⟩ := shows.typeAgree.sigma_parts
      have firstAgree := shows.agree.map (part 0)
      have secondAgree := shows.agree.map (part 1)
      simp only [Domain.pair, part_zero_node, part_one_node] at firstAgree secondAgree
      exact ⟨firstMeans.exchange ⟨isElement.car, firstAgree, carAgree⟩,
        secondMeans.exchange ⟨isElement.cdr, secondAgree, cdrAgree.apply firstAgree⟩⟩

theorem Means.pair_cases (means : value.Means world meaning (.sigma first second)) :
    (∃ left right, value = pair left right ∧ left.Means world (.part 0 meaning) first ∧
      right.Means world (.part 1 meaning) (.apply second (.part 0 meaning))) ∨
      ∃ carType cdrType blocked, value = neutral (.sigma carType cdrType) blocked ∧
        carType.Means world first (.leaf .univ) ∧
        cdrType.Denotes world first second .constantUniv ∧
        blocked.Means world meaning (.sigma first second) := by
  have shown : Token.tag .sigma ∈ Meaning.sigma first second world.generic := by simp [Domain.sigma]
  have sort := means.sort shown
  cases value with
  | pair left right => exact .inl ⟨left, right, rfl, means.pair_parts⟩
  | neutral typeValue blocked =>
      obtain ⟨typeMeans, blockedMeans⟩ := means.neutral_parts
      obtain ⟨carType, cdrType, rfl, carMeans, cdrDenotes⟩ := typeMeans.exists_sigma
      exact .inr ⟨carType, cdrType, blocked, rfl, carMeans, cdrDenotes, blockedMeans⟩
  | _ => rcases sort with sort | sort <;> cases sort

theorem Means.number_cases (means : value.Means world meaning (.leaf .nat)) :
    (value = Value.zero ∧ world.Agree meaning (.leaf .zero)) ∨
      (∃ predecessor, value = add1 predecessor ∧
        predecessor.Means world (.part 0 meaning) (.leaf .nat) ∧
        world.Agree meaning (.add1 (.part 0 meaning))) ∨
      ∃ blocked, value = neutral .nat blocked ∧ blocked.Means world meaning (.leaf .nat) := by
  have shown : Token.tag .nat ∈ Meaning.leaf .nat world.generic := by simp [Domain.leaf]
  have sort := means.sort shown
  cases value with
  | zero =>
      obtain ⟨denotes, shows⟩ := means
      cases denotes
      exact .inl ⟨rfl, shows.agree⟩
  | add1 predecessor =>
      obtain ⟨denotes, shows⟩ := means
      cases denotes with
      | add1 predecessorMeans =>
          have predecessorAgree := shows.agree.map (part 0)
          simp only [Domain.add1, part_zero_node] at predecessorAgree
          refine .inr (.inl ⟨predecessor, rfl, predecessorMeans.exchange ?_, ?_⟩)
          · exact ⟨⟨shows.isOver.part 0, .const _, fun _ _ => fit_nat _⟩, predecessorAgree, .refl _⟩
          · exact shows.agree.trans (predecessorAgree.symm.map Domain.add1)
  | neutral typeValue blocked =>
      obtain ⟨typeMeans, blockedMeans⟩ := means.neutral_parts
      obtain rfl := typeMeans.eq_nat
      exact .inr (.inr ⟨blocked, rfl, blockedMeans⟩)
  | _ => rcases sort with sort | sort <;> cases sort

theorem Means.equality_cases (means : value.Means world meaning (.equal first second third)) :
    (value = same ∧ world.Agree second third ∧ world.Agree meaning (.same first second third)) ∨
      ∃ type left right blocked, value = neutral (.equal type left right) blocked ∧
        type.Means world first (.leaf .univ) ∧ left.Means world second first ∧
        right.Means world third first ∧ blocked.Means world meaning (.equal first second third) := by
  have shown : Token.tag .equal ∈ Meaning.equal first second third world.generic := by
    simp [Domain.equal]
  have sort := means.sort shown
  cases value with
  | same =>
      obtain ⟨denotes, shows⟩ := means
      cases denotes with
      | same agree =>
          obtain ⟨typeAgree, leftAgree, rightAgree⟩ := shows.typeAgree.equal_parts
          refine .inl ⟨rfl, (leftAgree.trans agree).trans rightAgree.symm, fun valuation admits => ?_⟩
          simp only [Meaning.same]
          rw [typeAgree valuation admits, leftAgree valuation admits, rightAgree valuation admits]
          exact shows.agree valuation admits
  | neutral typeValue blocked =>
      obtain ⟨typeMeans, blockedMeans⟩ := means.neutral_parts
      obtain ⟨type, left, right, rfl, innerMeans, leftMeans, rightMeans⟩ := typeMeans.exists_equal
      exact .inr ⟨type, left, right, blocked, rfl, innerMeans, leftMeans, rightMeans, blockedMeans⟩
  | _ => rcases sort with sort | sort <;> cases sort

theorem Means.exists_neutral_absurd (means : value.Means world meaning (.leaf .absurd)) :
    ∃ blocked, value = neutral .absurd blocked ∧ blocked.Means world meaning (.leaf .absurd) := by
  have shown : Token.tag .absurd ∈ Meaning.leaf .absurd world.generic := by simp [Domain.leaf]
  have sort := means.sort shown
  cases value with
  | neutral typeValue blocked =>
      obtain ⟨typeMeans, blockedMeans⟩ := means.neutral_parts
      obtain rfl := typeMeans.eq_absurd
      exact ⟨blocked, rfl, blockedMeans⟩
  | _ => rcases sort with sort | sort <;> cases sort

theorem Means.atom_cases (means : value.Means world meaning (.leaf .atom)) :
    (∃ symbol, value = tick symbol ∧ world.Agree meaning (.leaf (.tick symbol))) ∨
      ∃ type blocked, value = neutral type blocked ∧ blocked.Means world meaning (.leaf .atom) := by
  have shown : Token.tag .atom ∈ Meaning.leaf .atom world.generic := by simp [Domain.leaf]
  have sort := means.sort shown
  cases value with
  | tick symbol =>
      obtain ⟨denotes, shows⟩ := means
      cases denotes
      exact .inl ⟨symbol, rfl, shows.agree⟩
  | neutral typeValue blocked =>
      exact .inr ⟨typeValue, blocked, rfl, means.neutral_parts.2⟩
  | _ => rcases sort with sort | sort <;> cases sort

end Elements

end Value

end LambdaCalculi.Dependent
