import LambdaCalculi.Proofs.Dependent.Blocked

/-!
# Members of types, and the eliminators

The members of a type are the elements that fit it as they are. Functions are equal when they agree
on the members of their domain, pairs are made of their components, a proof of an equality carries
its type and its two sides, and the unit type and the empty type have one member each. Induction on
numbers is the union of its stages and satisfies the equations of the calculus; induction on a
blocked number is blocked itself, and so is replacement along a blocked proof.
-/

set_option autoImplicit false

namespace LambdaCalculi.Dependent.Domain

variable {ι : Type}

def pi (domain range : Domain) : Domain :=
  node .pi domain range ∅

def sigma (carType cdrType : Domain) : Domain :=
  node .sigma carType cdrType ∅

def equal (type left right : Domain) : Domain :=
  node .equal type left right

def pair (first second : Domain) : Domain :=
  node .pair first second ∅

def add1 (predecessor : Domain) : Domain :=
  node .add1 predecessor ∅ ∅

def leaf (tag : Tag) : Domain :=
  node tag ∅ ∅ ∅

/-- A proof of an equality between the sides; `evidence` shows whether it is canonical. -/
def proof (type left right evidence : Domain) : Domain :=
  node .proof type (pair left right) evidence

def same : Domain :=
  {Token.tag .same}

def leftSide (proof : Domain) : Domain :=
  part 0 (part 1 proof)

def rightSide (proof : Domain) : Domain :=
  part 1 (part 1 proof)

section Proof

variable (type left right evidence : Domain)

@[simp]
theorem part_zero_proof : part 0 (proof type left right evidence) = type := by
  simp only [proof, part_zero_node]

@[simp]
theorem part_two_proof : part 2 (proof type left right evidence) = evidence := by
  simp only [proof, part_two_node]

@[simp]
theorem leftSide_proof : leftSide (proof type left right evidence) = left := by
  simp only [leftSide, proof, pair, part_one_node, part_zero_node]

@[simp]
theorem rightSide_proof : rightSide (proof type left right evidence) = right := by
  simp only [rightSide, proof, pair, part_one_node]

end Proof

/-! ## Fitting into each type -/

theorem fit_node (tag : Tag) (first second third element : Domain) :
    fit (node tag first second third) element =
      former fit tag (node tag first second third) element := by
  rw [fit_eq]
  exact fitStep_of_tag fit (by simp) (by simp) element

theorem fit_pi (domain range element : Domain) :
    fit (pi domain range) element = lam fun argument =>
      fit (range.apply (fit domain argument)) (element.apply (fit domain argument)) := by
  simp only [pi, fit_node, former, part_zero_node, part_one_node]

theorem fit_sigma (carType cdrType element : Domain) :
    fit (sigma carType cdrType) element =
      pair (fit carType (part 0 element))
        (fit (cdrType.apply (fit carType (part 0 element))) (part 1 element)) := by
  simp only [sigma, pair, fit_node, former, part_zero_node, part_one_node]

theorem fit_equal (type left right element : Domain) :
    fit (equal type left right) element = proof type left right (part 2 element) := by
  simp only [equal, proof, pair, fit_node, former, part_zero_node, part_one_node, part_two_node]

@[simp]
theorem fit_nat (element : Domain) : fit (leaf .nat) element = element := by
  simp only [leaf, fit_node, former]

@[simp]
theorem fit_atom (element : Domain) : fit (leaf .atom) element = element := by
  simp only [leaf, fit_node, former]

@[simp]
theorem fit_univ (element : Domain) : fit (leaf .univ) element = element := by
  simp only [leaf, fit_node, former]

@[simp]
theorem fit_trivial (element : Domain) : fit (leaf .trivial) element = ∅ := by
  simp only [leaf, fit_node, former]

@[simp]
theorem fit_absurd (element : Domain) : fit (leaf .absurd) element = ∅ := by
  simp only [leaf, fit_node, former]

theorem finitaryMap_fit (code : Domain) : FinitaryMap fun argument => fit code argument :=
  continuous_fit.finitary (.const code) (.place ())

/-! ## Members -/

/-- The element fits the type as it is. -/
def Member (code element : Domain) : Prop :=
  fit code element = element

theorem member_fit (code element : Domain) : Member code (fit code element) :=
  fit_fit code element

section Functions

variable {domain range function : Domain}

theorem apply_fit_pi (domain range element argument : Domain) :
    (fit (pi domain range) element).apply argument =
      fit (range.apply (fit domain argument)) (element.apply (fit domain argument)) := by
  have fitted := finitaryMap_fit domain
  have body : FinitaryMap fun argument =>
      fit (range.apply (fit domain argument)) (element.apply (fit domain argument)) :=
    continuous_fit.finitary (.apply (.const range) fitted) (.apply (.const element) fitted)
  rw [fit_pi, apply_lam body]

theorem Member.apply (isMember : Member (pi domain range) function) {argument : Domain}
    (argumentMember : Member domain argument) :
    Member (range.apply argument) (function.apply argument) := by
  have computed := apply_fit_pi domain range function argument
  rw [isMember, argumentMember] at computed
  exact computed.symm

/-- A function sees its argument only as a member of its domain. -/
theorem Member.apply_fit (isMember : Member (pi domain range) function) (argument : Domain) :
    function.apply (fit domain argument) = function.apply argument := by
  have fitted := apply_fit_pi domain range function (fit domain argument)
  have plain := apply_fit_pi domain range function argument
  rw [fit_fit] at fitted
  rw [isMember] at fitted plain
  exact fitted.trans plain.symm

theorem Member.ext {other : Domain} (isMember : Member (pi domain range) function)
    (otherMember : Member (pi domain range) other)
    (alike : ∀ argument, Member domain argument → function.apply argument = other.apply argument) :
    function = other := by
  rw [← isMember, ← otherMember, fit_pi, fit_pi]
  exact lam_congr fun argument => by rw [alike _ (member_fit domain argument)]

theorem member_lam {body : Domain → Domain} (finitary : FinitaryMap body)
    (inside : ∀ argument, Member domain argument → Member (range.apply argument) (body argument)) :
    Member (pi domain range) (lam fun argument => body (fit domain argument)) := by
  have fitted : FinitaryMap fun argument => body (fit domain argument) :=
    Finitary.comp finitary fun _ => finitaryMap_fit domain
  rw [Member, fit_pi]
  refine lam_congr fun argument => ?_
  rw [apply_lam fitted, fit_fit]
  exact inside _ (member_fit domain argument)

theorem apply_lam_fit {body : Domain → Domain} (finitary : FinitaryMap body) {argument : Domain}
    (argumentMember : Member domain argument) :
    (lam fun argument => body (fit domain argument)).apply argument = body argument := by
  have fitted : FinitaryMap fun argument => body (fit domain argument) :=
    Finitary.comp finitary fun _ => finitaryMap_fit domain
  rw [apply_lam fitted, argumentMember]

end Functions

theorem member_pair {carType cdrType first second : Domain} (firstMember : Member carType first)
    (secondMember : Member (cdrType.apply first) second) :
    Member (sigma carType cdrType) (pair first second) := by
  rw [Member, fit_sigma]
  simp only [pair, part_zero_node, part_one_node]
  rw [firstMember, secondMember]

theorem Member.eq_pair {carType cdrType element : Domain}
    (isMember : Member (sigma carType cdrType) element) :
    element = pair (part 0 element) (part 1 element) := by
  have shape := fit_sigma carType cdrType element
  rw [isMember] at shape
  have first := congrArg (part 0) shape
  have second := congrArg (part 1) shape
  simp only [pair, part_zero_node, part_one_node] at first second
  rw [← second, ← first] at shape
  exact shape

theorem Member.car {carType cdrType element : Domain}
    (isMember : Member (sigma carType cdrType) element) : Member carType (part 0 element) := by
  have shape := congrArg (part 0) (fit_sigma carType cdrType element)
  rw [isMember] at shape
  simp only [pair, part_zero_node] at shape
  exact shape.symm

theorem Member.cdr {carType cdrType element : Domain}
    (isMember : Member (sigma carType cdrType) element) :
    Member (cdrType.apply (part 0 element)) (part 1 element) := by
  have shape := congrArg (part 1) (fit_sigma carType cdrType element)
  rw [isMember, isMember.car] at shape
  simp only [pair, part_one_node] at shape
  exact shape.symm

theorem member_proof (type left right evidence : Domain) :
    Member (equal type left right) (proof type left right evidence) := by
  rw [Member, fit_equal, part_two_proof]

theorem Member.eq_proof {type left right element : Domain}
    (isMember : Member (equal type left right) element) :
    element = proof type left right (part 2 element) := by
  rw [← fit_equal type, isMember]

theorem Member.eq_empty_of_trivial {element : Domain} (isMember : Member (leaf .trivial) element) :
    element = ∅ := by
  rw [← isMember, fit_trivial]

theorem Member.eq_empty_of_absurd {element : Domain} (isMember : Member (leaf .absurd) element) :
    element = ∅ := by
  rw [← isMember, fit_absurd]

/-! ## Induction on natural numbers -/

/-- One unfolding of an induction, with `inner` for the result at the predecessor. -/
def indStep (motive base step : Domain) (inner : Domain → Domain) (target : Domain) : Domain :=
  fit (motive.apply target)
    (guard (Token.tag .zero ∈ target) base ∪
      guard (Token.tag .blocked ∈ target)
        (blocked (Spine.indNat (part 3 target) motive base step)) ∪
      guard (Token.tag .add1 ∈ target)
        ((step.apply (part 0 target)).apply (inner (part 0 target))))

def indStage (motive base step : Domain) : Nat → Domain → Domain
  | 0 => fun _ => ∅
  | stage + 1 => indStep motive base step (indStage motive base step stage)

def ind (target motive base step : Domain) : Domain :=
  ⋃ stage, indStage motive base step stage target

theorem finitary_indStep {target motive base step result : (ι → Domain) → Domain}
    (targetFinitary : Finitary target) (motiveFinitary : Finitary motive)
    (baseFinitary : Finitary base) (stepFinitary : Finitary step) (resultFinitary : Finitary result) :
    Finitary fun valuation => indStep (motive valuation) (base valuation) (step valuation)
      (fun _ => result valuation) (target valuation) := by
  refine continuous_fit.finitary (motiveFinitary.apply targetFinitary) (.union (.union ?_ ?_) ?_)
  · exact .guard targetFinitary baseFinitary _
  · exact .guard targetFinitary (.blocked (Spine.finitary_indNat (targetFinitary.part 3)
      motiveFinitary baseFinitary stepFinitary)) _
  · exact .guard targetFinitary ((stepFinitary.apply (targetFinitary.part 0)).apply resultFinitary) _

theorem finitary_indStage (stage : Nat) {target motive base step : (ι → Domain) → Domain}
    (targetFinitary : Finitary target) (motiveFinitary : Finitary motive)
    (baseFinitary : Finitary base) (stepFinitary : Finitary step) :
    Finitary fun valuation =>
      indStage (motive valuation) (base valuation) (step valuation) stage (target valuation) := by
  induction stage generalizing target with
  | zero => exact .const ∅
  | succ stage ih =>
      exact finitary_indStep targetFinitary motiveFinitary baseFinitary stepFinitary
        (ih (targetFinitary.part 0))

theorem finitary_ind {target motive base step : (ι → Domain) → Domain}
    (targetFinitary : Finitary target) (motiveFinitary : Finitary motive)
    (baseFinitary : Finitary base) (stepFinitary : Finitary step) :
    Finitary fun valuation =>
      ind (target valuation) (motive valuation) (base valuation) (step valuation) :=
  .iUnion fun stage =>
    finitary_indStage stage targetFinitary motiveFinitary baseFinitary stepFinitary

section Induction

variable (motive base step : Domain)

theorem indStep_mono {inner inner' : Domain → Domain} (target : Domain)
    (below : inner (part 0 target) ⊆ inner' (part 0 target)) :
    indStep motive base step inner target ⊆ indStep motive base step inner' target :=
  continuous_fit.mono subset_rfl
    (Set.union_subset_union_right _ (guard_mono (apply_mono subset_rfl below)))

theorem indStage_subset_succ (target : Domain) (stage : Nat) :
    indStage motive base step stage target ⊆ indStage motive base step (stage + 1) target := by
  induction stage generalizing target with
  | zero => exact Set.empty_subset _
  | succ stage ih => exact indStep_mono motive base step target (ih (part 0 target))

theorem ind_eq (target : Domain) :
    ind target motive base step =
      indStep motive base step (fun inner => ind inner motive base step) target := by
  apply Set.Subset.antisymm
  · refine Set.iUnion_subset fun stage => ?_
    cases stage with
    | zero => exact Set.empty_subset _
    | succ stage =>
        exact indStep_mono motive base step target
          (Set.subset_iUnion (fun stage => indStage motive base step stage (part 0 target)) stage)
  · intro token mem
    have finitary := finitary_indStep (.const target) (.const motive) (.const base) (.const step)
      (Finitary.place ())
    obtain ⟨stage, stageMem⟩ :=
      finitary.mem_of_limit (fun _ => indStage_subset_succ motive base step (part 0 target)) mem
    exact Set.mem_iUnion.mpr ⟨stage + 1, stageMem⟩

theorem member_ind (target : Domain) :
    Member (motive.apply target) (ind target motive base step) := by
  rw [ind_eq]
  exact member_fit _ _

variable {motive base step}

theorem ind_zero (baseMember : Member (motive.apply (leaf .zero)) base) :
    ind (leaf .zero) motive base step = base := by
  rw [ind_eq, indStep]
  simp only [leaf, guard, tag_mem_node]
  simpa [Member, leaf] using baseMember

theorem ind_congr {motive' : Domain}
    (alike : ∀ argument, motive.apply argument = motive'.apply argument) (target : Domain) :
    ind target motive base step = ind target motive' base step := by
  have stages : ∀ stage target,
      indStage motive base step stage target = indStage motive' base step stage target := by
    intro stage
    induction stage with
    | zero => exact fun _ => rfl
    | succ stage ih =>
        intro target
        simp only [indStage, indStep, Spine.indNat, ih, alike]
  simp only [ind, stages]

end Induction

abbrev motiveType (domain : Domain) : Domain :=
  pi domain (lam fun _ => leaf .univ)

theorem Member.eq_family {domain motive : Domain} (isMember : Member (motiveType domain) motive) :
    (lam fun argument => motive.apply (fit domain argument)) = motive := by
  have shape := fit_pi domain (lam fun _ => leaf .univ) motive
  rw [isMember] at shape
  simpa only [apply_lam (.const _), fit_univ] using shape.symm

def stepRange (motive : Domain) : Domain :=
  lam fun predecessor =>
    pi (motive.apply predecessor) (lam fun _ => motive.apply (add1 predecessor))

def stepType (motive : Domain) : Domain :=
  pi (leaf .nat) (stepRange motive)

theorem finitary_stepRange {motive : (ι → Domain) → Domain} (motiveFinitary : Finitary motive) :
    Finitary fun valuation => stepRange (motive valuation) := by
  have outer : Finitary fun valuation : Option ι → Domain =>
      motive fun place => valuation (some place) :=
    motiveFinitary.comp fun place => .place (some place)
  have inner : Finitary fun valuation : Option (Option ι) → Domain =>
      motive fun place => valuation (some (some place)) :=
    motiveFinitary.comp fun place => .place (some (some place))
  have next : Finitary fun valuation : Option (Option ι) → Domain => add1 (valuation (some none)) :=
    .node .add1 (.place (some none)) (.const ∅) (.const ∅)
  have range : Finitary fun valuation : Option ι → Domain =>
      pi ((motive fun place => valuation (some place)).apply (valuation none))
        (lam fun _ => (motive fun place => valuation (some place)).apply (add1 (valuation none))) :=
    .node .pi (outer.apply (.place none)) (.lam (inner.apply next)) (.const ∅)
  exact .lam range

theorem stepRange_apply (motive predecessor : Domain) :
    (stepRange motive).apply predecessor =
      pi (motive.apply predecessor) (lam fun _ => motive.apply (add1 predecessor)) := by
  refine apply_lam ?_ predecessor
  have inner : Finitary fun valuation : Option Unit → Domain =>
      motive.apply (add1 (valuation (some ()))) :=
    .apply (.const motive) (.node .add1 (.place (some ())) (.const ∅) (.const ∅))
  exact .node .pi (.apply (.const motive) (.place ())) (.lam inner) (.const ∅)

theorem ind_add1 {motive step : Domain} (stepMember : Member (stepType motive) step)
    (predecessor base : Domain) :
    ind (add1 predecessor) motive base step =
      (step.apply predecessor).apply (ind predecessor motive base step) := by
  have functionMember := stepMember.apply (fit_nat predecessor)
  rw [stepRange_apply] at functionMember
  have resultMember := functionMember.apply (member_ind motive base step predecessor)
  rw [apply_lam (.const _)] at resultMember
  rw [ind_eq, indStep]
  simp only [add1, guard, tag_mem_node, part_zero_node]
  simpa [Member, add1] using resultMember

/-! ## Replacement and the empty type -/

/-- Replacement along a proof: the base, if the proof is canonical. -/
def replace (target motive base : Domain) : Domain :=
  fit (motive.apply (rightSide target))
    (guard (Token.tag .same ∈ part 2 target) base ∪
      guard (Token.tag .blocked ∈ part 2 target)
        (blocked (Spine.replace (part 0 target) (part 3 (part 2 target)) motive base)))

theorem finitary_replace {target motive base : (ι → Domain) → Domain}
    (targetFinitary : Finitary target) (motiveFinitary : Finitary motive)
    (baseFinitary : Finitary base) :
    Finitary fun valuation => replace (target valuation) (motive valuation) (base valuation) := by
  have right : Finitary fun valuation => rightSide (target valuation) :=
    (targetFinitary.part 1).part 1
  refine continuous_fit.finitary (motiveFinitary.apply right) (.union ?_ ?_)
  · exact .guard (targetFinitary.part 2) baseFinitary _
  · exact .guard (targetFinitary.part 2) (.blocked (Spine.finitary_replace (targetFinitary.part 0)
      ((targetFinitary.part 2).part 3) motiveFinitary baseFinitary)) _

section Replacement

variable {type left right motive base : Domain}

theorem replace_same (baseMember : Member (motive.apply right) base) :
    replace (proof type left right same) motive base = base := by
  rw [replace, rightSide_proof, part_two_proof]
  simpa [same, guard, Member] using baseMember

/-- Replacement sees its motive only at members of the type whose equality the target proves. -/
theorem replace_congr {motive' : Domain}
    (alike : ∀ argument, Member type argument → motive.apply argument = motive'.apply argument)
    (rightMember : Member type right) (evidence : Domain) :
    replace (proof type left right evidence) motive base =
      replace (proof type left right evidence) motive' base := by
  simp only [replace, rightSide_proof, part_zero_proof, part_two_proof, Spine.replace,
    alike right rightMember, fun argument => alike _ (member_fit type argument)]

end Replacement

def indAbsurd (type : Domain) : Domain :=
  fit type (blocked (Spine.indAbsurd type))

theorem finitary_indAbsurd {type : (ι → Domain) → Domain} (typeFinitary : Finitary type) :
    Finitary fun valuation => indAbsurd (type valuation) :=
  continuous_fit.finitary typeFinitary
    (.blocked (.node .indAbsurd typeFinitary (.const ∅) (.const ∅)))

/-! ## Eliminating blocked computations -/

section Blocked

variable (spine : Domain)

theorem apply_fit_blocked {domain range argument : Domain} (argumentMember : Member domain argument) :
    (fit (pi domain range) (blocked spine)).apply argument =
      fit (range.apply argument) (blocked (Spine.app spine argument)) := by
  rw [apply_fit_pi, argumentMember, apply_blocked]

theorem part_zero_fit_blocked (carType cdrType : Domain) :
    part 0 (fit (sigma carType cdrType) (blocked spine)) =
      fit carType (blocked (Spine.car spine)) := by
  rw [fit_sigma, pair, part_zero_node, part_zero_blocked]

theorem part_one_fit_blocked (carType cdrType : Domain) :
    part 1 (fit (sigma carType cdrType) (blocked spine)) =
      fit (cdrType.apply (fit carType (blocked (Spine.car spine)))) (blocked (Spine.cdr spine)) := by
  rw [fit_sigma, pair, part_one_node, part_zero_blocked, part_one_blocked]

theorem ind_blocked (motive base step : Domain) :
    ind (blocked spine) motive base step =
      fit (motive.apply (blocked spine)) (blocked (Spine.indNat spine motive base step)) := by
  rw [ind_eq, indStep]
  simp [guard]

theorem replace_fit_blocked (type left right motive base : Domain) :
    replace (fit (equal type left right) (blocked spine)) motive base =
      fit (motive.apply right) (blocked (Spine.replace type spine motive base)) := by
  rw [fit_equal, part_two_blocked, replace, rightSide_proof, part_zero_proof, part_two_proof]
  simp [guard]

end Blocked

end LambdaCalculi.Dependent.Domain
