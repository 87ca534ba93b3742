import LambdaCalculi.Proofs.Dependent.Domain

/-!
# Types as elements of the domain

Every element of the domain is read as the code of a type: `fit code` turns any element into a
member of the type, and the members are the elements that it leaves as they are. The code of a
function type fits a function by fitting its arguments and its results, and so on for the other
formers. Everything is a member of a type that is itself blocked, and a code that shows no former
has the empty element as its only member. Since `fit` recurs through codes that it computes, it is
the union of its stages. An element with two tags at once is no sensible code, and is made one by
letting everything fit into one element.
-/

set_option autoImplicit false

namespace LambdaCalculi.Dependent.Domain

variable {ι : Type}

/-! ## Monotonicity -/

theorem apply_mono {function function' argument argument' : Domain} (functionBelow : function ⊆ function')
    (argumentBelow : argument ⊆ argument') : function.apply argument ⊆ function'.apply argument' := by
  rintro token ⟨inputs, inputsMem, graph⟩
  exact ⟨inputs, fun input inside => argumentBelow (inputsMem input inside), functionBelow graph⟩

theorem lam_mono {body body' : Domain → Domain} (below : ∀ argument, body argument ⊆ body' argument) :
    lam body ⊆ lam body' := by
  rintro token ⟨inputs, output, rfl, mem⟩
  exact ⟨inputs, output, rfl, below _ mem⟩

theorem node_mono {tag : Tag} {first second third first' second' third' : Domain}
    (firstBelow : first ⊆ first') (secondBelow : second ⊆ second') (thirdBelow : third ⊆ third') :
    node tag first second third ⊆ node tag first' second' third' := by
  rintro token (rfl | ⟨inner, mem, rfl⟩ | ⟨inner, mem, rfl⟩ | ⟨inner, mem, rfl⟩)
  · exact .inl rfl
  · exact .inr (.inl ⟨inner, firstBelow mem, rfl⟩)
  · exact .inr (.inr (.inl ⟨inner, secondBelow mem, rfl⟩))
  · exact .inr (.inr (.inr ⟨inner, thirdBelow mem, rfl⟩))

theorem guard_mono {condition : Prop} {inner inner' : Domain} (below : inner ⊆ inner') :
    guard condition inner ⊆ guard condition inner' := by
  rintro token ⟨holds, mem⟩
  exact ⟨holds, below mem⟩

structure Continuous (function : Domain → Domain → Domain) : Prop where
  finitary : ∀ {ι : Type} {left right : (ι → Domain) → Domain}, Finitary left → Finitary right →
    Finitary fun valuation => function (left valuation) (right valuation)

theorem Continuous.mono {function : Domain → Domain → Domain} (continuous : Continuous function)
    {left left' right right' : Domain} (leftBelow : left ⊆ left') (rightBelow : right ⊆ right') :
    function left right ⊆ function left' right' := by
  have finitary := continuous.finitary (Finitary.place true) (Finitary.place false)
  have below : ∀ place : Bool, (if place then left else right) ⊆ if place then left' else right' := by
    intro place
    cases place
    · exact rightBelow
    · exact leftBelow
  exact finitary.mono below

/-! ## Fitting elements into types -/

/-- What one former makes of an element, with `fit` for its components. -/
def former (fit : Domain → Domain → Domain) (tag : Tag) (code element : Domain) : Domain :=
  match tag with
  | .pi => lam fun argument =>
      fit ((part 1 code).apply (fit (part 0 code) argument))
        (element.apply (fit (part 0 code) argument))
  | .sigma =>
      node .pair (fit (part 0 code) (part 0 element))
        (fit ((part 1 code).apply (fit (part 0 code) (part 0 element))) (part 1 element)) ∅
  | .equal =>
      node .proof (part 0 code) (node .pair (part 1 code) (part 2 code) ∅) (part 2 element)
  | .nat => element
  | .atom => element
  | .univ => element
  | .blocked => element
  | _ => ∅

/-- Everything, if the code shows two tags. -/
def conflict (code : Domain) : Domain :=
  ⋃ tags : {tags : Tag × Tag // tags.1 ≠ tags.2},
    guard (Token.tag tags.1.1 ∈ code) (guard (Token.tag tags.1.2 ∈ code) Set.univ)

def fitStep (fit : Domain → Domain → Domain) (code element : Domain) : Domain :=
  (⋃ tag, guard (Token.tag tag ∈ code) (former fit tag code element)) ∪ conflict code

def fitStage : Nat → Domain → Domain → Domain
  | 0 => fun _ _ => ∅
  | stage + 1 => fitStep (fitStage stage)

def fit (code element : Domain) : Domain :=
  ⋃ stage, fitStage stage code element

theorem continuous_former {fit : Domain → Domain → Domain} (continuous : Continuous fit) (tag : Tag) :
    Continuous (former fit tag) := by
  refine ⟨?_⟩
  intro ι code element codeFinitary elementFinitary
  cases tag with
  | pi =>
      simp only [former]
      refine .lam ?_
      have codeInside : Finitary fun valuation : Option ι → Domain =>
          code fun place => valuation (some place) := codeFinitary.comp fun place => .place _
      have elementInside : Finitary fun valuation : Option ι → Domain =>
          element fun place => valuation (some place) := elementFinitary.comp fun place => .place _
      have argument := continuous.finitary (codeInside.part 0) (Finitary.place none)
      exact continuous.finitary ((codeInside.part 1).apply argument) (elementInside.apply argument)
  | sigma =>
      have first := continuous.finitary (codeFinitary.part 0) (elementFinitary.part 0)
      have second :=
        continuous.finitary ((codeFinitary.part 1).apply first) (elementFinitary.part 1)
      exact .node _ first second (.const ∅)
  | equal =>
      have sides := Finitary.node .pair (codeFinitary.part 1) (codeFinitary.part 2) (.const ∅)
      exact .node _ (codeFinitary.part 0) sides (elementFinitary.part 2)
  | nat => exact elementFinitary
  | atom => exact elementFinitary
  | univ => exact elementFinitary
  | blocked => exact elementFinitary
  | _ => exact .const ∅

theorem continuous_fitStep {fit : Domain → Domain → Domain} (continuous : Continuous fit) :
    Continuous (fitStep fit) := by
  refine ⟨?_⟩
  intro ι code element codeFinitary elementFinitary
  refine .union (.iUnion fun tag => ?_) (.iUnion fun tags => ?_)
  · exact .guard codeFinitary
      ((continuous_former continuous tag).finitary codeFinitary elementFinitary) _
  · exact .guard codeFinitary (.guard codeFinitary (.const _) _) _

theorem continuous_fitStage (stage : Nat) : Continuous (fitStage stage) := by
  induction stage with
  | zero => exact ⟨fun _ _ => .const ∅⟩
  | succ stage ih => exact continuous_fitStep ih

theorem continuous_fit : Continuous fit :=
  ⟨fun codeFinitary elementFinitary =>
    .iUnion fun stage => (continuous_fitStage stage).finitary codeFinitary elementFinitary⟩

theorem former_mono {smaller larger : Domain → Domain → Domain}
    (below : ∀ code element, smaller code element ⊆ larger code element)
    (continuous : Continuous larger) (tag : Tag) (code element : Domain) :
    former smaller tag code element ⊆ former larger tag code element := by
  cases tag with
  | pi =>
      simp only [former]
      refine lam_mono fun argument => (below _ _).trans ?_
      exact continuous.mono (apply_mono subset_rfl (below _ _)) (apply_mono subset_rfl (below _ _))
  | sigma =>
      refine node_mono (below _ _) ((below _ _).trans ?_) subset_rfl
      exact continuous.mono (apply_mono subset_rfl (below _ _)) subset_rfl
  | _ => exact subset_rfl

theorem fitStep_mono {smaller larger : Domain → Domain → Domain}
    (below : ∀ code element, smaller code element ⊆ larger code element)
    (continuous : Continuous larger) (code element : Domain) :
    fitStep smaller code element ⊆ fitStep larger code element :=
  Set.union_subset_union_left _ (Set.iUnion_mono fun tag =>
    guard_mono (former_mono below continuous tag code element))

theorem fitStage_subset_succ (code element : Domain) (stage : Nat) :
    fitStage stage code element ⊆ fitStage (stage + 1) code element := by
  induction stage generalizing code element with
  | zero => exact Set.empty_subset _
  | succ stage ih => exact fitStep_mono ih (continuous_fitStage (stage + 1)) code element

theorem fitStage_subset_fit (stage : Nat) (code element : Domain) :
    fitStage stage code element ⊆ fit code element :=
  Set.subset_iUnion (fun stage => fitStage stage code element) stage

theorem fitStage_mono {stage more : Nat} (le : stage ≤ more) {code code' element element' : Domain}
    (codeBelow : code ⊆ code') (elementBelow : element ⊆ element') :
    fitStage stage code element ⊆ fitStage more code' element' :=
  (subset_of_le (fitStage_subset_succ code element) le).trans
    ((continuous_fitStage more).mono codeBelow elementBelow)

/-- A result of fitting that depends on another one is there at some stage of both. -/
theorem mem_fitStage_of_mem_fit {codeOf elementOf : Domain → Domain} (codeFinitary : FinitaryMap codeOf)
    (elementFinitary : FinitaryMap elementOf) {code element : Domain} {token : Token}
    (mem : token ∈ fit (codeOf (fit code element)) (elementOf (fit code element))) :
    ∃ stage, token ∈ fitStage stage (codeOf (fitStage stage code element))
      (elementOf (fitStage stage code element)) := by
  obtain ⟨outer, outerMem⟩ := Set.mem_iUnion.mp mem
  obtain ⟨inner, innerMem⟩ :=
    ((continuous_fitStage outer).finitary codeFinitary elementFinitary).mem_of_limit
      (fun _ => fitStage_subset_succ code element) outerMem
  have grown := subset_of_le (fitStage_subset_succ code element) (Nat.le_max_right outer inner)
  exact ⟨max outer inner, fitStage_mono (Nat.le_max_left outer inner)
    (codeFinitary.mono fun _ => grown) (elementFinitary.mono fun _ => grown) innerMem⟩

theorem former_fit_subset (tag : Tag) (code element : Domain) :
    former fit tag code element ⊆ ⋃ stage, former (fitStage stage) tag code element := by
  intro token mem
  have applied : ∀ function : Domain, FinitaryMap fun argument => function.apply argument :=
    fun function => .apply (.const function) .id
  cases tag with
  | pi =>
      obtain ⟨inputs, output, rfl, outputMem⟩ := mem
      obtain ⟨stage, stageMem⟩ := mem_fitStage_of_mem_fit (applied _) (applied _) outputMem
      exact Set.mem_iUnion.mpr ⟨stage, inputs, output, rfl, stageMem⟩
  | sigma =>
      rcases mem with rfl | ⟨inner, innerMem, rfl⟩ | ⟨inner, innerMem, rfl⟩ | ⟨inner, innerMem, rfl⟩
      · exact Set.mem_iUnion.mpr ⟨0, .inl rfl⟩
      · obtain ⟨stage, stageMem⟩ := Set.mem_iUnion.mp innerMem
        exact Set.mem_iUnion.mpr ⟨stage, .inr (.inl ⟨inner, stageMem, rfl⟩)⟩
      · obtain ⟨stage, stageMem⟩ :=
          mem_fitStage_of_mem_fit (applied _) (.const (part 1 element)) innerMem
        exact Set.mem_iUnion.mpr ⟨stage, .inr (.inr (.inl ⟨inner, stageMem, rfl⟩))⟩
      · exact absurd innerMem (Set.notMem_empty inner)
  | _ => exact Set.mem_iUnion.mpr ⟨0, mem⟩

theorem fit_eq (code element : Domain) : fit code element = fitStep fit code element := by
  apply Set.Subset.antisymm
  · refine Set.iUnion_subset fun stage => ?_
    cases stage with
    | zero => exact Set.empty_subset _
    | succ stage =>
        exact fitStep_mono (fitStage_subset_fit stage) continuous_fit code element
  · rintro token (mem | mem)
    · obtain ⟨tag, shown, tagMem⟩ := Set.mem_iUnion.mp mem
      obtain ⟨stage, stageMem⟩ := Set.mem_iUnion.mp (former_fit_subset tag code element tagMem)
      exact fitStage_subset_fit (stage + 1) code element
        (.inl (Set.mem_iUnion.mpr ⟨tag, shown, stageMem⟩))
    · exact fitStage_subset_fit 1 code element (.inr mem)

/-! ## Fitting twice changes nothing more -/

section OneStep

variable (inner : Domain → Domain → Domain) {code : Domain}

theorem fitStep_of_conflict {tag other : Tag} (different : tag ≠ other)
    (shown : Token.tag tag ∈ code) (otherShown : Token.tag other ∈ code) (element : Domain) :
    fitStep inner code element = Set.univ := by
  refine Set.eq_univ_of_forall fun token => .inr (Set.mem_iUnion.mpr ⟨⟨(tag, other), different⟩, ?_⟩)
  exact ⟨shown, otherShown, Set.mem_univ token⟩

theorem fitStep_of_tag {tag : Tag} (shown : Token.tag tag ∈ code)
    (only : ∀ other, Token.tag other ∈ code → other = tag) (element : Domain) :
    fitStep inner code element = former inner tag code element := by
  apply Set.Subset.antisymm
  · rintro token (mem | mem)
    · obtain ⟨other, otherShown, otherMem⟩ := Set.mem_iUnion.mp mem
      rw [only other otherShown] at otherMem
      exact otherMem
    · obtain ⟨⟨⟨first, second⟩, different⟩, firstShown, secondShown, _⟩ := Set.mem_iUnion.mp mem
      exact absurd ((only first firstShown).trans (only second secondShown).symm) different
  · intro token mem
    exact .inl (Set.mem_iUnion.mpr ⟨tag, shown, mem⟩)

theorem fitStep_of_none (none : ∀ tag, Token.tag tag ∉ code) (element : Domain) :
    fitStep inner code element = ∅ := by
  refine Set.eq_empty_of_forall_notMem fun token mem => ?_
  rcases mem with mem | mem
  · obtain ⟨tag, shown, _⟩ := Set.mem_iUnion.mp mem
    exact none tag shown
  · obtain ⟨tags, shown, _⟩ := Set.mem_iUnion.mp mem
    exact none _ shown

end OneStep

theorem former_former {inner : Domain → Domain → Domain} (continuous : Continuous inner)
    (twice : ∀ code element, inner code (inner code element) = inner code element) (tag : Tag)
    (code element : Domain) :
    former inner tag code (former inner tag code element) = former inner tag code element := by
  cases tag with
  | pi =>
      have fitted : FinitaryMap fun argument => inner (part 0 code) argument :=
        continuous.finitary (.const _) (.place ())
      have body : FinitaryMap fun argument =>
          inner ((part 1 code).apply (inner (part 0 code) argument))
            (element.apply (inner (part 0 code) argument)) :=
        continuous.finitary (.apply (.const _) fitted) (.apply (.const _) fitted)
      simp only [former]
      refine lam_congr fun argument => ?_
      rw [apply_lam body, twice, twice]
  | sigma => simp only [former, part_zero_node, part_one_node, twice]
  | equal => simp only [former, part_two_node]
  | _ => rfl

theorem fitStage_fitStage (stage : Nat) (code element : Domain) :
    fitStage stage code (fitStage stage code element) = fitStage stage code element := by
  induction stage generalizing code element with
  | zero => rfl
  | succ stage ih =>
      by_cases shown : ∃ tag, Token.tag tag ∈ code
      · obtain ⟨tag, tagShown⟩ := shown
        by_cases only : ∀ other, Token.tag other ∈ code → other = tag
        · simp only [fitStage, fitStep_of_tag _ tagShown only]
          exact former_former (continuous_fitStage stage) ih tag code element
        · obtain ⟨other, otherShown, different⟩ :
              ∃ other, Token.tag other ∈ code ∧ other ≠ tag := by
            simpa using only
          simp only [fitStage, fitStep_of_conflict _ different otherShown tagShown]
      · have none : ∀ tag, Token.tag tag ∉ code := fun tag tagShown => shown ⟨tag, tagShown⟩
        simp only [fitStage, fitStep_of_none _ none]

theorem fit_fit (code element : Domain) : fit code (fit code element) = fit code element := by
  apply Set.Subset.antisymm
  · intro token mem
    obtain ⟨stage, stageMem⟩ :=
      mem_fitStage_of_mem_fit (.const code) .id mem
    rw [fitStage_fitStage] at stageMem
    exact fitStage_subset_fit stage code element stageMem
  · refine Set.iUnion_subset fun stage => ?_
    rw [← fitStage_fitStage]
    exact (fitStage_subset_fit stage _ _).trans
      (continuous_fit.mono subset_rfl (fitStage_subset_fit stage _ _))

end LambdaCalculi.Dependent.Domain
