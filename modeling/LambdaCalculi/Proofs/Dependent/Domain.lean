import Mathlib.Data.Set.Lattice

/-!
# A domain for meanings

The universe of the dependent calculus is a member of itself, so its types are not sets of values.
Meanings are taken from a graph model instead: an element is a set of tokens, a function is the set
of its finite observations, and a function of meanings can be made an element again when it is
finitary, that is, when every token of its result needs only finitely many tokens of its arguments.
Functions of many arguments are functions of valuations here, with any type of places, so one
notion serves for variables and for arguments.
-/

set_option autoImplicit false

namespace LambdaCalculi.Dependent

/-- The constructors that an element may show; the last ones tell what a blocked computation is. -/
inductive Tag where
  | pi
  | sigma
  | pair
  | nat
  | zero
  | add1
  | equal
  | proof
  | same
  | trivial
  | absurd
  | atom
  | tick (symbol : String)
  | univ
  | blocked
  /-- An assumption, by the number of the assumptions before it. -/
  | assumed (level : Nat)
  | app
  | car
  | cdr
  | indNat
  | replace
  | indAbsurd

inductive Token where
  | tag (tag : Tag)
  /-- Information on the component with the given number. -/
  | part (place : Nat) (token : Token)
  /-- From the inputs, a function gives the output. -/
  | graph (inputs : List Token) (output : Token)

abbrev Domain := Set Token

namespace Domain

def apply (function argument : Domain) : Domain :=
  {token | ∃ inputs : List Token, (∀ input ∈ inputs, input ∈ argument) ∧
    Token.graph inputs token ∈ function}

def lam (body : Domain → Domain) : Domain :=
  {token | ∃ inputs output, token = Token.graph inputs output ∧
    output ∈ body {input | input ∈ inputs}}

def part (place : Nat) (whole : Domain) : Domain :=
  {token | Token.part place token ∈ whole}

/-- An element with a constructor and three components; unused components are empty. -/
def node (tag : Tag) (first second third : Domain) : Domain :=
  {token | token = .tag tag ∨ (∃ inner ∈ first, token = .part 0 inner) ∨
    (∃ inner ∈ second, token = .part 1 inner) ∨ ∃ inner ∈ third, token = .part 2 inner}

def guard (condition : Prop) (inner : Domain) : Domain :=
  {token | condition ∧ token ∈ inner}

section Node

variable (tag : Tag) (first second third : Domain)

@[simp]
theorem part_zero_node : part 0 (node tag first second third) = first := by
  ext token
  simp [part, node]

@[simp]
theorem part_one_node : part 1 (node tag first second third) = second := by
  ext token
  simp [part, node]

@[simp]
theorem part_two_node : part 2 (node tag first second third) = third := by
  ext token
  simp [part, node]

@[simp]
theorem tag_mem_node (other : Tag) :
    Token.tag other ∈ node tag first second third ↔ other = tag := by
  simp [node]

end Node

theorem node_injective {tag tag' : Tag} {first second third first' second' third' : Domain}
    (same : node tag first second third = node tag' first' second' third') :
    tag = tag' ∧ first = first' ∧ second = second' ∧ third = third' := by
  refine ⟨?_, ?_, ?_, ?_⟩
  · have shown : Token.tag tag ∈ node tag first second third := by simp
    rw [same] at shown
    simpa using shown
  · simpa using congrArg (part 0) same
  · simpa using congrArg (part 1) same
  · simpa using congrArg (part 2) same

theorem lam_congr {body body' : Domain → Domain} (same : ∀ argument, body argument = body' argument) :
    lam body = lam body' := by
  rw [funext same]

/-! ## Finitary functions of valuations -/

variable {ι κ : Type}

def Meets (valuation : ι → Domain) (needed : List (ι × Token)) : Prop :=
  ∀ need ∈ needed, need.2 ∈ valuation need.1

theorem meets_append {valuation : ι → Domain} {first second : List (ι × Token)} :
    Meets valuation (first ++ second) ↔ Meets valuation first ∧ Meets valuation second :=
  List.forall_mem_append

theorem subset_of_le {stages : Nat → Domain} (grows : ∀ stage, stages stage ⊆ stages (stage + 1))
    {stage more : Nat} (le : stage ≤ more) : stages stage ⊆ stages more := by
  induction le with
  | refl => exact Set.Subset.rfl
  | step _ ih => exact Set.Subset.trans ih (grows _)

/-- Every token of a result needs only finitely many tokens of the arguments. -/
def Finitary (function : (ι → Domain) → Domain) : Prop :=
  ∀ valuation token, token ∈ function valuation →
    ∃ needed, Meets valuation needed ∧ ∀ other, Meets other needed → token ∈ function other

namespace Finitary

theorem mono {function : (ι → Domain) → Domain} (finitary : Finitary function)
    {valuation other : ι → Domain} (below : ∀ place, valuation place ⊆ other place) :
    function valuation ⊆ function other := by
  intro token mem
  obtain ⟨needed, holds, enough⟩ := finitary valuation token mem
  exact enough other fun need inside => below need.1 (holds need inside)

theorem const (value : Domain) : Finitary fun _ : ι → Domain => value := by
  intro valuation token mem
  exact ⟨[], by simp [Meets], fun _ _ => mem⟩

theorem place (index : ι) : Finitary fun valuation : ι → Domain => valuation index := by
  intro valuation token mem
  refine ⟨[(index, token)], by simpa [Meets] using mem, ?_⟩
  intro other holds
  simpa [Meets] using holds

/-- Finitely many tokens need only finitely many. -/
theorem meets {functions : κ → (ι → Domain) → Domain}
    (finitary : ∀ place, Finitary (functions place)) {valuation : ι → Domain}
    {wanted : List (κ × Token)} (met : Meets (fun place => functions place valuation) wanted) :
    ∃ needed, Meets valuation needed ∧
      ∀ other, Meets other needed → Meets (fun place => functions place other) wanted := by
  induction wanted with
  | nil => exact ⟨[], by simp [Meets], by simp [Meets]⟩
  | cons want rest ih =>
      obtain ⟨wantMet, restMet⟩ := List.forall_mem_cons.mp met
      obtain ⟨first, firstHolds, firstEnough⟩ := finitary want.1 valuation want.2 wantMet
      obtain ⟨second, secondHolds, secondEnough⟩ := ih restMet
      refine ⟨first ++ second, meets_append.mpr ⟨firstHolds, secondHolds⟩, ?_⟩
      intro other holds
      obtain ⟨inFirst, inSecond⟩ := meets_append.mp holds
      exact List.forall_mem_cons.mpr ⟨firstEnough other inFirst, secondEnough other inSecond⟩

theorem comp {outer : (κ → Domain) → Domain} {inner : κ → (ι → Domain) → Domain}
    (outerFinitary : Finitary outer) (innerFinitary : ∀ place, Finitary (inner place)) :
    Finitary fun valuation => outer fun place => inner place valuation := by
  intro valuation token mem
  obtain ⟨wanted, wantedHolds, wantedEnough⟩ := outerFinitary _ token mem
  obtain ⟨needed, holds, enough⟩ := meets innerFinitary wantedHolds
  exact ⟨needed, holds, fun other otherHolds => wantedEnough _ (enough other otherHolds)⟩

theorem apply {function argument : (ι → Domain) → Domain} (functionFinitary : Finitary function)
    (argumentFinitary : Finitary argument) :
    Finitary fun valuation => (function valuation).apply (argument valuation) := by
  rintro valuation token ⟨inputs, inputsMem, graph⟩
  obtain ⟨first, firstHolds, firstEnough⟩ := functionFinitary valuation _ graph
  have inputsMet : Meets (fun _ : Unit => argument valuation) (inputs.map fun input => ((), input)) :=
    List.forall_mem_map.mpr inputsMem
  obtain ⟨second, secondHolds, secondEnough⟩ := meets (fun _ => argumentFinitary) inputsMet
  refine ⟨first ++ second, meets_append.mpr ⟨firstHolds, secondHolds⟩, ?_⟩
  intro other holds
  obtain ⟨inFirst, inSecond⟩ := meets_append.mp holds
  refine ⟨inputs, ?_, firstEnough other inFirst⟩
  intro input inside
  exact secondEnough other inSecond ((), input) (List.mem_map.mpr ⟨input, inside, rfl⟩)

/-- An abstraction is finitary when its body is, with one more place for the argument. -/
theorem lam {body : (ι → Domain) → Domain → Domain}
    (finitary : Finitary fun valuation : Option ι → Domain =>
      body (fun place => valuation (some place)) (valuation none)) :
    Finitary fun valuation => Domain.lam (body valuation) := by
  rintro valuation token ⟨inputs, output, rfl, mem⟩
  let argument : Domain := {input | input ∈ inputs}
  obtain ⟨needed, holds, enough⟩ := finitary (fun place => place.elim argument valuation) output mem
  refine ⟨needed.filterMap fun need => need.1.map fun place => (place, need.2), ?_, ?_⟩
  · intro need inside
    obtain ⟨⟨place, wanted⟩, original, found⟩ := List.mem_filterMap.mp inside
    cases place with
    | none => cases found
    | some place =>
        cases found
        exact holds _ original
  · intro other otherHolds
    refine ⟨inputs, output, rfl, enough (fun place => place.elim argument other) ?_⟩
    rintro ⟨place, wanted⟩ inside
    cases place with
    | none => exact holds _ inside
    | some place => exact otherHolds (place, wanted) (List.mem_filterMap.mpr ⟨_, inside, rfl⟩)

theorem part {whole : (ι → Domain) → Domain} (finitary : Finitary whole) (place : Nat) :
    Finitary fun valuation => (whole valuation).part place := by
  intro valuation token mem
  exact finitary valuation _ mem

theorem guard {condition inner : (ι → Domain) → Domain} (conditionFinitary : Finitary condition)
    (innerFinitary : Finitary inner) (wanted : Token) :
    Finitary fun valuation => Domain.guard (wanted ∈ condition valuation) (inner valuation) := by
  rintro valuation token ⟨shown, mem⟩
  obtain ⟨first, firstHolds, firstEnough⟩ := conditionFinitary valuation wanted shown
  obtain ⟨second, secondHolds, secondEnough⟩ := innerFinitary valuation token mem
  refine ⟨first ++ second, meets_append.mpr ⟨firstHolds, secondHolds⟩, ?_⟩
  intro other holds
  obtain ⟨inFirst, inSecond⟩ := meets_append.mp holds
  exact ⟨firstEnough other inFirst, secondEnough other inSecond⟩

theorem iUnion {α : Type} {parts : α → (ι → Domain) → Domain}
    (finitary : ∀ index, Finitary (parts index)) :
    Finitary fun valuation => ⋃ index, parts index valuation := by
  intro valuation token mem
  obtain ⟨index, indexMem⟩ := Set.mem_iUnion.mp mem
  obtain ⟨needed, holds, enough⟩ := finitary index valuation token indexMem
  exact ⟨needed, holds, fun other otherHolds => Set.mem_iUnion.mpr ⟨index, enough other otherHolds⟩⟩

theorem union {left right : (ι → Domain) → Domain} (leftFinitary : Finitary left)
    (rightFinitary : Finitary right) : Finitary fun valuation => left valuation ∪ right valuation := by
  rintro valuation token (mem | mem)
  · obtain ⟨needed, holds, enough⟩ := leftFinitary valuation token mem
    exact ⟨needed, holds, fun other otherHolds => .inl (enough other otherHolds)⟩
  · obtain ⟨needed, holds, enough⟩ := rightFinitary valuation token mem
    exact ⟨needed, holds, fun other otherHolds => .inr (enough other otherHolds)⟩

theorem node {first second third : (ι → Domain) → Domain} (tag : Tag)
    (firstFinitary : Finitary first) (secondFinitary : Finitary second)
    (thirdFinitary : Finitary third) :
    Finitary fun valuation =>
      Domain.node tag (first valuation) (second valuation) (third valuation) := by
  rintro valuation token (rfl | ⟨inner, mem, rfl⟩ | ⟨inner, mem, rfl⟩ | ⟨inner, mem, rfl⟩)
  · exact ⟨[], by simp [Meets], fun _ _ => .inl rfl⟩
  · obtain ⟨needed, holds, enough⟩ := firstFinitary valuation inner mem
    exact ⟨needed, holds, fun other otherHolds =>
      .inr (.inl ⟨inner, enough other otherHolds, rfl⟩)⟩
  · obtain ⟨needed, holds, enough⟩ := secondFinitary valuation inner mem
    exact ⟨needed, holds, fun other otherHolds =>
      .inr (.inr (.inl ⟨inner, enough other otherHolds, rfl⟩))⟩
  · obtain ⟨needed, holds, enough⟩ := thirdFinitary valuation inner mem
    exact ⟨needed, holds, fun other otherHolds =>
      .inr (.inr (.inr ⟨inner, enough other otherHolds, rfl⟩))⟩

/-- At the union of a growing sequence, a token is already there at some member of it. -/
theorem mem_of_limit {function : (ι → Domain) → Domain} (finitary : Finitary function)
    {valuations : Nat → ι → Domain}
    (grows : ∀ place stage, valuations stage place ⊆ valuations (stage + 1) place)
    {token : Token} (mem : token ∈ function fun place => ⋃ stage, valuations stage place) :
    ∃ stage, token ∈ function (valuations stage) := by
  obtain ⟨needed, holds, enough⟩ := finitary _ token mem
  have reached : ∃ stage, Meets (valuations stage) needed := by
    clear enough
    induction needed with
    | nil => exact ⟨0, by simp [Meets]⟩
    | cons need rest ih =>
        obtain ⟨needMet, restMet⟩ := List.forall_mem_cons.mp holds
        obtain ⟨first, firstMem⟩ := Set.mem_iUnion.mp needMet
        obtain ⟨second, secondMet⟩ := ih restMet
        refine ⟨max first second, List.forall_mem_cons.mpr ⟨?_, ?_⟩⟩
        · exact subset_of_le (grows need.1) (Nat.le_max_left first second) firstMem
        · intro other inside
          exact subset_of_le (grows other.1) (Nat.le_max_right first second) (secondMet other inside)
  obtain ⟨stage, stageMet⟩ := reached
  exact ⟨stage, enough _ stageMet⟩

end Finitary

def FinitaryMap (body : Domain → Domain) : Prop :=
  Finitary fun valuation : Unit → Domain => body (valuation ())

theorem FinitaryMap.const (value : Domain) : FinitaryMap fun _ => value :=
  Finitary.const value

theorem FinitaryMap.id : FinitaryMap fun argument => argument :=
  Finitary.place ()

theorem FinitaryMap.apply {function argument : Domain → Domain} (functionFinitary : FinitaryMap function)
    (argumentFinitary : FinitaryMap argument) :
    FinitaryMap fun input => (function input).apply (argument input) :=
  Finitary.apply functionFinitary argumentFinitary

/-- An abstraction applied to an argument is its body at the argument. -/
theorem apply_lam {body : Domain → Domain} (finitary : FinitaryMap body) (argument : Domain) :
    (lam body).apply argument = body argument := by
  ext token
  constructor
  · rintro ⟨inputs, inputsMem, otherInputs, output, same, mem⟩
    cases same
    have below : ∀ _ : Unit, {input | input ∈ inputs} ⊆ argument := fun _ => inputsMem
    exact finitary.mono below mem
  · intro mem
    -- The tokens of the argument that the result needs are the inputs of an observation.
    obtain ⟨needed, holds, enough⟩ := finitary (fun _ => argument) token mem
    have met : Meets (fun _ : Unit => {input | input ∈ needed.map Prod.snd}) needed :=
      fun need inside => List.mem_map.mpr ⟨need, inside, rfl⟩
    exact ⟨needed.map Prod.snd, List.forall_mem_map.mpr holds, needed.map Prod.snd, token, rfl,
      enough _ met⟩

end Domain

end LambdaCalculi.Dependent
