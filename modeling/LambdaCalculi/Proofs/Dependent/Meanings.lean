import LambdaCalculi.Name
import LambdaCalculi.Proofs.Dependent.Members

/-!
# Meanings under assumptions

The meaning of a term or a value depends on the elements that its free variables stand for. A world
lists the variables that values may mention, each with the meaning of its type. Two meanings agree
in a world when no valuation that the world admits tells them apart, and every world admits a
generic valuation, at which all that is known of a variable is its type and that computing with it
is blocked.

Each construct of the calculus has its rule here, as a statement about meanings and their types.
-/

set_option autoImplicit false

namespace LambdaCalculi.Dependent

open Domain

abbrev Valuation := Name → Domain

abbrev Meaning := Valuation → Domain

namespace Meaning

abbrev leaf (tag : Tag) : Meaning :=
  fun _ => Domain.leaf tag

abbrev pi (domain range : Meaning) : Meaning :=
  fun valuation => Domain.pi (domain valuation) (range valuation)

abbrev apply (function argument : Meaning) : Meaning :=
  fun valuation => (function valuation).apply (argument valuation)

abbrev sigma (carType cdrType : Meaning) : Meaning :=
  fun valuation => Domain.sigma (carType valuation) (cdrType valuation)

abbrev pair (first second : Meaning) : Meaning :=
  fun valuation => Domain.pair (first valuation) (second valuation)

abbrev part (place : Nat) (whole : Meaning) : Meaning :=
  fun valuation => Domain.part place (whole valuation)

abbrev add1 (predecessor : Meaning) : Meaning :=
  fun valuation => Domain.add1 (predecessor valuation)

abbrev ind (target motive base step : Meaning) : Meaning :=
  fun valuation =>
    Domain.ind (target valuation) (motive valuation) (base valuation) (step valuation)

abbrev stepRange (motive : Meaning) : Meaning :=
  fun valuation => Domain.stepRange (motive valuation)

abbrev stepType (motive : Meaning) : Meaning :=
  pi (leaf .nat) (stepRange motive)

abbrev equal (type left right : Meaning) : Meaning :=
  fun valuation => Domain.equal (type valuation) (left valuation) (right valuation)

abbrev same (type left right : Meaning) : Meaning :=
  fun valuation => Domain.proof (type valuation) (left valuation) (right valuation) Domain.same

abbrev replace (target motive base : Meaning) : Meaning :=
  fun valuation => Domain.replace (target valuation) (motive valuation) (base valuation)

abbrev indAbsurd (type : Meaning) : Meaning :=
  fun valuation => Domain.indAbsurd (type valuation)

/-- The function that gives `body` its argument, made to fit into the domain, for the variable. -/
def family (x : Name) (domain body : Meaning) : Meaning :=
  fun valuation => lam fun argument =>
    body (Function.update valuation x (fit (domain valuation) argument))

abbrev constantUniv : Meaning :=
  fun _ => lam fun _ => Domain.leaf .univ

abbrev motiveType (domain : Meaning) : Meaning :=
  pi domain constantUniv

section Updates

variable {body : Meaning} (finitary : Finitary body) (x : Name)

include finitary

/-- A finitary meaning stays finitary when its variables are given finitary meanings. -/
theorem finitary_update {ι : Type} {valuation : (ι → Domain) → Valuation}
    {element : (ι → Domain) → Domain} (valuationFinitary : ∀ y, Finitary fun places => valuation places y)
    (elementFinitary : Finitary element) :
    Finitary fun places => body (Function.update (valuation places) x (element places)) := by
  have inner : ∀ y, Finitary fun places => Function.update (valuation places) x (element places) y := by
    intro y
    by_cases same : y = x
    · subst same
      simpa only [Function.update_self] using elementFinitary
    · simpa only [Function.update_of_ne same] using valuationFinitary y
  exact finitary.comp inner

theorem finitaryMap_update (valuation : Valuation) :
    FinitaryMap fun argument => body (Function.update valuation x argument) :=
  finitary_update finitary x (fun y => .const (valuation y)) (.place ())

theorem finitary_lam_update :
    Finitary fun valuation => lam fun argument => body (Function.update valuation x argument) :=
  .lam (finitary_update finitary x (fun y => .place (some y)) (.place none))

theorem family_apply {domain : Meaning} {valuation : Valuation} {argument : Domain}
    (argumentMember : Member (domain valuation) argument) :
    (family x domain body valuation).apply argument = body (Function.update valuation x argument) :=
  apply_lam_fit (finitaryMap_update finitary x valuation) argumentMember

end Updates

theorem finitary_family (x : Name) {domain body : Meaning} (domainFinitary : Finitary domain)
    (bodyFinitary : Finitary body) : Finitary (family x domain body) := by
  have outer : ∀ y, Finitary fun places : Option Name → Domain => places (some y) :=
    fun y => .place (some y)
  exact .lam (finitary_update bodyFinitary x outer
    (continuous_fit.finitary (domainFinitary.comp outer) (.place none)))

/-! ## What a meaning depends on -/

/-- The meaning is finitary and depends on the names only. -/
structure Over (names : List Name) (meaning : Meaning) : Prop where
  finitary : Finitary meaning
  depends : ∀ {valuation other : Valuation}, (∀ x ∈ names, valuation x = other x) →
    meaning valuation = meaning other

namespace Over

variable {names : List Name} {first second third fourth : Meaning}

theorem mono {more : List Name} (isOver : Over names first) (included : names ⊆ more) :
    Over more first :=
  ⟨isOver.finitary, fun alike => isOver.depends fun x mem => alike x (included mem)⟩

theorem update_eq (isOver : Over names first) {x : Name} (fresh : x ∉ names) (valuation : Valuation)
    (element : Domain) : first (Function.update valuation x element) = first valuation := by
  refine isOver.depends fun y mem => ?_
  have different : y ≠ x := fun same => fresh (same ▸ mem)
  rw [Function.update_of_ne different]

theorem const (value : Domain) : Over names fun _ => value :=
  ⟨.const value, fun _ => rfl⟩

theorem valueOf {x : Name} (mem : x ∈ names) : Over names fun valuation => valuation x :=
  ⟨.place x, fun alike => alike x mem⟩

theorem apply (firstOver : Over names first) (secondOver : Over names second) :
    Over names (Meaning.apply first second) :=
  ⟨firstOver.finitary.apply secondOver.finitary,
    fun alike => by simp only [Meaning.apply, firstOver.depends alike, secondOver.depends alike]⟩

theorem part (firstOver : Over names first) (place : Nat) : Over names (Meaning.part place first) :=
  ⟨firstOver.finitary.part place, fun alike => by simp only [Meaning.part, firstOver.depends alike]⟩

theorem node (tag : Tag) (firstOver : Over names first) (secondOver : Over names second)
    (thirdOver : Over names third) :
    Over names fun valuation =>
      Domain.node tag (first valuation) (second valuation) (third valuation) :=
  ⟨.node tag firstOver.finitary secondOver.finitary thirdOver.finitary, fun alike => by
    simp only [firstOver.depends alike, secondOver.depends alike, thirdOver.depends alike]⟩

theorem ind (firstOver : Over names first) (secondOver : Over names second)
    (thirdOver : Over names third) (fourthOver : Over names fourth) :
    Over names (Meaning.ind first second third fourth) :=
  ⟨finitary_ind firstOver.finitary secondOver.finitary thirdOver.finitary fourthOver.finitary,
    fun alike => by
      simp only [Meaning.ind, firstOver.depends alike, secondOver.depends alike,
        thirdOver.depends alike, fourthOver.depends alike]⟩

theorem replace (firstOver : Over names first) (secondOver : Over names second)
    (thirdOver : Over names third) : Over names (Meaning.replace first second third) :=
  ⟨finitary_replace firstOver.finitary secondOver.finitary thirdOver.finitary, fun alike => by
    simp only [Meaning.replace, firstOver.depends alike, secondOver.depends alike,
      thirdOver.depends alike]⟩

theorem pi (firstOver : Over names first) (secondOver : Over names second) :
    Over names (Meaning.pi first second) :=
  node .pi firstOver secondOver (.const ∅)

theorem sigma (firstOver : Over names first) (secondOver : Over names second) :
    Over names (Meaning.sigma first second) :=
  node .sigma firstOver secondOver (.const ∅)

theorem pair (firstOver : Over names first) (secondOver : Over names second) :
    Over names (Meaning.pair first second) :=
  node .pair firstOver secondOver (.const ∅)

theorem add1 (firstOver : Over names first) : Over names (Meaning.add1 first) :=
  node .add1 firstOver (.const ∅) (.const ∅)

theorem equal (firstOver : Over names first) (secondOver : Over names second)
    (thirdOver : Over names third) : Over names (Meaning.equal first second third) :=
  node .equal firstOver secondOver thirdOver

theorem same (firstOver : Over names first) (secondOver : Over names second)
    (thirdOver : Over names third) : Over names (Meaning.same first second third) :=
  node .proof firstOver (pair secondOver thirdOver) (.const Domain.same)

theorem indAbsurd (firstOver : Over names first) : Over names (Meaning.indAbsurd first) :=
  ⟨finitary_indAbsurd firstOver.finitary,
    fun alike => by simp only [Meaning.indAbsurd, firstOver.depends alike]⟩

theorem stepRange (firstOver : Over names first) : Over names (Meaning.stepRange first) :=
  ⟨finitary_stepRange firstOver.finitary,
    fun alike => by simp only [Meaning.stepRange, firstOver.depends alike]⟩

theorem motiveType (firstOver : Over names first) : Over names (Meaning.motiveType first) :=
  pi firstOver (.const _)

section Components

variable {tag : Tag} (isOver : Over names fun valuation =>
  Domain.node tag (first valuation) (second valuation) (third valuation))

include isOver

theorem node_first : Over names first := by
  have component := isOver.part 0
  unfold Meaning.part at component
  simp only [part_zero_node] at component
  exact component

theorem node_second : Over names second := by
  have component := isOver.part 1
  unfold Meaning.part at component
  simp only [part_one_node] at component
  exact component

theorem node_third : Over names third := by
  have component := isOver.part 2
  unfold Meaning.part at component
  simp only [part_two_node] at component
  exact component

end Components

theorem family {x : Name} (firstOver : Over names first) (secondOver : Over (x :: names) second) :
    Over names (Meaning.family x first second) := by
  refine ⟨finitary_family x firstOver.finitary secondOver.finitary,
    fun {valuation other} alike => lam_congr fun argument => secondOver.depends ?_⟩
  intro y mem
  rw [firstOver.depends alike]
  by_cases same : y = x
  · subst same
    rw [Function.update_self, Function.update_self]
  · rw [Function.update_of_ne same, Function.update_of_ne same]
    exact alike y ((List.mem_cons.mp mem).resolve_left same)

end Over

end Meaning

open Meaning (Over)

/-! ## Worlds -/

structure Assumption where
  name : Name
  type : Meaning

/-- The names are distinct and every type depends on earlier variables only; the latest is first. -/
inductive Telescope : List Assumption → Prop where
  | nil : Telescope []
  | cons {assumption : Assumption} {rest : List Assumption}
      (fresh : assumption.name ∉ rest.map Assumption.name)
      (isOver : Over (rest.map Assumption.name) assumption.type) (telescope : Telescope rest) :
      Telescope (assumption :: rest)

structure World where
  assumptions : List Assumption
  telescope : Telescope assumptions

namespace World

variable {world : World}

def names (world : World) : List Name :=
  world.assumptions.map Assumption.name

def empty : World :=
  ⟨[], .nil⟩

structure New (world : World) (x : Name) (type : Meaning) : Prop where
  fresh : x ∉ world.names
  isOver : Over world.names type

def extend (world : World) {x : Name} {type : Meaning} (new : world.New x type) : World :=
  ⟨⟨x, type⟩ :: world.assumptions, .cons new.fresh new.isOver world.telescope⟩

def Admits (world : World) (valuation : Valuation) : Prop :=
  ∀ assumption ∈ world.assumptions, Member (assumption.type valuation) (valuation assumption.name)

theorem over_type {assumption : Assumption} (mem : assumption ∈ world.assumptions) :
    Over world.names assumption.type := by
  obtain ⟨assumptions, telescope⟩ := world
  induction telescope with
  | nil => cases mem
  | @cons head rest _ isOver _ ih =>
      have included : rest.map Assumption.name ⊆ (head :: rest).map Assumption.name :=
        List.subset_cons_self _ _
      rcases List.mem_cons.mp mem with rfl | inside
      · exact isOver.mono included
      · exact (ih inside).mono included

section Extension

variable {x : Name} {type : Meaning} {valuation : Valuation}

theorem Admits.extend (admits : world.Admits valuation) (new : world.New x type) {element : Domain}
    (isMember : Member (type valuation) element) :
    (world.extend new).Admits (Function.update valuation x element) := by
  intro assumption mem
  rcases List.mem_cons.mp mem with rfl | inside
  · simp only [new.isOver.update_eq new.fresh, Function.update_self]
    exact isMember
  · have different : assumption.name ≠ x :=
      fun same => new.fresh (same ▸ List.mem_map.mpr ⟨assumption, inside, rfl⟩)
    rw [(over_type inside).update_eq new.fresh, Function.update_of_ne different]
    exact admits assumption inside

theorem Admits.outer {new : world.New x type} (admits : (world.extend new).Admits valuation) :
    world.Admits valuation :=
  fun assumption inside => admits assumption (List.mem_cons_of_mem _ inside)

end Extension

def levelIn (x : Name) : List Assumption → Nat
  | [] => 0
  | assumption :: rest => if assumption.name = x then rest.length else levelIn x rest

theorem levelIn_lt {assumption : Assumption} {assumptions : List Assumption}
    (mem : assumption ∈ assumptions) : levelIn assumption.name assumptions < assumptions.length := by
  induction assumptions with
  | nil => cases mem
  | cons head rest ih =>
      rw [levelIn, List.length_cons]
      by_cases here : head.name = assumption.name
      · rw [if_pos here]
        exact Nat.lt_succ_self rest.length
      · rw [if_neg here]
        have inside := (List.mem_cons.mp mem).resolve_left fun same => here (same ▸ rfl)
        exact Nat.lt_succ_of_lt (ih inside)

def level (world : World) (x : Name) : Nat :=
  levelIn x world.assumptions

/-- The valuation that knows nothing of the variables but their types. -/
def genericValuation : List Assumption → Valuation
  | [] => fun _ => ∅
  | assumption :: rest =>
      Function.update (genericValuation rest) assumption.name
        (fit (assumption.type (genericValuation rest)) (blocked (Spine.assumed rest.length)))

def generic (world : World) : Valuation :=
  genericValuation world.assumptions

theorem generic_eq {assumption : Assumption} (mem : assumption ∈ world.assumptions) :
    world.generic assumption.name = fit (assumption.type world.generic)
      (blocked (Spine.assumed (world.level assumption.name))) := by
  obtain ⟨assumptions, telescope⟩ := world
  induction telescope with
  | nil => cases mem
  | @cons head rest fresh isOver telescope ih =>
      simp only [generic, genericValuation, level, levelIn]
      rcases List.mem_cons.mp mem with rfl | inside
      · rw [Function.update_self, if_pos rfl, isOver.update_eq fresh]
      · have different : assumption.name ≠ head.name :=
          fun same => fresh (same ▸ List.mem_map.mpr ⟨assumption, inside, rfl⟩)
        have restOver := @over_type ⟨rest, telescope⟩ assumption inside
        rw [Function.update_of_ne different, if_neg different.symm, restOver.update_eq fresh]
        exact ih inside

theorem admits_generic (world : World) : world.Admits world.generic := by
  intro assumption mem
  rw [generic_eq mem]
  exact member_fit _ _

/-! ## Agreement -/

/-- No valuation that the world admits tells the meanings apart. -/
def Agree (world : World) (first second : Meaning) : Prop :=
  ∀ valuation, world.Admits valuation → first valuation = second valuation

namespace Agree

variable {first second third : Meaning}

theorem refl (meaning : Meaning) : world.Agree meaning meaning :=
  fun _ _ => rfl

theorem symm (agree : world.Agree first second) : world.Agree second first :=
  fun valuation admits => (agree valuation admits).symm

theorem trans (agree : world.Agree first second) (agree' : world.Agree second third) :
    world.Agree first third :=
  fun valuation admits => (agree valuation admits).trans (agree' valuation admits)

theorem extend {x : Name} {type : Meaning} (agree : world.Agree first second)
    (new : world.New x type) : (world.extend new).Agree first second :=
  fun valuation admits => agree valuation admits.outer

theorem apply {first' second' : Meaning} (agree : world.Agree first second)
    (agree' : world.Agree first' second') :
    world.Agree (first.apply first') (second.apply second') :=
  fun valuation admits => by
    simp only [Meaning.apply, agree valuation admits, agree' valuation admits]

theorem map (agree : world.Agree first second) (function : Domain → Domain) :
    world.Agree (fun valuation => function (first valuation))
      fun valuation => function (second valuation) :=
  fun valuation admits => congrArg function (agree valuation admits)

end Agree

section Injectivity

variable {first second third first' second' third' : Meaning}

theorem Agree.pi_parts (agree : world.Agree (first.pi second) (first'.pi second')) :
    world.Agree first first' ∧ world.Agree second second' := by
  refine ⟨fun valuation admits => ?_, fun valuation admits => ?_⟩
  · exact (node_injective (agree valuation admits)).2.1
  · exact (node_injective (agree valuation admits)).2.2.1

theorem Agree.sigma_parts (agree : world.Agree (first.sigma second) (first'.sigma second')) :
    world.Agree first first' ∧ world.Agree second second' := by
  refine ⟨fun valuation admits => ?_, fun valuation admits => ?_⟩
  · exact (node_injective (agree valuation admits)).2.1
  · exact (node_injective (agree valuation admits)).2.2.1

theorem Agree.equal_parts
    (agree : world.Agree (first.equal second third) (first'.equal second' third')) :
    world.Agree first first' ∧ world.Agree second second' ∧ world.Agree third third' := by
  refine ⟨fun valuation admits => ?_, fun valuation admits => ?_, fun valuation admits => ?_⟩
  · exact (node_injective (agree valuation admits)).2.1
  · exact (node_injective (agree valuation admits)).2.2.1
  · exact (node_injective (agree valuation admits)).2.2.2

end Injectivity

end World

end LambdaCalculi.Dependent
