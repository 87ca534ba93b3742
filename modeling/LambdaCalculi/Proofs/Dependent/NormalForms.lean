import LambdaCalculi.Proofs.Dependent.Meanings
import LambdaCalculi.Proofs.Dependent.Renaming

/-!
# Normal forms of elements

At the generic valuation an element of a type determines a normal form: functions are applied to a
new variable, pairs are taken apart, numbers show their constructors, and a blocked computation
shows its spine. The rules below follow the code of the type and the constructor that the element
shows, and read everything else off the two. So a normal form depends on the names of variables
alone, and two normal forms of one element are alpha-equivalent. No value appears here; that values
are read back into normal forms of what they mean is proved where reading back is.
-/

set_option autoImplicit false

namespace LambdaCalculi.Dependent

open Domain

namespace Domain

/-- The element shows the constructor and no other. -/
def Headed (tag : Tag) (element : Domain) : Prop :=
  ∀ other, Token.tag other ∈ element ↔ other = tag

theorem Headed.unique {tag tag' : Tag} {element : Domain} (headed : Headed tag element)
    (headed' : Headed tag' element) : tag = tag' :=
  (headed' tag).mp ((headed tag).mpr rfl)

theorem headed_node (tag : Tag) (first second third : Domain) :
    Headed tag (node tag first second third) :=
  tag_mem_node tag first second third

theorem headed_blocked (spine : Domain) : Headed .blocked (blocked spine) :=
  tag_mem_blocked spine

theorem headed_same : Headed .same same := by
  simp [Headed, same]

end Domain

/-! ## Variables -/

abbrev Variables := List (Name × Domain)

namespace Variables

def names (vars : Variables) : List Name :=
  vars.map Prod.fst

def newest (vars : Variables) (type : Domain) : Domain :=
  fit type (blocked (Spine.assumed vars.length))

/-- The variable with the given number of variables before it. -/
def assumed? : Variables → Nat → Option (Name × Domain)
  | [], _ => none
  | entry :: rest, level => if level = rest.length then some entry else assumed? rest level

theorem mem_names_of_assumed? {vars : Variables} {level : Nat} {x : Name} {type : Domain}
    (found : vars.assumed? level = some (x, type)) : x ∈ vars.names := by
  induction vars with
  | nil => cases found
  | cons entry rest ih =>
      rw [assumed?] at found
      by_cases here : level = rest.length
      · rw [if_pos here] at found
        cases found
        exact List.mem_cons_self
      · rw [if_neg here] at found
        exact List.mem_cons_of_mem _ (ih found)

/-- Lists of variables that differ in the names only. -/
structure Parallel (vars vars' : Variables) : Prop where
  types : vars.map Prod.snd = vars'.map Prod.snd
  distinct : vars.names.Nodup
  distinct' : vars'.names.Nodup

namespace Parallel

variable {vars vars' : Variables}

theorem nil : Parallel [] [] :=
  ⟨rfl, List.nodup_nil, List.nodup_nil⟩

theorem length_eq (parallel : vars.Parallel vars') : vars.length = vars'.length := by
  simpa using congrArg List.length parallel.types

theorem newest_eq (parallel : vars.Parallel vars') (type : Domain) :
    vars'.newest type = vars.newest type := by
  rw [newest, newest, parallel.length_eq]

theorem cons {x x' : Name} (parallel : vars.Parallel vars') (fresh : x ∉ vars.names)
    (fresh' : x' ∉ vars'.names) (type : Domain) :
    Parallel ((x, type) :: vars) ((x', type) :: vars') :=
  ⟨congrArg (type :: ·) parallel.types, List.nodup_cons.mpr ⟨fresh, parallel.distinct⟩,
    List.nodup_cons.mpr ⟨fresh', parallel.distinct'⟩⟩

/-- Variables with as many variables before them are the same variable and have one type. -/
theorem assumed? {level : Nat} {x x' : Name} {type type' : Domain} (parallel : vars.Parallel vars')
    (found : vars.assumed? level = some (x, type)) (found' : vars'.assumed? level = some (x', type')) :
    BinderPairs.relates (vars.names.zip vars'.names) x x' = true ∧ type = type' := by
  induction vars generalizing vars' with
  | nil => cases found
  | cons entry rest ih =>
      obtain ⟨entry', rest', rfl⟩ := List.exists_cons_of_length_eq_add_one parallel.length_eq.symm
      obtain ⟨headTypes, restTypes⟩ := List.cons.inj parallel.types
      obtain ⟨fresh, distinct⟩ := List.nodup_cons.mp parallel.distinct
      obtain ⟨fresh', distinct'⟩ := List.nodup_cons.mp parallel.distinct'
      have restParallel : Parallel rest rest' := ⟨restTypes, distinct, distinct'⟩
      simp only [names, List.map_cons, List.zip_cons_cons]
      rw [BinderPairs.relates_cons_iff]
      rw [Variables.assumed?] at found found'
      by_cases here : level = rest.length
      · rw [if_pos here] at found
        rw [if_pos (here.trans restParallel.length_eq)] at found'
        cases found
        cases found'
        exact ⟨.inl ⟨rfl, rfl⟩, headTypes⟩
      · rw [if_neg here] at found
        rw [if_neg (restParallel.length_eq ▸ here)] at found'
        obtain ⟨related, types⟩ := ih restParallel found found'
        have different : x ≠ entry.1 := fun same => fresh (same ▸ mem_names_of_assumed? found)
        have different' : x' ≠ entry'.1 := fun same => fresh' (same ▸ mem_names_of_assumed? found')
        exact ⟨.inr ⟨different, different', related⟩, types⟩

end Parallel

end Variables

namespace World

variable {world : World} {x : Name} {type : Meaning}

def varsOf : List Assumption → Variables
  | [] => []
  | assumption :: rest =>
      (assumption.name, assumption.type (genericValuation rest)) :: varsOf rest

def vars (world : World) : Variables :=
  varsOf world.assumptions

theorem names_vars (world : World) : world.vars.names = world.names := by
  obtain ⟨assumptions, telescope⟩ := world
  simp only [vars, names]
  clear telescope
  induction assumptions with
  | nil => rfl
  | cons assumption rest ih => exact congrArg (assumption.name :: ·) ih

theorem length_vars (world : World) : world.vars.length = world.assumptions.length := by
  have lengths := congrArg List.length world.names_vars
  simpa only [Variables.names, names, List.length_map] using lengths

theorem vars_extend (new : world.New x type) :
    (world.extend new).vars = (x, type world.generic) :: world.vars :=
  rfl

theorem generic_extend (new : world.New x type) :
    (world.extend new).generic =
      Function.update world.generic x (world.vars.newest (type world.generic)) := by
  rw [Variables.newest, length_vars]
  rfl

theorem assumed?_level {assumption : Assumption} (mem : assumption ∈ world.assumptions) :
    world.vars.assumed? (world.level assumption.name) =
      some (assumption.name, assumption.type world.generic) := by
  obtain ⟨assumptions, telescope⟩ := world
  induction telescope with
  | nil => cases mem
  | @cons head rest fresh isOver telescope ih =>
      have length := @length_vars ⟨rest, telescope⟩
      simp only [vars, varsOf, generic, genericValuation, level, levelIn,
        Variables.assumed?] at length ih ⊢
      rcases List.mem_cons.mp mem with rfl | inside
      · rw [if_pos rfl, if_pos length.symm, isOver.update_eq fresh]
      · have different : head.name ≠ assumption.name :=
          fun same => fresh (same ▸ List.mem_map.mpr ⟨assumption, inside, rfl⟩)
        have restOver := @over_type ⟨rest, telescope⟩ assumption inside
        have below := levelIn_lt inside
        rw [if_neg different, if_neg (length ▸ below.ne), restOver.update_eq fresh]
        exact ih inside

end World

/-! ## The rules -/

mutual

/-- The term is a normal form of the element, at the type with the code. -/
inductive NormalAt : Variables → Domain → Domain → Term → Prop where
  | lam {vars : Variables} {code function : Domain} {x : Name} {body : Term} (former : Headed .pi code)
      (fresh : x ∉ vars.names)
      (bodyNormal : NormalAt ((x, part 0 code) :: vars)
        ((part 1 code).apply (vars.newest (part 0 code)))
        (function.apply (vars.newest (part 0 code))) body) :
      NormalAt vars code function (.lam x body)
  | cons {vars : Variables} {code pair : Domain} {first second : Term} (former : Headed .sigma code)
      (firstNormal : NormalAt vars (part 0 code) (part 0 pair) first)
      (secondNormal : NormalAt vars ((part 1 code).apply (part 0 pair)) (part 1 pair) second) :
      NormalAt vars code pair (.cons first second)
  | zero {vars : Variables} {code number : Domain} (former : Headed .nat code)
      (head : Headed .zero number) : NormalAt vars code number .zero
  | add1 {vars : Variables} {code number : Domain} {predecessor : Term} (former : Headed .nat code)
      (head : Headed .add1 number) (normal : NormalAt vars code (part 0 number) predecessor) :
      NormalAt vars code number (.add1 predecessor)
  | number {vars : Variables} {code number type : Domain} {term : Term} (former : Headed .nat code)
      (head : Headed .blocked number) (neutral : NeutralAt vars (part 3 number) type term) :
      NormalAt vars code number term
  | same {vars : Variables} {code proof : Domain} (former : Headed .equal code)
      (head : Headed .same (part 2 proof)) : NormalAt vars code proof .same
  | proof {vars : Variables} {code proof type : Domain} {term : Term} (former : Headed .equal code)
      (head : Headed .blocked (part 2 proof))
      (neutral : NeutralAt vars (part 3 (part 2 proof)) type term) : NormalAt vars code proof term
  | tick {vars : Variables} {code element : Domain} {symbol : String} (former : Headed .atom code)
      (head : Headed (.tick symbol) element) : NormalAt vars code element (.tick symbol)
  | atom {vars : Variables} {code element type : Domain} {term : Term} (former : Headed .atom code)
      (head : Headed .blocked element) (neutral : NeutralAt vars (part 3 element) type term) :
      NormalAt vars code element term
  | sole {vars : Variables} {code element : Domain} (former : Headed .trivial code) :
      NormalAt vars code element .sole
  | absurd {vars : Variables} {code element : Domain} {term : Term} (former : Headed .absurd code) :
      NormalAt vars code element (.the .absurd term)
  | type {vars : Variables} {code element : Domain} {term : Term} (former : Headed .univ code)
      (normal : TypeAt vars element term) : NormalAt vars code element term
  | member {vars : Variables} {code element type : Domain} {term : Term}
      (former : Headed .blocked code) (neutral : NeutralAt vars (part 3 element) type term) :
      NormalAt vars code element term

/-- The term is a normal form of the type with the code. -/
inductive TypeAt : Variables → Domain → Term → Prop where
  | pi {vars : Variables} {code : Domain} {x : Name} {domain range : Term} (former : Headed .pi code)
      (fresh : x ∉ vars.names) (domainNormal : TypeAt vars (part 0 code) domain)
      (rangeNormal : TypeAt ((x, part 0 code) :: vars)
        ((part 1 code).apply (vars.newest (part 0 code))) range) :
      TypeAt vars code (.pi x domain range)
  | sigma {vars : Variables} {code : Domain} {x : Name} {carType cdrType : Term}
      (former : Headed .sigma code) (fresh : x ∉ vars.names)
      (carNormal : TypeAt vars (part 0 code) carType)
      (cdrNormal : TypeAt ((x, part 0 code) :: vars)
        ((part 1 code).apply (vars.newest (part 0 code))) cdrType) :
      TypeAt vars code (.sigma x carType cdrType)
  | equal {vars : Variables} {code : Domain} {type left right : Term} (former : Headed .equal code)
      (typeNormal : TypeAt vars (part 0 code) type)
      (leftNormal : NormalAt vars (part 0 code) (part 1 code) left)
      (rightNormal : NormalAt vars (part 0 code) (part 2 code) right) :
      TypeAt vars code (.equal type left right)
  | nat {vars : Variables} {code : Domain} (former : Headed .nat code) : TypeAt vars code .nat
  | trivial {vars : Variables} {code : Domain} (former : Headed .trivial code) :
      TypeAt vars code .trivial
  | absurd {vars : Variables} {code : Domain} (former : Headed .absurd code) :
      TypeAt vars code .absurd
  | atom {vars : Variables} {code : Domain} (former : Headed .atom code) : TypeAt vars code .atom
  | univ {vars : Variables} {code : Domain} (former : Headed .univ code) : TypeAt vars code .univ
  | neutral {vars : Variables} {code type : Domain} {term : Term} (former : Headed .blocked code)
      (normal : NeutralAt vars (part 3 code) type term) : TypeAt vars code term

/-- The term is the blocked computation with the spine, and has the type. -/
inductive NeutralAt : Variables → Domain → Domain → Term → Prop where
  | var {vars : Variables} {spine type : Domain} {level : Nat} {x : Name}
      (head : Headed (.assumed level) spine) (found : vars.assumed? level = some (x, type)) :
      NeutralAt vars spine type (.var x)
  | app {vars : Variables} {spine type : Domain} {function argument : Term} (head : Headed .app spine)
      (functionNormal : NeutralAt vars (part 0 spine) type function)
      (argumentNormal : NormalAt vars (part 0 type) (part 1 spine) argument) :
      NeutralAt vars spine ((part 1 type).apply (part 1 spine)) (.app function argument)
  | car {vars : Variables} {spine type : Domain} {pair : Term} (head : Headed .car spine)
      (pairNormal : NeutralAt vars (part 0 spine) type pair) :
      NeutralAt vars spine (part 0 type) (.car pair)
  | cdr {vars : Variables} {spine type : Domain} {pair : Term} (head : Headed .cdr spine)
      (pairNormal : NeutralAt vars (part 0 spine) type pair) :
      NeutralAt vars spine
        ((part 1 type).apply (fit (part 0 type) (blocked (Spine.car (part 0 spine))))) (.cdr pair)
  | indNat {vars : Variables} {spine type : Domain} {target motive base step : Term}
      (head : Headed .indNat spine) (targetNormal : NeutralAt vars (part 0 spine) type target)
      (motiveNormal : NormalAt vars (motiveType (leaf .nat)) (part 1 spine) motive)
      (baseNormal : NormalAt vars ((part 1 spine).apply (leaf .zero)) (part 0 (part 2 spine)) base)
      (stepNormal : NormalAt vars (stepType (part 1 spine)) (part 1 (part 2 spine)) step) :
      NeutralAt vars spine ((part 1 spine).apply (blocked (part 0 spine)))
        (.indNat target motive base step)
  | replace {vars : Variables} {spine type : Domain} {target motive base : Term}
      (head : Headed .replace spine) (targetNormal : NeutralAt vars (part 0 spine) type target)
      (motiveNormal : NormalAt vars (motiveType (part 0 type)) (part 1 spine) motive)
      (baseNormal : NormalAt vars ((part 1 spine).apply (part 1 type)) (part 2 spine) base) :
      NeutralAt vars spine ((part 1 spine).apply (part 2 type)) (.replace target motive base)
  | indAbsurd {vars : Variables} {spine : Domain} {target motive : Term}
      (head : Headed .indAbsurd spine) (motiveNormal : TypeAt vars (part 0 spine) motive) :
      NeutralAt vars spine (part 0 spine) (.indAbsurd (.the .absurd target) motive)

end

/-! ## Normal forms at given types -/

section Introduction

variable {vars : Variables} {spine : Domain} {term : Term}

theorem NormalAt.ofFunction {domain range function : Domain} {x : Name} {body : Term}
    (fresh : x ∉ vars.names)
    (bodyNormal : NormalAt ((x, domain) :: vars) (range.apply (vars.newest domain))
      (function.apply (vars.newest domain)) body) :
    NormalAt vars (pi domain range) function (.lam x body) :=
  .lam (headed_node _ _ _ _) fresh
    (by simpa only [pi, part_zero_node, part_one_node] using bodyNormal)

theorem NormalAt.ofPair {carType cdrType pair : Domain} {first second : Term}
    (firstNormal : NormalAt vars carType (part 0 pair) first)
    (secondNormal : NormalAt vars (cdrType.apply (part 0 pair)) (part 1 pair) second) :
    NormalAt vars (sigma carType cdrType) pair (.cons first second) :=
  .cons (headed_node _ _ _ _) (by simpa only [sigma, part_zero_node] using firstNormal)
    (by simpa only [sigma, part_one_node] using secondNormal)

theorem NormalAt.ofUniv {element : Domain} (normal : NormalAt vars (leaf .univ) element term) :
    TypeAt vars element term := by
  have univ : Headed .univ (leaf .univ) := headed_node _ _ _ _
  cases normal with
  | type _ normal => exact normal
  | _ => cases univ.unique ‹_›

theorem TypeAt.ofPi {domain range : Domain} {x : Name} {domainTerm rangeTerm : Term}
    (fresh : x ∉ vars.names) (domainNormal : TypeAt vars domain domainTerm)
    (rangeNormal : TypeAt ((x, domain) :: vars) (range.apply (vars.newest domain)) rangeTerm) :
    TypeAt vars (Domain.pi domain range) (.pi x domainTerm rangeTerm) :=
  .pi (headed_node _ _ _ _) fresh (by simpa only [Domain.pi, part_zero_node] using domainNormal)
    (by simpa only [Domain.pi, part_zero_node, part_one_node] using rangeNormal)

theorem TypeAt.ofSigma {carType cdrType : Domain} {x : Name} {carTerm cdrTerm : Term}
    (fresh : x ∉ vars.names) (carNormal : TypeAt vars carType carTerm)
    (cdrNormal : TypeAt ((x, carType) :: vars) (cdrType.apply (vars.newest carType)) cdrTerm) :
    TypeAt vars (Domain.sigma carType cdrType) (.sigma x carTerm cdrTerm) :=
  .sigma (headed_node _ _ _ _) fresh (by simpa only [Domain.sigma, part_zero_node] using carNormal)
    (by simpa only [Domain.sigma, part_zero_node, part_one_node] using cdrNormal)

theorem TypeAt.ofEqual {type left right : Domain} {typeTerm leftTerm rightTerm : Term}
    (typeNormal : TypeAt vars type typeTerm) (leftNormal : NormalAt vars type left leftTerm)
    (rightNormal : NormalAt vars type right rightTerm) :
    TypeAt vars (Domain.equal type left right) (.equal typeTerm leftTerm rightTerm) :=
  .equal (headed_node _ _ _ _) (by simpa only [Domain.equal, part_zero_node] using typeNormal)
    (by simpa only [Domain.equal, part_zero_node, part_one_node] using leftNormal)
    (by simpa only [Domain.equal, part_zero_node, part_two_node] using rightNormal)

namespace NeutralAt

theorem type {code : Domain} (neutral : NeutralAt vars spine code term) :
    TypeAt vars (blocked spine) term :=
  .neutral (headed_blocked spine) (by simpa only [part_three_blocked] using neutral)

theorem number {code : Domain} (neutral : NeutralAt vars spine code term) :
    NormalAt vars (leaf .nat) (fit (leaf .nat) (blocked spine)) term := by
  rw [fit_nat]
  exact .number (headed_node _ _ _ _) (headed_blocked spine)
    (by simpa only [part_three_blocked] using neutral)

theorem atom {code : Domain} (neutral : NeutralAt vars spine code term) :
    NormalAt vars (leaf .atom) (fit (leaf .atom) (blocked spine)) term := by
  rw [fit_atom]
  exact .atom (headed_node _ _ _ _) (headed_blocked spine)
    (by simpa only [part_three_blocked] using neutral)

theorem proof {type left right code : Domain} (neutral : NeutralAt vars spine code term) :
    NormalAt vars (equal type left right) (fit (equal type left right) (blocked spine)) term := by
  rw [fit_equal, part_two_blocked]
  exact .proof (headed_node _ _ _ _) (by simpa only [part_two_proof] using headed_blocked spine)
    (by simpa only [part_two_proof, part_three_blocked] using neutral)

theorem member {type code : Domain} (neutral : NeutralAt vars spine code term) :
    NormalAt vars (blocked type) (fit (blocked type) (blocked spine)) term := by
  rw [fit_blocked]
  exact .member (headed_blocked type) (by simpa only [part_three_blocked] using neutral)

theorem ofApp {domain range element : Domain} {function argument : Term}
    (functionNormal : NeutralAt vars spine (pi domain range) function)
    (argumentNormal : NormalAt vars domain element argument) :
    NeutralAt vars (Spine.app spine element) (range.apply element) (.app function argument) := by
  have normal := @app vars (Spine.app spine element) (pi domain range) function argument
    (headed_node _ _ _ _) (by simpa only [Spine.app, part_zero_node] using functionNormal)
    (by simpa only [Spine.app, pi, part_zero_node, part_one_node] using argumentNormal)
  simpa only [Spine.app, pi, part_one_node] using normal

theorem ofCar {carType cdrType : Domain} {pair : Term}
    (pairNormal : NeutralAt vars spine (sigma carType cdrType) pair) :
    NeutralAt vars (Spine.car spine) carType (.car pair) := by
  have normal := @car vars (Spine.car spine) (sigma carType cdrType) pair (headed_node _ _ _ _)
    (by simpa only [Spine.car, part_zero_node] using pairNormal)
  simpa only [sigma, part_zero_node] using normal

theorem ofCdr {carType cdrType : Domain} {pair : Term}
    (pairNormal : NeutralAt vars spine (sigma carType cdrType) pair) :
    NeutralAt vars (Spine.cdr spine) (cdrType.apply (fit carType (blocked (Spine.car spine))))
      (.cdr pair) := by
  have normal := @cdr vars (Spine.cdr spine) (sigma carType cdrType) pair (headed_node _ _ _ _)
    (by simpa only [Spine.cdr, part_zero_node] using pairNormal)
  simpa only [Spine.cdr, sigma, part_zero_node, part_one_node] using normal

theorem ofIndNat {number family start next : Domain} {target motive base step : Term}
    (isFamily : Member (motiveType (leaf .nat)) family)
    (targetNormal : NeutralAt vars spine number target)
    (motiveNormal : NormalAt vars (motiveType (leaf .nat)) family motive)
    (baseNormal : NormalAt vars (family.apply (leaf .zero)) start base)
    (stepNormal : NormalAt vars (stepType family) next step) :
    NeutralAt vars (Spine.indNat spine family start next) (family.apply (blocked spine))
      (.indNat target motive base step) := by
  have shape : Spine.indNat spine family start next =
      node .indNat spine family (node .pair start next ∅) := by
    have alike := isFamily.eq_family
    simp only [fit_nat] at alike
    rw [Spine.indNat, alike]
  have normal := @indNat vars (Spine.indNat spine family start next) number target motive base step
  simp only [shape, part_zero_node, part_one_node, part_two_node] at normal ⊢
  exact normal (headed_node _ _ _ _) targetNormal motiveNormal baseNormal stepNormal

theorem ofReplace {type left right family start : Domain} {target motive base : Term}
    (isFamily : Member (motiveType type) family)
    (targetNormal : NeutralAt vars spine (equal type left right) target)
    (motiveNormal : NormalAt vars (motiveType type) family motive)
    (baseNormal : NormalAt vars (family.apply left) start base) :
    NeutralAt vars (Spine.replace type spine family start) (family.apply right)
      (.replace target motive base) := by
  have shape : Spine.replace type spine family start = node .replace spine family start := by
    rw [Spine.replace, isFamily.eq_family]
  have normal := @replace vars (Spine.replace type spine family start) (equal type left right)
    target motive base
  simp only [shape, equal, part_zero_node, part_one_node, part_two_node] at normal ⊢
  exact normal (headed_node _ _ _ _) targetNormal motiveNormal baseNormal

theorem ofIndAbsurd {type : Domain} {target motive : Term} (motiveNormal : TypeAt vars type motive) :
    NeutralAt vars (Spine.indAbsurd type) type (.indAbsurd (.the .absurd target) motive) := by
  have normal := @indAbsurd vars (Spine.indAbsurd type) target motive (headed_node _ _ _ _)
    (by simpa only [Spine.indAbsurd, part_zero_node] using motiveNormal)
  simpa only [Spine.indAbsurd, part_zero_node] using normal

end NeutralAt

end Introduction

/-! ## Normal forms are unique -/

mutual

theorem NormalAt.unique {vars vars' : Variables} {code element : Domain} {term term' : Term} :
    NormalAt vars code element term → NormalAt vars' code element term' → vars.Parallel vars' →
    term.alphaEquivUnder (vars.names.zip vars'.names) term' = true
  | .lam former fresh bodyNormal, other, parallel => by
      cases other with
      | lam _ fresh' bodyNormal' =>
          rw [parallel.newest_eq] at bodyNormal'
          exact bodyNormal.unique bodyNormal' (parallel.cons fresh fresh' _)
      | _ => cases former.unique ‹_›
  | .cons former firstNormal secondNormal, other, parallel => by
      cases other with
      | cons _ firstNormal' secondNormal' =>
          exact Bool.and_eq_true_iff.mpr ⟨firstNormal.unique firstNormal' parallel,
            secondNormal.unique secondNormal' parallel⟩
      | _ => cases former.unique ‹_›
  | .zero former head, other, parallel => by
      cases other with
      | zero => rfl
      | add1 _ head' _ => cases head.unique head'
      | number _ head' _ => cases head.unique head'
      | _ => cases former.unique ‹_›
  | .add1 former head normal, other, parallel => by
      cases other with
      | zero _ head' => cases head.unique head'
      | add1 _ _ normal' => exact normal.unique normal' parallel
      | number _ head' _ => cases head.unique head'
      | _ => cases former.unique ‹_›
  | .number former head neutral, other, parallel => by
      cases other with
      | zero _ head' => cases head.unique head'
      | add1 _ head' _ => cases head.unique head'
      | number _ _ neutral' => exact (neutral.unique neutral' parallel).1
      | _ => cases former.unique ‹_›
  | .same former head, other, parallel => by
      cases other with
      | same => rfl
      | proof _ head' _ => cases head.unique head'
      | _ => cases former.unique ‹_›
  | .proof former head neutral, other, parallel => by
      cases other with
      | same _ head' => cases head.unique head'
      | proof _ _ neutral' => exact (neutral.unique neutral' parallel).1
      | _ => cases former.unique ‹_›
  | .tick former head, other, parallel => by
      cases other with
      | tick _ head' =>
          cases head.unique head'
          exact beq_self_eq_true _
      | atom _ head' _ => cases head.unique head'
      | _ => cases former.unique ‹_›
  | .atom former head neutral, other, parallel => by
      cases other with
      | tick _ head' => cases head.unique head'
      | atom _ _ neutral' => exact (neutral.unique neutral' parallel).1
      | _ => cases former.unique ‹_›
  | .sole former, other, parallel => by
      cases other with
      | sole => rfl
      | _ => cases former.unique ‹_›
  | .absurd former, other, parallel => by
      cases other with
      | absurd => rfl
      | _ => cases former.unique ‹_›
  | .type former normal, other, parallel => by
      cases other with
      | type _ normal' => exact normal.unique normal' parallel
      | _ => cases former.unique ‹_›
  | .member former neutral, other, parallel => by
      cases other with
      | member _ neutral' => exact (neutral.unique neutral' parallel).1
      | _ => cases former.unique ‹_›
termination_by structural normal => normal

theorem TypeAt.unique {vars vars' : Variables} {code : Domain} {term term' : Term} :
    TypeAt vars code term → TypeAt vars' code term' → vars.Parallel vars' →
    term.alphaEquivUnder (vars.names.zip vars'.names) term' = true
  | .pi former fresh domainNormal rangeNormal, other, parallel => by
      cases other with
      | pi _ fresh' domainNormal' rangeNormal' =>
          rw [parallel.newest_eq] at rangeNormal'
          exact Bool.and_eq_true_iff.mpr ⟨domainNormal.unique domainNormal' parallel,
            rangeNormal.unique rangeNormal' (parallel.cons fresh fresh' _)⟩
      | _ => cases former.unique ‹_›
  | .sigma former fresh carNormal cdrNormal, other, parallel => by
      cases other with
      | sigma _ fresh' carNormal' cdrNormal' =>
          rw [parallel.newest_eq] at cdrNormal'
          exact Bool.and_eq_true_iff.mpr ⟨carNormal.unique carNormal' parallel,
            cdrNormal.unique cdrNormal' (parallel.cons fresh fresh' _)⟩
      | _ => cases former.unique ‹_›
  | .equal former typeNormal leftNormal rightNormal, other, parallel => by
      cases other with
      | equal _ typeNormal' leftNormal' rightNormal' =>
          exact Bool.and_eq_true_iff.mpr ⟨Bool.and_eq_true_iff.mpr
            ⟨typeNormal.unique typeNormal' parallel, leftNormal.unique leftNormal' parallel⟩,
            rightNormal.unique rightNormal' parallel⟩
      | _ => cases former.unique ‹_›
  | .nat former, other, parallel => by
      cases other with
      | nat => rfl
      | _ => cases former.unique ‹_›
  | .trivial former, other, parallel => by
      cases other with
      | trivial => rfl
      | _ => cases former.unique ‹_›
  | .absurd former, other, parallel => by
      cases other with
      | absurd => rfl
      | _ => cases former.unique ‹_›
  | .atom former, other, parallel => by
      cases other with
      | atom => rfl
      | _ => cases former.unique ‹_›
  | .univ former, other, parallel => by
      cases other with
      | univ => rfl
      | _ => cases former.unique ‹_›
  | .neutral former normal, other, parallel => by
      cases other with
      | neutral _ normal' => exact (normal.unique normal' parallel).1
      | _ => cases former.unique ‹_›
termination_by structural normal => normal

theorem NeutralAt.unique {vars vars' : Variables} {spine type type' : Domain} {term term' : Term} :
    NeutralAt vars spine type term → NeutralAt vars' spine type' term' → vars.Parallel vars' →
    term.alphaEquivUnder (vars.names.zip vars'.names) term' = true ∧ type = type'
  | .var head found, other, parallel => by
      cases other with
      | var head' found' =>
          cases head.unique head'
          exact parallel.assumed? found found'
      | _ => cases head.unique ‹_›
  | .app head functionNormal argumentNormal, other, parallel => by
      cases other with
      | app _ functionNormal' argumentNormal' =>
          obtain ⟨functionEquiv, types⟩ := functionNormal.unique functionNormal' parallel
          rw [← types] at argumentNormal' ⊢
          exact ⟨Bool.and_eq_true_iff.mpr ⟨functionEquiv,
            argumentNormal.unique argumentNormal' parallel⟩, rfl⟩
      | _ => cases head.unique ‹_›
  | .car head pairNormal, other, parallel => by
      cases other with
      | car _ pairNormal' =>
          obtain ⟨pairEquiv, types⟩ := pairNormal.unique pairNormal' parallel
          exact ⟨pairEquiv, congrArg (part 0) types⟩
      | _ => cases head.unique ‹_›
  | .cdr head pairNormal, other, parallel => by
      cases other with
      | cdr _ pairNormal' =>
          obtain ⟨pairEquiv, types⟩ := pairNormal.unique pairNormal' parallel
          rw [← types]
          exact ⟨pairEquiv, rfl⟩
      | _ => cases head.unique ‹_›
  | .indNat head targetNormal motiveNormal baseNormal stepNormal, other, parallel => by
      cases other with
      | indNat _ targetNormal' motiveNormal' baseNormal' stepNormal' =>
          have targetEquiv := (targetNormal.unique targetNormal' parallel).1
          have motiveEquiv := motiveNormal.unique motiveNormal' parallel
          have baseEquiv := baseNormal.unique baseNormal' parallel
          have stepEquiv := stepNormal.unique stepNormal' parallel
          refine ⟨?_, rfl⟩
          rw [Term.alphaEquivUnder, targetEquiv, motiveEquiv, baseEquiv, stepEquiv]
          rfl
      | _ => cases head.unique ‹_›
  | .replace head targetNormal motiveNormal baseNormal, other, parallel => by
      cases other with
      | replace _ targetNormal' motiveNormal' baseNormal' =>
          obtain ⟨targetEquiv, types⟩ := targetNormal.unique targetNormal' parallel
          rw [← types] at motiveNormal' baseNormal' ⊢
          have motiveEquiv := motiveNormal.unique motiveNormal' parallel
          have baseEquiv := baseNormal.unique baseNormal' parallel
          refine ⟨?_, rfl⟩
          rw [Term.alphaEquivUnder, targetEquiv, motiveEquiv, baseEquiv]
          rfl
      | _ => cases head.unique ‹_›
  | .indAbsurd head motiveNormal, other, parallel => by
      cases other with
      | indAbsurd _ motiveNormal' =>
          exact ⟨motiveNormal.unique motiveNormal' parallel, rfl⟩
      | _ => cases head.unique ‹_›
termination_by structural normal => normal

end

end LambdaCalculi.Dependent
