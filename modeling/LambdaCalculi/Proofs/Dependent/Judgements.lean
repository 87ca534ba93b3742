import LambdaCalculi.Dependent.Eval
import LambdaCalculi.Proofs.Dependent.Elements

/-!
# Meanings of terms and of values

Judgements that give a term, and a value, a meaning and a type. Types are compared by what they mean:
each judgement has a rule for every construct (`Denotes`), and may exchange the meaning and the type
that a rule gives for others that agree with them (`Means`). A closure is judged in the world where
its body was met; the variables of that world have meanings in the world of the closure.

A value of a function type is an abstraction or neutral, and likewise for the other types, because
a neutral value is blocked when nothing is known of the variables.
-/

set_option autoImplicit false

namespace LambdaCalculi.Dependent

open Domain

/-- Whether names that are bound are found. They are as long as different names have different
fingerprints; where this is not `reliable`, a judgement tells what a term means in the evaluations
that find its names. -/
class Lookups where
  reliable : Prop

variable [Lookups]

/-- What a name that terms use means, and the meaning of its type. -/
structure Bound where
  name : Name
  value : Meaning
  type : Meaning

abbrev Scope := List Bound

namespace Scope

def innermost? : Scope → Name → Option Bound
  | [], _ => none
  | bound :: outer, x => if bound.name = x then some bound else innermost? outer x

/-- No other name of the scope has the fingerprint of `x`, if names have to be found. -/
def Unclouded (scope : Scope) (x : Name) : Prop :=
  Lookups.reliable → ∀ bound ∈ scope, bound.name.fingerprint = x.fingerprint → bound.name = x

/-- The scope in a world whose valuations are sent to the world of the scope. -/
def after (sending : Valuation → Valuation) (scope : Scope) : Scope :=
  scope.map fun bound =>
    ⟨bound.name, fun valuation => bound.value (sending valuation),
      fun valuation => bound.type (sending valuation)⟩

def Over (scope : Scope) (names : List Name) : Prop :=
  ∀ bound ∈ scope, Meaning.Over names bound.value ∧ Meaning.Over names bound.type

def bind (scope : Scope) (x n : Name) (type : Meaning) : Scope :=
  ⟨x, fun valuation => valuation n, type⟩ :: scope

end Scope

mutual

inductive Term.Means : Scope → World → Term → Meaning → Meaning → Prop where
  | mk {scope : Scope} {world : World} {term : Term} {element type shown shownType : Meaning}
      (denotes : Term.Denotes scope world term shown shownType)
      (shows : world.Shows element type shown shownType) : Term.Means scope world term element type

inductive Term.Denotes : Scope → World → Term → Meaning → Meaning → Prop where
  | var {scope : Scope} {world : World} {x : Name} {bound : Bound}
      (found : scope.innermost? x = some bound) (unclouded : scope.Unclouded x) :
      Term.Denotes scope world (.var x) bound.value bound.type
  | pi {scope : Scope} {world : World} {x n : Name} {domain range : Term} {domainMeaning body : Meaning}
      (domainMeans : Term.Means scope world domain domainMeaning (.leaf .univ))
      (new : world.New n domainMeaning)
      (rangeMeans : Term.Means (scope.bind x n domainMeaning) (world.extend new) range body
        (.leaf .univ)) :
      Term.Denotes scope world (.pi x domain range)
        (.pi domainMeaning (.family n domainMeaning body)) (.leaf .univ)
  | lam {scope : Scope} {world : World} {x n : Name} {body : Term} {domain bodyMeaning bodyType : Meaning}
      (new : world.New n domain)
      (bodyMeans : Term.Means (scope.bind x n domain) (world.extend new) body bodyMeaning bodyType) :
      Term.Denotes scope world (.lam x body) (.family n domain bodyMeaning)
        (.pi domain (.family n domain bodyType))
  | app {scope : Scope} {world : World} {function argument : Term}
      {functionMeaning argumentMeaning domain range : Meaning}
      (functionMeans : Term.Means scope world function functionMeaning (.pi domain range))
      (argumentMeans : Term.Means scope world argument argumentMeaning domain) :
      Term.Denotes scope world (.app function argument) (.apply functionMeaning argumentMeaning)
        (.apply range argumentMeaning)
  | sigma {scope : Scope} {world : World} {x n : Name} {carType cdrType : Term} {carMeaning body : Meaning}
      (carMeans : Term.Means scope world carType carMeaning (.leaf .univ))
      (new : world.New n carMeaning)
      (cdrMeans : Term.Means (scope.bind x n carMeaning) (world.extend new) cdrType body
        (.leaf .univ)) :
      Term.Denotes scope world (.sigma x carType cdrType)
        (.sigma carMeaning (.family n carMeaning body)) (.leaf .univ)
  | cons {scope : Scope} {world : World} {first second : Term}
      {firstMeaning secondMeaning carType cdrType : Meaning}
      (firstMeans : Term.Means scope world first firstMeaning carType)
      (secondMeans : Term.Means scope world second secondMeaning (.apply cdrType firstMeaning)) :
      Term.Denotes scope world (.cons first second) (.pair firstMeaning secondMeaning)
        (.sigma carType cdrType)
  | car {scope : Scope} {world : World} {pair : Term} {pairMeaning carType cdrType : Meaning}
      (pairMeans : Term.Means scope world pair pairMeaning (.sigma carType cdrType)) :
      Term.Denotes scope world (.car pair) (.part 0 pairMeaning) carType
  | cdr {scope : Scope} {world : World} {pair : Term} {pairMeaning carType cdrType : Meaning}
      (pairMeans : Term.Means scope world pair pairMeaning (.sigma carType cdrType)) :
      Term.Denotes scope world (.cdr pair) (.part 1 pairMeaning)
        (.apply cdrType (.part 0 pairMeaning))
  | nat {scope : Scope} {world : World} : Term.Denotes scope world .nat (.leaf .nat) (.leaf .univ)
  | zero {scope : Scope} {world : World} : Term.Denotes scope world .zero (.leaf .zero) (.leaf .nat)
  | add1 {scope : Scope} {world : World} {predecessor : Term} {meaning : Meaning}
      (predecessorMeans : Term.Means scope world predecessor meaning (.leaf .nat)) :
      Term.Denotes scope world (.add1 predecessor) (.add1 meaning) (.leaf .nat)
  | indNat {scope : Scope} {world : World} {target motive base step : Term}
      {number family start next : Meaning}
      (targetMeans : Term.Means scope world target number (.leaf .nat))
      (motiveMeans : Term.Means scope world motive family (.motiveType (.leaf .nat)))
      (baseMeans : Term.Means scope world base start (.apply family (.leaf .zero)))
      (stepMeans : Term.Means scope world step next (.stepType family)) :
      Term.Denotes scope world (.indNat target motive base step) (.ind number family start next)
        (.apply family number)
  | equal {scope : Scope} {world : World} {type left right : Term}
      {typeMeaning leftMeaning rightMeaning : Meaning}
      (typeMeans : Term.Means scope world type typeMeaning (.leaf .univ))
      (leftMeans : Term.Means scope world left leftMeaning typeMeaning)
      (rightMeans : Term.Means scope world right rightMeaning typeMeaning) :
      Term.Denotes scope world (.equal type left right)
        (.equal typeMeaning leftMeaning rightMeaning) (.leaf .univ)
  | same {scope : Scope} {world : World} {type left right : Meaning} (agree : world.Agree left right) :
      Term.Denotes scope world .same (.same type left right) (.equal type left right)
  | replace {scope : Scope} {world : World} {target motive base : Term}
      {evidence type left right family start : Meaning}
      (targetMeans : Term.Means scope world target evidence (.equal type left right))
      (motiveMeans : Term.Means scope world motive family (.motiveType type))
      (baseMeans : Term.Means scope world base start (.apply family left)) :
      Term.Denotes scope world (.replace target motive base) (.replace evidence family start)
        (.apply family right)
  | trivial {scope : Scope} {world : World} :
      Term.Denotes scope world .trivial (.leaf .trivial) (.leaf .univ)
  | sole {scope : Scope} {world : World} :
      Term.Denotes scope world .sole (fun _ => ∅) (.leaf .trivial)
  | absurd {scope : Scope} {world : World} :
      Term.Denotes scope world .absurd (.leaf .absurd) (.leaf .univ)
  | indAbsurd {scope : Scope} {world : World} {target motive : Term} {evidence type : Meaning}
      (targetMeans : Term.Means scope world target evidence (.leaf .absurd))
      (motiveMeans : Term.Means scope world motive type (.leaf .univ)) :
      Term.Denotes scope world (.indAbsurd target motive) type.indAbsurd type
  | atom {scope : Scope} {world : World} : Term.Denotes scope world .atom (.leaf .atom) (.leaf .univ)
  | tick {scope : Scope} {world : World} {symbol : String} :
      Term.Denotes scope world (.tick symbol) (.leaf (.tick symbol)) (.leaf .atom)
  | univ {scope : Scope} {world : World} : Term.Denotes scope world .univ (.leaf .univ) (.leaf .univ)
  | the {scope : Scope} {world : World} {type expr : Term} {meaning typeMeaning : Meaning}
      (typeMeans : Term.Means scope world type typeMeaning (.leaf .univ))
      (exprMeans : Term.Means scope world expr meaning typeMeaning) :
      Term.Denotes scope world (.the type expr) meaning typeMeaning

end

mutual

inductive Value.Means (world : World) : Value → Meaning → Meaning → Prop where
  | mk {value : Value} {element type shown shownType : Meaning}
      (denotes : Value.Denotes world value shown shownType)
      (shows : world.Shows element type shown shownType) : Value.Means world value element type

inductive Value.Denotes (world : World) : Value → Meaning → Meaning → Prop where
  | pi {domain : Value} {range : Closure} {domainMeaning rangeMeaning : Meaning}
      (domainMeans : Value.Means world domain domainMeaning (.leaf .univ))
      (rangeDenotes : Closure.Denotes world range domainMeaning rangeMeaning .constantUniv) :
      Value.Denotes world (.pi domain range) (.pi domainMeaning rangeMeaning) (.leaf .univ)
  | lam {body : Closure} {domain function range : Meaning}
      (bodyDenotes : Closure.Denotes world body domain function range) :
      Value.Denotes world (.lam body) function (.pi domain range)
  | sigma {carType : Value} {cdrType : Closure} {carMeaning cdrMeaning : Meaning}
      (carMeans : Value.Means world carType carMeaning (.leaf .univ))
      (cdrDenotes : Closure.Denotes world cdrType carMeaning cdrMeaning .constantUniv) :
      Value.Denotes world (.sigma carType cdrType) (.sigma carMeaning cdrMeaning) (.leaf .univ)
  | pair {first second : Value} {firstMeaning secondMeaning carType cdrType : Meaning}
      (firstMeans : Value.Means world first firstMeaning carType)
      (secondMeans : Value.Means world second secondMeaning (.apply cdrType firstMeaning)) :
      Value.Denotes world (.pair first second) (.pair firstMeaning secondMeaning)
        (.sigma carType cdrType)
  | nat : Value.Denotes world .nat (.leaf .nat) (.leaf .univ)
  | zero : Value.Denotes world .zero (.leaf .zero) (.leaf .nat)
  | add1 {predecessor : Value} {meaning : Meaning}
      (predecessorMeans : Value.Means world predecessor meaning (.leaf .nat)) :
      Value.Denotes world (.add1 predecessor) (.add1 meaning) (.leaf .nat)
  | equal {type left right : Value} {typeMeaning leftMeaning rightMeaning : Meaning}
      (typeMeans : Value.Means world type typeMeaning (.leaf .univ))
      (leftMeans : Value.Means world left leftMeaning typeMeaning)
      (rightMeans : Value.Means world right rightMeaning typeMeaning) :
      Value.Denotes world (.equal type left right) (.equal typeMeaning leftMeaning rightMeaning)
        (.leaf .univ)
  | same {type left right : Meaning} (agree : world.Agree left right) :
      Value.Denotes world .same (.same type left right) (.equal type left right)
  | trivial : Value.Denotes world .trivial (.leaf .trivial) (.leaf .univ)
  | sole : Value.Denotes world .sole (fun _ => ∅) (.leaf .trivial)
  | absurd : Value.Denotes world .absurd (.leaf .absurd) (.leaf .univ)
  | atom : Value.Denotes world .atom (.leaf .atom) (.leaf .univ)
  | tick {symbol : String} : Value.Denotes world (.tick symbol) (.leaf (.tick symbol)) (.leaf .atom)
  | univ : Value.Denotes world .univ (.leaf .univ) (.leaf .univ)
  | neutral {type : Value} {blocked : Neutral} {element typeMeaning : Meaning}
      (typeMeans : Value.Means world type typeMeaning (.leaf .univ))
      (blockedMeans : Neutral.Means world blocked element typeMeaning) :
      Value.Denotes world (.neutral type blocked) element typeMeaning

/-- The closure denotes a function from `domain` to the family of types `range`. -/
inductive Closure.Denotes (world : World) : Closure → Meaning → Meaning → Meaning → Prop where
  | mk {target : World} {sending : Valuation → Valuation} {scope : Scope} {env : Env} {x n : Name}
      {body : Term} {type bodyMeaning bodyType domain function range : Meaning}
      (isElement : world.Element function (.pi domain range))
      (sends : world.Sends target sending)
      (scopeOver : scope.Over target.names)
      (envMeans : Env.Means world env (scope.after sending))
      (new : target.New n type)
      (bodyMeans : Term.Means (scope.bind x n type) (target.extend new) body bodyMeaning bodyType)
      (domainAgree : world.Agree domain fun valuation => type (sending valuation))
      (functionAgree : world.Agree function fun valuation =>
        Meaning.family n type bodyMeaning (sending valuation))
      (rangeAgree : world.Agree range fun valuation =>
        Meaning.family n type bodyType (sending valuation)) :
      Closure.Denotes world (.mk env x body) domain function range

inductive Neutral.Means (world : World) : Neutral → Meaning → Meaning → Prop where
  | mk {neutral : Neutral} {element type shown shownType : Meaning}
      (denotes : Neutral.Denotes world neutral shown shownType)
      (shows : world.Shows element type shown shownType) : Neutral.Means world neutral element type

inductive Neutral.Denotes (world : World) : Neutral → Meaning → Meaning → Prop where
  | var {x : Name} {type : Meaning} (mem : ⟨x, type⟩ ∈ world.assumptions) :
      Neutral.Denotes world (.var x) (fun valuation => valuation x) type
  | app {function : Neutral} {argument : Normal} {functionMeaning argumentMeaning domain range : Meaning}
      (functionMeans : Neutral.Means world function functionMeaning (.pi domain range))
      (argumentMeans : Normal.Means world argument argumentMeaning domain) :
      Neutral.Denotes world (.app function argument) (.apply functionMeaning argumentMeaning)
        (.apply range argumentMeaning)
  | car {pair : Neutral} {pairMeaning carType cdrType : Meaning}
      (pairMeans : Neutral.Means world pair pairMeaning (.sigma carType cdrType)) :
      Neutral.Denotes world (.car pair) (.part 0 pairMeaning) carType
  | cdr {pair : Neutral} {pairMeaning carType cdrType : Meaning}
      (pairMeans : Neutral.Means world pair pairMeaning (.sigma carType cdrType)) :
      Neutral.Denotes world (.cdr pair) (.part 1 pairMeaning) (.apply cdrType (.part 0 pairMeaning))
  | indNat {target : Neutral} {motive base step : Normal} {number family start next : Meaning}
      (targetMeans : Neutral.Means world target number (.leaf .nat))
      (motiveMeans : Normal.Means world motive family (.motiveType (.leaf .nat)))
      (baseMeans : Normal.Means world base start (.apply family (.leaf .zero)))
      (stepMeans : Normal.Means world step next (.stepType family)) :
      Neutral.Denotes world (.indNat target motive base step) (.ind number family start next)
        (.apply family number)
  | replace {target : Neutral} {motive base : Normal} {evidence type left right family start : Meaning}
      (targetMeans : Neutral.Means world target evidence (.equal type left right))
      (leftElement : world.Element left type) (rightElement : world.Element right type)
      (motiveMeans : Normal.Means world motive family (.motiveType type))
      (baseMeans : Normal.Means world base start (.apply family left)) :
      Neutral.Denotes world (.replace target motive base) (.replace evidence family start)
        (.apply family right)
  | indAbsurd {target : Neutral} {motive : Normal} {evidence type : Meaning}
      (targetMeans : Neutral.Means world target evidence (.leaf .absurd))
      (motiveMeans : Normal.Means world motive type (.leaf .univ)) :
      Neutral.Denotes world (.indAbsurd target motive) type.indAbsurd type

inductive Normal.Means (world : World) : Normal → Meaning → Meaning → Prop where
  | mk {type value : Value} {element typeMeaning : Meaning}
      (typeMeans : Value.Means world type typeMeaning (.leaf .univ))
      (valueMeans : Value.Means world value element typeMeaning) :
      Normal.Means world (.mk type value) element typeMeaning

inductive Env.Means (world : World) : Env → Scope → Prop where
  | nil : Env.Means world .nil []
  | cons {tally : Tally} {x : Name} {value : Value} {env : Env} {element type : Meaning} {scope : Scope}
      (valueMeans : Value.Means world value element type) (outerMeans : Env.Means world env scope) :
      Env.Means world (.cons tally x value env) (⟨x, element, type⟩ :: scope)

end

/-! ## Exchanging meanings -/

section Exchange

variable {world : World} {meaning type shown shownType : Meaning}

theorem Term.Means.element {scope : Scope} {term : Term}
    (means : term.Means scope world meaning type) : world.Element meaning type := by
  obtain ⟨_, shows⟩ := means
  exact shows.toElement

theorem Term.Means.exchange {scope : Scope} {term : Term}
    (means : Term.Means scope world term shown shownType)
    (shows : world.Shows meaning type shown shownType) :
    Term.Means scope world term meaning type := by
  obtain ⟨denotes, shows'⟩ := means
  exact ⟨denotes, shows.trans shows'⟩

theorem Value.Means.element {value : Value} (means : value.Means world meaning type) :
    world.Element meaning type := by
  obtain ⟨_, shows⟩ := means
  exact shows.toElement

theorem Value.Means.exchange {value : Value} (means : value.Means world shown shownType)
    (shows : world.Shows meaning type shown shownType) : value.Means world meaning type := by
  obtain ⟨denotes, shows'⟩ := means
  exact ⟨denotes, shows.trans shows'⟩

theorem Neutral.Means.element {neutral : Neutral} (means : neutral.Means world meaning type) :
    world.Element meaning type := by
  obtain ⟨_, shows⟩ := means
  exact shows.toElement

theorem Neutral.Means.exchange {neutral : Neutral} (means : neutral.Means world shown shownType)
    (shows : world.Shows meaning type shown shownType) : neutral.Means world meaning type := by
  obtain ⟨denotes, shows'⟩ := means
  exact ⟨denotes, shows.trans shows'⟩

theorem Value.Means.retype {value : Value} (means : value.Means world meaning shownType)
    (isOver : Meaning.Over world.names type) (agree : world.Agree type shownType) :
    value.Means world meaning type :=
  means.exchange ⟨means.element.exchange means.element.isOver isOver (.refl _) agree, .refl _, agree⟩

theorem Term.Means.retype {scope : Scope} {term : Term}
    (means : term.Means scope world meaning shownType) (isOver : Meaning.Over world.names type)
    (agree : world.Agree type shownType) : term.Means scope world meaning type :=
  means.exchange ⟨means.element.exchange means.element.isOver isOver (.refl _) agree, .refl _, agree⟩

theorem Value.Denotes.asType {value : Value} (denotes : value.Denotes world meaning (.leaf .univ))
    (isOver : Meaning.Over world.names meaning) : value.Means world meaning (.leaf .univ) :=
  ⟨denotes, (World.Element.ofType isOver).shows⟩

theorem Term.Denotes.asType {scope : Scope} {term : Term}
    (denotes : term.Denotes scope world meaning (.leaf .univ))
    (isOver : Meaning.Over world.names meaning) : term.Means scope world meaning (.leaf .univ) :=
  ⟨denotes, (World.Element.ofType isOver).shows⟩

theorem Value.Means.nat : Value.nat.Means world (.leaf .nat) (.leaf .univ) :=
  Value.Denotes.nat.asType (.const _)

theorem Value.Means.univ : Value.univ.Means world (.leaf .univ) (.leaf .univ) :=
  Value.Denotes.univ.asType (.const _)

theorem Value.Means.zero : Value.zero.Means world (.leaf .zero) (.leaf .nat) :=
  ⟨.zero, World.Element.zero.shows⟩

theorem Normal.Means.element {normal : Normal} (means : normal.Means world meaning type) :
    world.Element meaning type := by
  obtain ⟨_, valueMeans⟩ := means
  exact valueMeans.element

end Exchange

theorem Closure.Denotes.exchange {world : World} {closure : Closure}
    {domain function range domain' function' range' : Meaning}
    (denotes : closure.Denotes world domain function range)
    (isElement : world.Element function' (.pi domain' range')) (domainAgree : world.Agree domain' domain)
    (functionAgree : world.Agree function' function) (rangeAgree : world.Agree range' range) :
    closure.Denotes world domain' function' range' := by
  obtain ⟨_, sends, scopeOver, envMeans, new, bodyMeans, agree, agree', agree''⟩ := denotes
  exact ⟨isElement, sends, scopeOver, envMeans, new, bodyMeans, domainAgree.trans agree,
    functionAgree.trans agree', rangeAgree.trans agree''⟩

theorem Closure.Denotes.element {world : World} {closure : Closure} {domain function range : Meaning}
    (denotes : closure.Denotes world domain function range) :
    world.Element function (.pi domain range) := by
  cases denotes
  assumption

theorem Closure.Denotes.exchangeFamily {world : World} {closure : Closure}
    {domain family domain' family' : Meaning}
    (denotes : closure.Denotes world domain family .constantUniv)
    (domainOver : Meaning.Over world.names domain') (familyOver : Meaning.Over world.names family')
    (domainAgree : world.Agree domain' domain) (familyAgree : world.Agree family' family) :
    closure.Denotes world domain' family' .constantUniv := by
  have typeAgree : world.Agree domain'.motiveType domain.motiveType :=
    domainAgree.map fun domain => Domain.pi domain (lam fun _ => leaf .univ)
  exact denotes.exchange (denotes.element.exchange familyOver domainOver.motiveType familyAgree typeAgree)
    domainAgree familyAgree (.refl _)

/-! ## More variables -/

section Extension

variable {world : World} {x : Name} {added : Meaning} (new : world.New x added)

mutual

theorem Value.Means.extend {value : Value} {meaning type : Meaning} :
    value.Means world meaning type → value.Means (world.extend new) meaning type
  | .mk denotes shows => .mk denotes.extend (shows.extend new)
termination_by structural means => means

theorem Value.Denotes.extend {value : Value} {meaning type : Meaning} :
    value.Denotes world meaning type → value.Denotes (world.extend new) meaning type
  | .pi domainMeans rangeDenotes => .pi domainMeans.extend rangeDenotes.extend
  | .lam bodyDenotes => .lam bodyDenotes.extend
  | .sigma carMeans cdrDenotes => .sigma carMeans.extend cdrDenotes.extend
  | .pair firstMeans secondMeans => .pair firstMeans.extend secondMeans.extend
  | .nat => .nat
  | .zero => .zero
  | .add1 predecessorMeans => .add1 predecessorMeans.extend
  | .equal typeMeans leftMeans rightMeans =>
      .equal typeMeans.extend leftMeans.extend rightMeans.extend
  | .same agree => .same (agree.extend new)
  | .trivial => .trivial
  | .sole => .sole
  | .absurd => .absurd
  | .atom => .atom
  | .tick => .tick
  | .univ => .univ
  | .neutral typeMeans blockedMeans => .neutral typeMeans.extend blockedMeans.extend
termination_by structural denotes => denotes

theorem Closure.Denotes.extend {closure : Closure} {domain function range : Meaning} :
    closure.Denotes world domain function range →
      closure.Denotes (world.extend new) domain function range
  | .mk isElement sends scopeOver envMeans newInside bodyMeans domainAgree functionAgree rangeAgree =>
      .mk (isElement.extend new) (sends.extend new) scopeOver envMeans.extend newInside bodyMeans
        (domainAgree.extend new) (functionAgree.extend new) (rangeAgree.extend new)
termination_by structural denotes => denotes

theorem Neutral.Means.extend {neutral : Neutral} {meaning type : Meaning} :
    neutral.Means world meaning type → neutral.Means (world.extend new) meaning type
  | .mk denotes shows => .mk denotes.extend (shows.extend new)
termination_by structural means => means

theorem Neutral.Denotes.extend {neutral : Neutral} {meaning type : Meaning} :
    neutral.Denotes world meaning type → neutral.Denotes (world.extend new) meaning type
  | .var mem => .var (List.mem_cons_of_mem _ mem)
  | .app functionMeans argumentMeans => .app functionMeans.extend argumentMeans.extend
  | .car pairMeans => .car pairMeans.extend
  | .cdr pairMeans => .cdr pairMeans.extend
  | .indNat targetMeans motiveMeans baseMeans stepMeans =>
      .indNat targetMeans.extend motiveMeans.extend baseMeans.extend stepMeans.extend
  | .replace targetMeans leftElement rightElement motiveMeans baseMeans =>
      .replace targetMeans.extend (leftElement.extend new) (rightElement.extend new)
        motiveMeans.extend baseMeans.extend
  | .indAbsurd targetMeans motiveMeans => .indAbsurd targetMeans.extend motiveMeans.extend
termination_by structural denotes => denotes

theorem Normal.Means.extend {normal : Normal} {meaning type : Meaning} :
    normal.Means world meaning type → normal.Means (world.extend new) meaning type
  | .mk typeMeans valueMeans => .mk typeMeans.extend valueMeans.extend
termination_by structural means => means

theorem Env.Means.extend {env : Env} {scope : Scope} :
    env.Means world scope → env.Means (world.extend new) scope
  | .nil => .nil
  | .cons valueMeans outerMeans => .cons valueMeans.extend outerMeans.extend
termination_by structural means => means

end

end Extension

end LambdaCalculi.Dependent
