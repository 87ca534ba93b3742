import LambdaCalculi.Proofs.Dependent.Correspondence

/-!
# Values with linked closures

Relations between values mostly differ in what they ask of two closures and of names, and are alike
in all else. A `Linking` says when the bodies of two closures fit, and which values that their
environments bind have to be related. It cannot speak of the relation itself, so for every linking and
every way to relate names there is one least relation between values.
-/

set_option autoImplicit false

namespace LambdaCalculi.Dependent

/-- What it takes to link two closures, by some evidence. -/
structure Linking where
  Link : Type
  fits : Link → Closure → Closure → Prop
  /-- The two environments bind these values to what is the same for the bodies. -/
  binds : Link → Env → Env → Value → Value → Prop

def Closure.env : Closure → Env
  | mk env _ _ => env

section

variable (linking : Linking) (names : Name → Name → Prop)

mutual

/-- The values are alike up to their closures, which are linked, and their names. -/
inductive Value.Linked : Value → Value → Prop where
  | pi {domain domain' : Value} {range range' : Closure} (domains : Value.Linked domain domain')
      (ranges : Closure.Linked range range') : Value.Linked (.pi domain range) (.pi domain' range')
  | lam {body body' : Closure} (bodies : Closure.Linked body body') :
      Value.Linked (.lam body) (.lam body')
  | sigma {carType carType' : Value} {cdrType cdrType' : Closure}
      (carTypes : Value.Linked carType carType') (cdrTypes : Closure.Linked cdrType cdrType') :
      Value.Linked (.sigma carType cdrType) (.sigma carType' cdrType')
  | pair {first first' second second' : Value} (firsts : Value.Linked first first')
      (seconds : Value.Linked second second') :
      Value.Linked (.pair first second) (.pair first' second')
  | nat : Value.Linked .nat .nat
  | zero : Value.Linked .zero .zero
  | add1 {predecessor predecessor' : Value} (predecessors : Value.Linked predecessor predecessor') :
      Value.Linked (.add1 predecessor) (.add1 predecessor')
  | equal {type type' left left' right right' : Value} (types : Value.Linked type type')
      (lefts : Value.Linked left left') (rights : Value.Linked right right') :
      Value.Linked (.equal type left right) (.equal type' left' right')
  | same : Value.Linked .same .same
  | trivial : Value.Linked .trivial .trivial
  | sole : Value.Linked .sole .sole
  | absurd : Value.Linked .absurd .absurd
  | atom : Value.Linked .atom .atom
  | tick (symbol : String) : Value.Linked (.tick symbol) (.tick symbol)
  | univ : Value.Linked .univ .univ
  | neutral {type type' : Value} {blocked blocked' : Neutral} (types : Value.Linked type type')
      (blockeds : Neutral.Linked blocked blocked') :
      Value.Linked (.neutral type blocked) (.neutral type' blocked')

/-- The closures fit, and what their environments bind to the same is related. -/
inductive Closure.Linked : Closure → Closure → Prop where
  | mk {closure closure' : Closure} (link : linking.Link) (fits : linking.fits link closure closure')
      (bound : ∀ value value', linking.binds link closure.env closure'.env value value' →
        Value.Linked value value') :
      Closure.Linked closure closure'

inductive Neutral.Linked : Neutral → Neutral → Prop where
  | var {x x' : Name} (same : names x x') : Neutral.Linked (.var x) (.var x')
  | app {function function' : Neutral} {argument argument' : Normal}
      (functions : Neutral.Linked function function') (arguments : Normal.Linked argument argument') :
      Neutral.Linked (.app function argument) (.app function' argument')
  | car {pair pair' : Neutral} (pairs : Neutral.Linked pair pair') :
      Neutral.Linked (.car pair) (.car pair')
  | cdr {pair pair' : Neutral} (pairs : Neutral.Linked pair pair') :
      Neutral.Linked (.cdr pair) (.cdr pair')
  | indNat {target target' : Neutral} {motive motive' base base' step step' : Normal}
      (targets : Neutral.Linked target target') (motives : Normal.Linked motive motive')
      (bases : Normal.Linked base base') (steps : Normal.Linked step step') :
      Neutral.Linked (.indNat target motive base step) (.indNat target' motive' base' step')
  | replace {target target' : Neutral} {motive motive' base base' : Normal}
      (targets : Neutral.Linked target target') (motives : Normal.Linked motive motive')
      (bases : Normal.Linked base base') :
      Neutral.Linked (.replace target motive base) (.replace target' motive' base')
  | indAbsurd {target target' : Neutral} {motive motive' : Normal}
      (targets : Neutral.Linked target target') (motives : Normal.Linked motive motive') :
      Neutral.Linked (.indAbsurd target motive) (.indAbsurd target' motive')

inductive Normal.Linked : Normal → Normal → Prop where
  | mk {type type' value value' : Value} (types : Value.Linked type type')
      (members : Value.Linked value value') : Normal.Linked (.mk type value) (.mk type' value')

end

end

section

/-! ## More names -/

variable {linking : Linking} {names more : Name → Name → Prop}

mutual

theorem Value.Linked.mono (included : ∀ x x', names x x' → more x x') {value value' : Value} :
    value.Linked linking names value' → value.Linked linking more value'
  | .pi domains ranges => .pi (domains.mono included) (ranges.mono included)
  | .lam bodies => .lam (bodies.mono included)
  | .sigma carTypes cdrTypes => .sigma (carTypes.mono included) (cdrTypes.mono included)
  | .pair firsts seconds => .pair (firsts.mono included) (seconds.mono included)
  | .nat => .nat
  | .zero => .zero
  | .add1 predecessors => .add1 (predecessors.mono included)
  | .equal types lefts rights =>
      .equal (types.mono included) (lefts.mono included) (rights.mono included)
  | .same => .same
  | .trivial => .trivial
  | .sole => .sole
  | .absurd => .absurd
  | .atom => .atom
  | .tick symbol => .tick symbol
  | .univ => .univ
  | .neutral types blockeds => .neutral (types.mono included) (blockeds.mono included)

theorem Closure.Linked.mono (included : ∀ x x', names x x' → more x x') {closure closure' : Closure} :
    closure.Linked linking names closure' → closure.Linked linking more closure'
  | .mk link fits bound =>
      .mk link fits fun value value' same => (bound value value' same).mono included

theorem Neutral.Linked.mono (included : ∀ x x', names x x' → more x x') {blocked blocked' : Neutral} :
    blocked.Linked linking names blocked' → blocked.Linked linking more blocked'
  | .var same => .var (included _ _ same)
  | .app functions arguments => .app (functions.mono included) (arguments.mono included)
  | .car pairs => .car (pairs.mono included)
  | .cdr pairs => .cdr (pairs.mono included)
  | .indNat targets motives bases steps =>
      .indNat (targets.mono included) (motives.mono included) (bases.mono included)
        (steps.mono included)
  | .replace targets motives bases =>
      .replace (targets.mono included) (motives.mono included) (bases.mono included)
  | .indAbsurd targets motives => .indAbsurd (targets.mono included) (motives.mono included)

theorem Normal.Linked.mono (included : ∀ x x', names x x' → more x x') {normal normal' : Normal} :
    normal.Linked linking names normal' → normal.Linked linking more normal'
  | .mk types members => .mk (types.mono included) (members.mono included)

end

end

section

variable {linking : Linking} {names : Name → Name → Prop}

/-! ## Built alike -/

theorem Normal.linked_iff_congruent {normal normal' : Normal} :
    normal.Linked linking names normal' ↔
      normal.Congruent (Value.Linked linking names) normal' :=
  ⟨fun | .mk types members => .mk types members, fun | .mk types members => .mk types members⟩

theorem Value.linked_iff_congruent {value value' : Value} :
    value.Linked linking names value' ↔ Value.Congruent (Value.Linked linking names)
      (Closure.Linked linking names) (Neutral.Linked linking names) value value' := by
  constructor <;> rintro ⟨⟩ <;> constructor <;> assumption

theorem Neutral.linked_iff_congruent {blocked blocked' : Neutral} :
    blocked.Linked linking names blocked' ↔ Neutral.Congruent (Value.Linked linking names)
      (Neutral.Linked linking names) names blocked blocked' := by
  constructor
  · rintro (same | ⟨functions, arguments⟩ | pairs | pairs | ⟨targets, motives, bases, steps⟩ |
      ⟨targets, motives, bases⟩ | ⟨targets, motives⟩) <;> constructor
    all_goals first | assumption | exact Normal.linked_iff_congruent.mp ‹_›
  · rintro (same | ⟨functions, arguments⟩ | pairs | pairs | ⟨targets, motives, bases, steps⟩ |
      ⟨targets, motives, bases⟩ | ⟨targets, motives⟩) <;> constructor
    all_goals first | assumption | exact Normal.linked_iff_congruent.mpr ‹_›

end

/-! ## Evaluation -/

variable {World : Type} [Preorder World] {m m' : Type → Type} [Monad m] [Scoping m] [Monad m']
  [Scoping m']

structure Linking.Evaluating (linking : Linking) (names : Name → Name → Prop)
    (comparison : Comparison World m m') where
  /-- The terms fit in the environments they are to be evaluated in. -/
  scopes : Env → Term → Env → Term → Prop
  motives (x : Name) : x = "k" ∨ x = "x" →
    Closure.Linked linking names (.mk .nil x .univ) (.mk .nil x .univ)
  natStepType {motive motive' : Value} : motive.Linked linking names motive' →
    (Value.natStepType motive).Linked linking names (Value.natStepType motive')
  parts {env env' : Env} {term term' : Term} : scopes env term env' term' →
    Term.Congruent (fun _ _ => True) (fun part part' => scopes env part env' part')
      (fun x body x' body' => Closure.Linked linking names (.mk env x body) (.mk env' x' body'))
      term term'
  lookup {fuel : Nat} {world : World} {env env' : Env} {x : Name} {term' : Term} :
    scopes env (.var x) env' term' →
    comparison.Ends (fun _ => Value.Linked linking names) (fuel + 1) world
      (env.eval (fuel + 1) (.var x)) fun bound => env'.eval bound term'
  extend {fuel : Nat} {world : World} {env env' : Env} {x x' : Name} {body body' : Term}
    {argument argument' : Value} : Closure.Linked linking names (.mk env x body) (.mk env' x' body') →
    argument.Linked linking names argument' →
    comparison.Ends (fun _ inner inner' => scopes inner body inner' body') fuel world
      (Scoping.extend env x argument) fun _ => Scoping.extend env' x' argument'

def Linking.Evaluating.correspondence {linking : Linking} {names : Name → Name → Prop}
    {comparison : Comparison World m m'} (evaluating : linking.Evaluating names comparison) :
    Correspondence comparison where
  values _ := Value.Linked linking names
  closures _ := Closure.Linked linking names
  neutrals _ := Neutral.Linked linking names
  names := names
  scopes _ := evaluating.scopes
  values_iff := Value.linked_iff_congruent
  neutrals_iff := Neutral.linked_iff_congruent
  values_mono _ := id
  closures_mono _ := id
  neutrals_mono _ := id
  scopes_mono _ := id
  motives := evaluating.motives
  natStepType := evaluating.natStepType
  parts := evaluating.parts
  lookup := evaluating.lookup
  extend := evaluating.extend

end LambdaCalculi.Dependent
