import LambdaCalculi.Dependent.Eval
import LambdaCalculi.Proofs.Dependent.Comparison

/-!
# Evaluation preserves every correspondence

Much of what is known of evaluation says that it takes related data to related results: that a larger
bound makes no difference, that the names of bound variables make none, that only variables in scope
turn up. All of it is one argument. A `Correspondence` relates values, closures and blocked
computations. It is asked that related values are built alike from related parts, and for what is
special about it: how a name is looked up, and how an environment is extended. Then evaluation within
any bound ends alike on what corresponds, by the comparison that it was made for.

Relations may depend on a world, and what they hold of in one world they hold of in all later ones.
-/

set_option autoImplicit false

namespace LambdaCalculi.Dependent

/-! ## Built alike -/

section Congruence

variable (values : Value → Value → Prop) (closures : Closure → Closure → Prop)
  (neutrals : Neutral → Neutral → Prop) (names : Name → Name → Prop)

inductive Value.Congruent : Value → Value → Prop where
  | pi {domain domain' : Value} {range range' : Closure} (domains : values domain domain')
      (ranges : closures range range') : Value.Congruent (.pi domain range) (.pi domain' range')
  | lam {body body' : Closure} (bodies : closures body body') :
      Value.Congruent (.lam body) (.lam body')
  | sigma {carType carType' : Value} {cdrType cdrType' : Closure} (carTypes : values carType carType')
      (cdrTypes : closures cdrType cdrType') :
      Value.Congruent (.sigma carType cdrType) (.sigma carType' cdrType')
  | pair {first first' second second' : Value} (firsts : values first first')
      (seconds : values second second') : Value.Congruent (.pair first second) (.pair first' second')
  | nat : Value.Congruent .nat .nat
  | zero : Value.Congruent .zero .zero
  | add1 {predecessor predecessor' : Value} (predecessors : values predecessor predecessor') :
      Value.Congruent (.add1 predecessor) (.add1 predecessor')
  | equal {type type' left left' right right' : Value} (types : values type type')
      (lefts : values left left') (rights : values right right') :
      Value.Congruent (.equal type left right) (.equal type' left' right')
  | same : Value.Congruent .same .same
  | trivial : Value.Congruent .trivial .trivial
  | sole : Value.Congruent .sole .sole
  | absurd : Value.Congruent .absurd .absurd
  | atom : Value.Congruent .atom .atom
  | tick (symbol : String) : Value.Congruent (.tick symbol) (.tick symbol)
  | univ : Value.Congruent .univ .univ
  | neutral {type type' : Value} {blocked blocked' : Neutral} (types : values type type')
      (blockeds : neutrals blocked blocked') :
      Value.Congruent (.neutral type blocked) (.neutral type' blocked')

inductive Normal.Congruent : Normal → Normal → Prop where
  | mk {type type' value value' : Value} (types : values type type') (members : values value value') :
      Normal.Congruent (.mk type value) (.mk type' value')

inductive Neutral.Congruent : Neutral → Neutral → Prop where
  | var {x x' : Name} (same : names x x') : Neutral.Congruent (.var x) (.var x')
  | app {function function' : Neutral} {argument argument' : Normal}
      (functions : neutrals function function')
      (arguments : Normal.Congruent values argument argument') :
      Neutral.Congruent (.app function argument) (.app function' argument')
  | car {pair pair' : Neutral} (pairs : neutrals pair pair') :
      Neutral.Congruent (.car pair) (.car pair')
  | cdr {pair pair' : Neutral} (pairs : neutrals pair pair') :
      Neutral.Congruent (.cdr pair) (.cdr pair')
  | indNat {target target' : Neutral} {motive motive' base base' step step' : Normal}
      (targets : neutrals target target') (motives : Normal.Congruent values motive motive')
      (bases : Normal.Congruent values base base') (steps : Normal.Congruent values step step') :
      Neutral.Congruent (.indNat target motive base step) (.indNat target' motive' base' step')
  | replace {target target' : Neutral} {motive motive' base base' : Normal}
      (targets : neutrals target target') (motives : Normal.Congruent values motive motive')
      (bases : Normal.Congruent values base base') :
      Neutral.Congruent (.replace target motive base) (.replace target' motive' base')
  | indAbsurd {target target' : Neutral} {motive motive' : Normal}
      (targets : neutrals target target') (motives : Normal.Congruent values motive motive') :
      Neutral.Congruent (.indAbsurd target motive) (.indAbsurd target' motive')

end Congruence

section Terms

variable (atVariables : Name → Term → Prop) (terms : Term → Term → Prop)
  (bodies : Name → Term → Name → Term → Prop)

/-- The terms have the same form, and their parts are related. In place of a variable there may be any
term. -/
inductive Term.Congruent : Term → Term → Prop where
  | var {x : Name} {term : Term} (replaced : atVariables x term) : Term.Congruent (.var x) term
  | pi {x x' : Name} {domain domain' range range' : Term} (domains : terms domain domain')
      (ranges : bodies x range x' range') :
      Term.Congruent (.pi x domain range) (.pi x' domain' range')
  | lam {x x' : Name} {body body' : Term} (insides : bodies x body x' body') :
      Term.Congruent (.lam x body) (.lam x' body')
  | app {function function' argument argument' : Term} (functions : terms function function')
      (arguments : terms argument argument') :
      Term.Congruent (.app function argument) (.app function' argument')
  | sigma {x x' : Name} {carType carType' cdrType cdrType' : Term} (carTypes : terms carType carType')
      (cdrTypes : bodies x cdrType x' cdrType') :
      Term.Congruent (.sigma x carType cdrType) (.sigma x' carType' cdrType')
  | cons {first first' second second' : Term} (firsts : terms first first')
      (seconds : terms second second') : Term.Congruent (.cons first second) (.cons first' second')
  | car {pair pair' : Term} (pairs : terms pair pair') : Term.Congruent (.car pair) (.car pair')
  | cdr {pair pair' : Term} (pairs : terms pair pair') : Term.Congruent (.cdr pair) (.cdr pair')
  | nat : Term.Congruent .nat .nat
  | zero : Term.Congruent .zero .zero
  | add1 {predecessor predecessor' : Term} (predecessors : terms predecessor predecessor') :
      Term.Congruent (.add1 predecessor) (.add1 predecessor')
  | indNat {target target' motive motive' base base' step step' : Term}
      (targets : terms target target') (motives : terms motive motive') (bases : terms base base')
      (steps : terms step step') :
      Term.Congruent (.indNat target motive base step) (.indNat target' motive' base' step')
  | equal {type type' left left' right right' : Term} (types : terms type type')
      (lefts : terms left left') (rights : terms right right') :
      Term.Congruent (.equal type left right) (.equal type' left' right')
  | same : Term.Congruent .same .same
  | replace {target target' motive motive' base base' : Term} (targets : terms target target')
      (motives : terms motive motive') (bases : terms base base') :
      Term.Congruent (.replace target motive base) (.replace target' motive' base')
  | trivial : Term.Congruent .trivial .trivial
  | sole : Term.Congruent .sole .sole
  | absurd : Term.Congruent .absurd .absurd
  | indAbsurd {target target' motive motive' : Term} (targets : terms target target')
      (motives : terms motive motive') :
      Term.Congruent (.indAbsurd target motive) (.indAbsurd target' motive')
  | atom : Term.Congruent .atom .atom
  | tick (symbol : String) : Term.Congruent (.tick symbol) (.tick symbol)
  | univ : Term.Congruent .univ .univ
  | the {type type' expr expr' : Term} (types : terms type type') (exprs : terms expr expr') :
      Term.Congruent (.the type expr) (.the type' expr')

end Terms

/-- Terms with the same parts are the same. -/
theorem Term.Congruent.eq {atVariables : Name → Term → Prop} {term term' : Term}
    (built : Term.Congruent atVariables Eq (fun x body x' body' => x = x' ∧ body = body') term term')
    (same : ∀ x term, atVariables x term → term = .var x) : term = term' := by
  cases built with
  | var replaced => exact (same _ _ replaced).symm
  | pi domains ranges => rw [domains, ranges.1, ranges.2]
  | sigma carTypes cdrTypes => rw [carTypes, cdrTypes.1, cdrTypes.2]
  | lam insides => rw [insides.1, insides.2]
  | _ => simp only [*]

/-! ## Correspondences -/

section

variable {World : Type} [Preorder World] {m m' : Type → Type} [Monad m] [Scoping m] [Monad m']
  [Scoping m']

/-- Relations between the data of two computations that evaluation has to preserve. -/
structure Correspondence (comparison : Comparison World m m') where
  values : World → Value → Value → Prop
  closures : World → Closure → Closure → Prop
  neutrals : World → Neutral → Neutral → Prop
  names : Name → Name → Prop
  /-- The terms are related in the environments they are to be evaluated in. -/
  scopes : World → Env → Term → Env → Term → Prop
  values_iff {world : World} {value value' : Value} : values world value value' ↔
    Value.Congruent (values world) (closures world) (neutrals world) value value'
  neutrals_iff {world : World} {blocked blocked' : Neutral} : neutrals world blocked blocked' ↔
    Neutral.Congruent (values world) (neutrals world) names blocked blocked'
  values_mono {world later : World} (le : world ≤ later) {value value' : Value} :
    values world value value' → values later value value'
  closures_mono {world later : World} (le : world ≤ later) {closure closure' : Closure} :
    closures world closure closure' → closures later closure closure'
  neutrals_mono {world later : World} (le : world ≤ later) {blocked blocked' : Neutral} :
    neutrals world blocked blocked' → neutrals later blocked blocked'
  scopes_mono {world later : World} (le : world ≤ later) {env env' : Env} {term term' : Term} :
    scopes world env term env' term' → scopes later env term env' term'
  /-- The range of the type of motives for induction and for replacement. -/
  motives {world : World} (x : Name) : x = "k" ∨ x = "x" →
    closures world (.mk .nil x .univ) (.mk .nil x .univ)
  natStepType {world : World} {motive motive' : Value} : values world motive motive' →
    values world (Value.natStepType motive) (Value.natStepType motive')
  /-- Subterms can be evaluated in their turn, and a body makes closures; variables are for `lookup`. -/
  parts {world : World} {env env' : Env} {term term' : Term} : scopes world env term env' term' →
    Term.Congruent (fun _ _ => True) (fun part part' => scopes world env part env' part')
      (fun x body x' body' => closures world (.mk env x body) (.mk env' x' body')) term term'
  lookup {fuel : Nat} {world : World} {env env' : Env} {x : Name} {term' : Term} :
    scopes world env (.var x) env' term' →
    comparison.Ends values (fuel + 1) world (env.eval (fuel + 1) (.var x))
      fun bound => env'.eval bound term'
  extend {fuel : Nat} {world : World} {env env' : Env} {x x' : Name} {body body' : Term}
    {argument argument' : Value} :
    closures world (.mk env x body) (.mk env' x' body') → values world argument argument' →
    comparison.Ends (fun later inner inner' => scopes later inner body inner' body') fuel world
      (Scoping.extend env x argument) fun _ => Scoping.extend env' x' argument'

namespace Correspondence

variable {comparison : Comparison World m m'} (relation : Correspondence comparison)
  {fuel : Nat} {world : World}

theorem value {value value' : Value} (built : Value.Congruent (relation.values world)
    (relation.closures world) (relation.neutrals world) value value') :
    relation.values world value value' :=
  relation.values_iff.mpr built

theorem neutral {blocked blocked' : Neutral} (built : Neutral.Congruent (relation.values world)
    (relation.neutrals world) relation.names blocked blocked') :
    relation.neutrals world blocked blocked' :=
  relation.neutrals_iff.mpr built

theorem natMotiveType : relation.values world Value.natMotiveType Value.natMotiveType :=
  relation.value (.pi (relation.value .nat) (relation.motives "k" (.inl rfl)))

theorem equalMotiveType {type type' : Value} (types : relation.values world type type') :
    relation.values world (Value.equalMotiveType type) (Value.equalMotiveType type') :=
  relation.value (.pi types (relation.motives "x" (.inr rfl)))

theorem ofVar {type type' : Value} (types : relation.values world type type') {x x' : Name}
    (same : relation.names x x') :
    relation.values world (Value.ofVar type x) (Value.ofVar type' x') :=
  relation.value (.neutral types (relation.neutral (.var same)))

theorem car {pair pair' : Value} (pairs : relation.values world pair pair') :
    comparison.Ends relation.values fuel world pair.car fun _ => pair'.car := by
  cases relation.values_iff.mp pairs with
  | pair firsts seconds => exact comparison.done firsts
  | neutral types blockeds =>
      cases relation.values_iff.mp types with
      | sigma carTypes cdrTypes =>
          have firsts := relation.neutral (.car blockeds)
          exact comparison.done (relation.value (.neutral carTypes firsts))
      | _ => exact comparison.stuck trivial
  | _ => exact comparison.stuck trivial

theorem indAbsurd {target target' motive motive' : Value}
    (targets : relation.values world target target')
    (motives : relation.values world motive motive') :
    comparison.Ends relation.values fuel world (target.indAbsurd motive)
      fun _ => target'.indAbsurd motive' := by
  cases relation.values_iff.mp targets with
  | neutral types blockeds =>
      cases relation.values_iff.mp types with
      | absurd =>
          have results := relation.neutral
            (.indAbsurd blockeds (.mk (relation.value .univ) motives))
          exact comparison.done (relation.value (.neutral motives results))
      | _ => exact comparison.stuck trivial
  | _ => exact comparison.stuck trivial

structure Evaluates (fuel : Nat) : Prop where
  eval {world : World} {env env' : Env} {term term' : Term} :
    relation.scopes world env term env' term' →
    comparison.Ends relation.values fuel world (env.eval fuel term) fun bound => env'.eval bound term'
  instantiate {world : World} {closure closure' : Closure} {argument argument' : Value} :
    relation.closures world closure closure' → relation.values world argument argument' →
    comparison.Ends relation.values fuel world (closure.instantiate fuel argument)
      fun bound => closure'.instantiate bound argument'
  apply {world : World} {function function' argument argument' : Value} :
    relation.values world function function' → relation.values world argument argument' →
    comparison.Ends relation.values fuel world (function.apply fuel argument)
      fun bound => function'.apply bound argument'
  cdr {world : World} {pair pair' : Value} : relation.values world pair pair' →
    comparison.Ends relation.values fuel world (pair.cdr fuel) fun bound => pair'.cdr bound
  indNat {world : World} {target target' motive motive' base base' step step' : Value} :
    relation.values world target target' → relation.values world motive motive' →
    relation.values world base base' → relation.values world step step' →
    comparison.Ends relation.values fuel world (target.indNat fuel motive base step)
      fun bound => target'.indNat bound motive' base' step'
  replace {world : World} {target target' motive motive' base base' : Value} :
    relation.values world target target' → relation.values world motive motive' →
    relation.values world base base' →
    comparison.Ends relation.values fuel world (target.replace fuel motive base)
      fun bound => target'.replace bound motive' base'

namespace Evaluates

variable {relation}

theorem zero : relation.Evaluates 0 where
  eval _ := comparison.exhausted rfl
  instantiate _ _ := comparison.exhausted rfl
  apply _ _ := comparison.exhausted rfl
  cdr _ := comparison.exhausted rfl
  indNat _ _ _ _ := comparison.exhausted rfl
  replace _ _ _ := comparison.exhausted rfl

/-- The parts of a term are evaluated one after the other, each in the world that the last has left. -/
theorem eval_succ (ih : relation.Evaluates fuel) {env env' : Env} {term term' : Term}
    (related : relation.scopes world env term env' term') :
    comparison.Ends relation.values (fuel + 1) world (env.eval (fuel + 1) term)
      fun bound => env'.eval bound term' := by
  have constant {value value' : Value} (same : ∀ {later : World}, Value.Congruent
      (relation.values later) (relation.closures later) (relation.neutrals later) value value') :
      comparison.Ends relation.values fuel world (pure value : m Value) fun _ => pure value' :=
    comparison.done (relation.value same)
  cases relation.parts related with
  | var => exact relation.lookup related
  | pi domains ranges =>
      refine comparison.spend (comparison.bind (ih.eval domains) fun le domains => ?_)
      exact comparison.done (relation.value (.pi domains (relation.closures_mono le ranges)))
  | lam insides => exact comparison.spend (comparison.done (relation.value (.lam insides)))
  | app functions arguments =>
      refine comparison.spend (comparison.bind (ih.eval functions) fun le functions => ?_)
      refine comparison.bind (ih.eval (relation.scopes_mono le arguments)) fun le arguments => ?_
      exact ih.apply (relation.values_mono le functions) arguments
  | sigma carTypes cdrTypes =>
      refine comparison.spend (comparison.bind (ih.eval carTypes) fun le carTypes => ?_)
      exact comparison.done
        (relation.value (.sigma carTypes (relation.closures_mono le cdrTypes)))
  | cons firsts seconds =>
      refine comparison.spend (comparison.bind (ih.eval firsts) fun le firsts => ?_)
      refine comparison.bind (ih.eval (relation.scopes_mono le seconds)) fun le seconds => ?_
      exact comparison.done
        (relation.value (.pair (relation.values_mono le firsts) seconds))
  | car pairs =>
      exact comparison.spend (comparison.bind (ih.eval pairs) fun _ pairs => relation.car pairs)
  | cdr pairs => exact comparison.spend (comparison.bind (ih.eval pairs) fun _ pairs => ih.cdr pairs)
  | add1 predecessors =>
      refine comparison.spend (comparison.bind (ih.eval predecessors) fun _ predecessors => ?_)
      exact comparison.done (relation.value (.add1 predecessors))
  | indNat targets motives bases steps =>
      refine comparison.spend (comparison.bind (ih.eval targets) fun le targets => ?_)
      refine comparison.bind (ih.eval (relation.scopes_mono le motives)) fun le' motives => ?_
      have two := le.trans le'
      refine comparison.bind (ih.eval (relation.scopes_mono two bases)) fun le'' bases => ?_
      have three := two.trans le''
      refine comparison.bind (ih.eval (relation.scopes_mono three steps)) fun last steps => ?_
      exact ih.indNat (relation.values_mono (le'.trans (le''.trans last)) targets)
        (relation.values_mono (le''.trans last) motives) (relation.values_mono last bases) steps
  | equal types lefts rights =>
      refine comparison.spend (comparison.bind (ih.eval types) fun le types => ?_)
      refine comparison.bind (ih.eval (relation.scopes_mono le lefts)) fun le' lefts => ?_
      refine comparison.bind (ih.eval (relation.scopes_mono (le.trans le') rights)) fun last rights => ?_
      exact comparison.done (relation.value (.equal
        (relation.values_mono (le'.trans last) types) (relation.values_mono last lefts) rights))
  | replace targets motives bases =>
      refine comparison.spend (comparison.bind (ih.eval targets) fun le targets => ?_)
      refine comparison.bind (ih.eval (relation.scopes_mono le motives)) fun le' motives => ?_
      refine comparison.bind (ih.eval (relation.scopes_mono (le.trans le') bases)) fun last bases => ?_
      exact ih.replace (relation.values_mono (le'.trans last) targets)
        (relation.values_mono last motives) bases
  | indAbsurd targets motives =>
      refine comparison.spend (comparison.bind (ih.eval targets) fun le targets => ?_)
      refine comparison.bind (ih.eval (relation.scopes_mono le motives)) fun last motives => ?_
      exact relation.indAbsurd (relation.values_mono last targets) motives
  | the types exprs => exact comparison.spend (ih.eval exprs)
  | nat => exact comparison.spend (constant .nat)
  | zero => exact comparison.spend (constant .zero)
  | same => exact comparison.spend (constant .same)
  | trivial => exact comparison.spend (constant .trivial)
  | sole => exact comparison.spend (constant .sole)
  | absurd => exact comparison.spend (constant .absurd)
  | atom => exact comparison.spend (constant .atom)
  | tick symbol => exact comparison.spend (constant (.tick symbol))
  | univ => exact comparison.spend (constant .univ)

theorem instantiate_succ (ih : relation.Evaluates fuel) {closure closure' : Closure}
    {argument argument' : Value} (closures : relation.closures world closure closure')
    (arguments : relation.values world argument argument') :
    comparison.Ends relation.values (fuel + 1) world (closure.instantiate (fuel + 1) argument)
      fun bound => closure'.instantiate bound argument' := by
  cases closure with
  | mk env x body =>
      cases closure' with
      | mk env' x' body' =>
          refine comparison.spend (comparison.bind (relation.extend closures arguments) ?_)
          exact fun _ inner => ih.eval inner

theorem apply_succ (ih : relation.Evaluates fuel) {function function' argument argument' : Value}
    (functions : relation.values world function function')
    (arguments : relation.values world argument argument') :
    comparison.Ends relation.values (fuel + 1) world (function.apply (fuel + 1) argument)
      fun bound => function'.apply bound argument' := by
  refine comparison.spend ?_
  cases relation.values_iff.mp functions with
  | lam bodies => exact ih.instantiate bodies arguments
  | neutral types blockeds =>
      cases relation.values_iff.mp types with
      | pi domains ranges =>
          refine comparison.bind (ih.instantiate ranges arguments) fun le results => ?_
          have calls := relation.neutral (.app (relation.neutrals_mono le blockeds)
            (.mk (relation.values_mono le domains) (relation.values_mono le arguments)))
          exact comparison.done (relation.value (.neutral results calls))
      | _ => exact comparison.stuck trivial
  | _ => exact comparison.stuck trivial

theorem cdr_succ (ih : relation.Evaluates fuel) {pair pair' : Value}
    (pairs : relation.values world pair pair') :
    comparison.Ends relation.values (fuel + 1) world (pair.cdr (fuel + 1))
      fun bound => pair'.cdr bound := by
  refine comparison.spend ?_
  cases relation.values_iff.mp pairs with
  | pair firsts seconds => exact comparison.done seconds
  | neutral types blockeds =>
      cases relation.values_iff.mp types with
      | sigma carTypes cdrTypes =>
          have firsts := relation.value
            (.neutral carTypes (relation.neutral (.car blockeds)))
          refine comparison.bind (ih.instantiate cdrTypes firsts) fun le results => ?_
          have seconds := relation.neutral (.cdr (relation.neutrals_mono le blockeds))
          exact comparison.done (relation.value (.neutral results seconds))
      | _ => exact comparison.stuck trivial
  | _ => exact comparison.stuck trivial

theorem indNat_succ (ih : relation.Evaluates fuel)
    {target target' motive motive' base base' step step' : Value}
    (targets : relation.values world target target') (motives : relation.values world motive motive')
    (bases : relation.values world base base') (steps : relation.values world step step') :
    comparison.Ends relation.values (fuel + 1) world (target.indNat (fuel + 1) motive base step)
      fun bound => target'.indNat bound motive' base' step' := by
  refine comparison.spend ?_
  cases relation.values_iff.mp targets with
  | zero => exact comparison.done bases
  | add1 predecessors =>
      refine comparison.bind (ih.apply steps predecessors) fun le calls => ?_
      refine comparison.bind (ih.indNat (relation.values_mono le predecessors)
        (relation.values_mono le motives) (relation.values_mono le bases)
        (relation.values_mono le steps)) fun last almosts => ?_
      exact ih.apply (relation.values_mono last calls) almosts
  | neutral types blockeds =>
      cases relation.values_iff.mp types with
      | nat =>
          refine comparison.bind (ih.apply motives targets) fun le results => ?_
          refine comparison.bind (ih.apply (relation.values_mono le motives) (relation.value .zero))
            fun last baseTypes => ?_
          have motives := relation.values_mono (le.trans last) motives
          have blocked := relation.neutral (.indNat
            (relation.neutrals_mono (le.trans last) blockeds) (.mk relation.natMotiveType motives)
            (.mk baseTypes (relation.values_mono (le.trans last) bases))
            (.mk (relation.natStepType motives) (relation.values_mono (le.trans last) steps)))
          exact comparison.done
            (relation.value (.neutral (relation.values_mono last results) blocked))
      | _ => exact comparison.stuck trivial
  | _ => exact comparison.stuck trivial

theorem replace_succ (ih : relation.Evaluates fuel) {target target' motive motive' base base' : Value}
    (targets : relation.values world target target') (motives : relation.values world motive motive')
    (bases : relation.values world base base') :
    comparison.Ends relation.values (fuel + 1) world (target.replace (fuel + 1) motive base)
      fun bound => target'.replace bound motive' base' := by
  refine comparison.spend ?_
  cases relation.values_iff.mp targets with
  | same => exact comparison.done bases
  | neutral types blockeds =>
      cases relation.values_iff.mp types with
      | equal sides lefts rights =>
          refine comparison.bind (ih.apply motives rights) fun le results => ?_
          refine comparison.bind (ih.apply (relation.values_mono le motives)
            (relation.values_mono le lefts)) fun last baseTypes => ?_
          have blocked := relation.neutral (.replace
            (relation.neutrals_mono (le.trans last) blockeds)
            (.mk (relation.equalMotiveType (relation.values_mono (le.trans last) sides))
              (relation.values_mono (le.trans last) motives))
            (.mk baseTypes (relation.values_mono (le.trans last) bases)))
          exact comparison.done
            (relation.value (.neutral (relation.values_mono last results) blocked))
      | _ => exact comparison.stuck trivial
  | _ => exact comparison.stuck trivial

end Evaluates

/-- Evaluation preserves the correspondence, whatever the bound. -/
theorem evaluates (fuel : Nat) : relation.Evaluates fuel := by
  induction fuel with
  | zero => exact .zero
  | succ fuel ih =>
      exact ⟨ih.eval_succ, ih.instantiate_succ, ih.apply_succ, ih.cdr_succ, ih.indNat_succ,
        ih.replace_succ⟩

end Correspondence

end

end LambdaCalculi.Dependent
