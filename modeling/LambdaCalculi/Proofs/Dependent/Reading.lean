import LambdaCalculi.Dependent.ReadBack
import LambdaCalculi.Proofs.Dependent.Correspondence

/-!
# Reading back preserves every correspondence

What corresponds is read back to terms that correspond. A `Reading` has a correspondence for every scope
of variables, since reading back goes below binders: there it takes a new variable, which may be called
differently on the two sides. What corresponds in a scope does so in the scope with a new variable, and
terms that correspond there are bodies of binders that correspond outside. The contexts only have to
keep track of the names that are taken.
-/

set_option autoImplicit false

namespace LambdaCalculi.Dependent

variable {World : Type} [Preorder World] {m m' : Type → Type} [Monad m] [Scoping m] [Monad m']
  [Scoping m'] {comparison : Comparison World m m'}

/-- Correspondences by scopes, and what reading back needs to know of them. -/
structure Reading (comparison : Comparison World m m') where
  Scope : Type
  relation : Scope → Correspondence comparison
  contexts : Scope → World → Context → Context → Prop
  terms : Scope → Term → Term → Prop
  /-- The two names can be taken for a new variable. -/
  New : Scope → Name → Name → Prop
  below : Scope → Name → Name → Scope
  contexts_mono {scope : Scope} {world later : World} (le : world ≤ later) {ctx ctx' : Context} :
    contexts scope world ctx ctx' → contexts scope later ctx ctx'
  new {scope : Scope} {world : World} {ctx ctx' : Context} {range range' : Closure} :
    contexts scope world ctx ctx' → (relation scope).closures world range range' →
    New scope (ctx.freshFor range.binder) (ctx'.freshFor range'.binder)
  values_below {scope : Scope} {x x' : Name} (isNew : New scope x x') {world : World}
    {value value' : Value} : (relation scope).values world value value' →
    (relation (below scope x x')).values world value value'
  closures_below {scope : Scope} {x x' : Name} (isNew : New scope x x') {world : World}
    {closure closure' : Closure} : (relation scope).closures world closure closure' →
    (relation (below scope x x')).closures world closure closure'
  names_below {scope : Scope} {x x' : Name} (isNew : New scope x x') :
    (relation (below scope x x')).names x x'
  assume {scope : Scope} {x x' : Name} (isNew : New scope x x') {fuel : Nat} {world : World}
    {ctx ctx' : Context} {type type' : Value} : contexts scope world ctx ctx' →
    (relation scope).values world type type' →
    comparison.Ends (contexts (below scope x x')) fuel world (ctx.assume x type)
      fun _ => ctx'.assume x' type'
  term {scope : Scope} {term term' : Term} : Term.Congruent
    (fun x replaced => ∃ x', replaced = .var x' ∧ (relation scope).names x x') (terms scope)
    (fun x body x' body' => New scope x x' ∧ terms (below scope x x') body body') term term' →
    terms scope term term'

namespace Reading

variable (reading : Reading comparison) {scope : reading.Scope} {fuel : Nat} {world : World}
  {ctx ctx' : Context}

structure ReadsBack (fuel : Nat) : Prop where
  readBack {scope : reading.Scope} {world : World} {ctx ctx' : Context}
    {type type' value value' : Value} : reading.contexts scope world ctx ctx' →
    (reading.relation scope).values world type type' →
    (reading.relation scope).values world value value' →
    comparison.Ends (fun _ => reading.terms scope) fuel world (ctx.readBack fuel type value)
      fun bound => ctx'.readBack bound type' value'
  readBackType {scope : reading.Scope} {world : World} {ctx ctx' : Context} {type type' : Value} :
    reading.contexts scope world ctx ctx' → (reading.relation scope).values world type type' →
    comparison.Ends (fun _ => reading.terms scope) fuel world (ctx.readBackType fuel type)
      fun bound => ctx'.readBackType bound type'
  readBackNeutral {scope : reading.Scope} {world : World} {ctx ctx' : Context}
    {blocked blocked' : Neutral} : reading.contexts scope world ctx ctx' →
    (reading.relation scope).neutrals world blocked blocked' →
    comparison.Ends (fun _ => reading.terms scope) fuel world (ctx.readBackNeutral fuel blocked)
      fun bound => ctx'.readBackNeutral bound blocked'
  readBackNormal {scope : reading.Scope} {world : World} {ctx ctx' : Context} {normal normal' : Normal} :
    reading.contexts scope world ctx ctx' →
    Normal.Congruent ((reading.relation scope).values world) normal normal' →
    comparison.Ends (fun _ => reading.terms scope) fuel world (ctx.readBackNormal fuel normal)
      fun bound => ctx'.readBackNormal bound normal'

namespace ReadsBack

variable {reading}

theorem zero : reading.ReadsBack 0 where
  readBack _ _ _ := comparison.exhausted rfl
  readBackType _ _ := comparison.exhausted rfl
  readBackNeutral _ _ := comparison.exhausted rfl
  readBackNormal _ _ := comparison.exhausted rfl

theorem readBack_pi (ih : reading.ReadsBack fuel) (contexts : reading.contexts scope world ctx ctx')
    {domain domain' function function' : Value} {range range' : Closure}
    (domains : (reading.relation scope).values world domain domain')
    (ranges : (reading.relation scope).closures world range range')
    (functions : (reading.relation scope).values world function function') :
    comparison.Ends (fun _ => reading.terms scope) fuel world
      (ctx.readBack (fuel + 1) (.pi domain range) function)
      fun bound => ctx'.readBack (bound + 1) (.pi domain' range') function' := by
  have isNew := reading.new contexts ranges
  generalize named : ctx.freshFor range.binder = x at isNew
  generalize named' : ctx'.freshFor range'.binder = x' at isNew
  let inside := reading.relation (reading.below scope x x')
  have domainsBelow := reading.values_below isNew domains
  have arguments := inside.ofVar domainsBelow (reading.names_below isNew)
  simp only [Context.readBack, named, named']
  refine comparison.bind (reading.assume isNew contexts domains) fun le inner => ?_
  refine comparison.bind ((inside.evaluates fuel).instantiate
    (inside.closures_mono le (reading.closures_below isNew ranges)) (inside.values_mono le arguments))
    fun le' bodyTypes => ?_
  have two := le.trans le'
  refine comparison.bind ((inside.evaluates fuel).apply
    (inside.values_mono two (reading.values_below isNew functions)) (inside.values_mono two arguments))
    fun le'' bodies => ?_
  refine comparison.bind (ih.readBack (reading.contexts_mono (le'.trans le'') inner)
    (inside.values_mono le'' bodyTypes) bodies) fun _ terms => ?_
  exact comparison.done (reading.term (.lam ⟨isNew, terms⟩))

theorem readBack_sigma (ih : reading.ReadsBack fuel) (contexts : reading.contexts scope world ctx ctx')
    {carType carType' pair pair' : Value} {cdrType cdrType' : Closure}
    (carTypes : (reading.relation scope).values world carType carType')
    (cdrTypes : (reading.relation scope).closures world cdrType cdrType')
    (pairs : (reading.relation scope).values world pair pair') :
    comparison.Ends (fun _ => reading.terms scope) fuel world
      (ctx.readBack (fuel + 1) (.sigma carType cdrType) pair)
      fun bound => ctx'.readBack (bound + 1) (.sigma carType' cdrType') pair' := by
  let here := reading.relation scope
  refine comparison.bind (here.car pairs) fun le firsts => ?_
  refine comparison.bind (ih.readBack (reading.contexts_mono le contexts)
    (here.values_mono le carTypes) firsts) fun le' firstTerms => ?_
  have two := le.trans le'
  refine comparison.bind ((here.evaluates fuel).instantiate (here.closures_mono two cdrTypes)
    (here.values_mono le' firsts)) fun le'' secondTypes => ?_
  have three := two.trans le''
  refine comparison.bind ((here.evaluates fuel).cdr (here.values_mono three pairs))
    fun last seconds => ?_
  refine comparison.bind (ih.readBack (reading.contexts_mono (three.trans last) contexts)
    (here.values_mono last secondTypes) seconds) fun _ secondTerms => ?_
  exact comparison.done (reading.term (.cons firstTerms secondTerms))

theorem readBack_succ (ih : reading.ReadsBack fuel) {type type' value value' : Value}
    (contexts : reading.contexts scope world ctx ctx')
    (types : (reading.relation scope).values world type type')
    (members : (reading.relation scope).values world value value') :
    comparison.Ends (fun _ => reading.terms scope) (fuel + 1) world
      (ctx.readBack (fuel + 1) type value) fun bound => ctx'.readBack bound type' value' := by
  refine comparison.spend ?_
  cases (reading.relation scope).values_iff.mp types with
  | pi domains ranges => exact ih.readBack_pi contexts domains ranges members
  | sigma carTypes cdrTypes => exact ih.readBack_sigma contexts carTypes cdrTypes members
  | univ => exact ih.readBackType contexts members
  | trivial => exact comparison.done (reading.term .sole)
  | nat =>
      cases (reading.relation scope).values_iff.mp members with
      | zero => exact comparison.done (reading.term .zero)
      | add1 predecessors =>
          refine comparison.bind (ih.readBack contexts types predecessors) fun _ terms => ?_
          exact comparison.done (reading.term (.add1 terms))
      | neutral _ blockeds => exact ih.readBackNeutral contexts blockeds
      | _ => exact comparison.stuck trivial
  | absurd =>
      cases (reading.relation scope).values_iff.mp members with
      | neutral types blockeds =>
          cases (reading.relation scope).values_iff.mp types with
          | absurd =>
              refine comparison.bind (ih.readBackNeutral contexts blockeds) fun _ terms => ?_
              exact comparison.done (reading.term (.the (reading.term .absurd) terms))
          | _ => exact ih.readBackNeutral contexts blockeds
      | _ => exact comparison.stuck trivial
  | equal =>
      cases (reading.relation scope).values_iff.mp members with
      | same => exact comparison.done (reading.term .same)
      | neutral _ blockeds => exact ih.readBackNeutral contexts blockeds
      | _ => exact comparison.stuck trivial
  | atom =>
      cases (reading.relation scope).values_iff.mp members with
      | tick symbol => exact comparison.done (reading.term (.tick symbol))
      | neutral _ blockeds => exact ih.readBackNeutral contexts blockeds
      | _ => exact comparison.stuck trivial
  | _ =>
      cases (reading.relation scope).values_iff.mp members with
      | neutral _ blockeds => exact ih.readBackNeutral contexts blockeds
      | _ => exact comparison.stuck trivial

/-- Reading back a family of types, which is the second part of a function or a pair type. -/
theorem readBackFamily (ih : reading.ReadsBack fuel) (contexts : reading.contexts scope world ctx ctx')
    {domain domain' : Value} {range range' : Closure} (former : Name → Term → Term → Term)
    (domains : (reading.relation scope).values world domain domain')
    (ranges : (reading.relation scope).closures world range range')
    (built : ∀ {x x' domainTerm domainTerm' rangeTerm rangeTerm'}, reading.New scope x x' →
      reading.terms scope domainTerm domainTerm' →
      reading.terms (reading.below scope x x') rangeTerm rangeTerm' →
      reading.terms scope (former x domainTerm rangeTerm) (former x' domainTerm' rangeTerm')) :
    comparison.Ends (fun _ => reading.terms scope) fuel world
      (do
        let x := ctx.freshFor range.binder
        let rangeAtX ← range.instantiate fuel (.ofVar domain x)
        let domainTerm ← ctx.readBackType fuel domain
        let inner ← ctx.assume x domain
        let rangeTerm ← inner.readBackType fuel rangeAtX
        return former x domainTerm rangeTerm)
      fun bound => do
        let x := ctx'.freshFor range'.binder
        let rangeAtX ← range'.instantiate bound (.ofVar domain' x)
        let domainTerm ← ctx'.readBackType bound domain'
        let inner ← ctx'.assume x domain'
        let rangeTerm ← inner.readBackType bound rangeAtX
        return former x domainTerm rangeTerm := by
  have isNew := reading.new contexts ranges
  generalize ctx.freshFor range.binder = x at isNew ⊢
  generalize ctx'.freshFor range'.binder = x' at isNew ⊢
  let here := reading.relation scope
  let inside := reading.relation (reading.below scope x x')
  have arguments :=
    inside.ofVar (reading.values_below isNew domains) (reading.names_below isNew)
  refine comparison.bind ((inside.evaluates fuel).instantiate
    (reading.closures_below isNew ranges) arguments) fun le families => ?_
  refine comparison.bind (ih.readBackType (reading.contexts_mono le contexts)
    (here.values_mono le domains)) fun le' domainTerms => ?_
  have two := le.trans le'
  refine comparison.bind (reading.assume isNew (reading.contexts_mono two contexts)
    (here.values_mono two domains)) fun last inner => ?_
  refine comparison.bind (ih.readBackType inner (inside.values_mono (le'.trans last) families))
    fun _ rangeTerms => ?_
  exact comparison.done (built isNew domainTerms rangeTerms)

theorem readBackType_succ (ih : reading.ReadsBack fuel) {type type' : Value}
    (contexts : reading.contexts scope world ctx ctx')
    (types : (reading.relation scope).values world type type') :
    comparison.Ends (fun _ => reading.terms scope) (fuel + 1) world (ctx.readBackType (fuel + 1) type)
      fun bound => ctx'.readBackType bound type' := by
  let here := reading.relation scope
  refine comparison.spend ?_
  cases (reading.relation scope).values_iff.mp types with
  | pi domains ranges =>
      exact ih.readBackFamily contexts .pi domains ranges
        fun isNew domainTerms rangeTerms => reading.term (.pi domainTerms ⟨isNew, rangeTerms⟩)
  | sigma carTypes cdrTypes =>
      exact ih.readBackFamily contexts .sigma carTypes cdrTypes
        fun isNew carTerms cdrTerms => reading.term (.sigma carTerms ⟨isNew, cdrTerms⟩)
  | equal sides lefts rights =>
      refine comparison.bind (ih.readBackType contexts sides) fun le typeTerms => ?_
      refine comparison.bind (ih.readBack (reading.contexts_mono le contexts)
        (here.values_mono le sides) (here.values_mono le lefts)) fun le' leftTerms => ?_
      have two := le.trans le'
      refine comparison.bind (ih.readBack (reading.contexts_mono two contexts)
        (here.values_mono two sides) (here.values_mono two rights)) fun _ rightTerms => ?_
      exact comparison.done (reading.term (.equal typeTerms leftTerms rightTerms))
  | nat => exact comparison.done (reading.term .nat)
  | trivial => exact comparison.done (reading.term .trivial)
  | absurd => exact comparison.done (reading.term .absurd)
  | atom => exact comparison.done (reading.term .atom)
  | univ => exact comparison.done (reading.term .univ)
  | neutral _ blockeds => exact ih.readBackNeutral contexts blockeds
  | _ => exact comparison.stuck trivial

theorem readBackNeutral_succ (ih : reading.ReadsBack fuel) {blocked blocked' : Neutral}
    (contexts : reading.contexts scope world ctx ctx')
    (blockeds : (reading.relation scope).neutrals world blocked blocked') :
    comparison.Ends (fun _ => reading.terms scope) (fuel + 1) world
      (ctx.readBackNeutral (fuel + 1) blocked) fun bound => ctx'.readBackNeutral bound blocked' := by
  -- An argument is read back in a later world than it was given in.
  have argument {later : World} (le : world ≤ later) {normal normal' : Normal}
      (normals : Normal.Congruent ((reading.relation scope).values world) normal normal') :
      comparison.Ends (fun _ => reading.terms scope) fuel later (ctx.readBackNormal fuel normal)
        fun bound => ctx'.readBackNormal bound normal' := by
    obtain ⟨types, members⟩ := normals
    exact ih.readBackNormal (reading.contexts_mono le contexts)
      (.mk ((reading.relation scope).values_mono le types)
        ((reading.relation scope).values_mono le members))
  refine comparison.spend ?_
  cases (reading.relation scope).neutrals_iff.mp blockeds with
  | var same => exact comparison.done (reading.term (.var ⟨_, rfl, same⟩))
  | app functions arguments =>
      refine comparison.bind (ih.readBackNeutral contexts functions) fun le functionTerms => ?_
      refine comparison.bind (argument le arguments) fun _ argumentTerms => ?_
      exact comparison.done (reading.term (.app functionTerms argumentTerms))
  | car pairs =>
      refine comparison.bind (ih.readBackNeutral contexts pairs) fun _ pairTerms => ?_
      exact comparison.done (reading.term (.car pairTerms))
  | cdr pairs =>
      refine comparison.bind (ih.readBackNeutral contexts pairs) fun _ pairTerms => ?_
      exact comparison.done (reading.term (.cdr pairTerms))
  | indNat targets motives bases steps =>
      refine comparison.bind (ih.readBackNeutral contexts targets) fun le targetTerms => ?_
      refine comparison.bind (argument le motives) fun le' motiveTerms => ?_
      have two := le.trans le'
      refine comparison.bind (argument two bases) fun le'' baseTerms => ?_
      refine comparison.bind (argument (two.trans le'') steps) fun _ stepTerms => ?_
      exact comparison.done (reading.term (.indNat targetTerms motiveTerms baseTerms stepTerms))
  | replace targets motives bases =>
      refine comparison.bind (ih.readBackNeutral contexts targets) fun le targetTerms => ?_
      refine comparison.bind (argument le motives) fun le' motiveTerms => ?_
      refine comparison.bind (argument (le.trans le') bases) fun _ baseTerms => ?_
      exact comparison.done (reading.term (.replace targetTerms motiveTerms baseTerms))
  | indAbsurd targets motives =>
      refine comparison.bind (ih.readBackNeutral contexts targets) fun le targetTerms => ?_
      refine comparison.bind (argument le motives) fun _ motiveTerms => ?_
      have annotated := reading.term (.the (reading.term .absurd) targetTerms)
      exact comparison.done (reading.term (.indAbsurd annotated motiveTerms))

theorem readBackNormal_succ (ih : reading.ReadsBack fuel) {normal normal' : Normal}
    (contexts : reading.contexts scope world ctx ctx')
    (normals : Normal.Congruent ((reading.relation scope).values world) normal normal') :
    comparison.Ends (fun _ => reading.terms scope) (fuel + 1) world
      (ctx.readBackNormal (fuel + 1) normal) fun bound => ctx'.readBackNormal bound normal' := by
  obtain ⟨types, members⟩ := normals
  exact comparison.spend (ih.readBack contexts types members)

end ReadsBack

theorem readsBack (fuel : Nat) : reading.ReadsBack fuel := by
  induction fuel with
  | zero => exact .zero
  | succ fuel ih =>
      exact ⟨ih.readBack_succ, ih.readBackType_succ, ih.readBackNeutral_succ, ih.readBackNormal_succ⟩

end Reading

end LambdaCalculi.Dependent
