import LambdaCalculi.Dependent.Program
import LambdaCalculi.Proofs.Dependent.Reading

/-!
# Type checking preserves every correspondence

The type checker evaluates, reads back and compares normal forms, so it decides alike on what
corresponds. `Verdicts` compare two computations of the checker, by way of a reading for what they
evaluate and read back. `Deciding` relates terms together with the contexts in which they are checked,
and is asked for what is special about them: how the type of a variable is found, and what comes of
adding a variable to the contexts.
-/

set_option autoImplicit false

namespace LambdaCalculi.Dependent

variable {World : Type} [Preorder World] {n n' : Type → Type} [Monad n] [Scoping n] [Monad n']
  [Scoping n'] {comparison : Comparison World n n'} {reading : Reading comparison}

/-! ## Comparing verdicts -/

/-- When a computation of the type checker with a bound on its depth ends like another one that may be
given any bound. -/
structure Verdicts (reading : Reading comparison) (m m' : Type → Type) [Monad m] [Judging n m]
    [Monad m'] [Judging n' m'] where
  Ends {α α' : Type} (results : World → α → α' → Prop) (fuel : Nat) (world : World) (first : m α)
    (second : Nat → m' α') : Prop
  events : Event → Event → Prop
  errors : TypeError → TypeError → Prop
  done {α α' : Type} {results : World → α → α' → Prop} {fuel : Nat} {world : World} {value : α}
    {value' : α'} (related : results world value value') :
    Ends results fuel world (pure value) fun _ => pure value'
  bind {α α' β β' : Type} {results : World → α → α' → Prop} {nextResults : World → β → β' → Prop}
    {fuel : Nat} {world : World} {first : m α} {second : Nat → m' α'} {next : α → m β}
    {next' : Nat → α' → m' β'} (ends : Ends results fuel world first second)
    (nextEnds : ∀ {later : World} {value : α} {value' : α'}, world ≤ later →
      results later value value' →
        Ends nextResults fuel later (next value) fun bound => next' bound value') :
    Ends nextResults fuel world (first >>= next) fun bound => second bound >>= next' bound
  spend {α α' : Type} {results : World → α → α' → Prop} {fuel : Nat} {world : World} {first : m α}
    {second : Nat → m' α'} (ends : Ends results fuel world first fun bound => second (bound + 1)) :
    Ends results (fuel + 1) world first second
  spent {α α' : Type} {results : World → α → α' → Prop} {world : World} {second : Nat → m' α'}
    (atZero : second 0 = Judging.spent) : Ends results 0 world Judging.spent second
  compute {α α' : Type} {results : World → α → α' → Prop} {fuel : Nat} {world : World} {first : n α}
    {second : Nat → n' α'} (ends : comparison.Ends results fuel world first second) :
    Ends results fuel world (Judging.compute first) fun bound => Judging.compute (second bound)
  record {fuel : Nat} {world : World} {event event' : Event} (alike : events event event') :
    Ends (fun _ _ _ => True) fuel world (Judging.record event) fun _ => Judging.record event'
  reject {α α' : Type} {results : World → α → α' → Prop} {fuel : Nat} {world : World}
    {error error' : TypeError} (alike : errors error error') :
    Ends results fuel world (Judging.reject error) fun _ => Judging.reject error'
  alphaEquiv_eq {scope : reading.Scope} {left left' right right' : Term} :
    reading.terms scope left left' → reading.terms scope right right' →
    left.alphaEquiv right = left'.alphaEquiv right'
  mismatch {scope : reading.Scope} {left left' right right' : Term} :
    reading.terms scope left left' → reading.terms scope right right' →
    events (.mismatch left right) (.mismatch left' right') ∧
      errors (.notSame left right) (.notSame left' right')
  wrongFormer {scope : reading.Scope} (want : TypeFormer) {got got' : Term} :
    reading.terms scope got got' → errors (.wrongFormer want got) (.wrongFormer want got')
  definition (x : Name) :
    events (.define x) (.define x) ∧ errors (.alreadyDefined x) (.alreadyDefined x)

variable {m m' : Type → Type} [Monad m] [Judging n m] [Monad m'] [Judging n' m']

namespace Verdicts

variable (verdicts : Verdicts reading m m') {scope : reading.Scope} {fuel : Nat} {world : World}
  {ctx ctx' : Context} {type type' : Value}

theorem rejectFormer {α α' : Type} {results : World → α → α' → Prop} (want : TypeFormer)
    (contexts : reading.contexts scope world ctx ctx')
    (types : (reading.relation scope).values world type type') :
    verdicts.Ends results fuel world (ctx.rejectFormer fuel want type)
      fun bound => ctx'.rejectFormer bound want type' := by
  refine verdicts.bind (verdicts.compute ((reading.readsBack fuel).readBackType contexts types)) ?_
  exact fun _ terms => verdicts.reject (verdicts.wrongFormer want terms)

def Families (scope : reading.Scope) (world : World) (family family' : Value × Closure) : Prop :=
  (reading.relation scope).values world family.1 family'.1 ∧
    (reading.relation scope).closures world family.2 family'.2

theorem expectPi (contexts : reading.contexts scope world ctx ctx')
    (types : (reading.relation scope).values world type type') :
    verdicts.Ends (Families scope) fuel world (ctx.expectPi fuel type)
      fun bound => ctx'.expectPi bound type' := by
  cases (reading.relation scope).values_iff.mp types with
  | pi domains ranges => exact verdicts.done ⟨domains, ranges⟩
  | _ => exact verdicts.rejectFormer .pi contexts types

theorem expectSigma (contexts : reading.contexts scope world ctx ctx')
    (types : (reading.relation scope).values world type type') :
    verdicts.Ends (Families scope) fuel world (ctx.expectSigma fuel type)
      fun bound => ctx'.expectSigma bound type' := by
  cases (reading.relation scope).values_iff.mp types with
  | sigma carTypes cdrTypes => exact verdicts.done ⟨carTypes, cdrTypes⟩
  | _ => exact verdicts.rejectFormer .sigma contexts types

theorem expectEqual (contexts : reading.contexts scope world ctx ctx')
    (types : (reading.relation scope).values world type type') :
    verdicts.Ends (fun later (found found' : Value × Value × Value) =>
        (reading.relation scope).values later found.1 found'.1 ∧
        (reading.relation scope).values later found.2.1 found'.2.1 ∧
        (reading.relation scope).values later found.2.2 found'.2.2) fuel world
      (ctx.expectEqual fuel type) fun bound => ctx'.expectEqual bound type' := by
  cases (reading.relation scope).values_iff.mp types with
  | equal sides lefts rights => exact verdicts.done ⟨sides, lefts, rights⟩
  | _ => exact verdicts.rejectFormer .equal contexts types

theorem expectNat (contexts : reading.contexts scope world ctx ctx')
    (types : (reading.relation scope).values world type type') :
    verdicts.Ends (fun _ _ _ => True) fuel world (ctx.expectNat fuel type)
      fun bound => ctx'.expectNat bound type' := by
  cases (reading.relation scope).values_iff.mp types with
  | nat => exact verdicts.done trivial
  | _ => exact verdicts.rejectFormer .nat contexts types

theorem expectTrivial (contexts : reading.contexts scope world ctx ctx')
    (types : (reading.relation scope).values world type type') :
    verdicts.Ends (fun _ _ _ => True) fuel world (ctx.expectTrivial fuel type)
      fun bound => ctx'.expectTrivial bound type' := by
  cases (reading.relation scope).values_iff.mp types with
  | trivial => exact verdicts.done trivial
  | _ => exact verdicts.rejectFormer .trivial contexts types

theorem expectAbsurd (contexts : reading.contexts scope world ctx ctx')
    (types : (reading.relation scope).values world type type') :
    verdicts.Ends (fun _ _ _ => True) fuel world (ctx.expectAbsurd fuel type)
      fun bound => ctx'.expectAbsurd bound type' := by
  cases (reading.relation scope).values_iff.mp types with
  | absurd => exact verdicts.done trivial
  | _ => exact verdicts.rejectFormer .absurd contexts types

theorem expectAtom (contexts : reading.contexts scope world ctx ctx')
    (types : (reading.relation scope).values world type type') :
    verdicts.Ends (fun _ _ _ => True) fuel world (ctx.expectAtom fuel type)
      fun bound => ctx'.expectAtom bound type' := by
  cases (reading.relation scope).values_iff.mp types with
  | atom => exact verdicts.done trivial
  | _ => exact verdicts.rejectFormer .atom contexts types

/-- Normal forms that correspond are alpha-equivalent on both sides or on neither. -/
theorem convert (contexts : reading.contexts scope world ctx ctx')
    (types : (reading.relation scope).values world type type') {left left' right right' : Value}
    (lefts : (reading.relation scope).values world left left')
    (rights : (reading.relation scope).values world right right') :
    verdicts.Ends (fun _ _ _ => True) fuel world (ctx.convert fuel type left right)
      fun bound => ctx'.convert bound type' left' right' := by
  have reads := reading.readsBack fuel
  refine verdicts.bind (verdicts.compute (reads.readBack contexts types lefts)) fun le leftTerms => ?_
  refine verdicts.bind (verdicts.compute (reads.readBack (reading.contexts_mono le contexts)
    ((reading.relation scope).values_mono le types)
    ((reading.relation scope).values_mono le rights))) fun _ rightTerms => ?_
  rw [verdicts.alphaEquiv_eq leftTerms rightTerms]
  have mismatch := verdicts.mismatch leftTerms rightTerms
  split
  · exact verdicts.done trivial
  · exact verdicts.bind (verdicts.record mismatch.1) fun _ _ => verdicts.reject mismatch.2

/-- A variable has its type looked up. -/
theorem synth_var {results : World → Value → Value → Prop} {x x' : Name}
    (visited : verdicts.events (.synth (.var x)) (.synth (.var x')))
    (found : ∀ {later : World}, world ≤ later →
      verdicts.Ends results fuel later (ctx.lookupType x) fun _ => ctx'.lookupType x') :
    verdicts.Ends results (fuel + 1) world (ctx.synth (fuel + 1) (.var x))
      fun bound => ctx'.synth bound (.var x') :=
  verdicts.spend (verdicts.bind (verdicts.record visited) fun le _ => found le)

theorem check_var {x x' : Name}
    (compared : verdicts.Ends (fun _ _ _ => True) fuel world
      (do
        Judging.record (.check (.var x))
        let synthesized ← ctx.synth fuel (.var x)
        ctx.convert fuel .univ synthesized type)
      (fun bound => do
        Judging.record (.check (.var x'))
        let synthesized ← ctx'.synth bound (.var x')
        ctx'.convert bound .univ synthesized type')) :
    verdicts.Ends (fun _ _ _ => True) (fuel + 1) world (ctx.check (fuel + 1) (.var x) type)
      fun bound => ctx'.check bound (.var x') type' :=
  verdicts.spend compared

end Verdicts

/-! ## Terms in contexts -/

/-- Relations between terms in the contexts where they are checked. -/
structure Deciding (verdicts : Verdicts reading m m') where
  judged : reading.Scope → World → Context → Term → Context → Term → Prop
  /-- The bodies are related once the contexts have the variable that the binders are for. -/
  bodies : reading.Scope → World → Context → Name → Term → Context → Name → Term → Prop
  judged_mono {scope : reading.Scope} {world later : World} (le : world ≤ later)
    {ctx ctx' : Context} {term term' : Term} :
    judged scope world ctx term ctx' term' → judged scope later ctx term ctx' term'
  bodies_mono {scope : reading.Scope} {world later : World} (le : world ≤ later)
    {ctx ctx' : Context} {x x' : Name} {body body' : Term} :
    bodies scope world ctx x body ctx' x' body' → bodies scope later ctx x body ctx' x' body'
  contexts {scope : reading.Scope} {world : World} {ctx ctx' : Context} {term term' : Term} :
    judged scope world ctx term ctx' term' → reading.contexts scope world ctx ctx'
  scopes {scope : reading.Scope} {world : World} {ctx ctx' : Context} {term term' : Term} :
    judged scope world ctx term ctx' term' →
    (reading.relation scope).scopes world ctx.env term ctx'.env term'
  parts {scope : reading.Scope} {world : World} {ctx ctx' : Context} {term term' : Term} :
    judged scope world ctx term ctx' term' → Term.Congruent (fun _ _ => True)
      (fun part part' => judged scope world ctx part ctx' part')
      (fun x body x' body' => bodies scope world ctx x body ctx' x' body') term term'
  new {scope : reading.Scope} {world : World} {ctx ctx' : Context} {x x' : Name} {body body' : Term} :
    bodies scope world ctx x body ctx' x' body' → reading.New scope (ctx.freshFor x) (ctx'.freshFor x')
  assume {scope : reading.Scope} {fuel : Nat} {world : World} {ctx ctx' : Context} {x x' : Name}
    {body body' : Term} {type type' : Value} : bodies scope world ctx x body ctx' x' body' →
    (reading.relation scope).values world type type' →
    comparison.Ends (fun later inner inner' => judged
        (reading.below scope (ctx.freshFor x) (ctx'.freshFor x')) later inner body inner' body') fuel
      world (ctx.assume x type) fun _ => ctx'.assume x' type'
  visits {scope : reading.Scope} {world : World} {ctx ctx' : Context} {term term' : Term} :
    judged scope world ctx term ctx' term' → verdicts.events (.synth term) (.synth term') ∧
      verdicts.events (.check term) (.check term') ∧
      verdicts.errors (.notSynthesizable term) (.notSynthesizable term')
  lookup {scope : reading.Scope} {fuel : Nat} {world : World} {ctx ctx' : Context} {x : Name}
    {term' : Term} : judged scope world ctx (.var x) ctx' term' →
    verdicts.Ends (reading.relation scope).values (fuel + 1) world (ctx.synth (fuel + 1) (.var x))
      fun bound => ctx'.synth bound term'
  /-- What is in place of a variable has a type by its shape, and is checked by comparing types. -/
  compare {scope : reading.Scope} {fuel : Nat} {world : World} {ctx ctx' : Context} {x : Name}
    {term' : Term} {type type' : Value} : judged scope world ctx (.var x) ctx' term' →
    verdicts.Ends (fun _ _ _ => True) fuel world
      (do
        Judging.record (.check (.var x))
        let synthesized ← ctx.synth fuel (.var x)
        ctx.convert fuel .univ synthesized type)
      (fun bound => do
        Judging.record (.check term')
        let synthesized ← ctx'.synth bound term'
        ctx'.convert bound .univ synthesized type') →
    verdicts.Ends (fun _ _ _ => True) (fuel + 1) world (ctx.check (fuel + 1) (.var x) type)
      fun bound => ctx'.check bound term' type'

namespace Deciding

variable {verdicts : Verdicts reading m m'} (deciding : Deciding verdicts) {scope : reading.Scope}
  {fuel : Nat} {world : World} {ctx ctx' : Context} {term term' : Term}

theorem contextsLater (related : deciding.judged scope world ctx term ctx' term') {later : World}
    (le : world ≤ later) : reading.contexts scope later ctx ctx' :=
  reading.contexts_mono le (deciding.contexts related)

theorem eval (related : deciding.judged scope world ctx term ctx' term') :
    verdicts.Ends (reading.relation scope).values fuel world (Judging.compute (ctx.eval fuel term))
      fun bound => Judging.compute (ctx'.eval bound term') :=
  verdicts.compute (((reading.relation scope).evaluates fuel).eval (deciding.scopes related))

structure Decides (fuel : Nat) : Prop where
  synth {scope : reading.Scope} {world : World} {ctx ctx' : Context} {term term' : Term} :
    deciding.judged scope world ctx term ctx' term' →
    verdicts.Ends (reading.relation scope).values fuel world (ctx.synth fuel term)
      fun bound => ctx'.synth bound term'
  check {scope : reading.Scope} {world : World} {ctx ctx' : Context} {term term' : Term}
    {type type' : Value} : deciding.judged scope world ctx term ctx' term' →
    (reading.relation scope).values world type type' →
    verdicts.Ends (fun _ _ _ => True) fuel world (ctx.check fuel term type)
      fun bound => ctx'.check bound term' type'

namespace Decides

variable {deciding}

theorem zero : deciding.Decides 0 where
  synth _ := verdicts.spent rfl
  check _ _ := verdicts.spent rfl

/-- A type and a family of types over it, as function types and pair types have them. -/
theorem check_family (ih : deciding.Decides fuel) {x x' : Name} {domain domain' range range' : Term}
    (domains : deciding.judged scope world ctx domain ctx' domain')
    (ranges : deciding.bodies scope world ctx x range ctx' x' range') :
    verdicts.Ends (reading.relation scope).values fuel world
      (do
        ctx.check fuel domain .univ
        let domainValue ← Judging.compute (ctx.eval fuel domain)
        let inner ← Judging.compute (ctx.assume x domainValue)
        inner.check fuel range .univ
        return .univ : m Value)
      (fun bound => (do
        ctx'.check bound domain' .univ
        let domainValue ← Judging.compute (ctx'.eval bound domain')
        let inner ← Judging.compute (ctx'.assume x' domainValue)
        inner.check bound range' .univ
        return .univ : m' Value)) := by
  let here := reading.relation scope
  refine verdicts.bind (ih.check domains (here.value .univ)) fun le _ => ?_
  refine verdicts.bind (deciding.eval (deciding.judged_mono le domains)) fun le' domainValues => ?_
  refine verdicts.bind (verdicts.compute (deciding.assume
    (deciding.bodies_mono (le.trans le') ranges) domainValues)) fun _ rangesBelow => ?_
  refine verdicts.bind (ih.check rangesBelow ((reading.relation _).value .univ)) fun _ _ => ?_
  exact verdicts.done (here.value .univ)

theorem synth_indNat (ih : deciding.Decides fuel)
    {target target' motive motive' base base' step step' : Term}
    (related : deciding.judged scope world ctx (.indNat target motive base step) ctx'
      (.indNat target' motive' base' step'))
    (targets : deciding.judged scope world ctx target ctx' target')
    (motives : deciding.judged scope world ctx motive ctx' motive')
    (bases : deciding.judged scope world ctx base ctx' base')
    (steps : deciding.judged scope world ctx step ctx' step') :
    verdicts.Ends (reading.relation scope).values (fuel + 1) world
      (ctx.synth (fuel + 1) (.indNat target motive base step))
      fun bound => ctx'.synth bound (.indNat target' motive' base' step') := by
  let here := reading.relation scope
  obtain ⟨visited, _, _⟩ := deciding.visits related
  have contexts {later : World} (le : world ≤ later) := deciding.contextsLater related le
  refine verdicts.spend (verdicts.bind (verdicts.record visited) fun le _ => ?_)
  refine verdicts.bind (ih.synth (deciding.judged_mono le targets)) fun le₁ targetTypes => ?_
  have le := le.trans le₁
  refine verdicts.bind (verdicts.expectNat (contexts le) targetTypes) fun le₂ _ => ?_
  have le := le.trans le₂
  refine verdicts.bind (ih.check (deciding.judged_mono le motives) here.natMotiveType)
    fun le₃ _ => ?_
  have le := le.trans le₃
  refine verdicts.bind (deciding.eval (deciding.judged_mono le motives)) fun le₄ values => ?_
  have le := le.trans le₄
  refine verdicts.bind (verdicts.compute ((here.evaluates fuel).apply values (here.value .zero)))
    fun le₅ baseTypes => ?_
  have le := le.trans le₅
  refine verdicts.bind (ih.check (deciding.judged_mono le bases) baseTypes) fun le₆ _ => ?_
  have le := le.trans le₆
  have since := le₅.trans le₆
  refine verdicts.bind (ih.check (deciding.judged_mono le steps)
    (here.natStepType (here.values_mono since values))) fun le₇ _ => ?_
  have le := le.trans le₇
  refine verdicts.bind (deciding.eval (deciding.judged_mono le targets)) fun le₈ targetValues => ?_
  exact verdicts.compute ((here.evaluates fuel).apply
    (here.values_mono (since.trans (le₇.trans le₈)) values) targetValues)

theorem synth_replace (ih : deciding.Decides fuel)
    {target target' motive motive' base base' : Term}
    (related : deciding.judged scope world ctx (.replace target motive base) ctx'
      (.replace target' motive' base'))
    (targets : deciding.judged scope world ctx target ctx' target')
    (motives : deciding.judged scope world ctx motive ctx' motive')
    (bases : deciding.judged scope world ctx base ctx' base') :
    verdicts.Ends (reading.relation scope).values (fuel + 1) world
      (ctx.synth (fuel + 1) (.replace target motive base))
      fun bound => ctx'.synth bound (.replace target' motive' base') := by
  let here := reading.relation scope
  obtain ⟨visited, _, _⟩ := deciding.visits related
  have contexts {later : World} (le : world ≤ later) := deciding.contextsLater related le
  refine verdicts.spend (verdicts.bind (verdicts.record visited) fun le _ => ?_)
  refine verdicts.bind (ih.synth (deciding.judged_mono le targets)) fun le₁ targetTypes => ?_
  have le := le.trans le₁
  refine verdicts.bind (verdicts.expectEqual (contexts le) targetTypes) fun le₂ sides => ?_
  have le := le.trans le₂
  obtain ⟨types, lefts, rights⟩ := sides
  refine verdicts.bind (ih.check (deciding.judged_mono le motives) (here.equalMotiveType types))
    fun le₃ _ => ?_
  have le := le.trans le₃
  refine verdicts.bind (deciding.eval (deciding.judged_mono le motives)) fun le₄ values => ?_
  have le := le.trans le₄
  have since := le₃.trans le₄
  refine verdicts.bind (verdicts.compute ((here.evaluates fuel).apply values
    (here.values_mono since lefts))) fun le₅ baseTypes => ?_
  have le := le.trans le₅
  refine verdicts.bind (ih.check (deciding.judged_mono le bases) baseTypes) fun le₆ _ => ?_
  have since' := le₅.trans le₆
  exact verdicts.compute ((here.evaluates fuel).apply (here.values_mono since' values)
    (here.values_mono (since.trans since') rights))

theorem synth_succ (ih : deciding.Decides fuel)
    (related : deciding.judged scope world ctx term ctx' term') :
    verdicts.Ends (reading.relation scope).values (fuel + 1) world (ctx.synth (fuel + 1) term)
      fun bound => ctx'.synth bound term' := by
  let here := reading.relation scope
  obtain ⟨visited, _, notSynthesizable⟩ := deciding.visits related
  have contexts {later : World} (le : world ≤ later) := deciding.contextsLater related le
  cases deciding.parts related with
  | var => exact deciding.lookup related
  | pi domains ranges =>
      refine verdicts.spend (verdicts.bind (verdicts.record visited) fun le _ => ?_)
      exact ih.check_family (deciding.judged_mono le domains) (deciding.bodies_mono le ranges)
  | sigma carTypes cdrTypes =>
      refine verdicts.spend (verdicts.bind (verdicts.record visited) fun le _ => ?_)
      exact ih.check_family (deciding.judged_mono le carTypes) (deciding.bodies_mono le cdrTypes)
  | app functions arguments =>
      refine verdicts.spend (verdicts.bind (verdicts.record visited) fun le _ => ?_)
      refine verdicts.bind (ih.synth (deciding.judged_mono le functions)) fun le₁ functionTypes => ?_
      have le := le.trans le₁
      refine verdicts.bind (verdicts.expectPi (contexts le) functionTypes) fun le₂ families => ?_
      have le := le.trans le₂
      obtain ⟨domains, ranges⟩ := families
      refine verdicts.bind (ih.check (deciding.judged_mono le arguments) domains) fun le₃ _ => ?_
      have le := le.trans le₃
      refine verdicts.bind (deciding.eval (deciding.judged_mono le arguments)) fun le₄ values => ?_
      exact verdicts.compute ((here.evaluates fuel).instantiate
        (here.closures_mono (le₃.trans le₄) ranges) values)
  | car pairs =>
      refine verdicts.spend (verdicts.bind (verdicts.record visited) fun le _ => ?_)
      refine verdicts.bind (ih.synth (deciding.judged_mono le pairs)) fun le₁ pairTypes => ?_
      refine verdicts.bind (verdicts.expectSigma (contexts (le.trans le₁)) pairTypes) ?_
      exact fun _ families => verdicts.done families.1
  | cdr pairs =>
      refine verdicts.spend (verdicts.bind (verdicts.record visited) fun le _ => ?_)
      refine verdicts.bind (ih.synth (deciding.judged_mono le pairs)) fun le₁ pairTypes => ?_
      have le := le.trans le₁
      refine verdicts.bind (verdicts.expectSigma (contexts le) pairTypes) fun le₂ families => ?_
      have le := le.trans le₂
      refine verdicts.bind (deciding.eval (deciding.judged_mono le pairs)) fun le₃ values => ?_
      refine verdicts.bind (verdicts.compute (here.car values)) fun le₄ firsts => ?_
      exact verdicts.compute ((here.evaluates fuel).instantiate
        (here.closures_mono (le₃.trans le₄) families.2) firsts)
  | indNat targets motives bases steps => exact ih.synth_indNat related targets motives bases steps
  | equal types lefts rights =>
      refine verdicts.spend (verdicts.bind (verdicts.record visited) fun le _ => ?_)
      refine verdicts.bind (ih.check (deciding.judged_mono le types) (here.value .univ))
        fun le₁ _ => ?_
      have le := le.trans le₁
      refine verdicts.bind (deciding.eval (deciding.judged_mono le types)) fun le₂ values => ?_
      have le := le.trans le₂
      refine verdicts.bind (ih.check (deciding.judged_mono le lefts) values) fun le₃ _ => ?_
      have le := le.trans le₃
      refine verdicts.bind (ih.check (deciding.judged_mono le rights) (here.values_mono le₃ values)) ?_
      exact fun _ _ => verdicts.done (here.value .univ)
  | replace targets motives bases => exact ih.synth_replace related targets motives bases
  | indAbsurd targets motives =>
      refine verdicts.spend (verdicts.bind (verdicts.record visited) fun le _ => ?_)
      refine verdicts.bind (ih.synth (deciding.judged_mono le targets)) fun le₁ targetTypes => ?_
      have le := le.trans le₁
      refine verdicts.bind (verdicts.expectAbsurd (contexts le) targetTypes) fun le₂ _ => ?_
      have le := le.trans le₂
      refine verdicts.bind (ih.check (deciding.judged_mono le motives) (here.value .univ)) ?_
      exact fun le₃ _ => deciding.eval (deciding.judged_mono (le.trans le₃) motives)
  | the types exprs =>
      refine verdicts.spend (verdicts.bind (verdicts.record visited) fun le _ => ?_)
      refine verdicts.bind (ih.check (deciding.judged_mono le types) (here.value .univ))
        fun le₁ _ => ?_
      have le := le.trans le₁
      refine verdicts.bind (deciding.eval (deciding.judged_mono le types)) fun le₂ values => ?_
      refine verdicts.bind (ih.check (deciding.judged_mono (le.trans le₂) exprs) values) ?_
      exact fun le₃ _ => verdicts.done (here.values_mono le₃ values)
  | nat | trivial | absurd | atom | univ =>
      refine verdicts.spend (verdicts.bind (verdicts.record visited) ?_)
      exact fun _ _ => verdicts.done (here.value .univ)
  | lam | cons | zero | add1 | same | sole | tick =>
      refine verdicts.spend (verdicts.bind (verdicts.record visited) ?_)
      exact fun _ _ => verdicts.reject notSynthesizable

theorem check_succ (ih : deciding.Decides fuel) {type type' : Value}
    (related : deciding.judged scope world ctx term ctx' term')
    (types : (reading.relation scope).values world type type') :
    verdicts.Ends (fun _ _ _ => True) (fuel + 1) world (ctx.check (fuel + 1) term type)
      fun bound => ctx'.check bound term' type' := by
  let here := reading.relation scope
  obtain ⟨_, visited, _⟩ := deciding.visits related
  have contexts {later : World} (le : world ≤ later) := deciding.contextsLater related le
  -- A term that is neither a constructor nor a function has its type found and compared.
  have compared : verdicts.Ends (fun _ _ _ => True) fuel world
      (do
        Judging.record (.check term)
        let synthesized ← ctx.synth fuel term
        ctx.convert fuel .univ synthesized type)
      (fun bound => do
        Judging.record (.check term')
        let synthesized ← ctx'.synth bound term'
        ctx'.convert bound .univ synthesized type') := by
    refine verdicts.bind (verdicts.record visited) fun le _ => ?_
    refine verdicts.bind (ih.synth (deciding.judged_mono le related)) fun le₁ synthesized => ?_
    have le := le.trans le₁
    exact verdicts.convert (contexts le) (here.value .univ) synthesized (here.values_mono le types)
  cases deciding.parts related with
  | var => exact deciding.compare related compared
  | @lam x x' body body' insides =>
      refine verdicts.spend (verdicts.bind (verdicts.record visited) fun le _ => ?_)
      refine verdicts.bind (verdicts.expectPi (contexts le) (here.values_mono le types))
        fun le₁ families => ?_
      have le := le.trans le₁
      obtain ⟨domains, ranges⟩ := families
      have isNew := deciding.new insides
      let inside := reading.relation (reading.below scope (ctx.freshFor x) (ctx'.freshFor x'))
      refine verdicts.bind (verdicts.compute (deciding.assume (deciding.bodies_mono le insides) domains))
        fun le₂ bodies => ?_
      have arguments := inside.ofVar (reading.values_below isNew domains)
        (reading.names_below isNew)
      refine verdicts.bind (verdicts.compute ((inside.evaluates fuel).instantiate
        (inside.closures_mono le₂ (reading.closures_below isNew ranges))
        (inside.values_mono le₂ arguments))) fun le₃ bodyTypes => ?_
      exact ih.check (deciding.judged_mono le₃ bodies) bodyTypes
  | cons firsts seconds =>
      refine verdicts.spend (verdicts.bind (verdicts.record visited) fun le _ => ?_)
      refine verdicts.bind (verdicts.expectSigma (contexts le) (here.values_mono le types))
        fun le₁ families => ?_
      have le := le.trans le₁
      obtain ⟨carTypes, cdrTypes⟩ := families
      refine verdicts.bind (ih.check (deciding.judged_mono le firsts) carTypes) fun le₂ _ => ?_
      have le := le.trans le₂
      refine verdicts.bind (deciding.eval (deciding.judged_mono le firsts)) fun le₃ values => ?_
      have le := le.trans le₃
      refine verdicts.bind (verdicts.compute ((here.evaluates fuel).instantiate
        (here.closures_mono (le₂.trans le₃) cdrTypes) values)) fun le₄ secondTypes => ?_
      exact ih.check (deciding.judged_mono (le.trans le₄) seconds) secondTypes
  | zero =>
      refine verdicts.spend (verdicts.bind (verdicts.record visited) fun le _ => ?_)
      exact verdicts.expectNat (contexts le) (here.values_mono le types)
  | add1 predecessors =>
      refine verdicts.spend (verdicts.bind (verdicts.record visited) fun le _ => ?_)
      refine verdicts.bind (verdicts.expectNat (contexts le) (here.values_mono le types)) ?_
      exact fun le₁ _ => ih.check (deciding.judged_mono (le.trans le₁) predecessors) (here.value .nat)
  | same =>
      refine verdicts.spend (verdicts.bind (verdicts.record visited) fun le _ => ?_)
      refine verdicts.bind (verdicts.expectEqual (contexts le) (here.values_mono le types))
        fun le₁ sides => ?_
      obtain ⟨sideTypes, lefts, rights⟩ := sides
      exact verdicts.convert (contexts (le.trans le₁)) sideTypes lefts rights
  | sole =>
      refine verdicts.spend (verdicts.bind (verdicts.record visited) fun le _ => ?_)
      exact verdicts.expectTrivial (contexts le) (here.values_mono le types)
  | tick =>
      refine verdicts.spend (verdicts.bind (verdicts.record visited) fun le _ => ?_)
      exact verdicts.expectAtom (contexts le) (here.values_mono le types)
  | _ => exact verdicts.spend compared

end Decides

theorem decides (fuel : Nat) : deciding.Decides fuel := by
  induction fuel with
  | zero => exact .zero
  | succ fuel ih => exact ⟨ih.synth_succ, ih.check_succ⟩

/-- A definition is accepted or not alike; what is known of contexts that have it is up to `results`. -/
theorem addDefinition {results : World → Context → Context → Prop} (fuel : Nat) (scope : reading.Scope)
    (world : World) (x : Name) (related : deciding.judged scope world ctx term ctx' term')
    (bound : (ctx.binding? x).isSome = (ctx'.binding? x).isSome)
    (defined : ∀ {later : World} {type type' value value' : Value}, world ≤ later →
      (reading.relation scope).values later type type' →
      (reading.relation scope).values later value value' →
      comparison.Ends results fuel later (ctx.define x type value)
        fun _ => ctx'.define x type' value') :
    verdicts.Ends results fuel world (ctx.addDefinition fuel x term)
      fun bound => ctx'.addDefinition bound x term' := by
  have same := verdicts.definition x
  simp only [Context.addDefinition, bound]
  split
  · exact verdicts.reject same.2
  · refine verdicts.bind ((deciding.decides fuel).synth related) fun le types => ?_
    refine verdicts.bind (verdicts.record same.1) fun le₁ _ => ?_
    have le := le.trans le₁
    refine verdicts.bind (deciding.eval (deciding.judged_mono le related)) fun le₂ values => ?_
    exact verdicts.compute (defined (le.trans le₂)
      ((reading.relation scope).values_mono (le₁.trans le₂) types) values)

def NormalForms (scope : reading.Scope) (result result' : NormalForm) : Prop :=
  reading.terms scope result.type result'.type ∧ reading.terms scope result.term result'.term

theorem run (fuel : Nat) (scope : reading.Scope) (world : World)
    (related : deciding.judged scope world ctx term ctx' term') :
    verdicts.Ends (fun _ => NormalForms scope) fuel world (ctx.run fuel term)
      fun bound => ctx'.run bound term' := by
  let here := reading.relation scope
  have reads := reading.readsBack fuel
  have contexts {later : World} (le : world ≤ later) := deciding.contextsLater related le
  refine verdicts.bind ((deciding.decides fuel).synth related) fun le types => ?_
  refine verdicts.bind (deciding.eval (deciding.judged_mono le related)) fun le₁ values => ?_
  have types := here.values_mono le₁ types
  refine verdicts.bind (verdicts.compute (reads.readBackType (contexts (le.trans le₁)) types))
    fun le₂ typeTerms => ?_
  refine verdicts.bind (verdicts.compute (reads.readBack (contexts ((le.trans le₁).trans le₂))
    (here.values_mono le₂ types) (here.values_mono le₂ values))) fun _ valueTerms => ?_
  exact verdicts.done ⟨typeTerms, valueTerms⟩

end Deciding

end LambdaCalculi.Dependent
