import LambdaCalculi.Proofs.Dependent.CheckingSafety
import LambdaCalculi.Proofs.Dependent.Renaming
import LambdaCalculi.Proofs.Dependent.TypedNormalForms

/-!
# Type checking accepts what has a type

A term for bidirectional checking that has a meaning and a type is not rejected: synthesis finds its
type, up to agreement, and checking accepts it at every value that means its type. Comparing types
loses nothing, because values of one meaning have alpha-equivalent normal forms.

A judgement chooses its own names for the variables of values, and the checker chooses others. So
the term is judged in one world and checked in another, and valuations of the second are sent to
valuations of the first, as in the evaluation of closures.
-/

set_option autoImplicit false

namespace LambdaCalculi.Dependent

open Domain Outcome
open Meaning (Over)

/-! ## Normal forms of one meaning -/

section Uniqueness

theorem World.nodup_names (world : World) : world.names.Nodup := by
  obtain ⟨assumptions, telescope⟩ := world
  induction telescope with
  | nil => exact List.nodup_nil
  | cons fresh _ _ ih => exact List.nodup_cons.mpr ⟨fresh, ih⟩

theorem World.parallel_vars (world : World) : world.vars.Parallel world.vars := by
  have distinct : world.vars.names.Nodup := world.names_vars ▸ world.nodup_names
  exact ⟨rfl, distinct, distinct⟩

theorem NormalAt.alphaEquiv {world : World} {code element : Domain} {term term' : Term}
    (normal : NormalAt world.vars code element term)
    (normal' : NormalAt world.vars code element term') : term.alphaEquiv term' = true := by
  have diagonal : BinderPairs.Diagonal (world.vars.names.zip world.vars.names) := by
    intro pair mem
    rw [List.zip_eq_zipWith, List.zipWith_self] at mem
    obtain ⟨x, _, rfl⟩ := List.mem_map.mp mem
    rfl
  rw [← Term.alphaEquivUnder_diagonal diagonal]
  exact normal.unique normal' world.parallel_vars

end Uniqueness

variable [Lookups]

/-! ## Accepting computations -/

def Fault.IsMissing : Fault → Prop
  | rejected _ _ => False
  | stuck place => Tolerated place

def Accepts {α : Type} (result : α → Prop) (checking : Checking α) : Prop :=
  checking.outcome.Safe Fault.IsMissing result

namespace Accepts

variable {α β : Type} {result : α → Prop}

theorem pure {value : α} (holds : result value) : Accepts result (Pure.pure value) :=
  holds

theorem bind {first : Checking α} {next : α → Checking β} {nextResult : β → Prop}
    (accepts : Accepts result first)
    (nextAccepts : ∀ value, result value → Accepts nextResult (next value)) :
    Accepts nextResult (first >>= next) :=
  Checking.safe_bind accepts nextAccepts

/-- A step that only passes a value on. -/
theorem next {value : α} {next : α → Checking β} {nextResult : β → Prop}
    (accepts : Accepts nextResult (next value)) : Accepts nextResult (Pure.pure value >>= next) := by
  rw [Accepts, Traced.outcome_bind]
  exact accepts

theorem mono {weaker : α → Prop} {checking : Checking α} (accepts : Accepts result checking)
    (weaken : ∀ value, result value → weaker value) : Accepts weaker checking :=
  Safe.mono accepts weaken

theorem compute {outcome : Outcome Stuck α} (safe : outcome.Safe Tolerated result) :
    Accepts result (Judging.compute outcome) :=
  Checking.safe_compute safe fun _ tolerated => tolerated

theorem computed {outcome : Outcome Stuck α} {value : α} (run : outcome = .done value) :
    Accepts (fun other => other = value) (Judging.compute outcome) := by
  rw [run]
  exact rfl

theorem record (event : Event) : Accepts (fun _ => True) (Judging.record event : Checking Unit) :=
  trivial

/-- Where all names are found, only the bound on the depth is in the way of a value. -/
theorem exhausted_or_done {checking : Checking α} (accepts : Accepts result checking)
    (reliable : Lookups.reliable) :
    checking.outcome = .exhausted ∨ ∃ value, checking.outcome = .done value ∧ result value := by
  rw [Accepts] at accepts
  cases outcome : checking.outcome with
  | exhausted => exact .inl rfl
  | done value =>
      rw [outcome] at accepts
      exact .inr ⟨value, rfl, accepts⟩
  | failed fault =>
      rw [outcome] at accepts
      cases fault with
      | rejected definition? error => exact accepts.elim
      | stuck place => exact (accepts reliable).elim

end Accepts

/-- Values that agree are the same for the checker. -/
theorem Context.accepts_convert {ctx : Context} {world : World} {type left right : Value}
    {typeMeaning leftMeaning rightMeaning : Meaning} (named : world.names ⊆ ctx.names)
    (typeMeans : type.Means world typeMeaning (.leaf .univ))
    (leftMeans : left.Means world leftMeaning typeMeaning)
    (rightMeans : right.Means world rightMeaning typeMeaning)
    (agree : world.Agree leftMeaning rightMeaning) (fuel : Nat) :
    Accepts (fun _ => True) (ctx.convert fuel type left right) := by
  refine .bind (.compute ((safeReadBack fuel).readBack named typeMeans leftMeans))
    fun leftTerm leftReads => ?_
  refine .bind (.compute ((safeReadBack fuel).readBack named typeMeans rightMeans))
    fun rightTerm rightReads => ?_
  have rightNormal := rightReads.normal
  rw [← agree _ world.admits_generic] at rightNormal
  rw [if_pos (leftReads.normal.alphaEquiv rightNormal)]
  exact .pure trivial

/-! ## Contexts for a judgement made elsewhere -/

/-- The context gives the names of the scope their meanings, for the variables of the world of the
scope that `sending` gives a meaning to. -/
structure Context.Realizes (world target : World) (sending : Valuation → Valuation) (ctx : Context)
    (scope : Scope) : Prop where
  sends : world.Sends target sending
  scopeOver : scope.Over target.names
  models : ∃ names, ctx.Models names (scope.after sending) world

namespace Context

theorem Models.widen {names more : List Name} {ctx : Context} {scope : Scope} {world : World}
    (models : ctx.Models names scope world) (included : names ⊆ more) : ctx.Models more scope world :=
  ⟨models.env, models.entries, models.named, fun bound mem => included (models.known bound mem)⟩

theorem Models.realizes {names : List Name} {ctx : Context} {scope : Scope} {world : World}
    (models : ctx.Models names scope world) :
    ctx.Realizes world world (fun valuation => valuation) scope := by
  refine ⟨.refl world, models.env.scopeOver, names, ?_⟩
  rw [Scope.after_self]
  exact models

namespace Realizes

variable {world target : World} {sending : Valuation → Valuation} {ctx : Context} {scope : Scope}

theorem named (realizes : ctx.Realizes world target sending scope) : world.names ⊆ ctx.names := by
  obtain ⟨names, models⟩ := realizes.models
  exact models.named

theorem eval (realizes : ctx.Realizes world target sending scope) {term : Term}
    {meaning type : Meaning} (means : term.Means scope target meaning type) (fuel : Nat) :
    Yields world (fun valuation => meaning (sending valuation))
      (fun valuation => type (sending valuation)) (ctx.eval fuel term) := by
  obtain ⟨names, models⟩ := realizes.models
  exact (safeEvaluation fuel).eval ⟨realizes.sends, realizes.scopeOver, models.env⟩ means

/-- The variable that the judgement has goes to the one that the context has. -/
theorem assume (realizes : ctx.Realizes world target sending scope) {n : Name} {domain : Meaning}
    (new : target.New n domain) {type : Value}
    (typeMeans : type.Means world (fun valuation => domain (sending valuation)) (.leaf .univ))
    (x : Name) :
    ∃ (inner : Context)
      (newer : world.New (ctx.freshFor x) fun valuation => domain (sending valuation)),
      (ctx.assume x type : Outcome Stuck Context) = .done inner ∧
      inner.Realizes (world.extend newer) (target.extend new)
        (fun valuation => Function.update (sending valuation) n (valuation (ctx.freshFor x)))
        (scope.bind x n domain) := by
  obtain ⟨names, models⟩ := realizes.models
  obtain ⟨inner, newer, run, innerModels⟩ :=
    (models.widen (List.subset_cons_self x names)).assume typeMeans List.mem_cons_self
  have sends := (realizes.sends.extend newer).update new (World.Element.newest newer)
  refine ⟨inner, newer, run, sends, realizes.scopeOver.bind new x, x :: names, ?_⟩
  rw [Scope.after_update realizes.scopeOver new]
  exact innerModels

/-- A value that means a type also means the types that agree with it where the judgement was
made. -/
theorem retype (realizes : ctx.Realizes world target sending scope) {value : Value}
    {type shown : Meaning}
    (means : value.Means world (fun valuation => shown (sending valuation)) (.leaf .univ))
    (isOver : Over target.names type) (agree : target.Agree type shown) :
    value.Means world (fun valuation => type (sending valuation)) (.leaf .univ) :=
  means.exchange ⟨.ofType (realizes.sends.isOver isOver),
    fun _ admits => agree _ (realizes.sends.admits admits), .refl _⟩

end Realizes

end Context

/-! ## What a judgement tells of the type -/

section Judged

variable {scope : Scope} {world : World} {meaning type : Meaning}

/-- The family of types of the second components can be taken from the type of the pair. -/
theorem Term.Means.cons_parts {first second : Term}
    (means : (Term.cons first second).Means scope world meaning type) :
    ∃ carType cdrType firstMeaning secondMeaning, Over world.names (.sigma carType cdrType) ∧
      world.Agree (.sigma carType cdrType) type ∧ first.Means scope world firstMeaning carType ∧
      second.Means scope world secondMeaning (.apply cdrType firstMeaning) := by
  obtain ⟨denotes, shows⟩ := means
  cases denotes with
  | @cons _ _ _ _ firstMeaning secondMeaning carType cdrType firstMeans secondMeans =>
      have cdrOver := shows.typeOver.part 1
      have cdrAgree : world.Agree (.part 1 type) cdrType := by
        intro valuation admits
        simp only [Meaning.part, shows.typeAgree valuation admits, Domain.sigma, part_one_node]
      refine ⟨carType, .part 1 type, firstMeaning, secondMeaning,
        firstMeans.element.typeOver.sigma cdrOver, fun valuation admits => ?_, firstMeans,
        secondMeans.retype (cdrOver.apply firstMeans.element.isOver) (cdrAgree.apply (.refl _))⟩
      simp only [Meaning.sigma, cdrAgree valuation admits]
      exact (shows.typeAgree valuation admits).symm

theorem Term.Means.same_sides (means : Term.same.Means scope world meaning type) :
    ∃ inner left right, Over world.names (.equal inner left right) ∧
      world.Agree (.equal inner left right) type ∧ world.Agree left right := by
  obtain ⟨denotes, shows⟩ := means
  cases denotes with
  | same agree =>
      have isOver := shows.typeOver
      refine ⟨.part 0 type, .part 1 type, .part 2 type,
        (isOver.part 0).equal (isOver.part 1) (isOver.part 2), fun valuation admits => ?_,
        fun valuation admits => ?_⟩
      · simp only [Meaning.equal, Meaning.part, shows.typeAgree valuation admits, Domain.equal,
          part_zero_node, part_one_node, part_two_node]
      · simp only [Meaning.part, shows.typeAgree valuation admits, Domain.equal, part_one_node,
          part_two_node]
        exact agree valuation admits

end Judged

/-! ## Synthesis and checking -/

structure CompleteChecking (fuel : Nat) : Prop where
  synth : ∀ {world target : World} {sending : Valuation → Valuation} {ctx : Context} {scope : Scope}
    {term : Term} {meaning type : Meaning}, ctx.Realizes world target sending scope →
    term.Inferable → term.Means scope target meaning type →
    Accepts (fun found => found.Means world (fun valuation => type (sending valuation)) (.leaf .univ))
      (ctx.synth fuel term)
  check : ∀ {world target : World} {sending : Valuation → Valuation} {ctx : Context} {scope : Scope}
    {term : Term} {value : Value} {meaning type : Meaning}, ctx.Realizes world target sending scope →
    term.Checkable → term.Means scope target meaning type →
    value.Means world (fun valuation => type (sending valuation)) (.leaf .univ) →
    Accepts (fun _ => True) (ctx.check fuel term value)

namespace CompleteChecking

theorem zero : CompleteChecking 0 where
  synth _ _ _ := trivial
  check _ _ _ _ := trivial

variable {fuel : Nat} {world target : World} {sending : Valuation → Valuation} {ctx : Context}
  {scope : Scope}

theorem synth_var (realizes : ctx.Realizes world target sending scope) {x : Name} {bound : Bound}
    (found : scope.innermost? x = some bound) :
    Accepts (fun type => type.Means world (fun valuation => bound.type (sending valuation))
      (.leaf .univ)) (ctx.lookupType x : Checking Value) := by
  obtain ⟨names, models⟩ := realizes.models
  have foundAfter := scope.innermost?_after sending x
  rw [found, Option.map_some] at foundAfter
  obtain ⟨type, lookup, typeMeans⟩ := models.exists_type? foundAfter
  rw [Context.lookupType, lookup]
  exact .pure typeMeans

/-- A type and a family of types over it, as function types and pair types have them. -/
theorem check_family (smaller : CompleteChecking fuel)
    (realizes : ctx.Realizes world target sending scope) {x n : Name} {domain range : Term}
    {domainMeaning body : Meaning} (domainForm : domain.Checkable) (rangeForm : range.Checkable)
    (domainMeans : domain.Means scope target domainMeaning (.leaf .univ))
    (new : target.New n domainMeaning)
    (rangeMeans : range.Means (scope.bind x n domainMeaning) (target.extend new) body (.leaf .univ)) :
    Accepts (fun found => found.Means world (.leaf .univ) (.leaf .univ)) (do
      ctx.check fuel domain .univ
      let domainValue ← Judging.compute (ctx.eval fuel domain)
      let inner ← Judging.compute (ctx.assume x domainValue)
      inner.check fuel range .univ
      return .univ : Checking Value) := by
  refine .bind (smaller.check realizes domainForm domainMeans .univ) fun _ _ => ?_
  refine .bind (.compute (realizes.eval domainMeans fuel)) fun domainValue domainValueMeans => ?_
  obtain ⟨inner, newer, run, innerRealizes⟩ := realizes.assume new domainValueMeans x
  refine .bind (.computed run) fun _ same => ?_
  subst same
  exact .bind (smaller.check innerRealizes rangeForm rangeMeans .univ) fun _ _ => .pure .univ

theorem synth_app (smaller : CompleteChecking fuel)
    (realizes : ctx.Realizes world target sending scope) {function argument : Term}
    {functionMeaning argumentMeaning domain range : Meaning} (functionForm : function.Inferable)
    (argumentForm : argument.Checkable)
    (functionMeans : function.Means scope target functionMeaning (.pi domain range))
    (argumentMeans : argument.Means scope target argumentMeaning domain) :
    Accepts (fun found => found.Means world (fun valuation =>
        Meaning.apply range argumentMeaning (sending valuation)) (.leaf .univ))
      (ctx.synth (fuel + 1) (.app function argument)) := by
  refine .bind (.record _) fun _ _ => ?_
  refine .bind (smaller.synth realizes functionForm functionMeans)
    fun functionType functionTypeMeans => ?_
  obtain ⟨domainValue, rangeClosure, rfl, domainMeans, rangeDenotes⟩ := functionTypeMeans.exists_pi
  refine .next (.bind (smaller.check realizes argumentForm argumentMeans domainMeans) fun _ _ => ?_)
  refine .bind (.compute (realizes.eval argumentMeans fuel)) fun argumentValue argumentValueMeans => ?_
  exact .compute ((safeEvaluation fuel).instantiateType rangeDenotes argumentValueMeans)

theorem synth_car (smaller : CompleteChecking fuel)
    (realizes : ctx.Realizes world target sending scope) {pair : Term}
    {pairMeaning carType cdrType : Meaning} (pairForm : pair.Inferable)
    (pairMeans : pair.Means scope target pairMeaning (.sigma carType cdrType)) :
    Accepts (fun found => found.Means world (fun valuation => carType (sending valuation))
      (.leaf .univ)) (ctx.synth (fuel + 1) (.car pair)) := by
  refine .bind (.record _) fun _ _ => ?_
  refine .bind (smaller.synth realizes pairForm pairMeans) fun pairType pairTypeMeans => ?_
  obtain ⟨carValue, cdrClosure, rfl, carMeans, _⟩ := pairTypeMeans.exists_sigma
  exact .next (.pure carMeans)

theorem synth_cdr (smaller : CompleteChecking fuel)
    (realizes : ctx.Realizes world target sending scope) {pair : Term}
    {pairMeaning carType cdrType : Meaning} (pairForm : pair.Inferable)
    (pairMeans : pair.Means scope target pairMeaning (.sigma carType cdrType)) :
    Accepts (fun found => found.Means world (fun valuation =>
        Meaning.apply cdrType (.part 0 pairMeaning) (sending valuation)) (.leaf .univ))
      (ctx.synth (fuel + 1) (.cdr pair)) := by
  refine .bind (.record _) fun _ _ => ?_
  refine .bind (smaller.synth realizes pairForm pairMeans) fun pairType pairTypeMeans => ?_
  obtain ⟨carValue, cdrClosure, rfl, _, cdrDenotes⟩ := pairTypeMeans.exists_sigma
  refine .next (.bind (.compute (realizes.eval pairMeans fuel)) fun pairValue pairValueMeans => ?_)
  refine .bind (.compute pairValueMeans.yields_car) fun first firstMeans => ?_
  exact .compute ((safeEvaluation fuel).instantiateType cdrDenotes firstMeans)

theorem synth_indNat (smaller : CompleteChecking fuel)
    (realizes : ctx.Realizes world target sending scope) {scrutinee motive base step : Term}
    {number family start next : Meaning} (targetForm : scrutinee.Inferable)
    (motiveForm : motive.Checkable) (baseForm : base.Checkable) (stepForm : step.Checkable)
    (targetMeans : scrutinee.Means scope target number (.leaf .nat))
    (motiveMeans : motive.Means scope target family (.motiveType (.leaf .nat)))
    (baseMeans : base.Means scope target start (.apply family (.leaf .zero)))
    (stepMeans : step.Means scope target next (.stepType family)) :
    Accepts (fun found => found.Means world (fun valuation =>
        Meaning.apply family number (sending valuation)) (.leaf .univ))
      (ctx.synth (fuel + 1) (.indNat scrutinee motive base step)) := by
  refine .bind (.record _) fun _ _ => ?_
  refine .bind (smaller.synth realizes targetForm targetMeans) fun targetType targetTypeMeans => ?_
  obtain rfl := targetTypeMeans.eq_nat
  refine .next (.bind (smaller.check realizes motiveForm motiveMeans (Value.Means.nat.motiveType "k"))
    fun _ _ => ?_)
  refine .bind (.compute (realizes.eval motiveMeans fuel)) fun motiveValue motiveValueMeans => ?_
  refine .bind (.compute ((safeEvaluation fuel).applyMotive motiveValueMeans .zero))
    fun baseType baseTypeMeans => ?_
  refine .bind (smaller.check realizes baseForm baseMeans baseTypeMeans) fun _ _ => ?_
  refine .bind (smaller.check realizes stepForm stepMeans motiveValueMeans.natStepType)
    fun _ _ => ?_
  refine .bind (.compute (realizes.eval targetMeans fuel)) fun targetValue targetValueMeans => ?_
  exact .compute ((safeEvaluation fuel).applyMotive motiveValueMeans targetValueMeans)

theorem synth_replace (smaller : CompleteChecking fuel)
    (realizes : ctx.Realizes world target sending scope) {scrutinee motive base : Term}
    {evidence type left right family start : Meaning} (targetForm : scrutinee.Inferable)
    (motiveForm : motive.Checkable) (baseForm : base.Checkable)
    (targetMeans : scrutinee.Means scope target evidence (.equal type left right))
    (motiveMeans : motive.Means scope target family (.motiveType type))
    (baseMeans : base.Means scope target start (.apply family left)) :
    Accepts (fun found => found.Means world (fun valuation =>
        Meaning.apply family right (sending valuation)) (.leaf .univ))
      (ctx.synth (fuel + 1) (.replace scrutinee motive base)) := by
  refine .bind (.record _) fun _ _ => ?_
  refine .bind (smaller.synth realizes targetForm targetMeans) fun targetType targetTypeMeans => ?_
  obtain ⟨typeValue, leftValue, rightValue, rfl, typeMeans, leftMeans, rightMeans⟩ :=
    targetTypeMeans.exists_equal
  refine .next (.bind (smaller.check realizes motiveForm motiveMeans (typeMeans.motiveType "x"))
    fun _ _ => ?_)
  refine .bind (.compute (realizes.eval motiveMeans fuel)) fun motiveValue motiveValueMeans => ?_
  refine .bind (.compute ((safeEvaluation fuel).applyMotive motiveValueMeans leftMeans))
    fun baseType baseTypeMeans => ?_
  refine .bind (smaller.check realizes baseForm baseMeans baseTypeMeans) fun _ _ => ?_
  exact .compute ((safeEvaluation fuel).applyMotive motiveValueMeans rightMeans)

theorem synth_indAbsurd (smaller : CompleteChecking fuel)
    (realizes : ctx.Realizes world target sending scope) {scrutinee motive : Term}
    {evidence type : Meaning} (targetForm : scrutinee.Inferable) (motiveForm : motive.Checkable)
    (targetMeans : scrutinee.Means scope target evidence (.leaf .absurd))
    (motiveMeans : motive.Means scope target type (.leaf .univ)) :
    Accepts (fun found => found.Means world (fun valuation => type (sending valuation))
      (.leaf .univ)) (ctx.synth (fuel + 1) (.indAbsurd scrutinee motive)) := by
  refine .bind (.record _) fun _ _ => ?_
  refine .bind (smaller.synth realizes targetForm targetMeans) fun targetType targetTypeMeans => ?_
  obtain rfl := targetTypeMeans.eq_absurd
  refine .next (.bind (smaller.check realizes motiveForm motiveMeans .univ) fun _ _ => ?_)
  exact .compute (realizes.eval motiveMeans fuel)

theorem synth_equal (smaller : CompleteChecking fuel)
    (realizes : ctx.Realizes world target sending scope) {type left right : Term}
    {typeMeaning leftMeaning rightMeaning : Meaning} (typeForm : type.Checkable)
    (leftForm : left.Checkable) (rightForm : right.Checkable)
    (typeMeans : type.Means scope target typeMeaning (.leaf .univ))
    (leftMeans : left.Means scope target leftMeaning typeMeaning)
    (rightMeans : right.Means scope target rightMeaning typeMeaning) :
    Accepts (fun found => found.Means world (.leaf .univ) (.leaf .univ))
      (ctx.synth (fuel + 1) (.equal type left right)) := by
  refine .bind (.record _) fun _ _ => ?_
  refine .bind (smaller.check realizes typeForm typeMeans .univ) fun _ _ => ?_
  refine .bind (.compute (realizes.eval typeMeans fuel)) fun typeValue typeValueMeans => ?_
  refine .bind (smaller.check realizes leftForm leftMeans typeValueMeans) fun _ _ => ?_
  exact .bind (smaller.check realizes rightForm rightMeans typeValueMeans) fun _ _ => .pure .univ

theorem synth_the (smaller : CompleteChecking fuel)
    (realizes : ctx.Realizes world target sending scope) {type expr : Term}
    {meaning typeMeaning : Meaning} (typeForm : type.Checkable) (exprForm : expr.Checkable)
    (typeMeans : type.Means scope target typeMeaning (.leaf .univ))
    (exprMeans : expr.Means scope target meaning typeMeaning) :
    Accepts (fun found => found.Means world (fun valuation => typeMeaning (sending valuation))
      (.leaf .univ)) (ctx.synth (fuel + 1) (.the type expr)) := by
  refine .bind (.record _) fun _ _ => ?_
  refine .bind (smaller.check realizes typeForm typeMeans .univ) fun _ _ => ?_
  refine .bind (.compute (realizes.eval typeMeans fuel)) fun typeValue typeValueMeans => ?_
  exact .bind (smaller.check realizes exprForm exprMeans typeValueMeans)
    fun _ _ => .pure typeValueMeans

theorem synth_succ (smaller : CompleteChecking fuel)
    (realizes : ctx.Realizes world target sending scope) {term : Term} {meaning type : Meaning}
    (form : term.Inferable) (means : term.Means scope target meaning type) :
    Accepts (fun found => found.Means world (fun valuation => type (sending valuation)) (.leaf .univ))
      (ctx.synth (fuel + 1) term) := by
  obtain ⟨denotes, shows⟩ := means
  refine .mono ?_ fun _ foundMeans => realizes.retype foundMeans shows.typeOver shows.typeAgree
  cases denotes with
  | var found _ => exact .bind (.record _) fun _ _ => synth_var realizes found
  | pi domainMeans new rangeMeans =>
      cases form with
      | pi domainForm rangeForm =>
          exact .bind (.record _) fun _ _ =>
            smaller.check_family realizes domainForm rangeForm domainMeans new rangeMeans
  | app functionMeans argumentMeans =>
      cases form with
      | app functionForm argumentForm =>
          exact smaller.synth_app realizes functionForm argumentForm functionMeans argumentMeans
  | sigma carMeans new cdrMeans =>
      cases form with
      | sigma carForm cdrForm =>
          exact .bind (.record _) fun _ _ =>
            smaller.check_family realizes carForm cdrForm carMeans new cdrMeans
  | car pairMeans =>
      cases form with
      | car pairForm =>
          exact smaller.synth_car realizes pairForm pairMeans
  | cdr pairMeans =>
      cases form with
      | cdr pairForm =>
          exact smaller.synth_cdr realizes pairForm pairMeans
  | indNat targetMeans motiveMeans baseMeans stepMeans =>
      cases form with
      | indNat targetForm motiveForm baseForm stepForm =>
          exact smaller.synth_indNat realizes targetForm motiveForm baseForm stepForm targetMeans
            motiveMeans baseMeans stepMeans
  | equal typeMeans leftMeans rightMeans =>
      cases form with
      | equal typeForm leftForm rightForm =>
          exact smaller.synth_equal realizes typeForm leftForm rightForm typeMeans leftMeans rightMeans
  | replace targetMeans motiveMeans baseMeans =>
      cases form with
      | replace targetForm motiveForm baseForm =>
          exact smaller.synth_replace realizes targetForm motiveForm baseForm targetMeans motiveMeans
            baseMeans
  | indAbsurd targetMeans motiveMeans =>
      cases form with
      | indAbsurd targetForm motiveForm =>
          exact smaller.synth_indAbsurd realizes targetForm motiveForm targetMeans motiveMeans
  | the typeMeans exprMeans =>
      cases form with
      | the typeForm exprForm =>
          exact smaller.synth_the realizes typeForm exprForm typeMeans exprMeans
  | nat | trivial | absurd | atom | univ => exact .bind (.record _) fun _ _ => .pure .univ
  | lam | cons | zero | add1 | same | sole | tick => cases form

section Check

variable {value : Value} {meaning type : Meaning}

theorem check_lam (smaller : CompleteChecking fuel)
    (realizes : ctx.Realizes world target sending scope) {x : Name} {body : Term}
    (bodyForm : body.Checkable) (means : (Term.lam x body).Means scope target meaning type)
    (typeMeans : value.Means world (fun valuation => type (sending valuation)) (.leaf .univ)) :
    Accepts (fun _ => True) (ctx.check (fuel + 1) (.lam x body) value) := by
  obtain ⟨denotes, shows⟩ := means
  cases denotes with
  | lam new bodyMeans =>
      have bodyTypeOver := bodyMeans.element.typeOver
      obtain ⟨domainValue, rangeClosure, rfl, domainMeans, rangeDenotes⟩ := (realizes.retype typeMeans
        bodyMeans.element.lam.typeOver shows.typeAgree.symm).exists_pi
      refine .bind (.record _) fun _ _ => .next ?_
      obtain ⟨inner, newer, run, innerRealizes⟩ := realizes.assume new domainMeans x
      refine .bind (.computed run) fun _ same => ?_
      subst same
      refine .bind (.compute ((safeEvaluation fuel).instantiateType (rangeDenotes.extend newer)
        (domainMeans.ofVar newer))) fun bodyTypeValue bodyTypeMeans => ?_
      refine smaller.check innerRealizes bodyForm bodyMeans (bodyTypeMeans.exchange
        ⟨.ofType (innerRealizes.sends.isOver bodyTypeOver), fun valuation admits => ?_, .refl _⟩)
      -- The variable of the checker is a member of the domain, so the family is entered with it.
      exact (Meaning.family_apply bodyTypeOver.finitary _
        ((World.Element.newest newer).member valuation admits)).symm

theorem check_cons (smaller : CompleteChecking fuel)
    (realizes : ctx.Realizes world target sending scope) {first second : Term}
    (firstForm : first.Checkable) (secondForm : second.Checkable)
    (means : (Term.cons first second).Means scope target meaning type)
    (typeMeans : value.Means world (fun valuation => type (sending valuation)) (.leaf .univ)) :
    Accepts (fun _ => True) (ctx.check (fuel + 1) (.cons first second) value) := by
  obtain ⟨carType, cdrType, firstMeaning, secondMeaning, isOver, agree, firstMeans, secondMeans⟩ :=
    means.cons_parts
  obtain ⟨carValue, cdrClosure, rfl, carMeans, cdrDenotes⟩ :=
    (realizes.retype typeMeans isOver agree).exists_sigma
  refine .bind (.record _) fun _ _ => .next ?_
  refine .bind (smaller.check realizes firstForm firstMeans carMeans) fun _ _ => ?_
  refine .bind (.compute (realizes.eval firstMeans fuel)) fun firstValue firstValueMeans => ?_
  refine .bind (.compute ((safeEvaluation fuel).instantiateType cdrDenotes firstValueMeans))
    fun secondType secondTypeMeans => ?_
  exact smaller.check realizes secondForm secondMeans secondTypeMeans

theorem check_same (realizes : ctx.Realizes world target sending scope)
    (means : Term.same.Means scope target meaning type)
    (typeMeans : value.Means world (fun valuation => type (sending valuation)) (.leaf .univ)) :
    Accepts (fun _ => True) (ctx.check (fuel + 1) .same value) := by
  obtain ⟨inner, left, right, isOver, agree, sidesAgree⟩ := means.same_sides
  obtain ⟨innerValue, leftValue, rightValue, rfl, innerMeans, leftMeans, rightMeans⟩ :=
    (realizes.retype typeMeans isOver agree).exists_equal
  refine .bind (.record _) fun _ _ => .next ?_
  exact Context.accepts_convert realizes.named innerMeans leftMeans rightMeans
    (fun _ admits => sidesAgree _ (realizes.sends.admits admits)) fuel

/-- A term whose type is found is checked by comparing the type. -/
theorem check_infer (smaller : CompleteChecking fuel)
    (realizes : ctx.Realizes world target sending scope) {term : Term} (form : term.Inferable)
    (means : term.Means scope target meaning type)
    (typeMeans : value.Means world (fun valuation => type (sending valuation)) (.leaf .univ)) :
    Accepts (fun _ => True) (ctx.check (fuel + 1) term value) := by
  have accepts : Accepts (fun _ => True) (do
      Judging.record (.check term)
      let synthesized ← ctx.synth fuel term
      ctx.convert fuel .univ synthesized value : Checking Unit) := by
    refine .bind (.record _) fun _ _ => ?_
    refine .bind (smaller.synth realizes form means) fun found foundMeans => ?_
    exact Context.accepts_convert realizes.named .univ foundMeans typeMeans (.refl _) fuel
  -- All these forms take the last rule of the checker.
  cases form with
  | _ => exact accepts

theorem check_succ (smaller : CompleteChecking fuel)
    (realizes : ctx.Realizes world target sending scope) {term : Term} (form : term.Checkable)
    (means : term.Means scope target meaning type)
    (typeMeans : value.Means world (fun valuation => type (sending valuation)) (.leaf .univ)) :
    Accepts (fun _ => True) (ctx.check (fuel + 1) term value) := by
  cases form with
  | lam bodyForm => exact smaller.check_lam realizes bodyForm means typeMeans
  | cons firstForm secondForm => exact smaller.check_cons realizes firstForm secondForm means typeMeans
  | same => exact check_same realizes means typeMeans
  | infer form => exact smaller.check_infer realizes form means typeMeans
  | zero =>
      obtain ⟨⟨⟩, shows⟩ := means
      obtain rfl := (realizes.retype typeMeans (.const _) shows.typeAgree.symm).eq_nat
      exact .bind (.record _) fun _ _ => .pure trivial
  | add1 predecessorForm =>
      obtain ⟨denotes, shows⟩ := means
      cases denotes with
      | add1 predecessorMeans =>
          obtain rfl := (realizes.retype typeMeans (.const _) shows.typeAgree.symm).eq_nat
          exact .bind (.record _) fun _ _ =>
            .next (smaller.check realizes predecessorForm predecessorMeans .nat)
  | sole =>
      obtain ⟨⟨⟩, shows⟩ := means
      obtain rfl := (realizes.retype typeMeans (.const _) shows.typeAgree.symm).eq_trivial
      exact .bind (.record _) fun _ _ => .pure trivial
  | tick =>
      obtain ⟨⟨⟩, shows⟩ := means
      obtain rfl := (realizes.retype typeMeans (.const _) shows.typeAgree.symm).eq_atom
      exact .bind (.record _) fun _ _ => .pure trivial

end Check

end CompleteChecking

theorem completeChecking (fuel : Nat) : CompleteChecking fuel := by
  induction fuel with
  | zero => exact .zero
  | succ fuel smaller =>
      exact ⟨fun realizes form means => smaller.synth_succ realizes form means,
        fun realizes form means typeMeans => smaller.check_succ realizes form means typeMeans⟩

end LambdaCalculi.Dependent
