import LambdaCalculi.Proofs.Dependent.Contexts
import LambdaCalculi.Proofs.Dependent.Fingerprints
import LambdaCalculi.Proofs.Dependent.Renaming
import LambdaCalculi.Proofs.Embedding.Types
import LambdaCalculi.Proofs.Simple.Adequacy

/-!
# Translated terms run alike

A value of the dependent calculus mirrors a leveled value of the simply typed one when it is what
the translation makes of it: function bodies are translated terms, and blocked computations carry
types and motives that denote the simple types. Whatever the relations of the simply typed calculus
derive for a term, the dependent evaluator settles on a mirroring value for its translation, and
reading that back settles on a term that spells the same normal form.
-/

set_option autoImplicit false

namespace LambdaCalculi

open Outcome
open Simple (Ty)

/-- Names with different fingerprints, and the name of the binders that the translation adds. -/
structure Vocabulary where
  hole : Name
  names : List Name
  distinct : Dependent.DistinctFingerprints names

namespace Dependent

mutual

inductive Value.Mirrors (vocabulary : Vocabulary) (scope : List Name) :
    Value → Simple.Leveled.Value → Prop where
  | zero : Value.Mirrors vocabulary scope .zero .zero
  | add1 {predecessor : Value} {predecessor' : Simple.Leveled.Value} :
      predecessor.Mirrors vocabulary scope predecessor' →
      Value.Mirrors vocabulary scope (.add1 predecessor) (.add1 predecessor')
  | closure {env : Env} {env' : List Simple.Leveled.Value} {x : Name} {body : Simple.Term} :
      env.Mirrors vocabulary scope env' → x :: body.names ⊆ vocabulary.names →
      Value.Mirrors vocabulary scope (.lam (.mk env x (body.embed vocabulary.hole)))
        (.closure env' (body.nameless (x :: env.names)))
  | neutral {type : Ty} {typeValue : Value} {blocked : Neutral}
      {blocked' : Simple.Leveled.Neutral} :
      type.Denoted typeValue → blocked.Mirrors vocabulary scope blocked' →
      Value.Mirrors vocabulary scope (.neutral typeValue blocked) (.neutral type blocked')

inductive Neutral.Mirrors (vocabulary : Vocabulary) (scope : List Name) :
    Neutral → Simple.Leveled.Neutral → Prop where
  | var {x : Name} {level : Nat} :
      scope.idxOf x + (level + 1) = scope.length →
      Neutral.Mirrors vocabulary scope (.var x) (.var level)
  | app {function : Neutral} {function' : Simple.Leveled.Neutral} {domain : Ty}
      {domainValue argument : Value} {argument' : Simple.Leveled.Value} :
      function.Mirrors vocabulary scope function' → domain.Denoted domainValue →
      argument.Mirrors vocabulary scope argument' →
      Neutral.Mirrors vocabulary scope (.app function (.mk domainValue argument))
        (.app function' domain argument')
  | indNat {type : Ty} {target : Neutral} {target' : Simple.Leveled.Neutral}
      {motive baseType base step : Value} {base' step' : Simple.Leveled.Value} :
      target.Mirrors vocabulary scope target' → type.Motive motive → type.Denoted baseType →
      base.Mirrors vocabulary scope base' → step.Mirrors vocabulary scope step' →
      Neutral.Mirrors vocabulary scope
        (.indNat target (.mk .natMotiveType motive) (.mk baseType base)
          (.mk (.natStepType motive) step))
        (.recNat type target' base' step')

inductive Env.Mirrors (vocabulary : Vocabulary) (scope : List Name) :
    Env → List Simple.Leveled.Value → Prop where
  | nil : Env.Mirrors vocabulary scope .nil []
  | cons {tally : Tally} {x : Name} {value : Value} {value' : Simple.Leveled.Value} {outer : Env}
      {outer' : List Simple.Leveled.Value} :
      x ∈ vocabulary.names → value.Mirrors vocabulary scope value' →
      outer.Mirrors vocabulary scope outer' →
      Env.Mirrors vocabulary scope (.cons tally x value outer) (value' :: outer')

end

variable {vocabulary : Vocabulary} {scope : List Name}

/-! ## New variables -/

mutual

theorem Value.Mirrors.weaken {x : Name} (new : x ∉ scope) {value : Value}
    {value' : Simple.Leveled.Value} :
    value.Mirrors vocabulary scope value' → value.Mirrors vocabulary (x :: scope) value'
  | .zero => .zero
  | .add1 predecessor => .add1 (predecessor.weaken new)
  | .closure env known => .closure (env.weaken new) known
  | .neutral denoted blocked => .neutral denoted (blocked.weaken new)

theorem Neutral.Mirrors.weaken {x : Name} (new : x ∉ scope) {neutral : Neutral}
    {neutral' : Simple.Leveled.Neutral} :
    neutral.Mirrors vocabulary scope neutral' → neutral.Mirrors vocabulary (x :: scope) neutral'
  | @Neutral.Mirrors.var _ _ y level place => by
      have mem : y ∈ scope := List.idxOf_lt_length_iff.mp (by omega)
      have other : x ≠ y := fun same => new (same ▸ mem)
      refine .var ?_
      rw [List.idxOf_cons_ne _ other, List.length_cons]
      omega
  | .app function denoted argument => .app (function.weaken new) denoted (argument.weaken new)
  | .indNat target motive denoted base step =>
      .indNat (target.weaken new) motive denoted (base.weaken new) (step.weaken new)

theorem Env.Mirrors.weaken {x : Name} (new : x ∉ scope) {env : Env}
    {env' : List Simple.Leveled.Value} :
    env.Mirrors vocabulary scope env' → env.Mirrors vocabulary (x :: scope) env'
  | .nil => .nil
  | .cons known value outer => .cons known (value.weaken new) (outer.weaken new)

end

theorem Value.Mirrors.ofVar {depth : Nat} (deep : scope.length = depth) (x : Name) {type : Ty}
    {typeValue : Value} (denoted : type.Denoted typeValue) :
    (Value.ofVar typeValue x).Mirrors vocabulary (x :: scope) (.neutral type (.var depth)) := by
  refine .neutral denoted (.var ?_)
  rw [List.idxOf_cons_self, List.length_cons, deep]
  omega

namespace Env.Mirrors

theorem names_subset {env : Env} {env' : List Simple.Leveled.Value}
    (mirrors : env.Mirrors vocabulary scope env') : env.names ⊆ vocabulary.names := by
  induction env' generalizing env with
  | nil =>
      cases mirrors
      exact List.nil_subset _
  | cons head' outer' ih =>
      cases mirrors with
      | cons known _ outerMirrors => exact List.cons_subset.mpr ⟨known, ih outerMirrors⟩

theorem innermost {x : Name} {value' : Simple.Leveled.Value} {env : Env}
    {env' : List Simple.Leveled.Value} (mirrors : env.Mirrors vocabulary scope env')
    (found : env'[env.names.idxOf x]? = some value') :
    ∃ value, env.innermost? x = some value ∧ value.Mirrors vocabulary scope value' := by
  induction env' generalizing env with
  | nil => cases found
  | cons head' outer' ih =>
      cases mirrors with
      | @cons tally y head _ outer _ _ headMirrors outerMirrors =>
          rw [Env.names] at found
          by_cases same : y = x
          · rw [same, List.idxOf_cons_self] at found
            cases found
            exact ⟨head, by rw [Env.innermost?, if_pos same], headMirrors⟩
          · rw [List.idxOf_cons_ne _ same] at found
            obtain ⟨value, valueFound, valueMirrors⟩ := ih outerMirrors found
            exact ⟨value, by rw [Env.innermost?, if_neg same, valueFound], valueMirrors⟩

/-- A name of the program is not hidden by another one. -/
theorem lookup {x : Name} (known : x ∈ vocabulary.names) {value' : Simple.Leveled.Value} {env : Env}
    {env' : List Simple.Leveled.Value} (mirrors : env.Mirrors vocabulary scope env')
    (found : env'[env.names.idxOf x]? = some value') :
    ∃ value, env.lookup? x = some value ∧ value.Mirrors vocabulary scope value' := by
  rw [Env.lookup?_eq_innermost? vocabulary.distinct mirrors.names_subset known]
  exact mirrors.innermost found

end Env.Mirrors

end Dependent

/-! ## Evaluation -/

namespace Simple

open Dependent (Env.EvaluatesTo)

variable {vocabulary : Vocabulary} {scope : List Name}

mutual

theorem Leveled.Evaluates.embedded {env' : List Leveled.Value} {term' : Nameless}
    {value' : Leveled.Value} :
    Leveled.Evaluates env' term' value' → ∀ {env : Dependent.Env} {term : Term},
      env.Mirrors vocabulary scope env' → term.names ⊆ vocabulary.names →
      term.nameless env.names = term' →
      ∃ value, env.EvaluatesTo (term.embed vocabulary.hole) value ∧
        value.Mirrors vocabulary scope value'
  | .bound found, env, term, envMirrors, known, form => by
      obtain ⟨x, rfl, rfl⟩ := Term.eq_var_of_nameless form
      obtain ⟨value, lookup, valueMirrors⟩ :=
        envMirrors.lookup (known List.mem_cons_self) found
      exact ⟨value, .var lookup, valueMirrors⟩
  | .lam, env, term, envMirrors, known, form => by
      obtain ⟨x, body, rfl, rfl⟩ := Term.eq_lam_of_nameless form
      exact ⟨_, .spend (.const _), .closure envMirrors known⟩
  | .app function argument applies, env, term, envMirrors, known, form => by
      obtain ⟨f, a, rfl, functionForm, argumentForm⟩ := Term.eq_app_of_nameless form
      obtain ⟨functionKnown, argumentKnown⟩ := List.append_subset.mp known
      obtain ⟨functionValue, functionRun, functionMirrors⟩ :=
        function.embedded envMirrors functionKnown functionForm
      obtain ⟨argumentValue, argumentRun, argumentMirrors⟩ :=
        argument.embedded envMirrors argumentKnown argumentForm
      obtain ⟨result, run, resultMirrors⟩ := applies.embedded functionMirrors argumentMirrors
      exact ⟨result, .app functionRun argumentRun run, resultMirrors⟩
  | .zero, env, term, envMirrors, known, form => by
      obtain rfl := Term.eq_zero_of_nameless form
      exact ⟨.zero, .spend (.const _), .zero⟩
  | .add1 predecessor, env, term, envMirrors, known, form => by
      obtain ⟨p, rfl, predecessorForm⟩ := Term.eq_add1_of_nameless form
      have predecessorKnown : p.names ⊆ vocabulary.names := known
      obtain ⟨value, run, valueMirrors⟩ :=
        predecessor.embedded envMirrors predecessorKnown predecessorForm
      exact ⟨.add1 value, .add1 run, .add1 valueMirrors⟩
  | @Leveled.Evaluates.recNat _ type _ _ _ _ _ _ _ target base step recurses, env, term, envMirrors,
      known, form => by
      obtain ⟨t, b, s, rfl, targetForm, baseForm, stepForm⟩ := Term.eq_recNat_of_nameless form
      obtain ⟨known, stepKnown⟩ := List.append_subset.mp known
      obtain ⟨targetKnown, baseKnown⟩ := List.append_subset.mp known
      obtain ⟨targetValue, targetRun, targetMirrors⟩ :=
        target.embedded envMirrors targetKnown targetForm
      obtain ⟨baseValue, baseRun, baseMirrors⟩ := base.embedded envMirrors baseKnown baseForm
      obtain ⟨stepValue, stepRun, stepMirrors⟩ := step.embedded envMirrors stepKnown stepForm
      have constant := type.embed_motive vocabulary.hole env
      obtain ⟨result, run, resultMirrors⟩ :=
        recurses.embedded constant baseMirrors stepMirrors targetMirrors
      refine ⟨result, .spend (targetRun.bind (.bind ?_ (baseRun.bind (stepRun.bind run)))),
        resultMirrors⟩
      exact .spend (.const _)
  | .ann expr, env, term, envMirrors, known, form => by
      obtain ⟨e, rfl, exprForm⟩ := Term.eq_ann_of_nameless form
      have exprKnown : e.names ⊆ vocabulary.names := known
      obtain ⟨value, run, valueMirrors⟩ := expr.embedded envMirrors exprKnown exprForm
      exact ⟨value, .spend run, valueMirrors⟩
termination_by structural derivation => derivation

theorem Leveled.Applies.embedded {function' argument' result' : Leveled.Value} :
    Leveled.Applies function' argument' result' → ∀ {function argument : Dependent.Value},
      function.Mirrors vocabulary scope function' → argument.Mirrors vocabulary scope argument' →
      ∃ result, function.AppliesTo argument result ∧ result.Mirrors vocabulary scope result'
  | .closure body, _, argument, .closure envMirrors known, argumentMirrors => by
      obtain ⟨binderKnown, bodyKnown⟩ := List.cons_subset.mp known
      obtain ⟨result, run, resultMirrors⟩ :=
        body.embedded (.cons binderKnown argumentMirrors envMirrors) bodyKnown rfl
      exact ⟨result, (Env.EvaluatesTo.instantiates run).applies, resultMirrors⟩
  | .neutral, _, argument, .neutral denoted blockedMirrors, argumentMirrors => by
      obtain ⟨domainValue, range, rfl, domainDenoted, ranges⟩ := denoted
      obtain ⟨codomainValue, instantiates, codomainDenoted⟩ := ranges argument
      exact ⟨_, .spend (instantiates.bind (.const _)),
        .neutral codomainDenoted (.app blockedMirrors domainDenoted argumentMirrors)⟩
termination_by structural derivation => derivation

theorem Leveled.Recurses.embedded {type : Ty} {base' step' target' result' : Leveled.Value} :
    Leveled.Recurses type base' step' target' result' →
      ∀ {motive base step target : Dependent.Value}, type.Motive motive →
      base.Mirrors vocabulary scope base' → step.Mirrors vocabulary scope step' →
      target.Mirrors vocabulary scope target' →
      ∃ result, Settles
          (fun fuel => (target.indNat fuel motive base step : Outcome Dependent.Stuck _))
          (.done result) ∧
        result.Mirrors vocabulary scope result'
  | .zero, motive, base, step, _, constant, baseMirrors, stepMirrors, .zero =>
      ⟨base, .spend (.const _), baseMirrors⟩
  | .add1 atPredecessor recurses applies, motive, base, step, _, constant, baseMirrors, stepMirrors,
      .add1 predecessorMirrors => by
      obtain ⟨stepValue, stepRun, stepValueMirrors⟩ :=
        atPredecessor.embedded stepMirrors predecessorMirrors
      obtain ⟨almost, almostRun, almostMirrors⟩ :=
        recurses.embedded constant baseMirrors stepMirrors predecessorMirrors
      obtain ⟨result, run, resultMirrors⟩ := applies.embedded stepValueMirrors almostMirrors
      exact ⟨result, .spend (stepRun.bind (almostRun.bind run)), resultMirrors⟩
  | .neutral, motive, base, step, _, constant, baseMirrors, stepMirrors,
      @Dependent.Value.Mirrors.neutral _ _ _ typeValue blocked _ denoted blockedMirrors => by
      cases denoted
      obtain ⟨resultType, resultApplies, resultDenoted⟩ := constant (.neutral .nat blocked)
      obtain ⟨baseType, baseApplies, baseDenoted⟩ := constant .zero
      exact ⟨_, .spend (resultApplies.bind (baseApplies.bind (.const _))),
        .neutral resultDenoted
          (.indNat blockedMirrors constant baseDenoted baseMirrors stepMirrors)⟩
termination_by structural derivation => derivation

end

end Simple

/-! ## Normal forms -/

namespace Dependent

/-- Names at the same place in two lists of binders stand for one variable. -/
theorem BinderPairs.relates_zip {scope scope' : List Name} {x y : Name}
    (lengths : scope'.length = scope.length) (mem : x ∈ scope)
    (places : scope'.idxOf y = scope.idxOf x) :
    BinderPairs.relates (scope.zip scope') x y = true := by
  induction scope generalizing scope' with
  | nil => cases mem
  | cons head outer ih =>
      obtain ⟨head', outer', rfl⟩ := List.exists_cons_of_length_eq_add_one lengths
      rw [List.zip_cons_cons, relates_cons_iff]
      by_cases here : head = x <;> by_cases here' : head' = y
      · exact .inl ⟨here.symm, here'.symm⟩
      · rw [here, List.idxOf_cons_self, List.idxOf_cons_ne _ here'] at places
        cases places
      · rw [here', List.idxOf_cons_self, List.idxOf_cons_ne _ here] at places
        cases places
      · rw [List.idxOf_cons_ne _ here, List.idxOf_cons_ne _ here'] at places
        have inside := (List.mem_cons.mp mem).resolve_left (Ne.symm here)
        have below := ih (Nat.succ.inj lengths) inside (Nat.succ.inj places)
        exact .inr ⟨Ne.symm here, Ne.symm here', below⟩

/-- The term is alpha-equivalent to the translation of every simply typed term with the nameless
form, when their free variables are at the same places. -/
def Term.Spells (hole : Name) (scope : List Name) (term : Term) (form : Simple.Nameless) : Prop :=
  ∀ (scope' : List Name) (normal : Simple.Term), scope'.length = scope.length →
    normal.nameless scope' = form →
    term.alphaEquivUnder (scope.zip scope') (normal.embed hole) = true

namespace Term.Spells

variable {hole : Name} {scope : List Name}

theorem var {x : Name} (mem : x ∈ scope) :
    (Term.var x).Spells hole scope (.bound (scope.idxOf x)) := by
  intro scope' normal lengths form
  obtain ⟨y, rfl, place⟩ := Simple.Term.eq_var_of_nameless form
  exact BinderPairs.relates_zip lengths mem place

theorem lam {x : Name} {body : Term} {body' : Simple.Nameless}
    (spells : body.Spells hole (x :: scope) body') :
    (Term.lam x body).Spells hole scope (.lam body') := by
  intro scope' normal lengths form
  obtain ⟨y, inner, rfl, innerForm⟩ := Simple.Term.eq_lam_of_nameless form
  exact spells (y :: scope') inner (congrArg (· + 1) lengths) innerForm

theorem app {function argument : Term} {function' argument' : Simple.Nameless}
    (functionSpells : function.Spells hole scope function')
    (argumentSpells : argument.Spells hole scope argument') :
    (Term.app function argument).Spells hole scope (.app function' argument') := by
  intro scope' normal lengths form
  obtain ⟨f, a, rfl, functionForm, argumentForm⟩ := Simple.Term.eq_app_of_nameless form
  rw [Simple.Term.embed, alphaEquivUnder, functionSpells scope' f lengths functionForm,
    argumentSpells scope' a lengths argumentForm, Bool.and_true]

theorem zero : Term.zero.Spells hole scope .zero := by
  intro scope' normal _ form
  rw [Simple.Term.eq_zero_of_nameless form]
  rfl

theorem add1 {predecessor : Term} {predecessor' : Simple.Nameless}
    (spells : predecessor.Spells hole scope predecessor') :
    (Term.add1 predecessor).Spells hole scope (.add1 predecessor') := by
  intro scope' normal lengths form
  obtain ⟨p, rfl, predecessorForm⟩ := Simple.Term.eq_add1_of_nameless form
  exact spells scope' p lengths predecessorForm

theorem indNat {type : Ty} {x : Name} {target typeTerm base step : Term}
    {target' base' step' : Simple.Nameless} (targetSpells : target.Spells hole scope target')
    (spelled : type.Spelled typeTerm) (baseSpells : base.Spells hole scope base')
    (stepSpells : step.Spells hole scope step') :
    (Term.indNat target (.lam x typeTerm) base step).Spells hole scope
      (.recNat type target' base' step') := by
  intro scope' normal lengths form
  obtain ⟨t, b, s, rfl, targetForm, baseForm, stepForm⟩ := Simple.Term.eq_recNat_of_nameless form
  have motive : (Term.lam x typeTerm).alphaEquivUnder (scope.zip scope')
      (.lam hole (type.embed hole)) = true := by
    rw [alphaEquivUnder, spelled.alphaEquivUnder (type.embed_spelled hole), decide_eq_true rfl]
  rw [Simple.Term.embed, alphaEquivUnder, targetSpells scope' t lengths targetForm, motive,
    baseSpells scope' b lengths baseForm, stepSpells scope' s lengths stepForm]
  rfl

end Term.Spells

end Dependent

/-! ## Reading back -/

namespace Simple

variable {vocabulary : Vocabulary}

/-- A motive reads back to a constant function to the type that it gives. -/
theorem Ty.Motive.readsBack {type : Ty} {motive : Dependent.Value} (constant : type.Motive motive)
    (ctx : Dependent.Context) :
    ∃ x typeTerm, ctx.ReadsBackTo .natMotiveType motive (.lam x typeTerm) ∧
      type.Spelled typeTerm := by
  let x := ctx.freshFor "k"
  obtain ⟨inner, assumed, -, -⟩ := ctx.assume_settles x .nat
  obtain ⟨typeValue, applies, denoted⟩ := constant (.ofVar .nat x)
  obtain ⟨typeTerm, reads, spelled⟩ := denoted.readsBack inner
  have univ : (Dependent.Closure.mk .nil "k" .univ).InstantiatesTo (.ofVar .nat x) .univ :=
    Dependent.Env.EvaluatesTo.instantiates (.spend (.const _))
  refine ⟨x, typeTerm, .spend (assumed.bind (univ.bind ?_)), spelled⟩
  exact applies.bind (reads.univ.bind (.const _))

theorem readsBackNormal {ctx : Dependent.Context} {type value : Dependent.Value}
    {term : Dependent.Term} (reads : ctx.ReadsBackTo type value term) :
    Settles (fun fuel => (ctx.readBackNormal fuel (.mk type value) : Outcome Dependent.Stuck _))
      (.done term) :=
  .spend reads

mutual

theorem Leveled.ReadsBack.embedded {depth : Nat} {type : Ty} {value' : Leveled.Value}
    {form : Nameless} :
    Leveled.ReadsBack depth type value' form → ∀ {scope : List Name} {ctx : Dependent.Context}
      {typeValue value : Dependent.Value}, scope.length = depth → scope ⊆ ctx.names →
      type.Denoted typeValue → value.Mirrors vocabulary scope value' →
      ∃ term, ctx.ReadsBackTo typeValue value term ∧ term.Spells vocabulary.hole scope form
  | .zero, scope, ctx, _, _, deep, inside, rfl, .zero => ⟨.zero, .spend (.const _), .zero⟩
  | .add1 predecessor, scope, ctx, _, _, deep, inside, rfl, .add1 predecessorMirrors => by
      obtain ⟨term, reads, spells⟩ := predecessor.embedded deep inside rfl predecessorMirrors
      exact ⟨.add1 term, .spend (reads.bind (.const _)), .add1 spells⟩
  | .neutral blocked, scope, ctx, _, _, deep, inside, rfl, .neutral _ blockedMirrors => by
      obtain ⟨term, reads, spells⟩ := blocked.embedded deep inside blockedMirrors
      exact ⟨term, .spend reads, spells⟩
  | .function applies body, scope, ctx, _, function, deep, inside,
      ⟨domainValue, range, rfl, domainDenoted, ranges⟩, functionMirrors => by
      let x := ctx.freshFor range.binder
      have new : x ∉ scope := fun mem => ctx.freshFor_not_mem _ (inside mem)
      obtain ⟨inner, assumed, entries, -⟩ := ctx.assume_settles x domainValue
      obtain ⟨codomainValue, instantiates, codomainDenoted⟩ := ranges (.ofVar domainValue x)
      obtain ⟨result, applyRun, resultMirrors⟩ := applies.embedded (functionMirrors.weaken new)
        (.ofVar deep x domainDenoted)
      have innerInside : x :: scope ⊆ inner.names :=
        List.Subset.trans (List.cons_subset_cons x inside) (Dependent.Context.names_cons entries)
      obtain ⟨term, reads, spells⟩ :=
        body.embedded (congrArg (· + 1) deep) innerInside codomainDenoted resultMirrors
      refine ⟨.lam x term, .spend (assumed.bind ?_), .lam spells⟩
      exact instantiates.bind (applyRun.bind (reads.bind (.const _)))
termination_by structural derivation => derivation

theorem Leveled.NeutralReadsBack.embedded {depth : Nat} {neutral' : Leveled.Neutral}
    {form : Nameless} :
    Leveled.NeutralReadsBack depth neutral' form → ∀ {scope : List Name} {ctx : Dependent.Context}
      {neutral : Dependent.Neutral}, scope.length = depth → scope ⊆ ctx.names →
      neutral.Mirrors vocabulary scope neutral' →
      ∃ term, Settles
          (fun fuel => (ctx.readBackNeutral fuel neutral : Outcome Dependent.Stuck _))
          (.done term) ∧
        term.Spells vocabulary.hole scope form
  | .var, scope, ctx, _, deep, inside, @Dependent.Neutral.Mirrors.var _ _ x level place => by
      have mem : x ∈ scope := List.idxOf_lt_length_iff.mp (by omega)
      have index : depth - (level + 1) = scope.idxOf x := by omega
      exact ⟨.var x, .spend (.const _), index ▸ .var mem⟩
  | .app function argument, scope, ctx, _, deep, inside,
      .app functionMirrors denoted argumentMirrors => by
      obtain ⟨functionTerm, functionReads, functionSpells⟩ :=
        function.embedded deep inside functionMirrors
      obtain ⟨argumentTerm, argumentReads, argumentSpells⟩ :=
        argument.embedded deep inside denoted argumentMirrors
      refine ⟨.app functionTerm argumentTerm, .spend ?_, .app functionSpells argumentSpells⟩
      exact functionReads.bind ((readsBackNormal argumentReads).bind (.const _))
  | .recNat target base step, scope, ctx, _, deep, inside,
      .indNat targetMirrors constant baseDenoted baseMirrors stepMirrors => by
      obtain ⟨targetTerm, targetReads, targetSpells⟩ := target.embedded deep inside targetMirrors
      obtain ⟨x, typeTerm, motiveReads, spelled⟩ := constant.readsBack ctx
      obtain ⟨baseTerm, baseReads, baseSpells⟩ :=
        base.embedded deep inside baseDenoted baseMirrors
      obtain ⟨stepTerm, stepReads, stepSpells⟩ :=
        step.embedded deep inside constant.natStepType_denoted stepMirrors
      refine ⟨.indNat targetTerm (.lam x typeTerm) baseTerm stepTerm, .spend ?_,
        .indNat targetSpells spelled baseSpells stepSpells⟩
      exact targetReads.bind ((readsBackNormal motiveReads).bind
        ((readsBackNormal baseReads).bind ((readsBackNormal stepReads).bind (.const _))))
termination_by structural derivation => derivation

end

end Simple

end LambdaCalculi
