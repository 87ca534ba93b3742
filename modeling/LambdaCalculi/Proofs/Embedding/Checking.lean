import LambdaCalculi.Proofs.Embedding.Values
import LambdaCalculi.Proofs.Simple.Acceptance
import LambdaCalculi.Proofs.Simple.Agreement

/-!
# The two checkers agree on translated terms

A context of the dependent calculus mirrors a simply typed one when it has the same names, types
that denote the simple types and an environment of mirroring values. In such a context the dependent
checker follows the simple one: it accepts the translation of an accepted term and faults on the
translation of a rejected one.
-/

set_option autoImplicit false

namespace LambdaCalculi

open Outcome
open Simple (Ty)

namespace Dependent

/-! ## Contexts -/

/-- The context has the names and the types of the simple one, and values that mirror the leveled
ones, which agree with themselves. -/
structure Context.Mirrors (vocabulary : Vocabulary) (scope : List Name) (ctx : Context)
    (simple : Simple.Context) (values : List Simple.Leveled.Value) : Prop where
  entries : List.Forall₂
    (fun entry assumption => entry.name = assumption.1 ∧ assumption.2.Denoted entry.binding.type)
    ctx.entries simple
  names : ctx.env.names = simple.names
  env : ctx.env.Mirrors vocabulary scope values
  agree : Simple.Leveled.EnvAgree simple.types values values
  inside : scope ⊆ ctx.names

namespace Context.Mirrors

theorem empty (vocabulary : Vocabulary) : Context.empty.Mirrors vocabulary [] [] [] where
  entries := .nil
  names := rfl
  env := .nil
  agree := Simple.Leveled.EnvAgree.nil
  inside := List.nil_subset _

variable {vocabulary : Vocabulary} {scope : List Name} {ctx inner : Context}
  {simple : Simple.Context} {values : List Simple.Leveled.Value}

/-- A name is bound in both contexts, to types that match, or in neither. -/
theorem lookup (mirrors : ctx.Mirrors vocabulary scope simple values) (x : Name) :
    (simple.lookup x = none ∧ ctx.binding? x = none) ∨
      ∃ type binding, simple.lookup x = some type ∧ ctx.binding? x = some binding ∧
        type.Denoted binding.type := by
  have related := mirrors.entries
  rw [Context.binding?]
  generalize ctx.entries = entries at related
  clear mirrors
  induction related with
  | nil => exact .inl ⟨rfl, rfl⟩
  | @cons entry assumption _ _ head _ ih =>
      obtain ⟨y, type⟩ := assumption
      obtain ⟨same, denoted⟩ := head
      simp only at same denoted
      by_cases here : x = y
      · refine .inr ⟨type, entry.binding, ?_, ?_, denoted⟩
        · rw [here, List.lookup_cons_self]
        · rw [List.find?_cons_of_pos (by simp [same, here]), Option.map_some]
      · rw [List.lookup_cons, beq_false_of_ne here,
          List.find?_cons_of_neg (by simp [same, Ne.symm here])]
        exact ih

theorem assume (mirrors : ctx.Mirrors vocabulary scope simple values) {x : Name}
    (known : x ∈ vocabulary.names) {type : Ty} {typeValue : Value}
    (denoted : type.Denoted typeValue)
    (entries : inner.entries = ⟨x, .assumed typeValue (ctx.freshFor x)⟩ :: ctx.entries)
    (env : inner.env = ctx.env.extend x (.ofVar typeValue (ctx.freshFor x))) :
    inner.Mirrors vocabulary (ctx.freshFor x :: scope) ((x, type) :: simple)
      (.neutral type (.var scope.length) :: values) where
  entries := by
    rw [entries]
    exact .cons ⟨rfl, denoted⟩ mirrors.entries
  names := by
    rw [env, Env.names_extend, mirrors.names]
    rfl
  env := by
    have new : ctx.freshFor x ∉ scope := fun mem => ctx.freshFor_not_mem x (mirrors.inside mem)
    rw [env]
    exact .cons known (.ofVar rfl _ denoted) (mirrors.env.weaken new)
  agree := mirrors.agree.cons (.neutral (.var _))
  inside := by
    have outer : ctx.names ⊆ inner.names :=
      List.Subset.trans (List.subset_cons_self _ _) (names_cons entries)
    exact List.cons_subset.mpr
      ⟨freshFor_mem_names entries, List.Subset.trans mirrors.inside outer⟩

/-- A typed term has a value in the leveled semantics, which its translation mirrors. -/
theorem evaluates (mirrors : ctx.Mirrors vocabulary scope simple values) {term : Simple.Term}
    (known : term.names ⊆ vocabulary.names) {type : Ty}
    (typed : Simple.HasType simple.types (term.nameless simple.names) type) :
    ∃ value value', ctx.env.EvaluatesTo (term.embed vocabulary.hole) value ∧
      value.Mirrors vocabulary scope value' ∧
      Simple.Leveled.Evaluates values (term.nameless simple.names) value' ∧
      Simple.Leveled.Value.Agree type value' value' := by
  obtain ⟨value', other, evaluates, _, agree⟩ := typed.evaluateAlike mirrors.agree
  obtain ⟨value, run, valueMirrors⟩ :=
    evaluates.embedded mirrors.env known (congrArg term.nameless mirrors.names)
  exact ⟨value, value', run, valueMirrors, evaluates, agree.self⟩

end Context.Mirrors

/-! ## Verdicts -/

/-- The dependent checker ends as the simple one does: with a related result, or with a fault where
that rejects. -/
def Follows {α β : Type} (relation : α → β → Prop) (verdict : Except Simple.TypeError α)
    (checking : Nat → Checking β) : Prop :=
  match verdict with
  | .ok value => ∃ value', ChecksTo checking (.done value') ∧ relation value value'
  | .error _ => ∃ fault, ChecksTo checking (.failed fault)

namespace Follows

variable {α α' β β' : Type} {relation : α → β → Prop} {relation' : α' → β' → Prop}

theorem ok {value : α} {value' : β} {checking : Nat → Checking β}
    (checks : ChecksTo checking (.done value')) (related : relation value value') :
    Follows relation (.ok value) checking :=
  ⟨value', checks, related⟩

theorem bind {first : Except Simple.TypeError α} {next : α → Except Simple.TypeError α'}
    {checking : Nat → Checking β} {rest : Nat → β → Checking β'}
    (follows : Follows relation first checking)
    (nextFollows : ∀ value value', first = .ok value → relation value value' →
      Follows relation' (next value) fun fuel => rest fuel value') :
    Follows relation' (first >>= next) fun fuel => checking fuel >>= rest fuel := by
  cases first with
  | error error =>
      obtain ⟨fault, fails⟩ := follows
      exact ⟨fault, fails.bind_failed⟩
  | ok value =>
      obtain ⟨value', checks, related⟩ := follows
      have after := nextFollows value value' rfl related
      change Follows relation' (next value) _
      cases verdict : next value with
      | error error =>
          rw [verdict] at after
          obtain ⟨fault, fails⟩ := after
          exact ⟨fault, checks.bind fails⟩
      | ok result =>
          rw [verdict] at after
          obtain ⟨result', finishes, related'⟩ := after
          exact ⟨result', checks.bind finishes, related'⟩

/-- A step of the dependent checker alone. -/
theorem after {verdict : Except Simple.TypeError α'} {checking : Nat → Checking β} {value' : β}
    {rest : Nat → β → Checking β'} (checks : ChecksTo checking (.done value'))
    (follows : Follows relation' verdict fun fuel => rest fuel value') :
    Follows relation' verdict fun fuel => checking fuel >>= rest fuel := by
  cases verdict with
  | error error =>
      obtain ⟨fault, fails⟩ := follows
      exact ⟨fault, checks.bind fails⟩
  | ok value =>
      obtain ⟨value', finishes, related⟩ := follows
      exact ⟨value', checks.bind finishes, related⟩

theorem rule {verdict : Except Simple.TypeError α} {checking : Nat → Checking β} (event : Event)
    (next : Nat → Checking β)
    (unfolds : ∀ fuel, checking (fuel + 1) = Judging.record event >>= fun _ => next fuel)
    (follows : Follows relation verdict next) : Follows relation verdict checking := by
  cases verdict with
  | error error =>
      obtain ⟨fault, fails⟩ := follows
      exact ⟨fault, .rule event next unfolds fails⟩
  | ok value =>
      obtain ⟨value', checks, related⟩ := follows
      exact ⟨value', .rule event next unfolds checks, related⟩

end Follows

variable {vocabulary : Vocabulary} {scope : List Name} {ctx : Context} {simple : Simple.Context}
  {values : List Simple.Leveled.Value}

/-- A value that denotes a simple type is shown in the message for a type of the wrong kind. -/
theorem rejectFormer_fails {α : Type} {type : Ty} {typeValue : Value}
    (denoted : type.Denoted typeValue) (ctx : Context) (want : TypeFormer) :
    ∃ fault, ChecksTo (fun fuel => (ctx.rejectFormer fuel want typeValue : Checking α))
      (.failed fault) := by
  obtain ⟨term, reads, _⟩ := denoted.readsBack ctx
  exact ⟨_, .bind (.compute reads) (.const (Judging.reject _))⟩

/-- Conversion of types compares the simple types. -/
theorem convert_follows {type type' : Ty} {typeValue typeValue' : Value}
    (denoted : type.Denoted typeValue) (denoted' : type'.Denoted typeValue') (ctx : Context)
    (error : Simple.TypeError) :
    Follows (fun _ _ => True) (if type = type' then .ok () else .error error)
      (fun fuel => ctx.convert fuel .univ typeValue typeValue') := by
  obtain ⟨term, reads, spelled⟩ := denoted.readsBack ctx
  obtain ⟨term', reads', spelled'⟩ := denoted'.readsBack ctx
  have decides : term.alphaEquiv term' = decide (type = type') :=
    spelled.alphaEquivUnder spelled' []
  refine .after (.compute reads.univ) (.after (.compute reads'.univ) ?_)
  simp only [decides, decide_eq_true_eq]
  split
  · exact .ok (.done ()) trivial
  · exact ⟨_, .bind (.const (Judging.record _)) (.const (Judging.reject _))⟩

structure Judged (vocabulary : Vocabulary) (term : Simple.Term) : Prop where
  synth : ∀ {scope : List Name} {ctx : Context} {simple : Simple.Context}
    {values : List Simple.Leveled.Value}, ctx.Mirrors vocabulary scope simple values →
    term.names ⊆ vocabulary.names →
    Follows Ty.Denoted (term.synth simple) fun fuel => ctx.synth fuel (term.embed vocabulary.hole)
  check : ∀ {scope : List Name} {ctx : Context} {simple : Simple.Context}
    {values : List Simple.Leveled.Value}, ctx.Mirrors vocabulary scope simple values →
    term.names ⊆ vocabulary.names → ∀ {type : Ty} {typeValue : Value}, type.Denoted typeValue →
    Follows (fun _ _ => True) (term.check simple type) fun fuel =>
      ctx.check fuel (term.embed vocabulary.hole) typeValue

/-- A term that both calculi check by finding its type. -/
theorem Judged.ofSynth {term : Simple.Term}
    (synth : ∀ {scope : List Name} {ctx : Context} {simple : Simple.Context}
      {values : List Simple.Leveled.Value}, ctx.Mirrors vocabulary scope simple values →
      term.names ⊆ vocabulary.names →
      Follows Ty.Denoted (term.synth simple)
        fun fuel => ctx.synth fuel (term.embed vocabulary.hole))
    (checks : ∀ {simple : Simple.Context} {type : Ty}, term.check simple type = do
      let got ← term.synth simple
      if got = type then .ok () else .error (.unexpected type got))
    (unfolds : ∀ (fuel : Nat) (ctx : Context) (type : Value),
      (ctx.check (fuel + 1) (term.embed vocabulary.hole) type : Checking Unit) = do
        Judging.record (.check (term.embed vocabulary.hole))
        let synthesized ← ctx.synth fuel (term.embed vocabulary.hole)
        ctx.convert fuel .univ synthesized type) : Judged vocabulary term := by
  refine ⟨synth, ?_⟩
  intro scope ctx simple values mirrors known type typeValue denoted
  rw [checks]
  refine .rule _ _ (fun fuel => unfolds fuel ctx typeValue) (.bind (synth mirrors known) ?_)
  intro got gotValue _ gotDenoted
  exact convert_follows gotDenoted denoted ctx _

/-- A term whose shape determines its type in neither calculus. -/
theorem synth_rejects {term : Simple.Term}
    (rejected : term.synth simple = .error (.notSynthesizable term))
    (unfolds : ∀ fuel, (ctx.synth (fuel + 1) (term.embed vocabulary.hole) : Checking Value) = do
      Judging.record (.synth (term.embed vocabulary.hole))
      Judging.reject (.notSynthesizable (term.embed vocabulary.hole))) :
    Follows Ty.Denoted (term.synth simple)
      fun fuel => ctx.synth fuel (term.embed vocabulary.hole) := by
  rw [rejected]
  exact .rule _ _ unfolds ⟨_, .const (Judging.reject _)⟩

namespace Judged

theorem var (x : Name) : Judged vocabulary (.var x) := by
  refine .ofSynth ?_ (fun {simple type} => by rw [Simple.Term.check] <;> simp) (fun _ _ _ => rfl)
  intro scope ctx simple values mirrors _
  refine .rule _ (fun _ => ctx.lookupType x) (fun _ => rfl) ?_
  rw [Simple.Term.synth]
  simp only [Context.lookupType, Context.type?]
  rcases mirrors.lookup x with ⟨missing, missing'⟩ | ⟨type, binding, found, found', denoted⟩
  · simp only [missing, missing', Option.map_none]
    exact ⟨_, .const (Judging.reject _)⟩
  · simp only [found, found', Option.map_some]
    exact .ok (.done _) denoted

theorem lam (x : Name) {body : Simple.Term} (ih : Judged vocabulary body) :
    Judged vocabulary (.lam x body) where
  synth _ _ := synth_rejects (by simp [Simple.Term.synth]) fun _ => rfl
  check := by
    intro scope ctx simple values mirrors known type typeValue denoted
    obtain ⟨binderKnown, bodyKnown⟩ := List.cons_subset.mp known
    refine .rule _ _ (fun _ => rfl) ?_
    cases type with
    | nat =>
        obtain ⟨fault, fails⟩ := rejectFormer_fails denoted ctx .pi
        cases denoted
        simp only [Simple.Term.check]
        exact ⟨fault, .bind_failed fails⟩
    | arrow domain codomain =>
        obtain ⟨domainValue, range, rfl, domainDenoted, ranges⟩ := denoted
        obtain ⟨inner, assumed, entries, env⟩ := ctx.assume_settles x domainValue
        obtain ⟨codomainValue, instantiates, codomainDenoted⟩ :=
          ranges (.ofVar domainValue (ctx.freshFor x))
        simp only [Simple.Term.check]
        refine .after (.done _) (.after (.compute assumed) (.after (.compute instantiates) ?_))
        have innerMirrors := mirrors.assume binderKnown domainDenoted entries env
        exact ih.check innerMirrors bodyKnown codomainDenoted

theorem app {function argument : Simple.Term} (functionIH : Judged vocabulary function)
    (argumentIH : Judged vocabulary argument) : Judged vocabulary (.app function argument) := by
  refine .ofSynth ?_ (fun {simple type} => by rw [Simple.Term.check] <;> simp) (fun _ _ _ => rfl)
  intro scope ctx simple values mirrors known
  obtain ⟨functionKnown, argumentKnown⟩ := List.append_subset.mp known
  rw [Simple.Term.synth]
  refine .rule _ _ (fun _ => rfl) (.bind (functionIH.synth mirrors functionKnown) ?_)
  intro functionType functionValue _ denoted
  cases functionType with
  | nat =>
      obtain ⟨fault, fails⟩ := rejectFormer_fails denoted ctx .pi
      cases denoted
      exact ⟨fault, .bind_failed fails⟩
  | arrow domain codomain =>
      obtain ⟨domainValue, range, rfl, domainDenoted, ranges⟩ := denoted
      refine .after (.done _) (.bind (argumentIH.check mirrors argumentKnown domainDenoted) ?_)
      intro _ _ accepted _
      obtain ⟨value, _, evaluates, _⟩ :=
        mirrors.evaluates argumentKnown ((Simple.Term.typed argument).check accepted)
      obtain ⟨codomainValue, instantiates, codomainDenoted⟩ := ranges value
      exact .ok (.bind (.compute evaluates) (.compute instantiates)) codomainDenoted

theorem zero : Judged vocabulary .zero where
  synth _ _ := synth_rejects (by simp [Simple.Term.synth]) fun _ => rfl
  check := by
    intro scope ctx simple values _ _ type typeValue denoted
    refine .rule _ _ (fun _ => rfl) ?_
    cases type with
    | nat =>
        cases denoted
        simp only [Simple.Term.check]
        exact .ok (.done ()) trivial
    | arrow domain codomain =>
        obtain ⟨fault, fails⟩ := rejectFormer_fails denoted ctx .nat
        obtain ⟨domainValue, range, rfl, _⟩ := denoted
        simp only [Simple.Term.check]
        exact ⟨fault, fails⟩

theorem add1 {predecessor : Simple.Term} (ih : Judged vocabulary predecessor) :
    Judged vocabulary (.add1 predecessor) where
  synth _ _ := synth_rejects (by simp [Simple.Term.synth]) fun _ => rfl
  check := by
    intro scope ctx simple values mirrors known type typeValue denoted
    refine .rule _ _ (fun _ => rfl) ?_
    cases type with
    | nat =>
        cases denoted
        simp only [Simple.Term.check]
        exact .after (.done ()) (ih.check mirrors known rfl)
    | arrow domain codomain =>
        obtain ⟨fault, fails⟩ := rejectFormer_fails denoted ctx .nat
        obtain ⟨domainValue, range, rfl, _⟩ := denoted
        simp only [Simple.Term.check]
        exact ⟨fault, .bind_failed fails⟩

theorem embed_motive_checks (hole : Name) (type : Ty) (ctx : Context) :
    ChecksTo (fun fuel => ctx.check fuel (.lam hole (type.embed hole)) .natMotiveType)
      (.done ()) := by
  obtain ⟨inner, assumed, -, -⟩ := ctx.assume_settles hole .nat
  have univ : (Closure.mk .nil "k" .univ).InstantiatesTo (.ofVar .nat (ctx.freshFor hole)) .univ :=
    Env.EvaluatesTo.instantiates (.spend (.const _))
  refine .rule _ _ (fun _ => rfl) (.bind (.done _) (.bind (.compute assumed) ?_))
  exact .bind (.compute univ) (type.embed_checks hole inner)

theorem recNat (type : Ty) {target base step : Simple.Term} (targetIH : Judged vocabulary target)
    (baseIH : Judged vocabulary base) (stepIH : Judged vocabulary step) :
    Judged vocabulary (.recNat type target base step) := by
  refine .ofSynth ?_ (fun {simple type} => by rw [Simple.Term.check] <;> simp) (fun _ _ _ => rfl)
  intro scope ctx simple values mirrors known
  obtain ⟨known, stepKnown⟩ := List.append_subset.mp known
  obtain ⟨targetKnown, baseKnown⟩ := List.append_subset.mp known
  rw [Simple.Term.synth]
  refine .rule _ _ (fun _ => rfl) (.bind (targetIH.synth mirrors targetKnown) ?_)
  intro targetType targetTypeValue accepted denoted
  cases targetType with
  | arrow domain codomain =>
      obtain ⟨fault, fails⟩ := rejectFormer_fails denoted ctx .nat
      obtain ⟨domainValue, range, rfl, _⟩ := denoted
      exact ⟨fault, .bind_failed fails⟩
  | nat =>
      cases denoted
      let motive := Value.lam (.mk ctx.env vocabulary.hole (type.embed vocabulary.hole))
      have motiveEvaluates : ctx.env.EvaluatesTo
          (.lam vocabulary.hole (type.embed vocabulary.hole)) motive := .spend (.const _)
      have constant : type.Motive motive := type.embed_motive vocabulary.hole ctx.env
      obtain ⟨baseType, baseApplies, baseDenoted⟩ := constant .zero
      obtain ⟨targetValue, _, targetEvaluates, _⟩ :=
        mirrors.evaluates targetKnown ((Simple.Term.typed target).synth accepted)
      obtain ⟨resultType, resultApplies, resultDenoted⟩ := constant targetValue
      refine .after (.done ()) (.after (embed_motive_checks vocabulary.hole type ctx) ?_)
      refine .after (.compute motiveEvaluates) (.after (.compute baseApplies) ?_)
      refine .bind (baseIH.check mirrors baseKnown baseDenoted) fun _ _ _ _ => ?_
      refine .bind (stepIH.check mirrors stepKnown constant.natStepType_denoted) fun _ _ _ _ => ?_
      exact .ok (.bind (.compute targetEvaluates) (.compute resultApplies)) resultDenoted

theorem ann {expr : Simple.Term} (type : Ty) (ih : Judged vocabulary expr) :
    Judged vocabulary (.ann expr type) := by
  refine .ofSynth ?_ (fun {simple type} => by rw [Simple.Term.check] <;> simp) (fun _ _ _ => rfl)
  intro scope ctx simple values mirrors known
  obtain ⟨typeValue, evaluates, denoted⟩ := type.embed_evaluates vocabulary.hole ctx.env
  rw [Simple.Term.synth]
  refine .rule _ _ (fun _ => rfl) (.after (type.embed_checks vocabulary.hole ctx) ?_)
  refine .after (.compute evaluates) (.bind (ih.check mirrors known denoted) ?_)
  intro _ _ _ _
  exact .ok (.done _) denoted

end Judged

theorem judged (vocabulary : Vocabulary) (term : Simple.Term) : Judged vocabulary term := by
  induction term with
  | var x => exact .var x
  | lam x body ih => exact .lam x ih
  | app function argument functionIH argumentIH => exact .app functionIH argumentIH
  | zero => exact .zero
  | add1 predecessor ih => exact .add1 ih
  | recNat type target base step targetIH baseIH stepIH =>
      exact .recNat type targetIH baseIH stepIH
  | ann expr type ih => exact .ann type ih

end Dependent

end LambdaCalculi
