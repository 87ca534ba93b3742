import LambdaCalculi.Proofs.Dependent.Bounds
import LambdaCalculi.Proofs.Dependent.ReachableContexts
import LambdaCalculi.Proofs.Dependent.SubstitutedEvaluation

/-!
# A context corresponds to itself

The types and values of a context that was built were computed in contexts before it. With nothing put
in, they correspond to themselves, because the values in the environments they were computed in do.
-/

set_option autoImplicit false

namespace LambdaCalculi.Dependent

open Outcome

/-! ## Values that correspond to themselves -/

/-- The values in the environment correspond to themselves with nothing put in. -/
def Env.Unchanged (names : BinderPairs) (env : Env) : Prop :=
  ∀ x value, env.innermost? x = some value → value.Substituted names value

section Evaluation

variable {names : BinderPairs} {env inner : Env} {term : Term} {value : Value} {fuel : Nat}

theorem Env.Unchanged.bind (unchanged : env.Unchanged names) (x : Name)
    (valueUnchanged : value.Substituted names value) : (env.extend x value).Unchanged names := by
  intro y other found
  rw [Env.innermost?_extend] at found
  split at found
  · cases found
    exact valueUnchanged
  · exact unchanged y other found

/-- A term that has a value has one that corresponds in every environment with the same values for its
free variables. -/
theorem Env.Unchanged.eval (unchanged : env.Unchanged names) (agrees : inner.AgreesOn env term.free)
    (clear : inner.Clear term) (run : (env.eval fuel term : Outcome Stuck Value) = .done value) :
    ∃ value', inner.EvaluatesTo term value' ∧ value.Substituted names value' := by
  have substituted : env.Substituted names .var term.free inner :=
    .ofValues fun x mem other found =>
      ⟨other, (agrees x mem).trans found, unchanged x other found⟩
  have follows := Env.SubstitutedAt.eval fuel ⟨substituted, by rwa [Term.substitute_var]⟩
  rw [Term.substitute_var] at follows
  exact follows value run

theorem Env.Unchanged.self_eval (unchanged : env.Unchanged names) (clear : env.Clear term)
    (run : (env.eval fuel term : Outcome Stuck Value) = .done value) :
    value.Substituted names value := by
  refine Follows.self (fun _ finished => ?_) (fun fuel => Env.eval_below fuel env term) run
  exact unchanged.eval (fun _ _ => rfl) clear finished

theorem Closure.instantiate_unchanged {closure : Closure} {argument : Value}
    (closureUnchanged : closure.Substituted names closure)
    (argumentUnchanged : argument.Substituted names argument)
    (run : (closure.instantiate fuel argument : Outcome Stuck Value) = .done value) :
    value.Substituted names value :=
  Follows.self (closure.instantiate_substituted fuel closureUnchanged argumentUnchanged)
    (fun fuel => Closure.instantiate_below fuel closure argument) run

theorem Value.apply_unchanged {function argument : Value}
    (functionUnchanged : function.Substituted names function)
    (argumentUnchanged : argument.Substituted names argument)
    (run : (function.apply fuel argument : Outcome Stuck Value) = .done value) :
    value.Substituted names value :=
  Follows.self (function.apply_substituted fuel functionUnchanged argumentUnchanged)
    (fun fuel => Value.apply_below fuel function argument) run

theorem Value.car_unchanged {pair : Value} (pairUnchanged : pair.Substituted names pair)
    (run : (pair.car : Outcome Stuck Value) = .done value) : value.Substituted names value := by
  let relation := (Linking.Evaluating.substitution names).correspondence
  have ends : Comparison.follows.Ends relation.values 0 () pair.car fun _ => pair.car :=
    relation.car pairUnchanged
  obtain ⟨value', settled, related⟩ := ends value run
  obtain ⟨_, run'⟩ := settled.exists_eq
  cases run.symm.trans run'
  exact related

end Evaluation

/-! ## Types found by the checker -/

namespace Context

structure Unchanged (names : BinderPairs) (ctx : Context) : Prop where
  types : ∀ entry ∈ ctx.entries, entry.binding.type.Substituted names entry.binding.type
  env : ctx.env.Unchanged names

variable {names : BinderPairs} {ctx : Context}

theorem Unchanged.lookupType (unchanged : ctx.Unchanged names) {x : Name} {type : Value}
    (run : (ctx.lookupType x : Checking Value).outcome = .done type) :
    type.Substituted names type := by
  obtain ⟨binding, found, rfl⟩ := lookupType_eq_done_iff.mp run
  obtain ⟨later, earlier, split, _⟩ := binding?_eq_some_iff.mp found
  exact unchanged.types ⟨x, binding⟩ (by simp [split])

theorem Unchanged.synth (unchanged : ctx.Unchanged names) (fuel : Nat) :
    ∀ {term : Term} {type : Value}, ctx.env.Clear term →
      (ctx.synth fuel term : Checking Value).outcome = .done type →
      type.Substituted names type := by
  induction fuel with
  | zero =>
      intro term type _ run
      simp [Context.synth] at run
  | succ fuel smaller =>
      intro term type clear run
      cases synth_eq_done run with
      | var run => exact unchanged.lookupType run
      | former => exact .univ
      | app functionRun argumentRun run =>
          cases smaller (clear.mono (by simp [Term.names])) functionRun with
          | pi _ rangeUnchanged =>
              have argumentUnchanged :=
                unchanged.env.self_eval (clear.mono (by simp [Term.names])) argumentRun
              exact Closure.instantiate_unchanged rangeUnchanged argumentUnchanged run
      | car run =>
          cases smaller (clear.mono (by simp [Term.names])) run with
          | sigma carUnchanged _ => exact carUnchanged
      | cdr pairRun valueRun firstRun run =>
          have pairUnchanged :=
            unchanged.env.self_eval (clear.mono (by simp [Term.names])) valueRun
          cases smaller (clear.mono (by simp [Term.names])) pairRun with
          | sigma _ cdrUnchanged =>
              exact Closure.instantiate_unchanged cdrUnchanged (Value.car_unchanged pairUnchanged firstRun) run
      | indNat motiveRun targetRun run =>
          have motiveUnchanged :=
            unchanged.env.self_eval (clear.mono (by simp [Term.names])) motiveRun
          have targetUnchanged :=
            unchanged.env.self_eval (clear.mono (by simp [Term.names])) targetRun
          exact Value.apply_unchanged motiveUnchanged targetUnchanged run
      | replace targetRun motiveRun run =>
          have motiveUnchanged :=
            unchanged.env.self_eval (clear.mono (by simp [Term.names])) motiveRun
          cases smaller (clear.mono (by simp [Term.names])) targetRun with
          | equal _ _ rightUnchanged => exact Value.apply_unchanged motiveUnchanged rightUnchanged run
      | indAbsurd run => exact unchanged.env.self_eval (clear.mono (by simp [Term.names])) run
      | the run => exact unchanged.env.self_eval (clear.mono (by simp [Term.names])) run

/-! ## Contexts that were built -/

/-- The types and values of the context correspond to themselves, and so do the values of the contexts
before it, all of which have known names. -/
structure UnchangedSince (known : List Name) (earlier : List Context) (names : BinderPairs)
    (ctx : Context) : Prop where
  types : ∀ entry ∈ ctx.entries, entry.binding.type.Substituted names entry.binding.type
  envs : ∀ source ∈ ctx :: earlier, source.env.Unchanged names ∧ source.env.names ⊆ known

namespace UnchangedSince

variable {known : List Name} {earlier : List Context} {source : Context} {x : Name} {term : Term}
  {fuel : Nat}

theorem empty : Context.empty.UnchangedSince known [] names := by
  have envUnchanged : Context.empty.env.Unchanged names := by
    intro x value found
    cases found
  exact ⟨List.forall_mem_nil _, List.forall_mem_singleton.mpr ⟨envUnchanged, List.nil_subset _⟩⟩

theorem add {binding : Binding} (since : ctx.UnchangedSince known earlier names)
    (nameKnown : x ∈ known) (typeUnchanged : binding.type.Substituted names binding.type)
    (valueUnchanged : binding.value.Substituted names binding.value) :
    (ctx.adding x binding).UnchangedSince known (ctx :: earlier) names := by
  obtain ⟨envUnchanged, envKnown⟩ := since.envs ctx List.mem_cons_self
  refine ⟨List.forall_mem_cons.mpr ⟨typeUnchanged, since.types⟩, ?_⟩
  refine List.forall_mem_cons.mpr ⟨⟨envUnchanged.bind x valueUnchanged, ?_⟩, since.envs⟩
  exact List.cons_subset.mpr ⟨nameKnown, envKnown⟩

theorem clear (since : ctx.UnchangedSince known earlier names) (distinct : DistinctFingerprints known)
    (passed : source ∈ ctx :: earlier) (termKnown : term.names ⊆ known) : source.env.Clear term :=
  distinct.mono (List.append_subset.mpr ⟨(since.envs source passed).2, termKnown⟩)

theorem eval (since : ctx.UnchangedSince known earlier names) (distinct : DistinctFingerprints known)
    (passed : source ∈ ctx :: earlier) (termKnown : term.names ⊆ known) {value : Value}
    (run : (source.eval fuel term : Outcome Stuck Value) = .done value) :
    value.Substituted names value :=
  (since.envs source passed).1.self_eval (since.clear distinct passed termKnown) run

theorem synth (since : ctx.UnchangedSince known earlier names) (distinct : DistinctFingerprints known)
    (termKnown : term.names ⊆ known) {type : Value}
    (run : (ctx.synth fuel term : Checking Value).outcome = .done type) :
    type.Substituted names type := by
  have unchanged : ctx.Unchanged names := ⟨since.types, (since.envs ctx List.mem_cons_self).1⟩
  exact unchanged.synth fuel (since.clear distinct List.mem_cons_self termKnown) run

end UnchangedSince

/-- A context that was built corresponds to itself as soon as each of its variables does. -/
theorem Built.unchangedSince {known : List Name} {earlier : List Context}
    (built : Built known earlier ctx) (distinct : DistinctFingerprints known)
    (links : ∀ y ∈ ctx.names, names.Links y y) : ctx.UnchangedSince known earlier names := by
  induction built with
  | empty => exact .empty
  | @assume _ ctx _ _ x _ _ type _ nameKnown passed termKnown _ typeRun run ih =>
      cases run
      have older : x :: ctx.names ⊆ (ctx.adding x (.assumed type (ctx.freshFor x))).names :=
        names_cons rfl
      have since := ih fun y mem => links y (older (List.mem_cons_of_mem x mem))
      have typeUnchanged := since.eval distinct passed termKnown typeRun
      exact since.add nameKnown typeUnchanged
        (.neutral typeUnchanged (.var (links _ (freshFor_mem_names rfl))))
  | @define _ ctx _ x _ _ _ nameKnown termKnown run ih =>
      obtain ⟨type, value, _, typeRun, valueRun, rfl⟩ := addDefinition_eq_done run
      have older : x :: ctx.names ⊆ (ctx.adding x (.defined type value)).names := names_cons rfl
      have since := ih fun y mem => links y (older (List.mem_cons_of_mem x mem))
      exact since.add nameKnown (since.synth distinct termKnown typeRun)
        (since.eval distinct List.mem_cons_self termKnown valueRun)

/-- The names taken in a context, each as its own partner. -/
def ownNames (ctx : Context) : BinderPairs :=
  ctx.names.map fun y => (y, y)

theorem ownNames_diagonal (ctx : Context) : ctx.ownNames.Diagonal :=
  List.forall_mem_map.mpr fun _ _ => rfl

theorem ownNames_takenIn (ctx : Context) : ctx.ownNames.TakenIn ctx ctx := by
  constructor <;> simp [ownNames, Function.comp_def]

theorem ownNames_links {y : Name} (mem : y ∈ ctx.names) : ctx.ownNames.Links y y :=
  ⟨ctx.ownNames_diagonal.relates y, by simpa [ownNames] using mem, by simpa [ownNames] using mem⟩

end Context

/-- Pairs of a name with itself relate nothing else. -/
theorem Term.Renamed.alphaEquiv {names : BinderPairs} {term term' : Term}
    (renamed : Term.Renamed names term term') (diagonal : names.Diagonal) :
    term.alphaEquiv term' = true := by
  refine alphaEquivUnder (renamed.mono fun x y related => ?_)
  exact beq_iff_eq.mpr (diagonal.eq_of_relates related)

end LambdaCalculi.Dependent
