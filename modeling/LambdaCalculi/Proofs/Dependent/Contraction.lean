import LambdaCalculi.Proofs.Dependent.UnchangedContexts

/-!
# A call has the normal form of its contractum

A function that is called on the spot binds its variable to the value of the argument. Putting the
argument itself in place of the variable gives another term, whose evaluation computes the argument
once for each time it is met, in whatever environment it is met, or not at all. Both terms have the
same normal form, checked or not, in every context that was built, at every type that was obtained
in it. The values of such a context correspond to themselves with nothing put in, since they are
computed in environments that do.
-/

set_option autoImplicit false

namespace LambdaCalculi.Dependent

open Outcome

/-! ## Calls -/

namespace Context

variable {names : BinderPairs} {ctx : Context}

/-- The type of an entry, the value of a term in the context or in one before it, or the type that is
found for a term. -/
inductive Obtains (known : List Name) (earlier : List Context) (ctx : Context) : Value → Prop where
  | declared {entry : Entry} (mem : entry ∈ ctx.entries) :
      Obtains known earlier ctx entry.binding.type
  | evaluated {source : Context} {term : Term} {fuel : Nat} {type : Value}
      (passed : source ∈ ctx :: earlier) (termKnown : term.names ⊆ known)
      (run : (source.eval fuel term : Outcome Stuck Value) = .done type) :
      Obtains known earlier ctx type
  | synthesized {term : Term} {fuel : Nat} {type : Value} (termKnown : term.names ⊆ known)
      (run : (ctx.synth fuel term : Checking Value).outcome = .done type) :
      Obtains known earlier ctx type

theorem Obtains.unchanged {known : List Name} {earlier : List Context} {type : Value}
    (obtained : ctx.Obtains known earlier type) (distinct : DistinctFingerprints known)
    (since : ctx.UnchangedSince known earlier names) : type.Substituted names type := by
  cases obtained with
  | declared mem => exact since.types _ mem
  | evaluated passed termKnown run => exact since.eval distinct passed termKnown run
  | synthesized termKnown run => exact since.synth distinct termKnown run

end Context

/-- What a call on the spot comes to: the argument is evaluated, then the body with it. -/
theorem Env.eval_call_eq_done {env : Env} {x : Name} {body argument : Term} {fuel : Nat} {value : Value}
    (run : (env.eval fuel (.app (.lam x body) argument) : Outcome Stuck Value) = .done value) :
    ∃ argumentFuel argumentValue bodyFuel,
      (env.eval argumentFuel argument : Outcome Stuck Value) = .done argumentValue ∧
      ((env.extend x argumentValue).eval bodyFuel body : Outcome Stuck Value) = .done value := by
  cases fuel with
  | zero => simp [Env.eval] at run
  | succ fuel =>
      simp only [Env.eval, bind_eq_done_iff] at run
      obtain ⟨functionValue, functionRun, argumentValue, argumentRun, run⟩ := run
      cases fuel with
      | zero => simp [Env.eval] at argumentRun
      | succ fuel =>
          simp only [Env.eval] at functionRun
          cases functionRun
          cases fuel with
          | zero => simp [Value.apply, Closure.instantiate] at run
          | succ fuel => exact ⟨_, argumentValue, fuel, argumentRun, run⟩

/-- Binding a variable to the value of a term and putting the term in its place correspond. -/
theorem Env.Unchanged.single {names : BinderPairs} {env : Env} (unchanged : env.Unchanged names)
    (x : Name) {argument : Term} {fuel : Nat} {value : Value}
    (run : (env.eval fuel argument : Outcome Stuck Value) = .done value) (needed : List Name) :
    (env.extend x value).Substituted names (.single x argument) needed env := by
  refine ⟨fun {y other inner} meets => ?_⟩
  obtain ⟨_, found, agrees, clear⟩ := meets
  rw [Env.innermost?_extend] at found
  rw [Substitution.single] at agrees clear ⊢
  by_cases same : y = x
  · rw [if_pos same] at agrees clear ⊢
    rw [if_pos same.symm] at found
    cases found
    exact unchanged.eval agrees clear run
  · rw [if_neg same] at agrees clear ⊢
    rw [if_neg (Ne.symm same)] at found
    have here := agrees y (List.mem_singleton_self y)
    exact ⟨other, .var (clear.lookup?.trans (here.trans found)), unchanged y other found⟩

/-- Where a call on the spot has a normal form, the body with the argument put in place of the variable
has the same one, up to the names of bound variables. The context and the type come from evaluation and
checking; the function and its argument need not be accepted. -/
theorem Context.Built.readBack_contracted {known : List Name} {earlier : List Context} {ctx : Context}
    (distinct : DistinctFingerprints known) (built : Context.Built known earlier ctx) {x : Name}
    {body argument : Term} (contractedKnown : (body.substitute (.single x argument)).names ⊆ known)
    {type : Value} (obtained : ctx.Obtains known earlier type) {valueFuel fuel : Nat} {value : Value}
    {normal : Term}
    (valueRun : (ctx.eval valueFuel (.app (.lam x body) argument) : Outcome Stuck Value) = .done value)
    (run : (ctx.readBack fuel type value : Outcome Stuck Term) = .done normal) :
    ∃ value' normal', ctx.env.EvaluatesTo (body.substitute (.single x argument)) value' ∧
      ctx.ReadsBackTo type value' normal' ∧ normal.alphaEquiv normal' = true := by
  have since := built.unchangedSince distinct fun y mem => ctx.ownNames_links mem
  obtain ⟨envUnchanged, _⟩ := since.envs ctx List.mem_cons_self
  obtain ⟨_, argumentValue, bodyFuel, argumentRun, bodyRun⟩ := Env.eval_call_eq_done valueRun
  have substituted := envUnchanged.single x argumentRun body.free
  have clear := since.clear distinct List.mem_cons_self contractedKnown
  obtain ⟨value', evaluates, valueSubstituted⟩ :=
    Env.SubstitutedAt.eval bodyFuel ⟨substituted, clear⟩ value bodyRun
  obtain ⟨normal', readsBack, renamed⟩ := Context.readBack_substituted fuel ctx.ownNames_takenIn
    (obtained.unchanged distinct since) valueSubstituted normal run
  exact ⟨value', normal', evaluates, readsBack, renamed.alphaEquiv ctx.ownNames_diagonal⟩

/-! ## A call that would capture its argument -/

def Context.number : Context :=
  empty.adding "y" (.assumed .nat "y")

theorem Context.number_built : Built ["y", "y'", "z"] [empty] number := by
  have natRun : (empty.eval 1 .nat : Outcome Stuck Value) = .done .nat := rfl
  have assumed : (empty.assume "y" .nat : Outcome Stuck Context) = .done number := by decide +kernel
  exact .assume .empty (by decide) List.mem_cons_self (List.nil_subset _) trivial natRun assumed

/-- Pairs `x` with an argument that is called like the variable of the context. -/
def pairWith : Term :=
  .lam "y" (.cons (.var "x") (.var "y"))

theorem pairWith_readBack_contracted :
    let known := ["y", "y'", "z"]
    let typeTerm : Term := .pi "y" .nat (.sigma "z" .nat .nat)
    let type : Value := .pi .nat (.mk Context.number.env "y" (.sigma "z" .nat .nat))
    let value : Value := .lam (.mk (Context.number.env.extend "x" (.ofVar .nat "y")) "y"
      (.cons (.var "x") (.var "y")))
    let normal : Term := .lam "y'" (.cons (.var "y") (.var "y'"))
    let contracted : Term := pairWith.substitute (.single "x" (.var "y"))
    contracted = .lam "y'" (.cons (.var "y") (.var "y'")) ∧
      DistinctFingerprints known ∧ Context.Built known [.empty] Context.number ∧
      (Context.number.eval 3 typeTerm : Outcome Stuck Value) = .done type ∧
      (Context.number.eval 4 (.app (.lam "x" pairWith) (.var "y")) : Outcome Stuck Value) =
        .done value ∧
      (Context.number.readBack 9 type value : Outcome Stuck Term) = .done normal ∧
      ∃ value' normal', Context.number.env.EvaluatesTo contracted value' ∧
        Context.number.ReadsBackTo type value' normal' ∧ normal.alphaEquiv normal' = true := by
  intro known typeTerm type value normal contracted
  have distinct : DistinctFingerprints known := by decide +kernel
  have typeRun : (Context.number.eval 3 typeTerm : Outcome Stuck Value) = .done type := by
    decide +kernel
  have valueRun : (Context.number.eval 4 (.app (.lam "x" pairWith) (.var "y")) :
      Outcome Stuck Value) = .done value := by decide +kernel
  have run : (Context.number.readBack 9 type value : Outcome Stuck Term) = .done normal := by
    decide +kernel
  exact ⟨by decide, distinct, Context.number_built, typeRun, valueRun, run,
    Context.number_built.readBack_contracted distinct (by decide)
      (.evaluated List.mem_cons_self (by decide) typeRun) valueRun run⟩

end LambdaCalculi.Dependent
