import LambdaCalculi.Proofs.Untyped.LexicalScoping
import LambdaCalculi.Proofs.Untyped.Settling

/-!
# Normal forms are stable to the name

Reading back picks for every binder a name that is neither in use nor bound around it. So a normal
form that is normalised again makes a closure for each of its functions, the closure suggests the name
of the binder, and the name is new where it is read back: the normal form comes out as it went in.
Definitions in front change nothing, as the binders avoid their names and no variable is free.
-/

set_option autoImplicit false

namespace LambdaCalculi.Untyped

open Outcome

/-! ## Binders -/

def Term.BindersAvoid (taken : List Name) : Term → Prop
  | var _ => True
  | lam x body => x ∉ taken ∧ body.BindersAvoid (x :: taken)
  | app function argument => function.BindersAvoid taken ∧ argument.BindersAvoid taken

structure ReadBackAvoids (fuel : Nat) : Prop where
  value : ∀ (used : List Name) (value : Value),
    Safe (fun _ => True) (Term.BindersAvoid used) (value.readBack fuel used)
  neutral : ∀ (used : List Name) (blocked : Neutral),
    Safe (fun _ => True) (Term.BindersAvoid used) (blocked.readBack fuel used)

theorem readBackAvoids (fuel : Nat) : ReadBackAvoids fuel := by
  induction fuel with
  | zero =>
      refine ⟨?_, ?_⟩
      · intro used value
        rw [Value.readBack]
        exact True.intro
      · intro used blocked
        rw [Neutral.readBack]
        exact True.intro
  | succ fuel ih =>
      refine ⟨?_, ?_⟩
      · intro used value
        cases value with
        | closure env x body =>
            simp only [Value.readBack]
            -- Applying the function may fail, and says nothing about the binders.
            cases (Value.closure env x body).apply fuel (.ofVar (Name.fresh used x)) with
            | done bodyValue =>
                exact (ih.value (Name.fresh used x :: used) bodyValue).bind
                  fun _ avoids => ⟨Name.fresh_not_mem used x, avoids⟩
            | _ => exact True.intro
        | neutral blocked =>
            simp only [Value.readBack]
            exact ih.neutral used blocked
      · intro used blocked
        cases blocked with
        | var x => exact True.intro
        | app function argument =>
            simp only [Neutral.readBack]
            refine (ih.neutral used function).bind fun _ functionAvoids => ?_
            exact (ih.value used argument).bind fun _ argumentAvoids =>
              ⟨functionAvoids, argumentAvoids⟩

/-! ## Normal terms -/

def Env.Spells (env : Env) (scope : List Name) : Prop :=
  ∀ x ∈ scope, env.lookup? x = some (.ofVar x)

theorem Env.Spells.extend {env : Env} {scope : List Name} (spells : env.Spells scope) (x : Name) :
    (env.extend x (.ofVar x)).Spells (x :: scope) := by
  intro y mem
  by_cases same : x = y
  · subst same
    exact if_pos rfl
  · exact (if_neg same).trans (spells y (List.mem_of_ne_of_mem (Ne.symm same) mem))

/-- The term has a value that is read back to the term, and the value is blocked unless the term is a
function. -/
inductive Term.Regained (env : Env) (used : List Name) (term : Term) : Prop where
  | function {value : Value} (isFunction : term.isFunction = true)
      (evaluates : env.EvaluatesTo term value) (reads : value.ReadsBackTo used term)
  | blocked {blocked : Neutral} (evaluates : env.EvaluatesTo term (.neutral blocked))
      (reads : blocked.ReadsBackTo used term)

namespace Term.Regained

variable {env : Env} {used : List Name}

theorem value {term : Term} (regained : term.Regained env used) :
    ∃ value, env.EvaluatesTo term value ∧ value.ReadsBackTo used term := by
  cases regained with
  | function _ evaluates reads => exact ⟨_, evaluates, reads⟩
  | blocked evaluates reads => exact ⟨_, evaluates, .neutral reads⟩

/-- The closure suggests the name of the binder, which is not in use here. -/
theorem lam {x : Name} {body : Term} (new : x ∉ used)
    (bodyRegained : body.Regained (env.extend x (.ofVar x)) (x :: used)) :
    (Term.lam x body).Regained env used := by
  obtain ⟨value, evaluates, reads⟩ := bodyRegained.value
  exact .function rfl (.lam env x body) (.closure new evaluates reads)

theorem app {function argument : Term} (noRedex : function.isFunction = false)
    (functionRegained : function.Regained env used)
    (argumentRegained : argument.Regained env used) :
    (Term.app function argument).Regained env used := by
  obtain ⟨value, argumentEvaluates, argumentReads⟩ := argumentRegained.value
  cases functionRegained with
  | function isFunction _ _ => exact absurd (noRedex.symm.trans isFunction) (by simp)
  | blocked functionEvaluates functionReads =>
      exact .blocked (.app functionEvaluates argumentEvaluates (.neutral _ value))
        (.app functionReads argumentReads)

end Term.Regained

/-- A normal term whose binders avoid the names in use is regained from its value. -/
theorem Term.Normal.regained {term : Term} (normal : term.Normal) {env : Env}
    {scope used : List Name} (spells : env.Spells scope)
    (inScope : term.ScopedBut (fun _ => False) scope) (avoids : term.BindersAvoid used) :
    term.Regained env used := by
  induction term generalizing env scope used with
  | var x =>
      have bound := (inScope x (List.mem_singleton_self x)).resolve_right id
      exact .blocked (.var (spells x bound)) (.var x used)
  | lam x body ih =>
      -- Below the binder, its name is in scope and in use, and has itself for its value.
      exact .lam avoids.1 (ih normal (spells.extend x) inScope.enter avoids.2)
  | app function argument functionIH argumentIH =>
      obtain ⟨noRedex, functionNormal, argumentNormal⟩ := normal
      have functionRegained := functionIH functionNormal spells inScope.parts.1 avoids.1
      have argumentRegained := argumentIH argumentNormal spells inScope.parts.2 avoids.2
      exact .app noRedex functionRegained argumentRegained

/-! ## Programs -/

namespace Program

theorem standsFor_env {fuel : Nat} {definitions : List Definition} {env : Env}
    (defined : Program.env fuel definitions = .done env) :
    ∃ substitution, env.StandsFor [] substitution := by
  have kept : Safe (fun _ => True)
      (fun env : Env => ∃ substitution, env.StandsFor [] substitution)
      (Program.env fuel definitions) := by
    refine Safe.foldlM ?_ definitions ⟨Nameless.bound, .nil _⟩
    rintro env definition ⟨substitution, standsFor⟩
    cases evaluated : env.eval fuel definition.term with
    | done value =>
        obtain ⟨result, valueStandsFor, _⟩ := (evaluates fuel).eval standsFor evaluated
        exact ⟨_, .cons definition.name valueStandsFor standsFor⟩
    | _ => exact True.intro
  exact kept.of_done defined

/-- What a program runs to is closed and without redexes, and its binders avoid the names of the
definitions. -/
theorem normal_of_run {fuel : Nat} {program : Program} {normal : Term}
    (ran : program.run fuel = .done normal) :
    normal.Closed ∧ normal.Normal ∧
      normal.BindersAvoid (program.definitions.map Definition.name) := by
  simp only [run, bind_eq_done_iff] at ran
  obtain ⟨env, defined, value, evaluated, read⟩ := ran
  obtain ⟨substitution, standsFor⟩ := standsFor_env defined
  obtain ⟨result, valueStandsFor, _⟩ := (evaluates fuel).eval standsFor evaluated
  have form := (readsBack fuel).value valueStandsFor (List.nil_subset _) read
  exact ⟨form.closed, form.noRedex, ((readBackAvoids fuel).value _ value).of_done read⟩

/-- What a program runs to, it runs to in place of the body too. -/
theorem run_settles_of_run {fuel : Nat} {program : Program} {normal : Term}
    (ran : program.run fuel = .done normal) :
    Settles (fun more => run more ⟨program.definitions, normal⟩) (.done normal) := by
  obtain ⟨closed, noRedex, avoids⟩ := normal_of_run ran
  simp only [run, bind_eq_done_iff] at ran
  obtain ⟨env, defined, _⟩ := ran
  have steady := fun fuel => Env.defineAll_below fuel program.definitions .nil
  -- No variable is free, so nothing has to be known of the environment of the definitions.
  have spells : env.Spells [] := fun x mem => absurd mem List.not_mem_nil
  have inScope : normal.ScopedBut (fun _ => False) [] := fun x mem => .inl (closed ▸ mem)
  obtain ⟨value, evaluates, reads⟩ := (noRedex.regained spells inScope avoids).value
  exact (Settles.of_done steady defined).bind (evaluates.bind reads)

end Program

/-- What a term normalises to is closed, none of its binders shadows one around it, and it normalises
to itself, names included. No binder of what a program runs to has the name of a definition, and after
the same definitions it runs to itself, names included. -/
theorem normal_forms_stable :
    (∀ (term normal : Term) (fuel : Nat), term.normalize fuel = .done normal →
      normal.Closed ∧ normal.BindersAvoid [] ∧
        Settles (fun more => normal.normalize more) (.done normal)) ∧
    (∀ (program : Program) (normal : Term) (fuel : Nat), program.run fuel = .done normal →
      normal.BindersAvoid (program.definitions.map Definition.name) ∧
        Settles (fun more => Program.run more ⟨program.definitions, normal⟩) (.done normal)) := by
  refine ⟨?_, ?_⟩
  · intro term normal fuel ran
    -- A term is the body of a program without definitions.
    have alone : Program.run fuel ⟨[], term⟩ = .done normal := ran
    obtain ⟨closed, _, avoids⟩ := Program.normal_of_run alone
    exact ⟨closed, avoids, Program.run_settles_of_run alone⟩
  · intro program normal fuel ran
    obtain ⟨_, _, avoids⟩ := Program.normal_of_run ran
    exact ⟨avoids, Program.run_settles_of_run ran⟩

/-- Three binders of one name. The second comes out below the first, and the third in an argument of
the first. -/
def threefold : Term :=
  .lam "x" (.app
    (.lam "y" (.lam "x" (.app (.var "y") (.lam "x" (.app (.var "x") (.var "y"))))))
    (.var "x"))

/-- The names that are found for the binders are kept, with and without a definition of the first. -/
theorem threefold_normal_forms_stable :
    let program : Program := ⟨[⟨"x", .lam "a" (.var "a")⟩], threefold⟩
    let normal : Term :=
      .lam "x" (.lam "x'" (.app (.var "x") (.lam "x''" (.app (.var "x''") (.var "x")))))
    let result : Term :=
      .lam "x'" (.lam "x''" (.app (.var "x'") (.lam "x'''" (.app (.var "x'''") (.var "x'")))))
    (threefold.normalize 9 = .done normal ∧ normal.Closed ∧ normal.BindersAvoid [] ∧
        Settles (fun more => normal.normalize more) (.done normal)) ∧
      (program.run 9 = .done result ∧ result.BindersAvoid ["x"] ∧
        Settles (fun more => Program.run more ⟨program.definitions, result⟩) (.done result)) := by
  intro program normal result
  have normalized : threefold.normalize 9 = .done normal := by
    decide +kernel
  have ran : program.run 9 = .done result := by
    decide +kernel
  exact ⟨⟨normalized, normal_forms_stable.1 threefold normal 9 normalized⟩,
    ⟨ran, normal_forms_stable.2 program result 9 ran⟩⟩

end LambdaCalculi.Untyped
