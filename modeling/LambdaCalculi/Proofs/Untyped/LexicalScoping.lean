import LambdaCalculi.Proofs.Safety
import LambdaCalculi.Proofs.Untyped.Bounds
import LambdaCalculi.Proofs.Untyped.Normalization

/-!
# Variables are bound where they are written

A closure keeps the environment of the place where its function stands, so what it finds there does
not depend on who applies it or when. If a run stops at a variable, the variable is free in a
definition, or in the body, and no definition before has its name; definitions that come later and
binders around an application do not matter.
-/

set_option autoImplicit false

namespace LambdaCalculi.Untyped

open Outcome

/-! ## Values whose closures have their variables -/

/-- The free variables of the term are among the names, but for excused ones. -/
def Term.ScopedBut (excused : Name → Prop) (names : List Name) (term : Term) : Prop :=
  ∀ x ∈ term.free, x ∈ names ∨ excused x

mutual

/-- Every closure in the value captured the free variables of its function, but for excused ones. -/
def Value.ScopedBut (excused : Name → Prop) : Value → Prop
  | .closure env x body => env.ScopedBut excused ∧ (Term.lam x body).ScopedBut excused env.names
  | .neutral blocked => blocked.ScopedBut excused

def Neutral.ScopedBut (excused : Name → Prop) : Neutral → Prop
  | .var _ => True
  | .app function argument => function.ScopedBut excused ∧ argument.ScopedBut excused

def Env.ScopedBut (excused : Name → Prop) : Env → Prop
  | .nil => True
  | .cons _ value outer => value.ScopedBut excused ∧ outer.ScopedBut excused

end

variable {excused : Name → Prop}

theorem Term.ScopedBut.parts {names : List Name} {function argument : Term}
    (inScope : (app function argument).ScopedBut excused names) :
    function.ScopedBut excused names ∧ argument.ScopedBut excused names :=
  ⟨fun x mem => inScope x (List.mem_append_left _ mem),
    fun x mem => inScope x (List.mem_append_right _ mem)⟩

theorem Term.ScopedBut.enter {names : List Name} {x : Name} {body : Term}
    (inScope : (lam x body).ScopedBut excused names) : body.ScopedBut excused (x :: names) := by
  intro y mem
  by_cases same : y = x
  · exact .inl (same ▸ List.mem_cons_self)
  · have free : y ∈ (lam x body).free := List.mem_filter.mpr ⟨mem, bne_iff_ne.mpr same⟩
    exact (inScope y free).imp_left (List.mem_cons_of_mem x)

abbrev EvaluatedBut (excused : Name → Prop) : Outcome UnboundVariable Value → Prop :=
  Safe (fun unbound => excused unbound.name) (Value.ScopedBut excused)

theorem Env.ScopedBut.lookup {x : Name} : ∀ {env : Env}, env.ScopedBut excused →
    x ∈ env.names ∨ excused x → EvaluatedBut excused (.ofOption ⟨x⟩ (env.lookup? x))
  | .nil, _, bound => bound.resolve_left List.not_mem_nil
  | .cons y value outer, inScope, bound => by
      by_cases here : y = x
      · simp only [Env.lookup?, if_pos here]
        exact inScope.1
      · simp only [Env.lookup?, if_neg here]
        exact Env.ScopedBut.lookup inScope.2
          (bound.imp_left (List.mem_of_ne_of_mem (Ne.symm here)))

structure EvaluatesBut (excused : Name → Prop) (fuel : Nat) : Prop where
  eval : ∀ {env : Env} {term : Term}, env.ScopedBut excused → term.ScopedBut excused env.names →
    EvaluatedBut excused (env.eval fuel term)
  apply : ∀ {function argument : Value}, function.ScopedBut excused → argument.ScopedBut excused →
    EvaluatedBut excused (function.apply fuel argument)

theorem evaluatesBut (excused : Name → Prop) (fuel : Nat) : EvaluatesBut excused fuel := by
  induction fuel with
  | zero =>
      refine ⟨?_, ?_⟩
      · intro env term _ _
        rw [Env.eval]
        exact True.intro
      · intro function argument _ _
        rw [Value.apply]
        exact True.intro
  | succ fuel ih =>
      refine ⟨?_, ?_⟩
      · intro env term envScoped inScope
        cases term with
        | var x => exact envScoped.lookup (inScope x (List.mem_singleton_self x))
        | lam x body => exact ⟨envScoped, inScope⟩
        | app function argument =>
            simp only [Env.eval]
            refine (ih.eval envScoped inScope.parts.1).bind fun _ functionScoped => ?_
            refine (ih.eval envScoped inScope.parts.2).bind fun _ argumentScoped => ?_
            exact ih.apply functionScoped argumentScoped
      · intro function argument functionScoped argumentScoped
        cases function with
        | closure env x body =>
            -- What the caller has in scope does not enter: the body runs in the captured environment.
            simp only [Value.apply]
            exact ih.eval ⟨argumentScoped, functionScoped.1⟩ functionScoped.2.enter
        | neutral blocked => exact ⟨functionScoped, argumentScoped⟩

structure ReadsBackBut (excused : Name → Prop) (fuel : Nat) : Prop where
  value : ∀ {used : List Name} {value : Value}, value.ScopedBut excused →
    Safe (fun unbound => excused unbound.name) (fun _ => True) (value.readBack fuel used)
  neutral : ∀ {used : List Name} {blocked : Neutral}, blocked.ScopedBut excused →
    Safe (fun unbound => excused unbound.name) (fun _ => True) (blocked.readBack fuel used)

theorem readsBackBut (excused : Name → Prop) (fuel : Nat) : ReadsBackBut excused fuel := by
  induction fuel with
  | zero =>
      refine ⟨?_, ?_⟩
      · intro used value _
        rw [Value.readBack]
        exact True.intro
      · intro used blocked _
        rw [Neutral.readBack]
        exact True.intro
  | succ fuel ih =>
      refine ⟨?_, ?_⟩
      · intro used value inScope
        cases value with
        | closure env x body =>
            simp only [Value.readBack]
            have variableScoped : (Value.ofVar (Name.fresh used x)).ScopedBut excused := True.intro
            refine ((evaluatesBut excused fuel).apply inScope variableScoped).bind
              fun _ bodyScoped => ?_
            exact (ih.value bodyScoped).bind fun _ _ => True.intro
        | neutral blocked =>
            simp only [Value.readBack]
            exact ih.neutral inScope
      · intro used blocked inScope
        cases blocked with
        | var x => exact True.intro
        | app function argument =>
            simp only [Neutral.readBack]
            refine (ih.neutral inScope.1).bind fun _ _ => ?_
            exact (ih.value inScope.2).bind fun _ _ => True.intro

/-! ## Programs -/

/-- The name is free in one of the definitions, and no definition before that one has it. -/
def Definition.Dangling (definitions : List Definition) (x : Name) : Prop :=
  ∃ place : Fin definitions.length, x ∈ (definitions.get place).term.free ∧
    x ∉ (definitions.take place).map Definition.name

def Program.Dangling (program : Program) (x : Name) : Prop :=
  Definition.Dangling program.definitions x ∨
    x ∈ program.body.free ∧ x ∉ program.definitions.map Definition.name

/-- The free variables of each definition are names of definitions before it, and those of the body
are names of definitions. -/
structure Program.WellScoped (program : Program) : Prop where
  definitions : ∀ place : Fin program.definitions.length,
    (program.definitions.get place).term.free ⊆
      (program.definitions.take place).map Definition.name
  body : program.body.free ⊆ program.definitions.map Definition.name

theorem Program.WellScoped.not_dangling {program : Program} (inScope : program.WellScoped)
    (x : Name) : ¬ program.Dangling x := by
  rintro (⟨place, free, undefined⟩ | ⟨free, undefined⟩)
  · exact undefined (inScope.definitions place free)
  · exact undefined (inScope.body free)

theorem Definition.dangling_of_split {earlier rest : List Definition} {definition : Definition}
    {x : Name} (free : x ∈ definition.term.free) (undefined : x ∉ earlier.map Definition.name) :
    Dangling (earlier ++ definition :: rest) x := by
  refine ⟨⟨earlier.length, by simp⟩, ?_, ?_⟩
  · simpa using free
  · simpa using undefined

structure Env.Defines (excused : Name → Prop) (env : Env) (definitions : List Definition) :
    Prop where
  inScope : env.ScopedBut excused
  names : ∀ x, x ∈ env.names ↔ x ∈ definitions.map Definition.name

theorem Env.Defines.nil : Env.nil.Defines excused [] :=
  ⟨True.intro, fun _ => Iff.rfl⟩

theorem Env.Defines.extend {env : Env} {earlier : List Definition}
    (defines : env.Defines excused earlier) {value : Value}
    (valueScoped : value.ScopedBut excused) (definition : Definition) :
    (env.extend definition.name value).Defines excused (earlier ++ [definition]) where
  inScope := ⟨valueScoped, defines.inScope⟩
  names := by
    intro x
    rw [Env.names_extend, List.mem_cons, defines.names, List.map_append, List.mem_append, or_comm]
    simp

/-- Where dangling names are excused, the definitions that remain stop at no other variable. -/
theorem Env.Defines.defineAll (fuel : Nat) {rest : List Definition} :
    ∀ {earlier : List Definition} {env : Env}, env.Defines excused earlier →
      (∀ x, Definition.Dangling (earlier ++ rest) x → excused x) →
      Safe (fun unbound => excused unbound.name)
        (fun inner => inner.Defines excused (earlier ++ rest))
        (rest.foldlM (Env.define fuel) env) := by
  induction rest with
  | nil =>
      intro earlier env defines _
      rw [List.append_nil]
      exact defines
  | cons definition rest ih =>
      intro earlier env defines dangling
      have inScope : definition.term.ScopedBut excused env.names := by
        intro x free
        by_cases defined : x ∈ earlier.map Definition.name
        · exact .inl ((defines.names x).mpr defined)
        · exact .inr (dangling x (Definition.dangling_of_split free defined))
      rw [List.foldlM_cons, Env.define, bind_assoc]
      refine ((evaluatesBut excused fuel).eval defines.inScope inScope).bind
        fun value valueScoped => ?_
      have extended := defines.extend valueScoped definition
      rw [List.append_cons] at dangling ⊢
      exact ih extended dangling

theorem Program.env_safe (fuel : Nat) {definitions : List Definition}
    (dangling : ∀ x, Definition.Dangling definitions x → excused x) :
    Safe (fun unbound => excused unbound.name) (fun env => env.Defines excused definitions)
      (env fuel definitions) :=
  Env.Defines.nil.defineAll fuel dangling

theorem Program.run_safe (fuel : Nat) (program : Program) :
    Safe (fun unbound => program.Dangling unbound.name) (fun _ => True) (program.run fuel) := by
  have inDefinitions : ∀ x, Definition.Dangling program.definitions x → program.Dangling x :=
    fun _ => .inl
  refine (env_safe fuel inDefinitions).bind fun env defines => ?_
  have inScope : program.body.ScopedBut program.Dangling env.names := by
    intro x free
    by_cases defined : x ∈ program.definitions.map Definition.name
    · exact .inl ((defines.names x).mpr defined)
    · exact .inr (.inr ⟨free, defined⟩)
  refine ((evaluatesBut _ fuel).eval defines.inScope inScope).bind fun value valueScoped => ?_
  exact (readsBackBut _ fuel).value valueScoped

/-- A variable that the environment of the definitions stops at dangles in a definition, and one
that the run stops at dangles in a definition or in the body. So a well-scoped program stops at no
variable. -/
theorem Program.run_stops_at_dangling (program : Program) (fuel : Nat) :
    (∀ x, env fuel program.definitions = .failed ⟨x⟩ →
        Definition.Dangling program.definitions x) ∧
      (∀ x, program.run fuel = .failed ⟨x⟩ → program.Dangling x) ∧
      (program.WellScoped → ∀ x, program.run fuel ≠ .failed ⟨x⟩) := by
  have runStops : ∀ x, program.run fuel = .failed ⟨x⟩ → program.Dangling x :=
    fun _ stopped => (run_safe fuel program).of_failed stopped
  refine ⟨?_, runStops, ?_⟩
  · intro x stopped
    exact (env_safe fuel fun _ dangles => dangles).of_failed stopped
  · intro inScope x stopped
    exact inScope.not_dangling x (runStops x stopped)

/-- The first definition needs a name that its caller binds and that the next definition defines. -/
def boundByCaller : Program :=
  ⟨[⟨"f", .lam "y" (.var "x")⟩,
      ⟨"x", .app (.lam "x" (.app (.var "f") (.var "x"))) (.lam "z" (.var "z"))⟩],
    .var "x"⟩

/-- Neither the caller nor the next definition gives the name a value; and the sum of two Church
numerals stops nowhere. -/
theorem boundByCaller_run_stops_at_dangling :
    let sum : Program :=
      ⟨Church.definitions, .app (.app (.var "+") (Church.ofNat 1)) (Church.ofNat 1)⟩
    Program.env 9 boundByCaller.definitions = .failed ⟨"x"⟩ ∧
      Definition.Dangling boundByCaller.definitions "x" ∧
      boundByCaller.run 9 = .failed ⟨"x"⟩ ∧ boundByCaller.Dangling "x" ∧
      sum.WellScoped ∧ ∀ x, sum.run 9 ≠ .failed ⟨x⟩ := by
  intro sum
  have envStops : Program.env 9 boundByCaller.definitions = .failed ⟨"x"⟩ := by
    decide +kernel
  have runStops : boundByCaller.run 9 = .failed ⟨"x"⟩ := by
    decide +kernel
  have sumScoped : sum.WellScoped := ⟨by decide +kernel, by decide +kernel⟩
  obtain ⟨inDefinitions, inProgram, _⟩ := boundByCaller.run_stops_at_dangling 9
  obtain ⟨_, _, nowhere⟩ := sum.run_stops_at_dangling 9
  exact ⟨envStops, inDefinitions "x" envStops, runStops, inProgram "x" runStops, sumScoped,
    nowhere sumScoped⟩

end LambdaCalculi.Untyped
