import LambdaCalculi.Proofs.Dependent.Bounds
import LambdaCalculi.Proofs.Embedding.Checking
import LambdaCalculi.Proofs.Simple.Normalization

/-!
# Simply typed programs in the dependent calculus

The definitions of a program and of its translation are checked side by side. The values of the two
calculi stand for the same leveled values, so both runs reject or both finish, and then with the
same type and normal form up to the names of bound variables.
-/

set_option autoImplicit false

namespace LambdaCalculi.Simple

open Outcome
open Dependent (ChecksTo Context.Mirrors)

/-! ## Accepted terms -/

/-- The values of a term in the two calculi stand for one leveled value of the type. -/
structure Twins (vocabulary : Vocabulary) (type : Ty) (value : Value)
    (typeValue dependent : Dependent.Value) (leveled : Leveled.Value) : Prop where
  simple : value.Matches [] leveled
  mirrors : dependent.Mirrors vocabulary [] leveled
  denoted : type.Denoted typeValue
  agree : Leveled.Value.Agree type leveled leveled

structure Scope.Twins (vocabulary : Vocabulary) (scope : Scope) (ctx : Dependent.Context)
    (values : List Leveled.Value) : Prop where
  simple : scope.env.Matches [] values
  mirrors : ctx.Mirrors vocabulary [] scope.context values

namespace Scope.Twins

variable {vocabulary : Vocabulary} {scope : Scope} {ctx : Dependent.Context}
  {values : List Leveled.Value}

theorem empty (vocabulary : Vocabulary) : Twins vocabulary [] .empty [] :=
  ⟨.nil, .empty vocabulary⟩

theorem synth_fails (twins : Twins vocabulary scope ctx values) {term : Term}
    (known : term.names ⊆ vocabulary.names) {error : TypeError}
    (rejected : term.synth scope.context = .error error) :
    ∃ fault, ChecksTo (fun fuel => ctx.synth fuel (term.embed vocabulary.hole))
      (.failed fault) := by
  have follows := (Dependent.judged vocabulary term).synth twins.mirrors known
  rw [rejected] at follows
  exact follows

theorem typedValue (twins : Twins vocabulary scope ctx values) {term : Term}
    (known : term.names ⊆ vocabulary.names) {type : Ty}
    (accepted : term.synth scope.context = .ok type) :
    ∃ value typeValue dependent leveled,
      Settles (fun fuel => scope.typedValue fuel term) (.done (type, value)) ∧
      ChecksTo (fun fuel => ctx.synth fuel (term.embed vocabulary.hole)) (.done typeValue) ∧
      ctx.env.EvaluatesTo (term.embed vocabulary.hole) dependent ∧
      Simple.Twins vocabulary type value typeValue dependent leveled := by
  have typed := (Term.typed term).synth accepted
  obtain ⟨dependent, leveled, evaluatesTo, mirrors, evaluates, agree⟩ :=
    twins.mirrors.evaluates known typed
  have spelled : term.nameless scope.env.names = term.nameless scope.context.names :=
    congrArg term.nameless (names_env scope)
  obtain ⟨value, run, matching⟩ := evaluates.settles twins.simple spelled
  have follows := (Dependent.judged vocabulary term).synth twins.mirrors known
  rw [accepted] at follows
  obtain ⟨typeValue, checks, denoted⟩ := follows
  refine ⟨value, typeValue, dependent, leveled, ?_, checks, evaluatesTo, matching, mirrors, denoted,
    agree⟩
  simp only [Scope.typedValue, accepted]
  exact (run.mapFault Fault.stuck).bind (.const _)

/-- Adds a definition on both sides. -/
theorem define (twins : Twins vocabulary scope ctx values) {name : Name}
    (known : name ∈ vocabulary.names) {type : Ty} {value : Value}
    {typeValue dependent : Dependent.Value} {leveled : Leveled.Value}
    (valueTwins : Simple.Twins vocabulary type value typeValue dependent leveled) :
    Twins vocabulary (⟨name, type, value⟩ :: scope)
      ⟨⟨name, .defined typeValue dependent⟩ :: ctx.entries, ctx.env.extend name dependent⟩
      (leveled :: values) where
  simple := .cons valueTwins.simple twins.simple
  mirrors := {
    entries := .cons ⟨rfl, valueTwins.denoted⟩ twins.mirrors.entries
    names := congrArg (name :: ·) twins.mirrors.names
    env := .cons known valueTwins.mirrors twins.mirrors.env
    agree := twins.mirrors.agree.cons valueTwins.agree
    inside := List.nil_subset _ }

theorem binding?_eq_none (twins : Twins vocabulary scope ctx values) {x : Name}
    (new : x ∉ scope.context.names) : ctx.binding? x = none := by
  rcases twins.mirrors.lookup x with ⟨_, missing⟩ | ⟨type, _, found, _⟩
  · exact missing
  · exact absurd (Context.lookup_idxOf found).1 new

/-- One definition is rejected on both sides or added on both. -/
theorem define_settles (twins : Twins vocabulary scope ctx values) {definition : Definition}
    (nameKnown : definition.name ∈ vocabulary.names)
    (termKnown : definition.term.names ⊆ vocabulary.names)
    (new : definition.name ∉ scope.context.names) :
    (∃ error fault,
        Settles (fun fuel => scope.define fuel definition) (.failed (.rejected error)) ∧
        ChecksTo (fun fuel => ctx.addDefinition fuel definition.name
          (definition.term.embed vocabulary.hole)) (.failed fault)) ∨
      ∃ type value ctx' values',
        Settles (fun fuel => scope.define fuel definition)
          (.done (⟨definition.name, type, value⟩ :: scope)) ∧
        ChecksTo (fun fuel => ctx.addDefinition fuel definition.name
          (definition.term.embed vocabulary.hole)) (.done ctx') ∧
        Twins vocabulary (⟨definition.name, type, value⟩ :: scope) ctx' values' := by
  simp only [Dependent.Context.addDefinition, twins.binding?_eq_none new, Option.isSome_none,
    Bool.false_eq_true, if_false]
  cases verdict : definition.term.synth scope.context with
  | error error =>
      obtain ⟨fault, fails⟩ := twins.synth_fails termKnown verdict
      exact .inl ⟨error, fault, (typedValue_rejected verdict).bind_failed, .bind_failed fails⟩
  | ok type =>
      obtain ⟨value, typeValue, dependent, leveled, run, checks, evaluates, valueTwins⟩ :=
        twins.typedValue termKnown verdict
      refine .inr ⟨type, value, _, _, run.bind (.const _), ?_, twins.define nameKnown valueTwins⟩
      refine checks.bind (.bind (.const (Dependent.Judging.record _)) ?_)
      exact .bind (.compute evaluates) (.compute (.const _))

/-- Definitions are rejected on both sides or added on both. -/
theorem definitions_settle (definitions : List Definition) :
    ∀ {scope : Scope} {ctx : Dependent.Context} {values : List Leveled.Value},
      Twins vocabulary scope ctx values →
      (∀ definition ∈ definitions, definition.name :: definition.term.names ⊆ vocabulary.names) →
      (definitions.map Definition.name).Nodup →
      (∀ definition ∈ definitions, definition.name ∉ scope.context.names) →
      (∃ error fault,
          Settles (fun fuel => definitions.foldlM (Scope.define fuel) scope)
            (.failed (.rejected error)) ∧
          ChecksTo (fun fuel => ctx.addDefinitions fuel
            (definitions.map (Definition.embed vocabulary.hole))) (.failed fault)) ∨
        ∃ scope' ctx' values',
          Settles (fun fuel => definitions.foldlM (Scope.define fuel) scope) (.done scope') ∧
          ChecksTo (fun fuel => ctx.addDefinitions fuel
            (definitions.map (Definition.embed vocabulary.hole))) (.done ctx') ∧
          Twins vocabulary scope' ctx' values' := by
  induction definitions with
  | nil =>
      intro scope ctx values twins _ _ _
      exact .inr ⟨scope, ctx, values, .const _, .done _, twins⟩
  | cons definition rest ih =>
      intro scope ctx values twins known distinct new
      obtain ⟨headKnown, restKnown⟩ := List.forall_mem_cons.mp known
      obtain ⟨nameKnown, termKnown⟩ := List.cons_subset.mp headKnown
      obtain ⟨headNew, restNew⟩ := List.forall_mem_cons.mp new
      rw [List.map_cons, List.nodup_cons] at distinct
      simp only [List.map_cons, Dependent.Context.addDefinitions, List.foldlM_cons]
      rcases twins.define_settles nameKnown termKnown headNew with
        ⟨error, fault, fails, fails'⟩ | ⟨type, value, ctx', values', defines, defines', twins'⟩
      · exact .inl ⟨error, _, fails.bind_failed, .bind_failed (fails'.within definition.name)⟩
      · let extended : Scope := ⟨definition.name, type, value⟩ :: scope
        have stillNew : ∀ other ∈ rest, other.name ∉ extended.context.names := by
          intro other mem
          refine List.not_mem_cons_of_ne_of_not_mem ?_ (restNew other mem)
          intro same
          exact distinct.1 (List.mem_map.mpr ⟨other, mem, same⟩)
        rcases ih twins' restKnown distinct.2 stillNew with
          ⟨error, fault, fails, fails'⟩ | ⟨scope'', ctx'', values'', finish, finish', twins''⟩
        · exact .inl ⟨error, fault, defines.bind fails,
            .bind (defines'.within definition.name) fails'⟩
        · exact .inr ⟨scope'', ctx'', values'', defines.bind finish,
            .bind (defines'.within definition.name) finish', twins''⟩

end Scope.Twins

/-! ## Whole runs -/

/-- Twin values are read back to the same normal form. -/
theorem Twins.readBack {vocabulary : Vocabulary} {type : Ty} {value : Value}
    {typeValue dependent : Dependent.Value} {leveled : Leveled.Value}
    (twins : Twins vocabulary type value typeValue dependent leveled) (used : List Name)
    (ctx : Dependent.Context) :
    ∃ normal result, Settles (fun fuel => value.readBack fuel used type) (.done normal) ∧
      ctx.ReadsBackTo typeValue dependent result ∧
      result.alphaEquiv (normal.embed vocabulary.hole) = true := by
  obtain ⟨form, reads, _⟩ := twins.agree.readAlike 0
  obtain ⟨normal, run, spelled⟩ := reads.settles rfl (List.nil_subset used) twins.simple
  obtain ⟨result, readsBack, spells⟩ :=
    reads.embedded rfl (List.nil_subset ctx.names) twins.denoted twins.mirrors
  exact ⟨normal, result, run, readsBack, spells [] normal rfl spelled⟩

namespace Program

/-- Both runs settle: on a rejection and a fault, or on results that are the same up to the names of
bound variables. -/
theorem settles_embedded (hole : Name) (program : Program)
    (definedOnce : (program.definitions.map Definition.name).Nodup)
    (distinct : Dependent.DistinctFingerprints program.names) :
    (∃ error fault, Settles (fun fuel => program.run fuel) (.failed (.rejected error)) ∧
        ChecksTo (fun fuel => (program.embed hole).run fuel) (.failed fault)) ∨
      ∃ scope type normal result,
        Settles (fun fuel => Scope.ofDefinitions fuel program.definitions) (.done scope) ∧
        program.body.synth scope.context = .ok type ∧
        Settles (fun fuel => program.run fuel) (.done normal) ∧
        ChecksTo (fun fuel => (program.embed hole).run fuel) (.done result) ∧
        result.type.alphaEquiv (type.embed hole) = true ∧
        result.term.alphaEquiv (normal.embed hole) = true := by
  let vocabulary : Vocabulary := ⟨hole, program.names, distinct⟩
  have known : ∀ definition ∈ program.definitions,
      definition.name :: definition.term.names ⊆ vocabulary.names := by
    intro definition mem x inside
    exact List.mem_append_left _ (List.mem_flatMap.mpr ⟨definition, mem, inside⟩)
  have bodyKnown : program.body.names ⊆ vocabulary.names := List.subset_append_right _ _
  rcases Scope.Twins.definitions_settle program.definitions (.empty vocabulary) known definedOnce
      (by simp [Scope.context, Context.names]) with
    ⟨error, fault, fails, fails'⟩ | ⟨scope, ctx, values, defines, defines', twins⟩
  · exact .inl ⟨error, fault, fails.bind_failed, fails'.bind_failed⟩
  · cases verdict : program.body.synth scope.context with
    | error error =>
        obtain ⟨fault, fails⟩ := twins.synth_fails bodyKnown verdict
        exact .inl ⟨error, fault, defines.bind (Scope.typedValue_rejected verdict).bind_failed,
          defines'.bind (.bind_failed fails)⟩
    | ok type =>
        obtain ⟨value, typeValue, dependent, leveled, run, checks, evaluates, valueTwins⟩ :=
          twins.typedValue bodyKnown verdict
        obtain ⟨typeTerm, typeReads, spelled⟩ := valueTwins.denoted.readsBack ctx
        obtain ⟨normal, result, readBack, reads, alike⟩ := valueTwins.readBack scope.names ctx
        refine .inr ⟨scope, type, normal, ⟨typeTerm, result⟩, defines, verdict,
          defines.bind (run.bind (readBack.mapFault Fault.stuck)), defines'.bind ?_, ?_, alike⟩
        · exact checks.bind (.bind (.compute evaluates) (.bind (.compute typeReads)
            (.bind (.compute reads) (.done _))))
        · exact (spelled.alphaEquivUnder (type.embed_spelled hole) []).trans (decide_eq_true rfl)

/-- Where the definitions have different names and the names different fingerprints, a program has a
result exactly when its translation has one. Then the type and the term of the second result are
alpha-equivalent to the translations of the type found for the body and of the first result. -/
theorem run_embedded (hole : Name) (program : Program)
    (definedOnce : (program.definitions.map Definition.name).Nodup)
    (distinct : Dependent.DistinctFingerprints program.names) :
    ((∃ fuel normal, program.run fuel = .done normal) ↔
        ∃ fuel result, ((program.embed hole).run fuel :
          Dependent.Checking Dependent.NormalForm).outcome = .done result) ∧
      ∀ (fuel fuel' : Nat) (normal : Term) (result : Dependent.NormalForm),
        program.run fuel = .done normal →
        ((program.embed hole).run fuel' : Dependent.Checking _).outcome = .done result →
        ∃ scope type, Scope.ofDefinitions fuel program.definitions = .done scope ∧
          program.body.synth scope.context = .ok type ∧
          result.type.alphaEquiv (type.embed hole) = true ∧
          result.term.alphaEquiv (normal.embed hole) = true := by
  have steady := fun fuel => run_below fuel program
  have steady' := fun fuel => Dependent.Program.run_below fuel (program.embed hole)
  rcases settles_embedded hole program definedOnce distinct with
    ⟨error, fault, fails, fails'⟩ | ⟨scope, type, normal, result, defines, accepted, runs, runs',
      typeAlike, termAlike⟩
  · have never : ∀ {fuel normal}, program.run fuel ≠ .done normal := fun finished => by
      cases fails.eq_done steady finished
    have never' : ∀ {fuel result}, ((program.embed hole).run fuel :
        Dependent.Checking Dependent.NormalForm).outcome ≠ .done result := fun finished => by
      cases Settles.eq_done fails' steady' finished
    refine ⟨⟨?_, ?_⟩, fun _ _ _ _ finished => absurd finished never⟩
    · rintro ⟨fuel, normal, finished⟩
      exact absurd finished never
    · rintro ⟨fuel, result, finished⟩
      exact absurd finished never'
  · obtain ⟨fuel, finished⟩ := runs.exists_eq
    obtain ⟨fuel', finished'⟩ := Settles.exists_eq runs'
    refine ⟨⟨fun _ => ⟨fuel', result, finished'⟩, fun _ => ⟨fuel, normal, finished⟩⟩, ?_⟩
    intro fuel fuel' normal' result' finished finished'
    cases runs.eq_done steady finished
    cases Settles.eq_done runs' steady' finished'
    obtain ⟨scope', defined, _⟩ := Outcome.bind_eq_done_iff.mp finished
    cases defines.eq_done (fun fuel => Scope.ofDefinitions_below fuel program.definitions) defined
    exact ⟨scope, type, defined, accepted, typeAlike, termAlike⟩

end Program

/-- The body adds two to its argument by the definition of addition. -/
def addTwo : Program :=
  ⟨Arithmetic.definitions, .app (.var "+") (.var "two")⟩

/-- The function that adds two has its normal form in both calculi. -/
theorem addTwo_run_embedded :
    (addTwo.definitions.map Definition.name).Nodup ∧
      Dependent.DistinctFingerprints addTwo.names ∧
      addTwo.run 12 = .done (.lam "k" (.add1 (.add1 (.var "k")))) ∧
      ∃ fuel result, ((addTwo.embed "_").run fuel :
          Dependent.Checking Dependent.NormalForm).outcome = .done result ∧
        result.type.alphaEquiv (.pi "_" .nat .nat) = true ∧
        result.term.alphaEquiv (.lam "k" (.add1 (.add1 (.var "k")))) = true := by
  have definedOnce : (addTwo.definitions.map Definition.name).Nodup := by decide
  have distinct : Dependent.DistinctFingerprints addTwo.names := by decide +kernel
  have runs : addTwo.run 12 = .done (.lam "k" (.add1 (.add1 (.var "k")))) := by decide +kernel
  obtain ⟨iff, same⟩ := Program.run_embedded "_" addTwo definedOnce distinct
  obtain ⟨fuel, result, runs'⟩ := iff.mp ⟨12, _, runs⟩
  obtain ⟨scope, type, defined, accepted, typeAlike, termAlike⟩ := same 12 fuel _ result runs runs'
  have expected : Scope.ofDefinitions 12 addTwo.definitions = .done arithmeticScope := by
    decide +kernel
  cases expected.symm.trans defined
  have found : addTwo.body.synth arithmeticScope.context = .ok (.arrow .nat .nat) := by
    decide +kernel
  cases found.symm.trans accepted
  exact ⟨definedOnce, distinct, runs, fuel, result, runs', typeAlike, termAlike⟩

end LambdaCalculi.Simple
