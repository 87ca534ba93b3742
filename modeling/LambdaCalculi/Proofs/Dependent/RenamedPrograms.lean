import LambdaCalculi.Proofs.Dependent.Deciding
import LambdaCalculi.Proofs.Dependent.RenamedEvaluation

/-!
# Programs do not depend on the names of bound variables

The type checker does the same on renamings of each other. Its contexts bind the names of the program,
which are paired as the terms have it, to variables, which are paired as they were introduced. Types
are compared by alpha-equivalence, which cannot tell renamings apart, so the two runs decide alike.
-/

set_option autoImplicit false

namespace LambdaCalculi.Dependent

open Outcome

/-! ## Faults of one kind -/

def TypeError.SameKind : TypeError → TypeError → Prop
  | unbound x, unbound y => x = y
  | alreadyDefined x, alreadyDefined y => x = y
  | notSynthesizable _, notSynthesizable _ => True
  | notSame _ _, notSame _ _ => True
  | wrongFormer want _, wrongFormer want' _ => want = want'
  | _, _ => False

/-- Rejections of one kind in the same place, or the same operation without a rule. -/
def Fault.SameKind : Fault → Fault → Prop
  | rejected definition? error, rejected definition?' error' =>
      definition? = definition?' ∧ error.SameKind error'
  | stuck place, stuck place' => place = place'
  | _, _ => False

theorem Fault.SameKind.within {fault fault' : Fault} (sameKind : fault.SameKind fault') (x : Name) :
    (fault.within x).SameKind (fault'.within x) := by
  cases fault <;> cases fault'
  · exact ⟨rfl, sameKind.2⟩
  · exact sameKind
  · exact sameKind
  · exact sameKind

/-! ## Contexts -/

inductive Entry.RenamedList (names : BinderPairs) : BinderPairs → List Entry → List Entry → Prop where
  | nil : RenamedList names [] [] []
  | cons {binders : BinderPairs} {x x' : Name} {binding binding' : Binding}
      {entries entries' : List Entry} (typeRenamed : binding.type.Renamed names binding'.type)
      (entriesRenamed : RenamedList names binders entries entries') :
      RenamedList names ((x, x') :: binders) (⟨x, binding⟩ :: entries) (⟨x', binding'⟩ :: entries')

theorem Entry.RenamedList.extend {names binders : BinderPairs} {x y : Name} (new : names.New x y)
    {entries entries' : List Entry} (renamed : RenamedList names binders entries entries') :
    RenamedList ((x, y) :: names) binders entries entries' := by
  induction renamed with
  | nil => exact .nil
  | cons typeRenamed _ ih => exact .cons (typeRenamed.extend new) ih

/-- The contexts bind the names of `binders`, pair by pair, to renamings of each other, and bind no
other names than the known ones. -/
structure Context.Renamed (known known' : List Name) (names binders : BinderPairs)
    (ctx ctx' : Context) : Prop where
  env : ctx.env.Renamed names binders ctx'.env
  entries : Entry.RenamedList names binders ctx.entries ctx'.entries
  taken : names.TakenIn ctx ctx'
  known : ctx.env.names ⊆ known
  known' : ctx'.env.names ⊆ known'

namespace Context.Renamed

variable {known known' : List Name} {names binders : BinderPairs} {ctx ctx' : Context}

theorem empty : Context.Renamed known known' [] [] .empty .empty :=
  ⟨.nil, .nil, .nil, List.nil_subset _, List.nil_subset _⟩

theorem define (renamed : ctx.Renamed known known' names binders ctx') {x x' : Name}
    (xKnown : x ∈ known) (xKnown' : x' ∈ known') {type type' value value' : Value}
    (types : type.Renamed names type') (values : value.Renamed names value') :
    Alike (@Eq Stuck) (Context.Renamed known known' names ((x, x') :: binders))
      (ctx.define x type value) (ctx'.define x' type' value') :=
  .done ⟨renamed.env.cons values x x', .cons types renamed.entries, renamed.taken.more rfl rfl,
    List.cons_subset.mpr ⟨xKnown, renamed.known⟩, List.cons_subset.mpr ⟨xKnown', renamed.known'⟩⟩

theorem assume (renamed : ctx.Renamed known known' names binders ctx') {x x' : Name}
    (xKnown : x ∈ known) (xKnown' : x' ∈ known') {type type' : Value}
    (types : type.Renamed names type') :
    Alike (@Eq Stuck)
      (Context.Renamed known known' ((ctx.freshFor x, ctx'.freshFor x') :: names) ((x, x') :: binders))
      (ctx.assume x type) (ctx'.assume x' type') := by
  have new := renamed.taken.new x x'
  have types := types.extend new
  exact .done ⟨(renamed.env.extend new).cons (.neutral types (.var (names.links_cons _ _))) x x',
    .cons types (renamed.entries.extend new), renamed.taken.assume rfl rfl,
    List.cons_subset.mpr ⟨xKnown, renamed.known⟩, List.cons_subset.mpr ⟨xKnown', renamed.known'⟩⟩

end Context.Renamed

/-- Related names have renamed types, or are both without one and the same. -/
theorem Entry.RenamedList.type? {names binders : BinderPairs} {entries entries' : List Entry}
    {env env' : Env} (renamed : RenamedList names binders entries entries') {x y : Name}
    (related : binders.relates x y = true) :
    (∃ type type', (Context.mk entries env).type? x = some type ∧
      (Context.mk entries' env').type? y = some type' ∧ type.Renamed names type') ∨
    ((Context.mk entries env).binding? x = none ∧ (Context.mk entries' env').binding? y = none ∧
      x = y) := by
  induction renamed with
  | nil => exact .inr ⟨rfl, rfl, by simpa [BinderPairs.relates] using related⟩
  | cons typeRenamed _ ih =>
      rcases BinderPairs.relates_cons_iff.mp related with ⟨rfl, rfl⟩ | ⟨left, right, outer⟩
      · exact .inl ⟨_, _, by simp [Context.type?, Context.binding?],
          by simp [Context.type?, Context.binding?], typeRenamed⟩
      · simpa [Context.type?, Context.binding?, Ne.symm left, Ne.symm right] using ih outer

/-! ## Type checking -/

def Verdicts.alike : Verdicts Reading.renaming (Traced Fault) (Traced Fault) where
  Ends results fuel _ first second :=
    Alike Fault.SameKind (results ()) first.outcome (second fuel).outcome
  events _ _ := True
  errors := TypeError.SameKind
  done related := .done related
  bind ends nextEnds := by
    simp only [Traced.outcome_bind]
    exact ends.bind fun _ _ related => nextEnds le_rfl related
  spend ends := ends
  spent atZero := by
    rw [atZero]
    exact .exhausted
  compute ends := ends.mapFault fun _ _ same => same
  record _ := .done trivial
  reject sameKind := .failed ⟨rfl, sameKind⟩
  alphaEquiv_eq left right := left.alphaEquiv_eq right
  mismatch _ _ := ⟨trivial, trivial⟩
  wrongFormer _ _ _ _ := rfl
  definition _ := ⟨trivial, rfl⟩

structure Context.RenamedAt (known known' : List Name) (names binders : BinderPairs)
    (ctx ctx' : Context) (term term' : Term) : Prop where
  ctxRenamed : ctx.Renamed known known' names binders ctx'
  termRenamed : Term.Renamed binders term term'
  termKnown : term.names ⊆ known
  termKnown' : term'.names ⊆ known'

/-- The bodies are renamings of each other, in contexts without the variable that they are for. -/
structure Context.RenamedBelow (known known' : List Name) (names binders : BinderPairs)
    (ctx : Context) (x : Name) (body : Term) (ctx' : Context) (x' : Name) (body' : Term) : Prop where
  ctxRenamed : ctx.Renamed known known' names binders ctx'
  bodyRenamed : Term.Renamed ((x, x') :: binders) body body'
  bodyKnown : x :: body.names ⊆ known
  bodyKnown' : x' :: body'.names ⊆ known'

namespace Context.RenamedAt

variable {known known' : List Name} {names binders : BinderPairs} {ctx ctx' : Context}
  {term term' part part' : Term} {x x' : Name}

theorem sub (renamed : ctx.RenamedAt known known' names binders ctx' term term')
    (partRenamed : Term.Renamed binders part part')
    (included : part.names ⊆ term.names := by simp +contextual [Term.names, List.subset_def])
    (included' : part'.names ⊆ term'.names := by simp +contextual [Term.names, List.subset_def]) :
    ctx.RenamedAt known known' names binders ctx' part part' :=
  ⟨renamed.ctxRenamed, partRenamed, List.Subset.trans included renamed.termKnown,
    List.Subset.trans included' renamed.termKnown'⟩

theorem below (renamed : ctx.RenamedAt known known' names binders ctx' term term')
    (partRenamed : Term.Renamed ((x, x') :: binders) part part')
    (included : x :: part.names ⊆ term.names := by simp +contextual [Term.names, List.subset_def])
    (included' : x' :: part'.names ⊆ term'.names := by
      simp +contextual [Term.names, List.subset_def]) :
    ctx.RenamedBelow known known' names binders x part ctx' x' part' :=
  ⟨renamed.ctxRenamed, partRenamed, List.Subset.trans included renamed.termKnown,
    List.Subset.trans included' renamed.termKnown'⟩

end Context.RenamedAt

def Deciding.renaming {known known' : List Name} (clear : DistinctFingerprints known)
    (clear' : DistinctFingerprints known') : Deciding Verdicts.alike where
  judged names _ ctx term ctx' term' :=
    ∃ binders, ctx.RenamedAt known known' names binders ctx' term term'
  bodies names _ ctx x body ctx' x' body' :=
    ∃ binders, ctx.RenamedBelow known known' names binders x body ctx' x' body'
  judged_mono _ := id
  bodies_mono _ := id
  contexts := by
    rintro _ _ _ _ _ _ ⟨_, renamed⟩
    exact renamed.ctxRenamed.taken
  scopes := by
    rintro _ _ _ _ _ _ ⟨binders, ctxRenamed, termRenamed, termKnown, termKnown'⟩
    exact ⟨binders, ctxRenamed.env, termRenamed,
      clear.mono (List.append_subset.mpr ⟨ctxRenamed.known, termKnown⟩),
      clear'.mono (List.append_subset.mpr ⟨ctxRenamed.known', termKnown'⟩)⟩
  parts := by
    rintro names _ ctx ctx' term term' ⟨binders, renamed⟩
    cases renamed.termRenamed <;> constructor <;> first
      | exact True.intro
      | exact ⟨binders, renamed.sub ‹_›⟩
      | exact ⟨binders, renamed.below ‹_›⟩
  new := by
    rintro _ _ _ _ x x' _ _ ⟨_, renamed⟩
    exact renamed.ctxRenamed.taken.new x x'
  assume := by
    rintro _ _ _ _ _ x x' _ _ _ _ ⟨binders, ctxRenamed, bodyRenamed, bodyKnown, bodyKnown'⟩ types
    obtain ⟨xKnown, bodyKnown⟩ := List.cons_subset.mp bodyKnown
    obtain ⟨xKnown', bodyKnown'⟩ := List.cons_subset.mp bodyKnown'
    refine (ctxRenamed.assume xKnown xKnown' types).mono fun _ _ inner => ?_
    exact ⟨_, inner, bodyRenamed, bodyKnown, bodyKnown'⟩
  visits _ := ⟨trivial, trivial, trivial⟩
  lookup := by
    rintro _ _ _ ctx ctx' x _ ⟨_, ctxRenamed, termRenamed, _, _⟩
    cases termRenamed with
    | var related =>
        refine Verdicts.alike.synth_var trivial fun _ => ?_
        simp only [Context.lookupType]
        rcases ctxRenamed.entries.type? related with
          ⟨type, type', found, found', types⟩ | ⟨missing, missing', same⟩
        · rw [found, found']
          exact .done types
        · rw [Context.type?, Context.type?, missing, missing']
          exact .failed ⟨rfl, same⟩
  compare := by
    rintro _ _ _ _ _ x _ _ _ ⟨_, _, termRenamed, _, _⟩ compared
    cases termRenamed with
    | var => exact Verdicts.alike.check_var compared

/-! ## Programs -/

/-- The definitions have the same names in the same order, and their terms and the bodies differ at
most in the names of bound variables. -/
structure Program.Renamed (program program' : Program) : Prop where
  definitions : List.Forall₂ (fun definition definition' : Definition =>
    definition.name = definition'.name ∧ Term.Renamed [] definition.term definition'.term)
    program.definitions program'.definitions
  body : Term.Renamed [] program.body program'.body

def NormalForm.AlphaEquiv (result result' : NormalForm) : Prop :=
  result.type.alphaEquiv result'.type = true ∧ result.term.alphaEquiv result'.term = true

section Programs

variable {known known' : List Name} {binders : BinderPairs} {ctx ctx' : Context} {term term' : Term}

/-- The contexts are those of definitions: each name is paired with itself, and there are no
variables. -/
structure Context.RenamedDefinitions (known known' : List Name) (binders : BinderPairs)
    (ctx ctx' : Context) : Prop where
  renamed : ctx.Renamed known known' [] binders ctx'
  diagonal : binders.Diagonal

namespace Context.RenamedDefinitions

theorem renamedAt (defined : ctx.RenamedDefinitions known known' binders ctx')
    (termRenamed : Term.Renamed [] term term') (termKnown : term.names ⊆ known)
    (termKnown' : term'.names ⊆ known') :
    ctx.RenamedAt known known' [] binders ctx' term term' := by
  refine ⟨defined.renamed, termRenamed.mono fun x y related => ?_, termKnown, termKnown'⟩
  obtain rfl : x = y := by simpa [BinderPairs.relates] using related
  exact defined.diagonal.relates x

theorem isSome_binding?_eq (defined : ctx.RenamedDefinitions known known' binders ctx') (x : Name) :
    (ctx.binding? x).isSome = (ctx'.binding? x).isSome := by
  rcases defined.renamed.entries.type? (defined.diagonal.relates x) with
    ⟨type, type', found, found', _⟩ | ⟨missing, missing', _⟩
  · obtain ⟨binding, bound, _⟩ := Option.map_eq_some_iff.mp found
    obtain ⟨binding', bound', _⟩ := Option.map_eq_some_iff.mp found'
    rw [Option.isSome_of_eq_some bound, Option.isSome_of_eq_some bound']
  · rw [missing, missing']

theorem addDefinition (clear : DistinctFingerprints known) (clear' : DistinctFingerprints known')
    (defined : ctx.RenamedDefinitions known known' binders ctx') {x : Name} (xKnown : x ∈ known)
    (xKnown' : x ∈ known') (termRenamed : Term.Renamed [] term term')
    (termKnown : term.names ⊆ known) (termKnown' : term'.names ⊆ known') (fuel : Nat) :
    Verdicts.alike.Ends (fun _ final final' => ∃ binders,
        Context.RenamedDefinitions known known' binders final final') fuel ()
      (ctx.addDefinition fuel x term) (fun bound => ctx'.addDefinition bound x term') := by
  have termAt := defined.renamedAt termRenamed termKnown termKnown'
  refine (Deciding.renaming clear clear').addDefinition fuel [] () x ⟨binders, termAt⟩
    (defined.isSome_binding?_eq x) fun _ types values => ?_
  refine (defined.renamed.define xKnown xKnown' types values).mono fun _ _ inner => ?_
  exact ⟨_, inner, List.forall_mem_cons.mpr ⟨rfl, defined.diagonal⟩⟩

theorem addDefinitions (clear : DistinctFingerprints known) (clear' : DistinctFingerprints known')
    (defined : ctx.RenamedDefinitions known known' binders ctx')
    {definitions definitions' : List Definition}
    (renamed : List.Forall₂ (fun definition definition' : Definition =>
      definition.name = definition'.name ∧ Term.Renamed [] definition.term definition'.term)
      definitions definitions')
    (allKnown : ∀ definition ∈ definitions,
      definition.name ∈ known ∧ definition.term.names ⊆ known)
    (allKnown' : ∀ definition ∈ definitions',
      definition.name ∈ known' ∧ definition.term.names ⊆ known') (fuel : Nat) :
    Alike Fault.SameKind (fun final final' => ∃ binders,
        Context.RenamedDefinitions known known' binders final final')
      (ctx.addDefinitions fuel definitions : Checking Context).outcome
      (ctx'.addDefinitions fuel definitions' : Checking Context).outcome := by
  induction renamed generalizing ctx ctx' binders with
  | nil => exact .done ⟨binders, defined⟩
  | @cons definition definition' rest rest' head _ ih =>
      obtain ⟨sameName, termRenamed⟩ := head
      obtain ⟨⟨nameKnown, termKnown⟩, restKnown⟩ := List.forall_mem_cons.mp allKnown
      obtain ⟨⟨nameKnown', termKnown'⟩, restKnown'⟩ := List.forall_mem_cons.mp allKnown'
      rw [Context.addDefinitions, Context.addDefinitions, List.foldlM_cons, List.foldlM_cons,
        Traced.outcome_bind, Traced.outcome_bind, Checking.outcome_within, Checking.outcome_within]
      rw [← sameName] at nameKnown' ⊢
      have added := defined.addDefinition clear clear' nameKnown nameKnown' termRenamed termKnown
        termKnown' fuel
      refine (added.mapFault fun _ _ sameKind => sameKind.within definition.name).bind ?_
      rintro inner inner' ⟨innerBinders, innerDefined⟩
      exact ih innerDefined restKnown restKnown'

theorem run (clear : DistinctFingerprints known) (clear' : DistinctFingerprints known')
    (defined : ctx.RenamedDefinitions known known' binders ctx')
    (termRenamed : Term.Renamed [] term term') (termKnown : term.names ⊆ known)
    (termKnown' : term'.names ⊆ known') (fuel : Nat) :
    Alike Fault.SameKind NormalForm.AlphaEquiv (ctx.run fuel term : Checking NormalForm).outcome
      (ctx'.run fuel term' : Checking NormalForm).outcome := by
  have termAt := defined.renamedAt termRenamed termKnown termKnown'
  have ends := (Deciding.renaming clear clear').run fuel [] () ⟨binders, termAt⟩
  exact Alike.mono ends fun _ _ both => ⟨both.1.alphaEquivUnder, both.2.alphaEquivUnder⟩

end Context.RenamedDefinitions

end Programs

/-- Two programs that differ at most in the names of bound variables run alike: with every bound on
the depth, both reach it, or both have results that are alpha-equivalent, or both fail with a fault of
one kind. So the one diverges exactly when the other does. -/
theorem Program.run_renamed {program program' : Program} (renamed : program.Renamed program')
    (clear : DistinctFingerprints program.names) (clear' : DistinctFingerprints program'.names) :
    (∀ fuel, Alike Fault.SameKind NormalForm.AlphaEquiv
      (program.run fuel : Checking NormalForm).outcome
      (program'.run fuel : Checking NormalForm).outcome) ∧
    ((∀ fuel, (program.run fuel : Checking NormalForm).outcome = .exhausted) ↔
      ∀ fuel, (program'.run fuel : Checking NormalForm).outcome = .exhausted) := by
  have alike : ∀ fuel, Alike Fault.SameKind NormalForm.AlphaEquiv
      (program.run fuel : Checking NormalForm).outcome
      (program'.run fuel : Checking NormalForm).outcome := by
    intro fuel
    have start : Context.empty.RenamedDefinitions program.names program'.names [] .empty :=
      ⟨.empty, fun _ mem => by cases mem⟩
    have added := start.addDefinitions clear clear' renamed.definitions
      (fun _ mem => program.definition_names_subset mem)
      (fun _ mem => program'.definition_names_subset mem) fuel
    rw [run, run, Traced.outcome_bind, Traced.outcome_bind]
    refine added.bind ?_
    rintro ctx ctx' ⟨binders, defined⟩
    exact defined.run clear clear' renamed.body program.body_names_subset
      program'.body_names_subset fuel
  exact ⟨alike, forall_congr' fun fuel => (alike fuel).exhausted_iff⟩

/-- A function that returns the second of two numbers; all its binders have the name of a
definition. -/
def shadowedSecond : Program :=
  ⟨[⟨"n", .the .nat (.add1 .zero)⟩],
    .the (.pi "n" .nat (.pi "n" .nat .nat)) (.lam "n" (.lam "n" (.var "n")))⟩

def spelledSecond : Program :=
  ⟨[⟨"n", .the .nat (.add1 .zero)⟩],
    .the (.pi "a" .nat (.pi "b" .nat .nat)) (.lam "c" (.lam "d" (.var "d")))⟩

theorem shadowedSecond_run_renamed :
    shadowedSecond.Renamed spelledSecond ∧ DistinctFingerprints shadowedSecond.names ∧
      DistinctFingerprints spelledSecond.names ∧
      (shadowedSecond.run 9 : Checking NormalForm).outcome =
        .done ⟨.pi "n'" .nat (.pi "n''" .nat .nat), .lam "n'" (.lam "n''" (.var "n''"))⟩ ∧
      (spelledSecond.run 9 : Checking NormalForm).outcome =
        .done ⟨.pi "a" .nat (.pi "b" .nat .nat), .lam "a" (.lam "b" (.var "b"))⟩ ∧
      (∀ fuel, Alike Fault.SameKind NormalForm.AlphaEquiv
        (shadowedSecond.run fuel : Checking NormalForm).outcome
        (spelledSecond.run fuel : Checking NormalForm).outcome) ∧
      ((∀ fuel, (shadowedSecond.run fuel : Checking NormalForm).outcome = .exhausted) ↔
        ∀ fuel, (spelledSecond.run fuel : Checking NormalForm).outcome = .exhausted) := by
  have renamed : shadowedSecond.Renamed spelledSecond :=
    ⟨.cons ⟨rfl, .the .nat (.add1 .zero)⟩ .nil,
      .the (.pi .nat (.pi .nat .nat)) (.lam (.lam (.var rfl)))⟩
  have clear : DistinctFingerprints shadowedSecond.names := by decide +kernel
  have clear' : DistinctFingerprints spelledSecond.names := by decide +kernel
  exact ⟨renamed, clear, clear', by decide +kernel, by decide +kernel,
    Program.run_renamed renamed clear clear'⟩

end LambdaCalculi.Dependent
