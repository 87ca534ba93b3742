import LambdaCalculi.Proofs.Dependent.Deciding
import LambdaCalculi.Proofs.Dependent.Inlining
import LambdaCalculi.Proofs.Dependent.SubstitutedEvaluation

/-!
# Type checking with definitions put in

What the type checker accepts on the first side, where definitions are entries of the context, it
accepts on the second, where they are put in place of their names and the context may have more
entries. A definition that is put in is checked anew wherever it stands; its type there has to
correspond to the type that the first context has for the name. Comparing types goes by their normal
forms, which differ at most in the names of bound variables.
-/

set_option autoImplicit false

namespace LambdaCalculi.Dependent

open Outcome

/-! ## Environments -/

namespace Env.Substituted

variable {names : BinderPairs} {inlining : Inlining} {env env' : Env} {x : Name} {value value' : Value}
  (closed : inlining.Closed)
  (substituted : ∀ needed, env.Substituted names inlining.substitution needed env')
include closed substituted

/-- A name bound on both sides. -/
theorem bindInlining (related : value.Substituted names value') (x : Name) (needed : List Name) :
    (env.extend x value).Substituted names (inlining.below x).substitution needed
      (env'.extend x value') := by
  rw [← Inlining.substitution_bind]
  refine (substituted _).bind (fun y _ different mem => ?_) related
  exact different (closed.mem_free_substitution mem).1.symm

/-- A name bound on the second side only. -/
theorem more (unbound : x ∉ env.names) (value' : Value) (needed : List Name) :
    env.Substituted names inlining.substitution needed (env'.extend x value') where
  evaluates {y other inner} := by
    rintro ⟨mem, found, agrees, clear⟩
    refine (substituted needed).evaluates ⟨mem, found, fun z inTerm => ?_, clear⟩
    obtain ⟨rfl, _⟩ := closed.mem_free_substitution inTerm
    have different : x ≠ z := fun same => unbound (same ▸ mem_names_of_innermost? found)
    rw [agrees z inTerm, innermost?_extend, if_neg different]

omit closed

/-- A name bound on the first side, for which a term is put in on the second. -/
theorem define (x : Name) {term : Term}
    (evaluates : ∀ inner : Env, inner.Clear term →
      ∃ value', inner.EvaluatesTo term value' ∧ value.Substituted names value')
    (needed : List Name) :
    (env.extend x value).Substituted names (inlining.add x term).substitution needed env' where
  evaluates {y other inner} := by
    rintro ⟨mem, found, agrees, clear⟩
    rw [innermost?_extend] at found
    by_cases same : y = x
    · subst same
      have here : (inlining.add y term).substitution y = term := by
        simp [Inlining.substitution, Inlining.add]
      rw [if_pos rfl] at found
      cases found
      rw [here] at clear ⊢
      exact evaluates inner clear
    · have here : (inlining.add x term).substitution y = inlining.substitution y := by
        simp [Inlining.substitution, Inlining.add, same]
      rw [if_neg (Ne.symm same)] at found
      rw [here] at agrees clear ⊢
      exact (substituted needed).evaluates ⟨mem, found, agrees, clear⟩

end Env.Substituted

/-! ## Contexts -/

theorem Context.type?_cons {ctx inner : Context} {x : Name} {binding : Binding}
    (entries : inner.entries = ⟨x, binding⟩ :: ctx.entries) (y : Name) :
    inner.type? y = if x = y then some binding.type else ctx.type? y := by
  by_cases same : x = y <;> simp [type?, binding?, entries, same]

/-- A name with a type in the first context has one in the second, or a term is put in its place that
has a type everywhere; and the types correspond. -/
structure Context.TypesInlined (names : BinderPairs) (inlining : Inlining) (ctx ctx' : Context) :
    Prop where
  bound : ∀ {x type}, ctx.type? x = some type → inlining x = none →
    ∃ type', ctx'.type? x = some type' ∧ type.Substituted names type'
  replaced : ∀ {x type term} {place : Context}, ctx.type? x = some type → inlining x = some term →
    place.env.Clear term → ∃ type', ChecksTo (fun fuel => place.synth fuel term) (.done type') ∧
      type.Substituted names type'

namespace Context.TypesInlined

variable {names : BinderPairs} {inlining : Inlining} {ctx ctx' inner inner' : Context} {x : Name}
  {binding binding' : Binding}

theorem extend (inlined : ctx.TypesInlined names inlining ctx') {x y : Name} (new : names.New x y) :
    ctx.TypesInlined ((x, y) :: names) inlining ctx' where
  bound found kept := by
    obtain ⟨type', found', related⟩ := inlined.bound found kept
    exact ⟨type', found', related.extend new⟩
  replaced found put clear := by
    obtain ⟨type', run, related⟩ := inlined.replaced found put clear
    exact ⟨type', run, related.extend new⟩

/-- A name bound on both sides. -/
theorem bind (inlined : ctx.TypesInlined names inlining ctx')
    (entries : inner.entries = ⟨x, binding⟩ :: ctx.entries)
    (entries' : inner'.entries = ⟨x, binding'⟩ :: ctx'.entries)
    (related : binding.type.Substituted names binding'.type) :
    inner.TypesInlined names (inlining.below x) inner' where
  bound {y _} found kept := by
    rw [type?_cons entries] at found
    rw [type?_cons entries']
    by_cases same : x = y
    · rw [if_pos same] at found ⊢
      cases found
      exact ⟨binding'.type, rfl, related⟩
    · rw [if_neg same] at found ⊢
      rw [Inlining.below, if_neg (Ne.symm same)] at kept
      exact inlined.bound found kept
  replaced {y _ _ _} found put clear := by
    rw [Inlining.below] at put
    split at put
    · cases put
    · rw [type?_cons entries, if_neg (Ne.symm ‹_›)] at found
      exact inlined.replaced found put clear

/-- A name bound on the first side, for which a term is put in on the second. -/
theorem define (inlined : ctx.TypesInlined names inlining ctx')
    (entries : inner.entries = ⟨x, binding⟩ :: ctx.entries) {term : Term}
    (synthesizes : ∀ place : Context, place.env.Clear term →
      ∃ type', ChecksTo (fun fuel => place.synth fuel term) (.done type') ∧
        binding.type.Substituted names type') :
    inner.TypesInlined names (inlining.add x term) ctx' where
  bound {y _} found kept := by
    rw [Inlining.add] at kept
    split at kept
    · cases kept
    · rw [type?_cons entries, if_neg (Ne.symm ‹_›)] at found
      exact inlined.bound found kept
  replaced {y _ _ place} found put clear := by
    rw [type?_cons entries] at found
    rw [Inlining.add] at put
    by_cases same : x = y
    · rw [if_pos same] at found
      rw [if_pos same.symm] at put
      cases found
      cases put
      exact synthesizes place clear
    · rw [if_neg same] at found
      rw [if_neg (Ne.symm same)] at put
      exact inlined.replaced found put clear

/-- A name bound on the second side only. -/
theorem more (inlined : ctx.TypesInlined names inlining ctx') (unbound : ctx.binding? x = none)
    (entries' : inner'.entries = ⟨x, binding'⟩ :: ctx'.entries) :
    ctx.TypesInlined names inlining inner' where
  bound {y _} found kept := by
    have different : x ≠ y := by
      rintro rfl
      rw [type?, unbound, Option.map_none] at found
      cases found
    rw [type?_cons entries', if_neg different]
    exact inlined.bound found kept
  replaced := inlined.replaced

end Context.TypesInlined

/-- The contexts correspond in the values and in the types of names, and the names of variables are
taken. -/
structure Context.Inlined (names : BinderPairs) (inlining : Inlining) (ctx ctx' : Context) : Prop where
  closed : inlining.Closed
  env : ∀ needed, ctx.env.Substituted names inlining.substitution needed ctx'.env
  types : ctx.TypesInlined names inlining ctx'
  taken : names.TakenIn ctx ctx'

namespace Context.Inlined

variable {names : BinderPairs} {inlining : Inlining} {ctx ctx' : Context}

theorem empty : Context.empty.Inlined [] .empty ctx' where
  closed := .empty
  env _ := .ofValues fun _ _ _ found => by cases found
  types := ⟨(fun found => by cases found), (fun found => by cases found)⟩
  taken := .nil

/-- The contexts with a variable that both have. -/
theorem assume (inlined : ctx.Inlined names inlining ctx') (x : Name) {type type' : Value}
    (related : type.Substituted names type') :
    Follows (fun inner inner' : Context => inner'.env.names = x :: ctx'.env.names ∧
        inner.Inlined ((ctx.freshFor x, ctx'.freshFor x) :: names) (inlining.below x) inner')
      (ctx.assume x type : Outcome Stuck Context)
      fun _ => (ctx'.assume x type' : Outcome Stuck Context) := by
  have new := inlined.taken.new x x
  have related := related.extend new
  refine .done ⟨rfl, inlined.closed.below x, ?_, ?_, inlined.taken.assume rfl rfl⟩
  · exact Env.Substituted.bindInlining inlined.closed (fun needed => (inlined.env needed).extend new)
      (.neutral related (.var (names.links_cons _ _))) x
  · exact (inlined.types.extend new).bind rfl rfl related

end Context.Inlined

/-! ## Synthesis and checking -/

def Verdicts.follows : Verdicts Reading.substitution (Traced Fault) (Traced Fault) where
  Ends results _ _ first second :=
    Follows (results ()) first.outcome fun fuel => (second fuel).outcome
  events _ _ := True
  errors _ _ := True
  done related := .done related
  bind ends nextEnds := by
    simp only [Traced.outcome_bind]
    exact Follows.bind ends fun _ _ related => nextEnds le_rfl related
  spend ends := Follows.spend ends
  spent _ := .exhausted
  compute ends value finished := by
    obtain ⟨value', settled, related⟩ := ends value (mapFault_eq_done_iff.mp finished)
    exact ⟨value', ChecksTo.compute settled, related⟩
  record _ := .done trivial
  reject _ := .failed
  alphaEquiv_eq left right := left.alphaEquiv_eq right
  mismatch _ _ := ⟨trivial, trivial⟩
  wrongFormer _ _ _ _ := trivial
  definition _ := ⟨trivial, trivial⟩

/-- The contexts correspond by an inlining, and with it put into the term, the names on the second
side have different fingerprints. -/
structure Context.InlinedAt (names : BinderPairs) (inlining : Inlining) (ctx ctx' : Context)
    (term : Term) : Prop where
  ctxInlined : ctx.Inlined names inlining ctx'
  clear : ctx'.env.Clear (term.inline inlining)

namespace Context.InlinedAt

variable {names : BinderPairs} {inlining : Inlining} {ctx ctx' : Context} {term part : Term}

theorem sub (inlined : ctx.InlinedAt names inlining ctx' term)
    (included : (part.inline inlining).names ⊆ (term.inline inlining).names := by
      simp +contextual [Term.inline, Term.names, List.subset_def]) :
    ctx.InlinedAt names inlining ctx' part :=
  ⟨inlined.ctxInlined, inlined.clear.mono included⟩

theorem substitutedAt (inlined : ctx.InlinedAt names inlining ctx' term) :
    ctx.env.SubstitutedAt names inlining.substitution ctx'.env term := by
  obtain ⟨ctxInlined, clear⟩ := inlined
  rw [Term.inline_eq_substitute ctxInlined.closed] at clear
  exact ⟨ctxInlined.env _, clear⟩

end Context.InlinedAt

/-- A term that has a type is checked by comparing the type. -/
theorem Context.check_of_synth {ctx : Context} {term : Term} {type : Value}
    (accepts : ChecksTo (fun fuel => do
      let synthesized ← ctx.synth fuel term
      ctx.convert fuel .univ synthesized type) (.done ())) :
    ChecksTo (fun fuel => ctx.check fuel term type) (.done ()) := by
  cases term with
  | lam | cons | zero | add1 | same | sole | tick =>
      obtain ⟨bound, accepts⟩ := accepts
      cases accepts (bound + 1) (Nat.le_succ bound)
  | _ => exact .rule _ _ (fun _ => rfl) accepts

/-- A name has its type on both sides, or the definition in its place is checked anew. -/
theorem Context.InlinedAt.synth_var {names : BinderPairs} {inlining : Inlining} {ctx ctx' : Context}
    {x : Name} (inlined : ctx.InlinedAt names inlining ctx' (.var x)) (fuel : Nat) :
    Follows (Value.Substituted names) (ctx.synth (fuel + 1) (.var x) : Checking Value).outcome
      fun bound => (ctx'.synth bound ((Term.var x).inline inlining) : Checking Value).outcome := by
  obtain ⟨ctxInlined, clear⟩ := inlined
  rw [Term.inline] at clear ⊢
  have synthesized : (ctx.synth (fuel + 1) (.var x) : Checking Value).outcome =
      (ctx.lookupType x : Checking Value).outcome := rfl
  rw [synthesized, lookupType]
  cases found : ctx.type? x with
  | none => exact .failed
  | some type =>
      rintro _ ⟨⟩
      cases put : inlining x with
      | none =>
          obtain ⟨type', found', related⟩ := ctxInlined.types.bound found put
          have looked : (ctx'.lookupType x : Checking Value) = Pure.pure type' := by
            rw [lookupType, found']
          refine ⟨type', ChecksTo.rule _ (fun _ => ctx'.lookupType x) (fun _ => rfl) ?_, related⟩
          rw [looked]
          exact .done type'
      | some term =>
          rw [put] at clear
          exact ctxInlined.types.replaced found put clear

def Deciding.inlining : Deciding Verdicts.follows where
  judged names _ ctx term ctx' term' :=
    ∃ inlining, term' = term.inline inlining ∧ ctx.InlinedAt names inlining ctx' term
  bodies names _ ctx x body ctx' x' body' := ∃ inlining : Inlining, x' = x ∧
    body' = body.inline (inlining.below x) ∧ ctx.Inlined names inlining ctx' ∧
    DistinctFingerprints (x :: ctx'.env.names ++ body'.names)
  judged_mono _ := id
  bodies_mono _ := id
  contexts := by
    rintro _ _ _ _ _ _ ⟨_, _, inlined⟩
    exact inlined.ctxInlined.taken
  scopes := by
    rintro _ _ _ _ term _ ⟨inlining, rfl, inlined⟩
    exact ⟨inlining.substitution, Term.inline_eq_substitute inlined.ctxInlined.closed term,
      inlined.substitutedAt⟩
  parts := by
    rintro names _ ctx ctx' term _ ⟨inlining, rfl, inlined⟩
    have below {x : Name} {body : Term}
        (included : x :: (body.inline (inlining.below x)).names ⊆ (term.inline inlining).names) :
        DistinctFingerprints (x :: ctx'.env.names ++ (body.inline (inlining.below x)).names) :=
      inlined.clear.below included
    cases term <;> constructor <;> first
      | exact True.intro
      | exact ⟨inlining, rfl, inlined.sub⟩
      | exact ⟨inlining, rfl, rfl, inlined.ctxInlined,
          below (by simp +contextual [Term.inline, Term.names, List.subset_def])⟩
  new := by
    rintro _ _ _ _ x _ _ _ ⟨_, rfl, _, ctxInlined, _⟩
    exact ctxInlined.taken.new _ _
  assume := by
    rintro _ _ _ _ _ x _ _ _ _ _ ⟨inlining, rfl, rfl, ctxInlined, clear⟩ related
    refine (ctxInlined.assume _ related).mono ?_
    rintro inner inner' ⟨innerNames, inlined⟩
    refine ⟨_, rfl, inlined, ?_⟩
    rw [Env.Clear, innerNames]
    exact clear
  visits _ := ⟨trivial, trivial, trivial⟩
  lookup := by
    rintro _ fuel _ _ _ _ _ ⟨_, rfl, inlined⟩
    exact inlined.synth_var fuel
  compare := by
    rintro _ _ _ ctx ctx' x _ _ _ ⟨inlining, rfl, _⟩ compared value finished
    obtain ⟨_, accepts, _⟩ := compared value finished
    exact ⟨(), Context.check_of_synth accepts, trivial⟩

namespace Context.InlinedAt

variable {names : BinderPairs} {inlining : Inlining} {ctx ctx' : Context} {term : Term}
  (inlined : ctx.InlinedAt names inlining ctx' term) (fuel : Nat)
include inlined

theorem synth :
    Follows (Value.Substituted names) (ctx.synth fuel term : Checking Value).outcome
      fun fuel => (ctx'.synth fuel (term.inline inlining) : Checking Value).outcome := by
  have judged : Deciding.inlining.judged names () ctx term ctx' (term.inline inlining) :=
    ⟨inlining, rfl, inlined⟩
  exact (Deciding.inlining.decides fuel).synth judged

/-- Where a term has a normal form, the term with definitions put in has one, and the two differ at
most in the names of bound variables. -/
theorem run :
    Follows (fun result result' : NormalForm =>
        Term.Renamed names result.type result'.type ∧ Term.Renamed names result.term result'.term)
      (ctx.run fuel term : Checking NormalForm).outcome
      fun fuel => (ctx'.run fuel (term.inline inlining) : Checking NormalForm).outcome :=
  Deciding.inlining.run fuel names () ⟨inlining, rfl, inlined⟩

end Context.InlinedAt

end LambdaCalculi.Dependent
