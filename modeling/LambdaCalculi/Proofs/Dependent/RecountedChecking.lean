import LambdaCalculi.Proofs.Dependent.Deciding
import LambdaCalculi.Proofs.Dependent.ReachableContexts
import LambdaCalculi.Proofs.Dependent.Recounting

/-!
# Type checking with registers

Type checking with registers records the events of plain type checking on the data recounted, and ends
as it does. So programs run alike with registers and without, and a context that has grown with
registers is, recounted, one that has grown without: what is known of runs in reachable contexts holds
of a sequence of computations that share their registers.
-/

set_option autoImplicit false

namespace LambdaCalculi.Dependent

open Outcome

/-! ## Verdicts -/

/-- From any registers, the first computation records the events of the second and ends as it does. -/
def Verdicts.recounted : Verdicts readingRecounted (Stateful Journal Fault) (Traced Fault) where
  Ends results fuel _ first second := ∀ journal,
    Alike Eq (results ()) (first journal).1 (second fuel).outcome ∧
      (first journal).2.events = (second fuel).events.reverse ++ journal.events
  events := Eq
  errors := Eq
  done related _ := ⟨.done related, rfl⟩
  bind {_ _ _ _ _ _ _ _ first second next next'} ends nextEnds journal := by
    obtain ⟨alike, events⟩ := ends journal
    change Alike Eq _ (Stateful.bind first next journal).1 (Traced.bind (second _) (next' _)).outcome ∧
      (Stateful.bind first next journal).2.events =
        (Traced.bind (second _) (next' _)).events.reverse ++ _
    unfold Stateful.bind Traced.bind
    generalize first journal = ran at alike events ⊢
    generalize second _ = ran' at alike events ⊢
    obtain ⟨outcome, left⟩ := ran
    obtain ⟨events', outcome'⟩ := ran'
    dsimp only at alike events ⊢
    cases alike with
    | done related =>
        obtain ⟨nextAlike, nextEvents⟩ := nextEnds le_rfl related left
        refine ⟨nextAlike, ?_⟩
        -- A journal has the latest event first, a trace the earliest.
        rw [nextEvents, List.reverse_append, List.append_assoc, events]
    | failed same => exact ⟨.failed same, events⟩
    | exhausted => exact ⟨.exhausted, events⟩
  spend ends := ends
  spent atZero _ := by
    rw [atZero]
    exact ⟨.exhausted, rfl⟩
  compute ends journal := ⟨(ends journal.registers).mapFault fun _ _ => congrArg Fault.stuck, rfl⟩
  record same _ := by
    subst same
    exact ⟨.done trivial, rfl⟩
  reject same _ := ⟨.failed (congrArg (Fault.rejected none) same), rfl⟩
  alphaEquiv_eq := by
    rintro _ _ _ _ _ rfl rfl
    rfl
  mismatch := by
    rintro _ _ _ _ _ rfl rfl
    exact ⟨rfl, rfl⟩
  wrongFormer _ _ _ same := congrArg _ same
  definition _ := ⟨rfl, rfl⟩

namespace AccountedChecking

variable {α α' : Type}

/-- Where the result has no tallies in it, the two computations are the same. -/
theorem run_eq {accounted : AccountedChecking α} {fuel : Nat} {plain : Nat → Checking α}
    (ends : Verdicts.recounted.Ends (fun _ => Eq) fuel () accounted plain) (registers : Registers) :
    (accounted.run registers).1 = plain fuel := by
  obtain ⟨alike, events⟩ := ends ⟨registers, []⟩
  simp only [run, events, List.append_nil, List.reverse_reverse, alike.eq]

theorem of_run_eq_done {results : Unit → α → α' → Prop} {accounted : AccountedChecking α} {fuel : Nat}
    {plain : Nat → Checking α'} (ends : Verdicts.recounted.Ends results fuel () accounted plain)
    {registers : Registers} {value : α} (finished : (accounted.run registers).1.outcome = .done value) :
    ∃ value', (plain fuel).outcome = .done value' ∧ results () value value' :=
  (ends ⟨registers, []⟩).1.of_done finished

end AccountedChecking

def decidingRecounted : Deciding Verdicts.recounted where
  judged _ _ ctx term ctx' term' := ctx.recount = ctx' ∧ term = term'
  bodies _ _ ctx x body ctx' x' body' := ctx.recount = ctx' ∧ x = x' ∧ body = body'
  judged_mono _ := id
  bodies_mono _ := id
  contexts related := related.1
  scopes related := ⟨congrArg Context.env related.1, related.2⟩
  parts := by
    rintro _ _ ctx _ term _ ⟨rfl, rfl⟩
    cases term <;> constructor <;> trivial
  new := by
    rintro _ _ ctx _ x _ _ _ ⟨rfl, rfl, rfl⟩
    exact (ctx.freshFor_recount x).symm
  assume := by
    rintro _ fuel _ ctx _ x _ body _ type _ ⟨rfl, rfl, rfl⟩ rfl
    exact Comparison.accounted.mono (ctx.assume_recounts x fuel type) fun _ same => ⟨same, rfl⟩
  visits := by
    rintro _ _ _ _ _ _ ⟨rfl, rfl⟩
    exact ⟨rfl, rfl, rfl⟩
  lookup := by
    rintro _ fuel _ ctx _ x _ ⟨rfl, rfl⟩
    refine Verdicts.recounted.synth_var rfl fun _ => ?_
    simp only [Context.lookupType, ctx.type?_recount x]
    cases ctx.type? x with
    | none => exact Verdicts.recounted.reject rfl
    | some type => exact Verdicts.recounted.done rfl
  compare := by
    rintro _ _ _ ctx _ x _ _ _ ⟨rfl, rfl⟩ compared
    exact Verdicts.recounted.check_var compared

/-! ## Programs and growing contexts -/

namespace Context

theorem addDefinition_recounted (fuel : Nat) (ctx : Context) (x : Name) (term : Term) :
    Verdicts.recounted.Ends
      (fun _ inner inner' => recount inner = inner' ∧ ∃ binding, ctx.Adds x binding inner) fuel ()
      (ctx.addDefinition fuel x term) fun bound => ctx.recount.addDefinition bound x term := by
  refine decidingRecounted.addDefinition fuel () () x ⟨rfl, rfl⟩ ?_ fun _ types values => ?_
  · rw [ctx.binding?_recount x, Option.isSome_map]
  · obtain rfl := types
    obtain rfl := values
    exact fun _ => .done ⟨rfl, .defined _ _, rfl, _, rfl⟩

theorem addDefinitions_recounted (fuel : Nat) (ctx : Context) (definitions : List Definition) :
    Verdicts.recounted.Ends (fun _ inner inner' => recount inner = inner') fuel ()
      (ctx.addDefinitions fuel definitions)
      fun bound => ctx.recount.addDefinitions bound definitions := by
  induction definitions generalizing ctx with
  | nil => exact Verdicts.recounted.done rfl
  | cons definition rest ih =>
      simp only [addDefinitions, List.foldlM_cons] at ih ⊢
      have added : Verdicts.recounted.Ends (fun _ inner inner' => recount inner = inner') fuel ()
          (Judging.within definition.name (ctx.addDefinition fuel definition.name definition.term))
          fun bound => Judging.within definition.name
            (ctx.recount.addDefinition bound definition.name definition.term) := by
        intro journal
        obtain ⟨alike, events⟩ :=
          ctx.addDefinition_recounted fuel definition.name definition.term journal
        have within := alike.mapFault fun _ _ => congrArg (Fault.within definition.name)
        exact ⟨within.mono fun _ _ related => related.1, events⟩
      refine Verdicts.recounted.bind added fun _ same => ?_
      subst same
      exact ih _

theorem run_recounted (fuel : Nat) (ctx : Context) (term : Term) :
    Verdicts.recounted.Ends (fun _ => Eq) fuel () (ctx.run fuel term)
      fun bound => ctx.recount.run bound term := by
  intro journal
  obtain ⟨alike, events⟩ := decidingRecounted.run fuel () () ⟨rfl, rfl⟩ journal
  refine ⟨alike.mono ?_, events⟩
  rintro ⟨_, _⟩ ⟨_, _⟩ ⟨rfl, rfl⟩
  rfl

/-- A context grows by a variable, or by a definition that is accepted. The registers at the time decide
how its names are counted. -/
inductive AccountedStep (ctx : Context) : Context → Prop where
  | assume {x : Name} {type : Value} {inner : Context} {registers : Registers}
      (run : ((ctx.assume x type : Accounting Context) registers).1 = .done inner) :
      AccountedStep ctx inner
  | define {fuel : Nat} {x : Name} {term : Term} {inner : Context} {registers : Registers}
      (run : ((ctx.addDefinition fuel x term : AccountedChecking Context).run registers).1.outcome =
        .done inner) :
      AccountedStep ctx inner

variable {ctx inner : Context}

theorem AccountedStep.recount (step : ctx.AccountedStep inner) :
    ctx.recount.Step inner.recount := by
  cases step with
  | @assume x type _ registers run =>
      obtain ⟨_, run', rfl⟩ := Alike.of_done (ctx.assume_recounts x 0 type registers) run
      exact .assume run'
  | @define fuel x term _ registers run =>
      obtain ⟨_, run', rfl, _⟩ := AccountedChecking.of_run_eq_done
        (ctx.addDefinition_recounted fuel x term) run
      exact .define run'

theorem AccountedStep.adds (step : ctx.AccountedStep inner) :
    ∃ x binding, ctx.Adds x binding inner := by
  cases step with
  | @assume x type _ registers run =>
      cases run
      exact ⟨x, _, rfl, _, rfl⟩
  | @define fuel x term _ registers run =>
      obtain ⟨_, _, _, adds⟩ := AccountedChecking.of_run_eq_done
        (ctx.addDefinition_recounted fuel x term) run
      exact ⟨x, adds⟩

theorem reachable_recount (grown : Relation.ReflTransGen AccountedStep empty ctx) :
    ctx.recount.Reachable := by
  induction grown with
  | refl => exact .refl
  | tail _ step ih => exact ih.tail step.recount

/-- In a context that has grown with registers, every term runs as it does in one that has grown without
and has the same names, whatever the registers hold by then. -/
theorem run_of_grown (grown : Relation.ReflTransGen AccountedStep empty ctx) :
    ∃ plain : Context, plain.Reachable ∧ plain.names = ctx.names ∧
      ∀ (fuel : Nat) (term : Term) (registers : Registers),
        ((ctx.run fuel term : AccountedChecking NormalForm).run registers).1 = plain.run fuel term := by
  refine ⟨ctx.recount, reachable_recount grown, ctx.names_recount, ?_⟩
  intro fuel term registers
  exact AccountedChecking.run_eq (ctx.run_recounted fuel term) registers

end Context

/-- A program runs with registers as it does without, whatever they hold. -/
theorem Program.run_recounted (program : Program) (fuel : Nat) (registers : Registers) :
    ((program.run fuel : AccountedChecking NormalForm).run registers).1 = program.run fuel := by
  suffices ends : Verdicts.recounted.Ends (fun _ => Eq) fuel () (program.run fuel)
      fun bound => program.run bound from AccountedChecking.run_eq ends registers
  refine Verdicts.recounted.bind
    (Context.empty.addDefinitions_recounted fuel program.definitions) fun _ same => ?_
  subst same
  exact Context.run_recounted fuel _ program.body

end LambdaCalculi.Dependent
