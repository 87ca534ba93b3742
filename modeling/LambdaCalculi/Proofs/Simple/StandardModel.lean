import LambdaCalculi.Proofs.Freshness
import LambdaCalculi.Proofs.Simple.Acceptance

/-!
# The standard model of the simply typed calculus

Types are interpreted by the natural numbers and by all functions between interpretations, and
`Term.meaning` gives the element that a term denotes. A value realizes an element that may depend on
the elements its variables stand for: a number is the number, a function takes realized arguments to
realized results, and a blocked computation is read back to a term that denotes the element. The value
of an accepted term realizes what the term denotes, and so does its normal form.
-/

set_option autoImplicit false

namespace LambdaCalculi.Simple

open Outcome

def Ty.Meaning : Ty → Type
  | nat => Nat
  | arrow domain codomain => domain.Meaning → codomain.Meaning

/-- Some element of a type, for terms that have no meaning at it. -/
def Ty.someElement : (type : Ty) → type.Meaning
  | nat => Nat.zero
  | arrow _ codomain => fun _ => codomain.someElement

/-- The elements of the names in scope with their types, the innermost binding first. -/
abbrev Interpretation := List (Name × (type : Ty) × type.Meaning)

def Interpretation.context (interpretation : Interpretation) : Context :=
  interpretation.map fun (x, element) => (x, element.1)

/-- The element as one of the given type. -/
def Ty.elementAt (type : Ty) : Option ((type : Ty) × type.Meaning) → type.Meaning
  | some ⟨found, element⟩ => if same : found = type then same ▸ element else type.someElement
  | none => type.someElement

/-- Primitive recursion: the base at zero, and the step at a successor and at the element before. -/
def Ty.iterate {type : Ty} (base : type.Meaning) (step : type.step.Meaning) : Nat → type.Meaning
  | 0 => base
  | number + 1 => step number (iterate base step number)

/-- The element that a term denotes at a type which it has. The argument of a function is taken at
the domain of the type that is found for the function. -/
def Term.meaning (interpretation : Interpretation) : Term → (type : Ty) → type.Meaning
  | var x => fun type => type.elementAt (interpretation.lookup x)
  | lam x body => fun
      | .arrow domain codomain => fun argument =>
          body.meaning ((x, ⟨domain, argument⟩) :: interpretation) codomain
      | .nat => Ty.nat.someElement
  | app function argument => fun type =>
      match function.synth interpretation.context with
      | .ok (.arrow domain _) =>
          function.meaning interpretation (.arrow domain type) (argument.meaning interpretation domain)
      | _ => type.someElement
  | zero => Ty.someElement
  | add1 predecessor => fun
      | .nat => Nat.succ (predecessor.meaning interpretation .nat)
      | type => type.someElement
  | recNat _ target base step => fun type =>
      Ty.iterate (base.meaning interpretation type) (step.meaning interpretation type.step)
        (target.meaning interpretation .nat)
  | ann expr _ => expr.meaning interpretation

theorem Ty.elementAt_self {type : Ty} (element : type.Meaning) :
    type.elementAt (some ⟨type, element⟩) = element := by
  rw [elementAt, dif_pos rfl]

theorem Term.meaning_var (interpretation : Interpretation) (x : Name) (type : Ty) :
    (var x).meaning interpretation type = type.elementAt (interpretation.lookup x) := rfl

theorem Term.meaning_recNat (interpretation : Interpretation) (found type : Ty)
    (target base step : Term) :
    (recNat found target base step).meaning interpretation type =
      Ty.iterate (base.meaning interpretation type) (step.meaning interpretation type.step)
        (target.meaning interpretation .nat) := rfl

theorem Term.meaning_app {interpretation : Interpretation} {function argument : Term}
    {domain codomain : Ty}
    (found : function.synth interpretation.context = .ok (.arrow domain codomain)) (type : Ty) :
    (app function argument).meaning interpretation type =
      function.meaning interpretation (.arrow domain type)
        (argument.meaning interpretation domain) := by
  rw [meaning, found]

/-! ## Variables and the elements they stand for -/

abbrev Valuation := Name → (type : Ty) → type.Meaning

namespace Context

def interpret (valuation : Valuation) (vars : Context) : Interpretation :=
  vars.map fun (x, type) => (x, ⟨type, valuation x type⟩)

theorem context_interpret (valuation : Valuation) (vars : Context) :
    (vars.interpret valuation).context = vars := by
  rw [Interpretation.context, interpret, List.map_map]
  exact List.map_id vars

theorem lookup_interpret (valuation : Valuation) {vars : Context} {x : Name} {type : Ty}
    (found : vars.lookup x = some type) :
    (vars.interpret valuation).lookup x = some ⟨type, valuation x type⟩ := by
  induction vars with
  | nil => cases found
  | cons entry outer ih =>
      obtain ⟨y, other⟩ := entry
      by_cases same : x = y
      · subst same
        rw [List.lookup_cons_self] at found
        cases found
        exact List.lookup_cons_self
      · have different : (x == y) = false := beq_false_of_ne same
        rw [List.lookup_cons, different] at found
        rw [interpret, List.map_cons, List.lookup_cons, different]
        exact ih found

end Context

namespace Valuation

def AgreeOn (vars : Context) (first second : Valuation) : Prop :=
  ∀ x type, vars.lookup x = some type → first x type = second x type

def update (valuation : Valuation) (x : Name) (type : Ty) (element : type.Meaning) : Valuation :=
  fun y other => if y = x then other.elementAt (some ⟨type, element⟩) else valuation y other

theorem update_self (valuation : Valuation) (x : Name) {type : Ty} (element : type.Meaning) :
    valuation.update x type element x type = element := by
  rw [update, if_pos rfl, Ty.elementAt_self]

theorem agreeOn_update {vars : Context} (valuation : Valuation) {x : Name}
    (new : x ∉ vars.names) {type : Ty} (element : type.Meaning) :
    AgreeOn vars (valuation.update x type element) valuation := by
  intro y other found
  have different : y ≠ x := fun same => new (same ▸ Context.mem_names_of_lookup found)
  rw [update, if_neg different]

theorem AgreeOn.of_extends {more vars : Context} {first second : Valuation}
    (agree : AgreeOn more first second) (larger : more.Extends vars) :
    AgreeOn vars first second :=
  fun x type found => agree x type (larger x type found)

end Valuation

theorem Context.interpret_update {vars : Context} (valuation : Valuation) {x : Name}
    (new : x ∉ vars.names) {type : Ty} (element : type.Meaning) :
    Context.interpret (valuation.update x type element) ((x, type) :: vars) =
      (x, ⟨type, element⟩) :: vars.interpret valuation := by
  have others : vars.interpret (valuation.update x type element) = vars.interpret valuation := by
    refine List.map_congr_left ?_
    rintro ⟨y, other⟩ mem
    have different : y ≠ x := by
      rintro rfl
      exact new (List.mem_map_of_mem mem)
    simp only [Valuation.update, if_neg different]
  rw [← others, interpret, List.map_cons]
  simp only [Valuation.update_self]
  rfl

def DependsOn {α : Type} (vars : Context) (element : Valuation → α) : Prop :=
  ∀ first second, Valuation.AgreeOn vars first second → element first = element second

theorem DependsOn.of_extends {α : Type} {more vars : Context} {element : Valuation → α}
    (depends : DependsOn vars element) (larger : more.Extends vars) :
    DependsOn more element :=
  fun first second agree => depends first second (agree.of_extends larger)

/-! ## Values that realize elements -/

/-- Among any further variables, what the blocked computation is read back to has the type and denotes
the element. -/
structure Neutral.Realizes (vars : Context) (type : Ty) (blocked : Neutral)
    (element : Valuation → type.Meaning) : Prop where
  depends : DependsOn vars element
  reads : ∀ {more : Context} {used : List Name} {fuel : Nat} {term : Term},
    more.Extends vars → more.names ⊆ used → blocked.readBack fuel used = .done term →
    term.synth more = .ok type ∧
      ∀ valuation, term.meaning (more.interpret valuation) type = element valuation

inductive Value.RealizesNat (vars : Context) : Value → (Valuation → Nat) → Prop where
  | zero : RealizesNat vars .zero fun _ => Nat.zero
  | add1 {predecessor : Value} {element : Valuation → Nat} :
      RealizesNat vars predecessor element →
      RealizesNat vars (.add1 predecessor) fun valuation => Nat.succ (element valuation)
  | neutral {blocked : Neutral} {element : Valuation → Nat} :
      blocked.Realizes vars .nat element → RealizesNat vars (.neutral .nat blocked) element

def Value.Realizes : (type : Ty) → Context → Value → (Valuation → type.Meaning) → Prop
  | .nat, vars, value, element => RealizesNat vars value element
  | .arrow domain codomain, vars, value, element =>
      DependsOn vars element ∧
        ∀ (more : Context) (argument : Value) (argumentElement : Valuation → domain.Meaning),
          more.Extends vars → Realizes domain more argument argumentElement →
          ∀ fuel result, value.apply fuel argument = .done result →
            Realizes codomain more result fun valuation =>
              element valuation (argumentElement valuation)

theorem Neutral.Realizes.weaken {more vars : Context} {type : Ty} {blocked : Neutral}
    {element : Valuation → type.Meaning} (realizes : blocked.Realizes vars type element)
    (larger : more.Extends vars) : blocked.Realizes more type element :=
  ⟨realizes.depends.of_extends larger, fun largest => realizes.reads (largest.trans larger)⟩

theorem Neutral.Realizes.var {vars : Context} {x : Name} {type : Ty}
    (found : vars.lookup x = some type) :
    (Neutral.var x).Realizes vars type fun valuation => valuation x type := by
  refine ⟨fun first second agree => agree x type found, ?_⟩
  intro more used fuel term larger inside read
  cases fuel with
  | zero => simp [Neutral.readBack] at read
  | succ fuel =>
      simp only [Neutral.readBack, Outcome.done.injEq] at read
      subst read
      have place := larger x type found
      refine ⟨by rw [Term.synth, place], fun valuation => ?_⟩
      rw [Term.meaning_var, Context.lookup_interpret valuation place, Ty.elementAt_self]

namespace Value.RealizesNat

variable {vars : Context} {value : Value} {element : Valuation → Nat}

theorem depends (realizes : RealizesNat vars value element) : DependsOn vars element := by
  induction realizes with
  | zero => exact fun _ _ _ => rfl
  | add1 _ ih => exact fun first second agree => congrArg Nat.succ (ih first second agree)
  | neutral blocked => exact blocked.depends

theorem weaken {more : Context} (realizes : RealizesNat vars value element)
    (larger : more.Extends vars) : RealizesNat more value element := by
  induction realizes with
  | zero => exact .zero
  | add1 _ ih => exact .add1 ih
  | neutral blocked => exact .neutral (blocked.weaken larger)

theorem reads (realizes : RealizesNat vars value element) {used : List Name} {fuel : Nat}
    {term : Term} (inside : vars.names ⊆ used)
    (read : value.readBack fuel used .nat = .done term) :
    term.check vars .nat = .ok () ∧
      ∀ valuation, term.meaning (vars.interpret valuation) .nat = element valuation := by
  induction realizes generalizing fuel term with
  | zero =>
      cases fuel with
      | zero => simp [Value.readBack] at read
      | succ fuel =>
          simp only [Value.readBack, Outcome.done.injEq] at read
          subst read
          exact ⟨by rw [Term.check], fun _ => rfl⟩
  | add1 _ ih =>
      cases fuel with
      | zero => simp [Value.readBack] at read
      | succ fuel =>
          simp only [Value.readBack] at read
          obtain ⟨predecessor, predecessorRead, finished⟩ := bind_eq_done_iff.mp read
          cases finished
          obtain ⟨checked, denotes⟩ := ih predecessorRead
          exact ⟨by rw [Term.check, checked], fun valuation => congrArg Nat.succ (denotes valuation)⟩
  | neutral blocked =>
      cases fuel with
      | zero => simp [Value.readBack] at read
      | succ fuel =>
          simp only [Value.readBack] at read
          obtain ⟨found, denotes⟩ := blocked.reads (.refl vars) inside read
          exact ⟨Term.check_of_synth found, denotes⟩

end Value.RealizesNat

namespace Value.Realizes

theorem depends {type : Ty} {vars : Context} {value : Value}
    {element : Valuation → type.Meaning} (realizes : Realizes type vars value element) :
    DependsOn vars element := by
  cases type with
  | nat => exact RealizesNat.depends realizes
  | arrow domain codomain => exact realizes.1

theorem weaken {type : Ty} {more vars : Context} {value : Value}
    {element : Valuation → type.Meaning} (realizes : Realizes type vars value element)
    (larger : more.Extends vars) : Realizes type more value element := by
  cases type with
  | nat => exact RealizesNat.weaken realizes larger
  | arrow domain codomain =>
      exact ⟨realizes.1.of_extends larger, fun most argument argumentElement largest =>
        realizes.2 most argument argumentElement (largest.trans larger)⟩

/-- A function is read back through its application to a new variable. -/
theorem reads_function {domain codomain : Ty} {vars : Context} {value : Value}
    {element : Valuation → (Ty.arrow domain codomain).Meaning}
    (realizes : Realizes (.arrow domain codomain) vars value element)
    (newVariable : ∀ {vars : Context} {x : Name}, vars.lookup x = some domain →
      Realizes domain vars (.ofVar domain x) fun valuation => valuation x domain)
    (bodyReads : ∀ {vars : Context} {value : Value} {element : Valuation → codomain.Meaning}
      {used : List Name} {fuel : Nat} {term : Term}, Realizes codomain vars value element →
      vars.names ⊆ used → value.readBack fuel used codomain = .done term →
      term.check vars codomain = .ok () ∧
        ∀ valuation, term.meaning (vars.interpret valuation) codomain = element valuation)
    {used : List Name} {fuel : Nat} {term : Term} (inside : vars.names ⊆ used)
    (read : value.readBack fuel used (.arrow domain codomain) = .done term) :
    term.check vars (.arrow domain codomain) = .ok () ∧
      ∀ valuation, term.meaning (vars.interpret valuation) (.arrow domain codomain) =
        element valuation := by
  cases fuel with
  | zero => simp [Value.readBack] at read
  | succ fuel =>
      simp only [Value.readBack] at read
      obtain ⟨body, applied, read⟩ := bind_eq_done_iff.mp read
      obtain ⟨bodyTerm, bodyRead, finished⟩ := bind_eq_done_iff.mp read
      cases finished
      have fresh := Name.fresh_not_mem used value.argumentName
      generalize Name.fresh used value.argumentName = x at *
      have new : x ∉ vars.names := fun mem => fresh (inside mem)
      have bodyRealizes := realizes.2 ((x, domain) :: vars) _ _
        (Context.extends_cons new domain) (newVariable List.lookup_cons_self) _ _ applied
      obtain ⟨checked, denotes⟩ :=
        bodyReads bodyRealizes (List.cons_subset_cons x inside) bodyRead
      refine ⟨by rw [Term.check, checked], fun valuation => ?_⟩
      funext argument
      have atArgument := denotes (valuation.update x domain argument)
      rw [Context.interpret_update valuation new, Valuation.update_self,
        realizes.1 _ _ (valuation.agreeOn_update new argument)] at atArgument
      exact atArgument

/-- Blocked computations realize what their terms denote, and a value is read back to a term that
denotes what the value realizes. The two facts need each other at the parts of a function type. -/
theorem neutral_and_reads (type : Ty) :
    (∀ {vars : Context} {blocked : Neutral} {element : Valuation → type.Meaning},
        blocked.Realizes vars type element →
        Realizes type vars (.neutral type blocked) element) ∧
      ∀ {vars : Context} {value : Value} {element : Valuation → type.Meaning}
        {used : List Name} {fuel : Nat} {term : Term}, Realizes type vars value element →
        vars.names ⊆ used → value.readBack fuel used type = .done term →
        term.check vars type = .ok () ∧
          ∀ valuation, term.meaning (vars.interpret valuation) type = element valuation := by
  induction type with
  | nat => exact ⟨.neutral, fun realizes => RealizesNat.reads realizes⟩
  | arrow domain codomain domainIH codomainIH =>
      refine ⟨?_, fun realizes => realizes.reads_function (fun found => domainIH.1 (.var found))
        codomainIH.2⟩
      intro vars blocked element blockedRealizes
      refine ⟨blockedRealizes.depends, ?_⟩
      intro more argument argumentElement larger argumentRealizes fuel result applied
      cases fuel with
      | zero => simp [Value.apply] at applied
      | succ fuel =>
          simp only [Value.apply, Outcome.done.injEq] at applied
          subst applied
          refine codomainIH.1 ⟨?_, ?_⟩
          · intro first second agree
            simp only [blockedRealizes.depends first second (agree.of_extends larger),
              argumentRealizes.depends first second agree]
          · intro most used fuel term largest inside read
            cases fuel with
            | zero => simp [Neutral.readBack] at read
            | succ fuel =>
                simp only [Neutral.readBack] at read
                obtain ⟨functionTerm, functionRead, read⟩ := bind_eq_done_iff.mp read
                obtain ⟨argumentTerm, argumentRead, finished⟩ := bind_eq_done_iff.mp read
                cases finished
                cases fuel with
                | zero => simp [Normal.readBack] at argumentRead
                | succ fuel =>
                    simp only [Normal.readBack] at argumentRead
                    obtain ⟨functionFound, functionDenotes⟩ :=
                      blockedRealizes.reads (largest.trans larger) inside functionRead
                    obtain ⟨argumentChecked, argumentDenotes⟩ :=
                      domainIH.2 (argumentRealizes.weaken largest) inside argumentRead
                    refine ⟨Term.synth_app functionFound argumentChecked, fun valuation => ?_⟩
                    rw [Term.meaning_app (by rw [Context.context_interpret]; exact functionFound),
                      functionDenotes, argumentDenotes]

theorem neutral {type : Ty} {vars : Context} {blocked : Neutral}
    {element : Valuation → type.Meaning} (realizes : blocked.Realizes vars type element) :
    Realizes type vars (.neutral type blocked) element :=
  (neutral_and_reads type).1 realizes

theorem reads {type : Ty} {vars : Context} {value : Value} {element : Valuation → type.Meaning}
    {used : List Name} {fuel : Nat} {term : Term} (realizes : Realizes type vars value element)
    (inside : vars.names ⊆ used) (read : value.readBack fuel used type = .done term) :
    term.check vars type = .ok () ∧
      ∀ valuation, term.meaning (vars.interpret valuation) type = element valuation :=
  (neutral_and_reads type).2 realizes inside read

theorem apply {domain codomain : Ty} {vars : Context} {function argument result : Value}
    {element : Valuation → (Ty.arrow domain codomain).Meaning}
    {argumentElement : Valuation → domain.Meaning} {fuel : Nat}
    (functionRealizes : Realizes (.arrow domain codomain) vars function element)
    (argumentRealizes : Realizes domain vars argument argumentElement)
    (applied : function.apply fuel argument = .done result) :
    Realizes codomain vars result fun valuation =>
      element valuation (argumentElement valuation) :=
  functionRealizes.2 vars argument argumentElement (.refl vars) argumentRealizes fuel result
    applied

end Value.Realizes

/-- A blocked recursion is read back to a recursion with the base and the step in normal form. -/
theorem Neutral.Realizes.recNat {vars : Context} {type : Ty} {blocked : Neutral}
    {base step : Value} {targetElement : Valuation → Nat} {baseElement : Valuation → type.Meaning}
    {stepElement : Valuation → type.step.Meaning}
    (targetRealizes : blocked.Realizes vars .nat targetElement)
    (baseRealizes : base.Realizes type vars baseElement)
    (stepRealizes : step.Realizes type.step vars stepElement) :
    (Neutral.recNat type blocked (.mk type base) (.mk type.step step)).Realizes vars type
      fun valuation =>
        Ty.iterate (baseElement valuation) (stepElement valuation) (targetElement valuation) := by
  refine ⟨?_, ?_⟩
  · intro first second agree
    simp only [targetRealizes.depends first second agree, baseRealizes.depends first second agree,
      stepRealizes.depends first second agree]
  · intro more used fuel term larger inside read
    cases fuel with
    | zero => simp [Neutral.readBack] at read
    | succ fuel =>
        simp only [Neutral.readBack] at read
        obtain ⟨targetTerm, targetRead, read⟩ := bind_eq_done_iff.mp read
        obtain ⟨baseTerm, baseRead, read⟩ := bind_eq_done_iff.mp read
        obtain ⟨stepTerm, stepRead, finished⟩ := bind_eq_done_iff.mp read
        cases finished
        cases fuel with
        | zero => simp [Normal.readBack] at baseRead
        | succ fuel =>
            simp only [Normal.readBack] at baseRead stepRead
            obtain ⟨targetFound, targetDenotes⟩ := targetRealizes.reads larger inside targetRead
            obtain ⟨baseChecked, baseDenotes⟩ := (baseRealizes.weaken larger).reads inside baseRead
            obtain ⟨stepChecked, stepDenotes⟩ := (stepRealizes.weaken larger).reads inside stepRead
            refine ⟨Term.synth_recNat targetFound baseChecked stepChecked, fun valuation => ?_⟩
            rw [Term.meaning_recNat, targetDenotes, baseDenotes, stepDenotes]

theorem Value.RealizesNat.recurse {vars : Context} {type : Ty} {target base step : Value}
    {targetElement : Valuation → Nat} {baseElement : Valuation → type.Meaning}
    {stepElement : Valuation → type.step.Meaning}
    (targetRealizes : RealizesNat vars target targetElement)
    (baseRealizes : base.Realizes type vars baseElement)
    (stepRealizes : step.Realizes type.step vars stepElement) {fuel : Nat} {result : Value}
    (recursed : target.recNat fuel type base step = .done result) :
    result.Realizes type vars fun valuation =>
      Ty.iterate (baseElement valuation) (stepElement valuation) (targetElement valuation) := by
  induction targetRealizes generalizing fuel result with
  | zero =>
      cases fuel with
      | zero => simp [Value.recNat] at recursed
      | succ fuel =>
          simp only [Value.recNat, Outcome.done.injEq] at recursed
          subst recursed
          exact baseRealizes
  | add1 predecessorRealizes ih =>
      cases fuel with
      | zero => simp [Value.recNat] at recursed
      | succ fuel =>
          simp only [Value.recNat] at recursed
          obtain ⟨stepAt, stepApplied, recursed⟩ := bind_eq_done_iff.mp recursed
          obtain ⟨almost, almostRun, applied⟩ := bind_eq_done_iff.mp recursed
          have stepAtRealizes := stepRealizes.apply predecessorRealizes stepApplied
          exact Realizes.apply stepAtRealizes (ih almostRun) applied
  | neutral blockedRealizes =>
      cases fuel with
      | zero => simp [Value.recNat] at recursed
      | succ fuel =>
          simp only [Value.recNat, Outcome.done.injEq] at recursed
          subst recursed
          exact .neutral (blockedRealizes.recNat baseRealizes stepRealizes)

/-! ## Terms -/

/-- The values of the environment realize the elements of the interpretation, which may depend on the
variables. -/
structure Env.Realizes (ctx vars : Context) (env : Env)
    (interpretation : Valuation → Interpretation) : Prop where
  depends : DependsOn vars interpretation
  context : ∀ valuation, (interpretation valuation).context = ctx
  values : ∀ x type, ctx.lookup x = some type →
    ∃ value element, env.lookup? x = some value ∧ value.Realizes type vars element ∧
      ∀ valuation, (interpretation valuation).lookup x = some ⟨type, element valuation⟩

theorem Env.Realizes.extend {ctx vars more : Context} {env : Env}
    {interpretation : Valuation → Interpretation} (realizes : env.Realizes ctx vars interpretation)
    (larger : more.Extends vars) (x : Name) {domain : Ty} {argument : Value}
    {element : Valuation → domain.Meaning} (argumentRealizes : argument.Realizes domain more element) :
    (env.extend x argument).Realizes ((x, domain) :: ctx) more fun valuation =>
      (x, ⟨domain, element valuation⟩) :: interpretation valuation := by
  refine ⟨?_, fun valuation => congrArg ((x, domain) :: ·) (realizes.context valuation), ?_⟩
  · intro first second agree
    simp only [argumentRealizes.depends first second agree,
      realizes.depends first second (agree.of_extends larger)]
  · intro y type found
    by_cases same : y = x
    · subst same
      rw [List.lookup_cons_self] at found
      cases found
      exact ⟨argument, element, if_pos rfl, argumentRealizes, fun _ => List.lookup_cons_self⟩
    · have different : (y == x) = false := beq_false_of_ne same
      rw [List.lookup_cons, different] at found
      obtain ⟨value, valueElement, bound, valueRealizes, lookup⟩ := realizes.values y type found
      refine ⟨value, valueElement, ?_, valueRealizes.weaken larger, fun valuation => ?_⟩
      · rw [Env.extend, Env.lookup?, if_neg (Ne.symm same)]
        exact bound
      · rw [List.lookup_cons, different]
        exact lookup valuation

structure Term.Realized (term : Term) : Prop where
  synth : ∀ {ctx vars : Context} {env : Env} {interpretation : Valuation → Interpretation}
    {type : Ty} {fuel : Nat} {value : Value}, env.Realizes ctx vars interpretation →
    term.synth ctx = .ok type → env.eval fuel term = .done value →
    value.Realizes type vars fun valuation => term.meaning (interpretation valuation) type
  check : ∀ {ctx vars : Context} {env : Env} {interpretation : Valuation → Interpretation}
    {type : Ty} {fuel : Nat} {value : Value}, env.Realizes ctx vars interpretation →
    term.check ctx type = .ok () → env.eval fuel term = .done value →
    value.Realizes type vars fun valuation => term.meaning (interpretation valuation) type

namespace Term

/-- A term that is checked by finding its type. -/
theorem Realized.ofSynth {term : Term} (notFunction : term.isFunction = false)
    (notNumeral : term.isNumeral = false)
    (synth : ∀ {ctx vars : Context} {env : Env} {interpretation : Valuation → Interpretation}
      {type : Ty} {fuel : Nat} {value : Value}, env.Realizes ctx vars interpretation →
      term.synth ctx = .ok type → env.eval fuel term = .done value →
      value.Realizes type vars fun valuation => term.meaning (interpretation valuation) type) :
    term.Realized := by
  refine ⟨synth, ?_⟩
  intro ctx vars env interpretation type fuel value realizes accepted evaluated
  exact synth realizes ((check_iff_synth notFunction notNumeral).mp accepted) evaluated

/-- The value of an accepted term realizes what the term denotes. -/
theorem realized (term : Term) : term.Realized := by
  induction term with
  | var x =>
      refine .ofSynth rfl rfl ?_
      intro ctx vars env interpretation type fuel value realizes found evaluated
      cases fuel with
      | zero => simp [Env.eval] at evaluated
      | succ fuel =>
          obtain ⟨bound, element, place, boundRealizes, denoted⟩ :=
            realizes.values x type (synth_var_iff.mp found)
          simp only [Env.eval, place, Outcome.ofOption, Outcome.done.injEq] at evaluated
          subst evaluated
          simp only [meaning_var, denoted, Ty.elementAt_self]
          exact boundRealizes
  | lam x body ih =>
      refine ⟨fun _ found => ?_, ?_⟩
      · simp [synth] at found
      · intro ctx vars env interpretation type fuel value realizes accepted evaluated
        obtain ⟨domain, codomain, rfl, bodyAccepted⟩ := check_lam_iff.mp accepted
        cases fuel with
        | zero => simp [Env.eval] at evaluated
        | succ fuel =>
            simp only [Env.eval, Outcome.done.injEq] at evaluated
            subst evaluated
            refine ⟨fun first second agree => congrArg (fun elements =>
              (lam x body).meaning elements (.arrow domain codomain))
              (realizes.depends first second agree), ?_⟩
            intro more argument element larger argumentRealizes fuel result applied
            cases fuel with
            | zero => simp [Value.apply] at applied
            | succ fuel =>
                simp only [Value.apply] at applied
                exact ih.check (realizes.extend larger x argumentRealizes) bodyAccepted applied
  | app function argument functionIH argumentIH =>
      refine .ofSynth rfl rfl ?_
      intro ctx vars env interpretation type fuel value realizes found evaluated
      obtain ⟨domain, functionFound, argumentChecked⟩ := synth_app_iff.mp found
      cases fuel with
      | zero => simp [Env.eval] at evaluated
      | succ fuel =>
          simp only [Env.eval] at evaluated
          obtain ⟨functionValue, functionRun, evaluated⟩ := bind_eq_done_iff.mp evaluated
          obtain ⟨argumentValue, argumentRun, applied⟩ := bind_eq_done_iff.mp evaluated
          have meant : ∀ valuation, (app function argument).meaning
              (interpretation valuation) type = _ := fun valuation =>
            meaning_app ((congrArg function.synth (realizes.context valuation)).trans functionFound)
              type
          simp only [meant]
          exact (functionIH.synth realizes functionFound functionRun).apply
            (argumentIH.check realizes argumentChecked argumentRun) applied
  | zero =>
      refine ⟨fun _ found => ?_, ?_⟩
      · simp [synth] at found
      · intro ctx vars env interpretation type fuel value realizes accepted evaluated
        obtain rfl := check_zero_iff.mp accepted
        cases fuel with
        | zero => simp [Env.eval] at evaluated
        | succ fuel =>
            simp only [Env.eval, Outcome.done.injEq] at evaluated
            subst evaluated
            exact .zero
  | add1 predecessor ih =>
      refine ⟨fun _ found => ?_, ?_⟩
      · simp [synth] at found
      · intro ctx vars env interpretation type fuel value realizes accepted evaluated
        obtain ⟨rfl, predecessorAccepted⟩ := check_add1_iff.mp accepted
        cases fuel with
        | zero => simp [Env.eval] at evaluated
        | succ fuel =>
            simp only [Env.eval] at evaluated
            obtain ⟨predecessorValue, predecessorRun, finished⟩ := bind_eq_done_iff.mp evaluated
            cases finished
            exact .add1 (ih.check realizes predecessorAccepted predecessorRun)
  | recNat type target base step targetIH baseIH stepIH =>
      refine .ofSynth rfl rfl ?_
      intro ctx vars env interpretation type fuel value realizes found evaluated
      obtain ⟨targetFound, baseChecked, stepChecked, rfl⟩ := synth_recNat_iff.mp found
      cases fuel with
      | zero => simp [Env.eval] at evaluated
      | succ fuel =>
          simp only [Env.eval] at evaluated
          obtain ⟨targetValue, targetRun, evaluated⟩ := bind_eq_done_iff.mp evaluated
          obtain ⟨baseValue, baseRun, evaluated⟩ := bind_eq_done_iff.mp evaluated
          obtain ⟨stepValue, stepRun, recursed⟩ := bind_eq_done_iff.mp evaluated
          have targetRealizes := targetIH.synth realizes targetFound targetRun
          exact Value.RealizesNat.recurse targetRealizes (baseIH.check realizes baseChecked baseRun)
            (stepIH.check realizes stepChecked stepRun) recursed
  | ann expr type ih =>
      refine .ofSynth rfl rfl ?_
      intro ctx vars env interpretation type fuel value realizes found evaluated
      obtain ⟨exprChecked, rfl⟩ := synth_ann_iff.mp found
      cases fuel with
      | zero => simp [Env.eval] at evaluated
      | succ fuel =>
          simp only [Env.eval] at evaluated
          exact ih.check realizes exprChecked evaluated

end Term

end LambdaCalculi.Simple
