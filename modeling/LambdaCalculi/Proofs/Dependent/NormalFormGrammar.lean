import LambdaCalculi.Proofs.Dependent.Contexts
import LambdaCalculi.Proofs.Dependent.NeutralVariables
import LambdaCalculi.Proofs.Dependent.ReachableContexts

/-!
# The grammar of normal forms

Reading back looks at no judgement: whatever the type and the value are, as long as it comes to an end
it writes a term without redexes. Eliminators stand on a variable, or on a chain of eliminators that
ends in one, and an annotation stands on members of the empty type only. The binders it writes are new
to the context and to each other, and what is not bound by them was a variable of the type or of the
value.
-/

set_option autoImplicit false

namespace LambdaCalculi.Dependent

/-! ## Neutral and normal terms -/

mutual

inductive Term.IsNeutral : Term → Prop where
  | var {x : Name} : IsNeutral (.var x)
  | app {function argument : Term} (functionForm : function.IsNeutral)
      (argumentForm : argument.IsNormal) : IsNeutral (.app function argument)
  | car {pair : Term} (pairForm : pair.IsNeutral) : IsNeutral (.car pair)
  | cdr {pair : Term} (pairForm : pair.IsNeutral) : IsNeutral (.cdr pair)
  | indNat {target motive base step : Term} (targetForm : target.IsNeutral)
      (motiveForm : motive.IsNormal) (baseForm : base.IsNormal) (stepForm : step.IsNormal) :
      IsNeutral (.indNat target motive base step)
  | replace {target motive base : Term} (targetForm : target.IsNeutral)
      (motiveForm : motive.IsNormal) (baseForm : base.IsNormal) :
      IsNeutral (.replace target motive base)
  | indAbsurd {target motive : Term} (targetForm : target.IsNeutral)
      (motiveForm : motive.IsNormal) : IsNeutral (.indAbsurd (.the .absurd target) motive)

/-- A term that no rule of computation applies to, at any place. -/
inductive Term.IsNormal : Term → Prop where
  | pi {x : Name} {domain range : Term} (domainForm : domain.IsNormal)
      (rangeForm : range.IsNormal) : IsNormal (.pi x domain range)
  | lam {x : Name} {body : Term} (bodyForm : body.IsNormal) : IsNormal (.lam x body)
  | sigma {x : Name} {carType cdrType : Term} (carForm : carType.IsNormal)
      (cdrForm : cdrType.IsNormal) : IsNormal (.sigma x carType cdrType)
  | cons {first second : Term} (firstForm : first.IsNormal) (secondForm : second.IsNormal) :
      IsNormal (.cons first second)
  | nat : IsNormal .nat
  | zero : IsNormal .zero
  | add1 {predecessor : Term} (predecessorForm : predecessor.IsNormal) :
      IsNormal (.add1 predecessor)
  | equal {type left right : Term} (typeForm : type.IsNormal) (leftForm : left.IsNormal)
      (rightForm : right.IsNormal) : IsNormal (.equal type left right)
  | same : IsNormal .same
  | trivial : IsNormal .trivial
  | sole : IsNormal .sole
  | absurd : IsNormal .absurd
  | atom : IsNormal .atom
  | tick {symbol : String} : IsNormal (.tick symbol)
  | univ : IsNormal .univ
  | theAbsurd {blocked : Term} (blockedForm : blocked.IsNeutral) :
      IsNormal (.the .absurd blocked)
  | neutral {term : Term} (form : term.IsNeutral) : IsNormal term

end

/-! ## Binders -/

namespace Term

/-- No binder of the term has one of the names or that of a binder around it. -/
def BindersAvoid (taken : List Name) : Term → Prop
  | var _ => True
  | pi x domain range =>
      x ∉ taken ∧ domain.BindersAvoid taken ∧ range.BindersAvoid (x :: taken)
  | lam x body => x ∉ taken ∧ body.BindersAvoid (x :: taken)
  | app function argument => function.BindersAvoid taken ∧ argument.BindersAvoid taken
  | sigma x carType cdrType =>
      x ∉ taken ∧ carType.BindersAvoid taken ∧ cdrType.BindersAvoid (x :: taken)
  | cons first second => first.BindersAvoid taken ∧ second.BindersAvoid taken
  | car pair => pair.BindersAvoid taken
  | cdr pair => pair.BindersAvoid taken
  | nat => True
  | zero => True
  | add1 predecessor => predecessor.BindersAvoid taken
  | indNat target motive base step =>
      target.BindersAvoid taken ∧ motive.BindersAvoid taken ∧ base.BindersAvoid taken ∧
        step.BindersAvoid taken
  | equal type left right =>
      type.BindersAvoid taken ∧ left.BindersAvoid taken ∧ right.BindersAvoid taken
  | same => True
  | replace target motive base =>
      target.BindersAvoid taken ∧ motive.BindersAvoid taken ∧ base.BindersAvoid taken
  | trivial => True
  | sole => True
  | absurd => True
  | indAbsurd target motive => target.BindersAvoid taken ∧ motive.BindersAvoid taken
  | atom => True
  | tick _ => True
  | univ => True
  | the type expr => type.BindersAvoid taken ∧ expr.BindersAvoid taken

theorem BindersAvoid.mono {term : Term} {taken more : List Name} (fewer : taken ⊆ more)
    (avoids : term.BindersAvoid more) : term.BindersAvoid taken := by
  induction term generalizing taken more with
  | var | nat | zero | same | trivial | sole | absurd | atom | tick | univ => exact True.intro
  | pi x domain range domainIH rangeIH | sigma x domain range domainIH rangeIH =>
      exact ⟨fun mem => avoids.1 (fewer mem), domainIH fewer avoids.2.1,
        rangeIH (List.cons_subset_cons x fewer) avoids.2.2⟩
  | lam x body bodyIH =>
      exact ⟨fun mem => avoids.1 (fewer mem), bodyIH (List.cons_subset_cons x fewer) avoids.2⟩
  | car pair pairIH | cdr pair pairIH | add1 pair pairIH => exact pairIH fewer avoids
  | app first second firstIH secondIH | cons first second firstIH secondIH
  | indAbsurd first second firstIH secondIH | the first second firstIH secondIH =>
      exact ⟨firstIH fewer avoids.1, secondIH fewer avoids.2⟩
  | equal first second third firstIH secondIH thirdIH
  | replace first second third firstIH secondIH thirdIH =>
      exact ⟨firstIH fewer avoids.1, secondIH fewer avoids.2.1, thirdIH fewer avoids.2.2⟩
  | indNat target motive base step targetIH motiveIH baseIH stepIH =>
      exact ⟨targetIH fewer avoids.1, motiveIH fewer avoids.2.1, baseIH fewer avoids.2.2.1,
        stepIH fewer avoids.2.2.2⟩

end Term

/-! ## The variables that occur in a value -/

mutual

/-- The names of the variables in the value, also of those in the environments of its closures. -/
def Value.neutralNames : Value → List Name
  | .pi domain range => domain.neutralNames ++ range.neutralNames
  | .lam body => body.neutralNames
  | .sigma carType cdrType => carType.neutralNames ++ cdrType.neutralNames
  | .pair first second => first.neutralNames ++ second.neutralNames
  | .nat => []
  | .zero => []
  | .add1 predecessor => predecessor.neutralNames
  | .equal type left right => type.neutralNames ++ (left.neutralNames ++ right.neutralNames)
  | .same => []
  | .trivial => []
  | .sole => []
  | .absurd => []
  | .atom => []
  | .tick _ => []
  | .univ => []
  | .neutral type blocked => type.neutralNames ++ blocked.neutralNames

def Closure.neutralNames : Closure → List Name
  | .mk env _ _ => env.neutralNames

def Neutral.neutralNames : Neutral → List Name
  | .var x => [x]
  | .app function argument => function.neutralNames ++ argument.neutralNames
  | .car pair => pair.neutralNames
  | .cdr pair => pair.neutralNames
  | .indNat target motive base step =>
      target.neutralNames ++ (motive.neutralNames ++ (base.neutralNames ++ step.neutralNames))
  | .replace target motive base =>
      target.neutralNames ++ (motive.neutralNames ++ base.neutralNames)
  | .indAbsurd target motive => target.neutralNames ++ motive.neutralNames

def Normal.neutralNames : Normal → List Name
  | .mk type value => type.neutralNames ++ value.neutralNames

def Env.neutralNames : Env → List Name
  | .nil => []
  | .cons _ _ value outer => value.neutralNames ++ outer.neutralNames

end

section Within

variable {allowed : Name → Prop}

mutual

theorem Value.within_iff : ∀ value : Value,
    value.Within allowed ↔ ∀ x ∈ value.neutralNames, allowed x
  | .pi domain range | .sigma domain range => by
      rw [Value.Within, Value.neutralNames, Term.within_append_iff, domain.within_iff,
        range.within_iff]
  | .lam body => by rw [Value.Within, Value.neutralNames, body.within_iff]
  | .pair first second => by
      rw [Value.Within, Value.neutralNames, Term.within_append_iff, first.within_iff,
        second.within_iff]
  | .add1 predecessor => by rw [Value.Within, Value.neutralNames, predecessor.within_iff]
  | .equal type left right => by
      rw [Value.Within, Value.neutralNames, Term.within_append_iff, Term.within_append_iff,
        type.within_iff, left.within_iff, right.within_iff]
  | .neutral type blocked => by
      rw [Value.Within, Value.neutralNames, Term.within_append_iff, type.within_iff,
        blocked.within_iff]
  | .nat | .zero | .same | .trivial | .sole | .absurd | .atom | .tick _ | .univ => by
      simp [Value.Within, Value.neutralNames]

theorem Closure.within_iff : ∀ closure : Closure,
    closure.Within allowed ↔ ∀ x ∈ closure.neutralNames, allowed x
  | .mk env _ _ => by rw [Closure.Within, Closure.neutralNames, env.within_iff]

theorem Neutral.within_iff : ∀ blocked : Neutral,
    blocked.Within allowed ↔ ∀ x ∈ blocked.neutralNames, allowed x
  | .var x => by simp [Neutral.Within, Neutral.neutralNames]
  | .app function argument => by
      rw [Neutral.Within, Neutral.neutralNames, Term.within_append_iff, function.within_iff,
        argument.within_iff]
  | .car pair | .cdr pair => by rw [Neutral.Within, Neutral.neutralNames, pair.within_iff]
  | .indNat target motive base step => by
      rw [Neutral.Within, Neutral.neutralNames, Term.within_append_iff, Term.within_append_iff,
        Term.within_append_iff, target.within_iff, motive.within_iff, base.within_iff,
        step.within_iff]
  | .replace target motive base => by
      rw [Neutral.Within, Neutral.neutralNames, Term.within_append_iff, Term.within_append_iff,
        target.within_iff, motive.within_iff, base.within_iff]
  | .indAbsurd target motive => by
      rw [Neutral.Within, Neutral.neutralNames, Term.within_append_iff, target.within_iff,
        motive.within_iff]

theorem Normal.within_iff : ∀ normal : Normal,
    normal.Within allowed ↔ ∀ x ∈ normal.neutralNames, allowed x
  | .mk type value => by
      rw [Normal.Within, Normal.neutralNames, Term.within_append_iff, type.within_iff,
        value.within_iff]

theorem Env.within_iff : ∀ env : Env, env.Within allowed ↔ ∀ x ∈ env.neutralNames, allowed x
  | .nil => by simp [Env.Within, Env.neutralNames]
  | .cons _ _ value outer => by
      rw [Env.Within, Env.neutralNames, Term.within_append_iff, value.within_iff, outer.within_iff]

end

end Within

/-! ## What reading back writes -/

structure Context.Writes (ctx : Context) (form : Term → Prop) (term : Term) : Prop where
  hasForm : form term
  binders : term.BindersAvoid ctx.names

/-- Below the variable that is added for a binder, the name of the binder is taken as well. -/
theorem Context.Writes.below {ctx inner : Context} {x : Name} {type : Value} {form : Term → Prop}
    {body : Term} (writes : inner.Writes form body)
    (assumed : (ctx.assume x type : Outcome Stuck Context) = .done inner) :
    body.BindersAvoid (x :: ctx.names) := by
  cases assumed
  exact writes.binders.mono (names_cons rfl)

structure WritesNormalForms (fuel : Nat) : Prop where
  readBack : ∀ {ctx : Context} {type value : Value} {term : Term},
    (ctx.readBack fuel type value : Outcome Stuck Term) = .done term → ctx.Writes Term.IsNormal term
  readBackType : ∀ {ctx : Context} {type : Value} {term : Term},
    (ctx.readBackType fuel type : Outcome Stuck Term) = .done term → ctx.Writes Term.IsNormal term
  readBackNeutral : ∀ {ctx : Context} {blocked : Neutral} {term : Term},
    (ctx.readBackNeutral fuel blocked : Outcome Stuck Term) = .done term →
    ctx.Writes Term.IsNeutral term
  readBackNormal : ∀ {ctx : Context} {normal : Normal} {term : Term},
    (ctx.readBackNormal fuel normal : Outcome Stuck Term) = .done term →
    ctx.Writes Term.IsNormal term

namespace WritesNormalForms

theorem zero : WritesNormalForms 0 where
  readBack run := by simp [Context.readBack] at run
  readBackType run := by simp [Context.readBackType] at run
  readBackNeutral run := by simp [Context.readBackNeutral] at run
  readBackNormal run := by simp [Context.readBackNormal] at run

variable {fuel : Nat} {ctx : Context}

/-- A blocked computation is a normal form as it stands. -/
theorem readBackBlocked (smaller : WritesNormalForms fuel) {blocked : Neutral} {term : Term}
    (run : (ctx.readBackNeutral fuel blocked : Outcome Stuck Term) = .done term) :
    ctx.Writes Term.IsNormal term := by
  obtain ⟨form, binders⟩ := smaller.readBackNeutral run
  exact ⟨.neutral form, binders⟩

theorem readBack_succ (smaller : WritesNormalForms fuel) {type value : Value} {term : Term}
    (run : (ctx.readBack (fuel + 1) type value : Outcome Stuck Term) = .done term) :
    ctx.Writes Term.IsNormal term := by
  simp only [Context.readBack] at run
  split at run
  · cases run
    exact ⟨.zero, True.intro⟩
  · simp only [Outcome.bind_eq_done_iff] at run
    obtain ⟨predecessorTerm, predecessorRun, run⟩ := run
    cases run
    obtain ⟨form, binders⟩ := smaller.readBack predecessorRun
    exact ⟨.add1 form, binders⟩
  · simp only [Outcome.bind_eq_done_iff] at run
    obtain ⟨inner, assumed, bodyType, _, body, _, bodyTerm, bodyRun, run⟩ := run
    cases run
    have bodyWritten := smaller.readBack bodyRun
    exact ⟨.lam bodyWritten.hasForm, ctx.freshFor_not_mem _, bodyWritten.below assumed⟩
  · simp only [Outcome.bind_eq_done_iff] at run
    obtain ⟨first, _, firstTerm, firstRun, secondType, _, second, _, secondTerm, secondRun,
      run⟩ := run
    cases run
    have firstWritten := smaller.readBack firstRun
    have secondWritten := smaller.readBack secondRun
    exact ⟨.cons firstWritten.hasForm secondWritten.hasForm, firstWritten.binders,
      secondWritten.binders⟩
  · cases run
    exact ⟨.sole, True.intro⟩
  · simp only [Outcome.bind_eq_done_iff] at run
    obtain ⟨blockedTerm, blockedRun, run⟩ := run
    cases run
    obtain ⟨form, binders⟩ := smaller.readBackNeutral blockedRun
    exact ⟨.theAbsurd form, True.intro, binders⟩
  · cases run
    exact ⟨.same, True.intro⟩
  · cases run
    exact ⟨.tick, True.intro⟩
  · exact smaller.readBackType run
  · exact smaller.readBackBlocked run
  · cases run

theorem readBackType_succ (smaller : WritesNormalForms fuel) {type : Value} {term : Term}
    (run : (ctx.readBackType (fuel + 1) type : Outcome Stuck Term) = .done term) :
    ctx.Writes Term.IsNormal term := by
  cases type with
  | pi domain range =>
      simp only [Context.readBackType, Outcome.bind_eq_done_iff] at run
      obtain ⟨rangeAtX, _, domainTerm, domainRun, inner, assumed, rangeTerm, rangeRun, run⟩ := run
      cases run
      have domainWritten := smaller.readBackType domainRun
      have rangeWritten := smaller.readBackType rangeRun
      exact ⟨.pi domainWritten.hasForm rangeWritten.hasForm, ctx.freshFor_not_mem _,
        domainWritten.binders, rangeWritten.below assumed⟩
  | sigma carType cdrType =>
      simp only [Context.readBackType, Outcome.bind_eq_done_iff] at run
      obtain ⟨cdrAtX, _, carTerm, carRun, inner, assumed, cdrTerm, cdrRun, run⟩ := run
      cases run
      have carWritten := smaller.readBackType carRun
      have cdrWritten := smaller.readBackType cdrRun
      exact ⟨.sigma carWritten.hasForm cdrWritten.hasForm, ctx.freshFor_not_mem _,
        carWritten.binders, cdrWritten.below assumed⟩
  | equal type left right =>
      simp only [Context.readBackType, Outcome.bind_eq_done_iff] at run
      obtain ⟨typeTerm, typeRun, leftTerm, leftRun, rightTerm, rightRun, run⟩ := run
      cases run
      have typeWritten := smaller.readBackType typeRun
      have leftWritten := smaller.readBack leftRun
      have rightWritten := smaller.readBack rightRun
      exact ⟨.equal typeWritten.hasForm leftWritten.hasForm rightWritten.hasForm,
        typeWritten.binders, leftWritten.binders, rightWritten.binders⟩
  | nat => cases run; exact ⟨.nat, True.intro⟩
  | trivial => cases run; exact ⟨.trivial, True.intro⟩
  | absurd => cases run; exact ⟨.absurd, True.intro⟩
  | atom => cases run; exact ⟨.atom, True.intro⟩
  | univ => cases run; exact ⟨.univ, True.intro⟩
  | neutral type blocked => exact smaller.readBackBlocked run
  | lam | pair | zero | add1 | same | sole | tick => cases run

theorem readBackNeutral_succ (smaller : WritesNormalForms fuel) {blocked : Neutral} {term : Term}
    (run : (ctx.readBackNeutral (fuel + 1) blocked : Outcome Stuck Term) = .done term) :
    ctx.Writes Term.IsNeutral term := by
  cases blocked with
  | var x =>
      cases run
      exact ⟨.var, True.intro⟩
  | app function argument =>
      simp only [Context.readBackNeutral, Outcome.bind_eq_done_iff] at run
      obtain ⟨functionTerm, functionRun, argumentTerm, argumentRun, run⟩ := run
      cases run
      have functionWritten := smaller.readBackNeutral functionRun
      have argumentWritten := smaller.readBackNormal argumentRun
      exact ⟨.app functionWritten.hasForm argumentWritten.hasForm, functionWritten.binders,
        argumentWritten.binders⟩
  | car pair =>
      simp only [Context.readBackNeutral, Outcome.bind_eq_done_iff] at run
      obtain ⟨pairTerm, pairRun, run⟩ := run
      cases run
      obtain ⟨form, binders⟩ := smaller.readBackNeutral pairRun
      exact ⟨.car form, binders⟩
  | cdr pair =>
      simp only [Context.readBackNeutral, Outcome.bind_eq_done_iff] at run
      obtain ⟨pairTerm, pairRun, run⟩ := run
      cases run
      obtain ⟨form, binders⟩ := smaller.readBackNeutral pairRun
      exact ⟨.cdr form, binders⟩
  | indNat target motive base step =>
      simp only [Context.readBackNeutral, Outcome.bind_eq_done_iff] at run
      obtain ⟨targetTerm, targetRun, motiveTerm, motiveRun, baseTerm, baseRun, stepTerm, stepRun,
        run⟩ := run
      cases run
      have targetWritten := smaller.readBackNeutral targetRun
      have motiveWritten := smaller.readBackNormal motiveRun
      have baseWritten := smaller.readBackNormal baseRun
      have stepWritten := smaller.readBackNormal stepRun
      exact ⟨.indNat targetWritten.hasForm motiveWritten.hasForm baseWritten.hasForm
        stepWritten.hasForm, targetWritten.binders, motiveWritten.binders, baseWritten.binders,
        stepWritten.binders⟩
  | replace target motive base =>
      simp only [Context.readBackNeutral, Outcome.bind_eq_done_iff] at run
      obtain ⟨targetTerm, targetRun, motiveTerm, motiveRun, baseTerm, baseRun, run⟩ := run
      cases run
      have targetWritten := smaller.readBackNeutral targetRun
      have motiveWritten := smaller.readBackNormal motiveRun
      have baseWritten := smaller.readBackNormal baseRun
      exact ⟨.replace targetWritten.hasForm motiveWritten.hasForm baseWritten.hasForm,
        targetWritten.binders, motiveWritten.binders, baseWritten.binders⟩
  | indAbsurd target motive =>
      simp only [Context.readBackNeutral, Outcome.bind_eq_done_iff] at run
      obtain ⟨targetTerm, targetRun, motiveTerm, motiveRun, run⟩ := run
      cases run
      have targetWritten := smaller.readBackNeutral targetRun
      have motiveWritten := smaller.readBackNormal motiveRun
      exact ⟨.indAbsurd targetWritten.hasForm motiveWritten.hasForm,
        ⟨True.intro, targetWritten.binders⟩, motiveWritten.binders⟩

theorem readBackNormal_succ (smaller : WritesNormalForms fuel) {normal : Normal} {term : Term}
    (run : (ctx.readBackNormal (fuel + 1) normal : Outcome Stuck Term) = .done term) :
    ctx.Writes Term.IsNormal term := by
  cases normal with
  | mk type value => exact smaller.readBack run

end WritesNormalForms

theorem writesNormalForms (fuel : Nat) : WritesNormalForms fuel := by
  induction fuel with
  | zero => exact .zero
  | succ fuel smaller =>
      exact ⟨smaller.readBack_succ, smaller.readBackType_succ, smaller.readBackNeutral_succ,
        smaller.readBackNormal_succ⟩

/-- In every context, what any value is read back to at any type is in normal form. Its binders are new
to the context and to each other, and its free variables are variables of the type or of the value. -/
theorem Context.readBack_normal_form {fuel : Nat} {ctx : Context} {type value : Value} {term : Term}
    (run : (ctx.readBack fuel type value : Outcome Stuck Term) = .done term) :
    term.IsNormal ∧ term.BindersAvoid ctx.names ∧
      ∀ x ∈ term.free, x ∈ type.neutralNames ∨ x ∈ value.neutralNames := by
  obtain ⟨form, binders⟩ := (writesNormalForms fuel).readBack run
  refine ⟨form, binders, (readsBackWithin fuel).readBack ?_ ?_ run⟩
  · exact (Value.within_iff type).mpr fun _ => Or.inl
  · exact (Value.within_iff value).mpr fun _ => Or.inr

/-! ## A function on the empty type -/

/-- Passes the number that follows from a member of the empty type to a function `f`, which it has in
its environment. -/
def numberOfAbsurd : Value :=
  .lam (.mk (.extend .nil "f" (.ofVar (.pi .nat (.mk .nil "y" .nat)) "f")) "y"
    (.app (.var "f") (.indAbsurd (.var "y") .nat)))

theorem Context.numberOfAbsurd_normal_form :
    let ctx := empty.adding "x" (.assumed .nat "x")
    let type : Value := .pi .absurd (.mk .nil "x" .nat)
    let term : Term := .lam "x'" (.app (.var "f") (.indAbsurd (.the .absurd (.var "x'")) .nat))
    (ctx.readBack 9 type numberOfAbsurd : Outcome Stuck Term) = .done term ∧
      term.IsNormal ∧ term.BindersAvoid ["x"] ∧
      ∀ x ∈ term.free, x ∈ type.neutralNames ∨ x ∈ numberOfAbsurd.neutralNames := by
  intro ctx type term
  have run : (ctx.readBack 9 type numberOfAbsurd : Outcome Stuck Term) = .done term := by
    decide +kernel
  exact ⟨run, readBack_normal_form run⟩

end LambdaCalculi.Dependent
