import LambdaCalculi.Proofs.Dependent.Counting
import LambdaCalculi.Proofs.Dependent.RecountedChecking

/-!
# Sessions that share their registers

A session keeps contexts and values, at first only the empty context. Any of its contexts can be
extended by a variable with one of the values for a type, or by a definition; terms can be evaluated,
type checked, run and read back in any of them. All of it is done with the same registers, and what is
done in one context can change what another one counts.

In every context of a session, types are found by name alone, and values like types as long as no other
name has the fingerprint. Names with a common fingerprint lose their values for good. Names are counted
once each unless four of them have a common fingerprint; five names with one fingerprint are enough for
a session that counts one of them twice.
-/

set_option autoImplicit false

namespace LambdaCalculi.Outcome

variable {ε α : Type}

def found : Outcome ε α → List α
  | done value => [value]
  | failed _ | exhausted => []

theorem eq_done_of_mem_found {outcome : Outcome ε α} {value : α} (mem : value ∈ outcome.found) :
    outcome = done value := by
  cases outcome with
  | done => rw [List.mem_singleton.mp mem]
  | failed | exhausted => cases mem

end LambdaCalculi.Outcome

namespace LambdaCalculi.Dependent

open Registers.ShowAll (append_iff)

/-! ## Sessions -/

structure Session where
  registers : Registers := {}
  contexts : List Context := [.empty]
  values : List Value := []

namespace Session

variable (session : Session) (ctx : Context) (fuel : Nat)

/-! A computation that fails adds nothing to the session, but may have changed the registers. -/

def assume (x : Name) (type : Value) : Session :=
  let ran := (ctx.assume x type : Accounting Context) session.registers
  ⟨ran.2, ran.1.found ++ session.contexts, session.values⟩

def define (x : Name) (term : Term) : Session :=
  let ran := (ctx.addDefinition fuel x term : AccountedChecking Context).run session.registers
  ⟨ran.2, ran.1.outcome.found ++ session.contexts, session.values⟩

def eval (term : Term) : Session :=
  let ran := (ctx.eval fuel term : Accounting Value) session.registers
  ⟨ran.2, session.contexts, ran.1.found ++ session.values⟩

def synth (term : Term) : Session :=
  let ran := (ctx.synth fuel term : AccountedChecking Value).run session.registers
  ⟨ran.2, session.contexts, ran.1.outcome.found ++ session.values⟩

def check (term : Term) (type : Value) : Session :=
  { session with
    registers := ((ctx.check fuel term type : AccountedChecking Unit).run session.registers).2 }

def run (term : Term) : Session :=
  { session with
    registers := ((ctx.run fuel term : AccountedChecking NormalForm).run session.registers).2 }

def readBack (type value : Value) : Session :=
  { session with
    registers := ((ctx.readBack fuel type value : Accounting Term) session.registers).2 }

/-- What can be done next with the contexts and values of the session. -/
inductive Step (session : Session) : Session → Prop where
  | assume {ctx : Context} {type : Value} (x : Name) (known : ctx ∈ session.contexts)
      (typeKnown : type ∈ session.values) : Step session (session.assume ctx x type)
  | define {ctx : Context} (fuel : Nat) (x : Name) (term : Term) (known : ctx ∈ session.contexts) :
      Step session (session.define ctx fuel x term)
  | eval {ctx : Context} (fuel : Nat) (term : Term) (known : ctx ∈ session.contexts) :
      Step session (session.eval ctx fuel term)
  | synth {ctx : Context} (fuel : Nat) (term : Term) (known : ctx ∈ session.contexts) :
      Step session (session.synth ctx fuel term)
  | check {ctx : Context} {type : Value} (fuel : Nat) (term : Term) (known : ctx ∈ session.contexts)
      (typeKnown : type ∈ session.values) : Step session (session.check ctx fuel term type)
  | run {ctx : Context} (fuel : Nat) (term : Term) (known : ctx ∈ session.contexts) :
      Step session (session.run ctx fuel term)
  | readBack {ctx : Context} {type value : Value} (fuel : Nat) (known : ctx ∈ session.contexts)
      (typeKnown : type ∈ session.values) (valueKnown : value ∈ session.values) :
      Step session (session.readBack ctx fuel type value)

def Reachable (session : Session) : Prop :=
  Relation.ReflTransGen Step {} session

end Session

/-! ## What computations leave behind -/

theorem Comparison.shared_found {α α' : Type} {results : Registers → α → α' → Prop} {fuel : Nat}
    {registers : Registers} {first : Accounting α} {second : Nat → Accounting α'}
    (ends : Comparison.shared.Ends results fuel registers first second) :
    registers ≤ (first registers).2 ∧ ∀ value ∈ (first registers).1.found,
      ∃ value', results (first registers).2 value value' :=
  ⟨ends.1, fun value found => ends.2 value (Outcome.eq_done_of_mem_found found)⟩

theorem Verdicts.shared_found {α α' : Type} {results : Registers → α → α' → Prop} {fuel : Nat}
    {registers : Registers} {first : AccountedChecking α} {second : Nat → AccountedChecking α'}
    (ends : Verdicts.shared.Ends results fuel registers first second) :
    registers ≤ (first.run registers).2 ∧ ∀ value ∈ (first.run registers).1.outcome.found,
      ∃ value', results (first.run registers).2 value value' :=
  ⟨(ends []).1, fun value found => (ends []).2 value (Outcome.eq_done_of_mem_found found)⟩

/-! ## What is known of a context in a session -/

/-- The context has one entry more, and was extended with registers later than the given ones. -/
def Context.ExtendsTo (registers : Registers) (ctx : Context) (later : Registers) (inner : Context) :
    Prop :=
  ∃ (middle : Registers) (x : Name) (binding : Binding), registers ≤ middle ∧
    middle.ShowAll binding.type.views ∧ middle.ShowAll binding.value.views ∧
    inner = ⟨⟨x, binding⟩ :: ctx.entries, (ctx.env.extendWith middle x binding.value).1⟩ ∧
    later = (ctx.env.extendWith middle x binding.value).2

/-- The context agrees with its environment, the registers show its views, and its names are counted
within bounds, or once each where few of them are alike. -/
structure Context.Sound (registers : Registers) (ctx : Context) : Prop where
  coherent : ctx.Coherent
  shown : registers.ShowAll ctx.views
  bounded : ctx.env.Bounded
  faithful : FewAlike ctx.env.names → ctx.env.Faithful registers

namespace Context.Sound

variable {registers later : Registers} {ctx inner : Context} {fuel : Nat} {x : Name}

theorem empty : Context.empty.Sound registers :=
  ⟨.empty, List.forall_mem_nil _, .nil, fun _ => .nil⟩

theorem mono (sound : ctx.Sound registers) (le : registers ≤ later) : ctx.Sound later where
  coherent := sound.coherent
  shown := sound.shown.mono le
  bounded := sound.bounded
  faithful few := (sound.faithful few).mono (append_iff.mp sound.shown).2 few le

theorem extend (sound : ctx.Sound registers) (grown : ctx.ExtendsTo registers later inner) :
    registers ≤ later ∧ inner.Sound later := by
  obtain ⟨middle, x, binding, le, typeShown, valueShown, rfl, rfl⟩ := grown
  obtain ⟨coherent, shown, bounded, faithful⟩ := sound.mono le
  obtain ⟨entriesShown, envShown⟩ := append_iff.mp shown
  obtain ⟨le', innerShown⟩ := Env.extendWith_shown envShown valueShown x
  refine ⟨le.trans le', coherent.add ⟨rfl, _, rfl⟩, ?_, bounded.extendWith _ _ _, fun few => ?_⟩
  · rw [views, List.flatMap_cons, append_iff, append_iff]
    exact ⟨⟨typeShown.mono le', entriesShown.mono le'⟩, innerShown⟩
  · exact (faithful (few.mono (List.subset_cons_self x _))).extendWith envShown few

theorem assume (sound : ctx.Sound registers) {type : Value} (typeShown : registers.ShowAll type.views) :
    registers ≤ ((ctx.assume x type : Accounting Context) registers).2 ∧
      ∀ inner ∈ ((ctx.assume x type : Accounting Context) registers).1.found,
        inner.Sound ((ctx.assume x type : Accounting Context) registers).2 := by
  have valueShown : registers.ShowAll (Value.ofVar type (ctx.freshFor x)).views := by
    rw [Value.ofVar, Value.views, Neutral.views, List.append_nil]
    exact typeShown
  obtain ⟨le, inner⟩ := sound.extend
    ⟨registers, x, .assumed type (ctx.freshFor x), le_rfl, typeShown, valueShown, rfl, rfl⟩
  exact ⟨le, List.forall_mem_singleton.mpr inner⟩

theorem addDefinition (sound : ctx.Sound registers) {term : Term} :
    registers ≤ ((ctx.addDefinition fuel x term : AccountedChecking Context).run registers).2 ∧
      ∀ inner ∈
        ((ctx.addDefinition fuel x term : AccountedChecking Context).run registers).1.outcome.found,
        inner.Sound ((ctx.addDefinition fuel x term : AccountedChecking Context).run registers).2 := by
  have ends : Verdicts.shared.Ends (fun later inner _ => ctx.ExtendsTo registers later inner) fuel
      registers (ctx.addDefinition fuel x term) fun bound => ctx.addDefinition bound x term := by
    refine Deciding.shared.addDefinition fuel () registers x ⟨⟨rfl, sound.shown⟩, rfl⟩ rfl ?_
    rintro middle type _ value _ le ⟨rfl, typeShown⟩ ⟨rfl, valueShown⟩
    obtain ⟨le', _⟩ := Env.extendWith_shown ((append_iff.mp sound.shown).2.mono le) valueShown x
    refine ⟨le', fun _ finished => ?_⟩
    cases finished
    exact ⟨.empty, middle, x, .defined type value, le, typeShown, valueShown, rfl, rfl⟩
  obtain ⟨le, found⟩ := Verdicts.shared_found ends
  refine ⟨le, fun inner mem => ?_⟩
  obtain ⟨_, grown⟩ := found inner mem
  exact (sound.extend grown).2

end Context.Sound

/-! ## What is known of a session -/

namespace Session

structure Sound (session : Session) : Prop where
  contexts : ∀ ctx ∈ session.contexts, ctx.Sound session.registers
  values : ∀ value ∈ session.values, session.registers.ShowAll value.views

variable {session next : Session}

/-- With later registers, what was known of the session still holds. -/
theorem Sound.later (sound : session.Sound) {later : Registers} (le : session.registers ≤ later)
    {contexts : List Context} {values : List Value} (contextsSound : ∀ ctx ∈ contexts, ctx.Sound later)
    (valuesShown : ∀ value ∈ values, later.ShowAll value.views) :
    Sound ⟨later, contexts ++ session.contexts, values ++ session.values⟩ where
  contexts := List.forall_mem_append.mpr
    ⟨contextsSound, fun ctx mem => (sound.contexts ctx mem).mono le⟩
  values := List.forall_mem_append.mpr
    ⟨valuesShown, fun value mem => (sound.values value mem).mono le⟩

theorem Step.sound (step : session.Step next) (sound : session.Sound) : next.Sound := by
  have none {α : Type} {property : α → Prop} : ∀ value ∈ ([] : List α), property value :=
    List.forall_mem_nil property
  have judged (ctx : Context) (known : ctx ∈ session.contexts) (term : Term) :
      Deciding.shared.judged () session.registers ctx term ctx term :=
    ⟨⟨rfl, (sound.contexts ctx known).shown⟩, rfl⟩
  cases step with
  | assume x known typeKnown =>
      obtain ⟨le, inner⟩ := (sound.contexts _ known).assume (sound.values _ typeKnown)
      exact sound.later le inner none
  | define fuel x term known =>
      obtain ⟨le, inner⟩ := (sound.contexts _ known).addDefinition
      exact sound.later le inner none
  | @eval ctx fuel term known =>
      have shown := (append_iff.mp (sound.contexts ctx known).shown).2
      obtain ⟨le, found⟩ := Comparison.shared_found
        ((Invariant.shared.correspondence.evaluates fuel).eval ⟨rfl, rfl, shown⟩)
      refine sound.later le none fun value mem => ?_
      obtain ⟨_, _, valueShown⟩ := found value mem
      exact valueShown
  | @synth ctx fuel term known =>
      obtain ⟨le, found⟩ := Verdicts.shared_found
        ((Deciding.shared.decides fuel).synth (judged ctx known term))
      refine sound.later le none fun value mem => ?_
      obtain ⟨_, _, valueShown⟩ := found value mem
      exact valueShown
  | @check ctx type fuel term known typeKnown =>
      have ends := (Deciding.shared.decides fuel).check (judged ctx known term)
        ⟨rfl, sound.values type typeKnown⟩
      exact sound.later (Verdicts.shared_found ends).1 none none
  | @run ctx fuel term known =>
      have ends := Deciding.shared.run fuel () session.registers (judged ctx known term)
      exact sound.later (Verdicts.shared_found ends).1 none none
  | @readBack ctx type value fuel known typeKnown valueKnown =>
      have ends : Comparison.shared.Ends (fun _ => Reading.shared.terms ()) fuel session.registers
          (ctx.readBack fuel type value) fun bound => ctx.readBack bound type value :=
        (Reading.shared.readsBack fuel).readBack ⟨rfl, (sound.contexts ctx known).shown⟩
          ⟨rfl, sound.values type typeKnown⟩ ⟨rfl, sound.values value valueKnown⟩
      exact sound.later (Comparison.shared_found ends).1 none none

theorem Reachable.sound (reachable : session.Reachable) : session.Sound := by
  induction reachable with
  | refl => exact ⟨List.forall_mem_singleton.mpr .empty, List.forall_mem_nil _⟩
  | tail _ step ih => exact step.sound ih

end Session

/-! ## Types, values and sizes -/

namespace Context

variable {ctx : Context}

end Context

/-- Where few names are alike, registers count as computations without registers do. -/
theorem Session.Reachable.size_eq_size_recount {session : Session} (reachable : session.Reachable)
    {ctx : Context} (known : ctx ∈ session.contexts) (few : FewAlike ctx.env.names) :
    ctx.env.size = ctx.env.recount.size := by
  rw [Env.size_recount]
  exact ((reachable.sound.contexts ctx known).faithful few).size

namespace Session

variable {session : Session}

def newest (session : Session) : Context :=
  session.contexts.headD .empty

theorem Reachable.newest_mem (reachable : session.Reachable) : session.newest ∈ session.contexts := by
  have nonempty : session.contexts ≠ [] := by
    induction reachable with
    | refl => exact List.cons_ne_nil _ _
    | tail _ step ih => cases step <;> simp [assume, define, eval, synth, check, run, readBack, ih]
  rw [newest, List.headD_eq_head?_getD, List.head?_eq_some_head nonempty]
  exact List.head_mem nonempty

def number (session : Session) (x : Name) : Session :=
  session.assume session.newest x .nat

structure WithNumbers (session : Session) : Prop where
  reachable : session.Reachable
  known : Value.nat ∈ session.values

namespace WithNumbers

theorem start : (eval {} .empty 1 .nat).WithNumbers :=
  ⟨.single (.eval 1 .nat List.mem_cons_self), List.mem_cons_self⟩

theorem number (numbers : session.WithNumbers) (x : Name) : (session.number x).WithNumbers :=
  ⟨numbers.reachable.tail (.assume x numbers.reachable.newest_mem numbers.known), numbers.known⟩

end WithNumbers

end Session

end LambdaCalculi.Dependent
