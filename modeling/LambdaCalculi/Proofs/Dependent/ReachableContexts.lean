import LambdaCalculi.Proofs.Dependent.Acceptance
import LambdaCalculi.Proofs.Dependent.Fingerprints
import Mathlib.Data.Finset.Card
import Mathlib.Logic.Relation

/-!
# A context and its environment

A context keeps its scope twice. Types are searched for in the list of entries, by name; values are
looked up in the environment, which indexes them by fingerprint. Both grow by one entry at a time, so
they have the same names, and the value of a name is that of the innermost entry with this name. The
one place where they part are two names with a common fingerprint: once both are bound, their types can
be found and their values cannot.
-/

set_option autoImplicit false

namespace LambdaCalculi.Dependent

namespace Context

/-! ## Growing contexts -/

def adding (ctx : Context) (x : Name) (binding : Binding) : Context :=
  ⟨⟨x, binding⟩ :: ctx.entries, ctx.env.extend x binding.value⟩

/-- The larger context has one entry more, which has its value in the environment, however the
environment counts names. -/
def Adds (ctx : Context) (x : Name) (binding : Binding) (inner : Context) : Prop :=
  inner.entries = ⟨x, binding⟩ :: ctx.entries ∧
    ∃ tally, inner.env = .cons tally x binding.value ctx.env

/-- A context grows by a variable of some type, or by a definition that is accepted. -/
inductive Step (ctx : Context) : Context → Prop where
  | assume {x : Name} {type : Value} {inner : Context}
      (run : (ctx.assume x type : Outcome Stuck Context) = .done inner) : Step ctx inner
  | define {fuel : Nat} {x : Name} {term : Term} {inner : Context}
      (run : (ctx.addDefinition fuel x term : Checking Context).outcome = .done inner) :
      Step ctx inner

def GrowsTo (ctx larger : Context) : Prop :=
  Relation.ReflTransGen Step ctx larger

def Reachable (ctx : Context) : Prop :=
  empty.GrowsTo ctx

/-- The context is built from the empty one by adding variables and definitions with known names, and
`earlier` are the contexts passed on the way. The type of a variable is the value of a term in one of
the contexts so far, and that term has to fit that context. -/
inductive BuiltFrom (fits : Context → Term → Prop) (known : List Name) :
    List Context → Context → Prop where
  | empty : BuiltFrom fits known [] .empty
  | assume {earlier : List Context} {ctx source inner : Context} {x : Name} {term : Term} {fuel : Nat}
      {type : Value} (built : BuiltFrom fits known earlier ctx) (nameKnown : x ∈ known)
      (passed : source ∈ ctx :: earlier) (termKnown : term.names ⊆ known) (termFits : fits source term)
      (typeRun : (source.eval fuel term : Outcome Stuck Value) = .done type)
      (run : (ctx.assume x type : Outcome Stuck Context) = .done inner) :
      BuiltFrom fits known (ctx :: earlier) inner
  | define {earlier : List Context} {ctx inner : Context} {x : Name} {term : Term} {fuel : Nat}
      (built : BuiltFrom fits known earlier ctx) (nameKnown : x ∈ known)
      (termKnown : term.names ⊆ known)
      (run : (ctx.addDefinition fuel x term : Checking Context).outcome = .done inner) :
      BuiltFrom fits known (ctx :: earlier) inner

abbrev Built : List Name → List Context → Context → Prop :=
  BuiltFrom fun _ _ => True

variable {ctx inner larger : Context} {x : Name}

theorem BuiltFrom.reachable {fits : Context → Term → Prop} {known : List Name}
    {earlier : List Context} (built : BuiltFrom fits known earlier ctx) : ctx.Reachable := by
  induction built with
  | empty => exact .refl
  | assume _ _ _ _ _ _ run ih => exact ih.tail (.assume run)
  | define _ _ _ run ih => exact ih.tail (.define run)

theorem BuiltFrom.names_subset {fits : Context → Term → Prop} {known : List Name}
    {earlier : List Context} (built : BuiltFrom fits known earlier ctx) :
    ctx.entries.map Entry.name ⊆ known := by
  induction built with
  | empty => exact List.nil_subset _
  | assume _ nameKnown _ _ _ _ run ih =>
      cases run
      exact List.cons_subset.mpr ⟨nameKnown, ih⟩
  | define _ nameKnown _ run ih =>
      obtain ⟨_, _, _, _, _, rfl⟩ := addDefinition_eq_done run
      exact List.cons_subset.mpr ⟨nameKnown, ih⟩

/-- A step adds one entry. A variable is new under the name that values use for it, a definition is
new under its own name. -/
theorem Step.adds (step : ctx.Step inner) :
    ∃ x binding, inner = ctx.adding x binding ∧
      ((∃ type, binding = .assumed type (ctx.freshFor x)) ∨
        ∃ type value, binding = .defined type value ∧ ctx.binding? x = none) := by
  cases step with
  | @assume x type _ run =>
      cases run
      exact ⟨x, _, rfl, .inl ⟨type, rfl⟩⟩
  | @define _ x _ _ run =>
      obtain ⟨type, value, unbound, _, _, rfl⟩ := addDefinition_eq_done run
      exact ⟨x, .defined type value, rfl, .inr ⟨type, value, rfl, unbound⟩⟩

/-! ## The innermost entry of a name -/

def Innermost (ctx : Context) (entry : Entry) : Prop :=
  ∃ later earlier, ctx.entries = later ++ entry :: earlier ∧
    ∀ other ∈ later, other.name ≠ entry.name

theorem binding?_eq_some_iff {binding : Binding} :
    ctx.binding? x = some binding ↔ ctx.Innermost ⟨x, binding⟩ := by
  simp only [binding?, Option.map_eq_some_iff, List.find?_eq_some_iff_append]
  constructor
  · rintro ⟨⟨name, _⟩, ⟨named, later, earlier, split, others⟩, rfl⟩
    obtain rfl : name = x := beq_iff_eq.mp named
    exact ⟨later, earlier, split, fun other mem => by simpa using others other mem⟩
  · rintro ⟨later, earlier, split, others⟩
    refine ⟨⟨x, binding⟩, ⟨beq_self_eq_true x, later, earlier, split, fun other mem => ?_⟩, rfl⟩
    simpa using others other mem

theorem isSome_binding?_iff : (ctx.binding? x).isSome ↔ x ∈ ctx.entries.map Entry.name := by
  simp [binding?, List.find?_isSome]

theorem lookupType_eq_done_iff {type : Value} :
    (ctx.lookupType x : Checking Value).outcome = .done type ↔
      ∃ binding, ctx.binding? x = some binding ∧ binding.type = type := by
  rw [← Option.map_eq_some_iff, ← type?, lookupType]
  split
  · rename_i found
    rw [found]
    simp
  · rename_i missing
    rw [missing]
    simp

/-! ## Entries and values -/

/-- The environment has the names of the entries and the values of the innermost ones. -/
structure Coherent (ctx : Context) : Prop where
  names : ctx.env.names = ctx.entries.map Entry.name
  values : ∀ x, ctx.env.innermost? x = (ctx.binding? x).map Binding.value

namespace Coherent

theorem empty : Context.empty.Coherent :=
  ⟨rfl, fun _ => rfl⟩

theorem add {binding : Binding} (coherent : ctx.Coherent) (adds : ctx.Adds x binding inner) :
    inner.Coherent := by
  obtain ⟨entries, env⟩ := inner
  obtain ⟨rfl, tally, rfl⟩ := adds
  refine ⟨congrArg (x :: ·) coherent.names, fun y => ?_⟩
  rw [Env.innermost?, binding?, List.find?_cons]
  by_cases same : x = y
  · rw [if_pos same, beq_iff_eq.mpr same]
    rfl
  · rw [if_neg same, beq_false_of_ne same]
    exact coherent.values y

theorem lookup? (coherent : ctx.Coherent)
    (clear : ∀ y ∈ ctx.entries.map Entry.name, y.fingerprint = x.fingerprint → y = x) :
    ctx.env.lookup? x = (ctx.binding? x).map Binding.value := by
  rw [Env.lookup?, if_neg, coherent.values]
  intro clouded
  obtain ⟨y, bound, different, same⟩ := (ctx.env.clouds_iff x).mp clouded
  exact different (clear y (coherent.names ▸ bound) same)

end Coherent

theorem Reachable.coherent (reachable : ctx.Reachable) : ctx.Coherent := by
  induction reachable with
  | refl => exact .empty
  | tail _ step ih =>
      obtain ⟨x, binding, rfl, _⟩ := step.adds
      exact ih.add ⟨rfl, _, rfl⟩

end Context

end LambdaCalculi.Dependent
