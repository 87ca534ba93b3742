import LambdaCalculi.Dependent.Accounting
import LambdaCalculi.Proofs.Dependent.Reading
import Mathlib.Data.Finset.Card

/-!
# Registers only count

Computations that keep registers and plain ones extend environments with the same names and values;
they differ in the tallies. `recount` gives every environment the tallies that plain computations
give it, also in the values that it binds. Whatever the registers hold, evaluation and reading back
with registers do what they do without on the data recounted: they are stuck at the same place, or end
with a value that is the same once it is recounted. A term has no tallies in it, so what is read back
is the same as it is.
-/

set_option autoImplicit false

namespace LambdaCalculi.Dependent

open Outcome

/-! ## Counting again -/

mutual

/-- The value, with every name in its environments counted once. -/
def Value.recount : Value → Value
  | .pi domain range => .pi domain.recount range.recount
  | .lam body => .lam body.recount
  | .sigma carType cdrType => .sigma carType.recount cdrType.recount
  | .pair first second => .pair first.recount second.recount
  | .nat => .nat
  | .zero => .zero
  | .add1 predecessor => .add1 predecessor.recount
  | .equal type left right => .equal type.recount left.recount right.recount
  | .same => .same
  | .trivial => .trivial
  | .sole => .sole
  | .absurd => .absurd
  | .atom => .atom
  | .tick symbol => .tick symbol
  | .univ => .univ
  | .neutral type blocked => .neutral type.recount blocked.recount

def Closure.recount : Closure → Closure
  | .mk env x body => .mk env.recount x body

def Neutral.recount : Neutral → Neutral
  | .var x => .var x
  | .app function argument => .app function.recount argument.recount
  | .car pair => .car pair.recount
  | .cdr pair => .cdr pair.recount
  | .indNat target motive base step =>
      .indNat target.recount motive.recount base.recount step.recount
  | .replace target motive base => .replace target.recount motive.recount base.recount
  | .indAbsurd target motive => .indAbsurd target.recount motive.recount

def Normal.recount : Normal → Normal
  | .mk type value => .mk type.recount value.recount

def Env.recount : Env → Env
  | .nil => .nil
  | .cons _ x value outer => outer.recount.extend x value.recount

end

namespace Env

@[simp]
theorem names_recount (env : Env) : env.recount.names = env.names := by
  cases env with
  | nil => rfl
  | cons tally x value outer => exact congrArg (x :: ·) outer.names_recount

/-- Counting again counts every name once. -/
theorem size_recount (env : Env) : env.recount.size = env.names.toFinset.card := by
  cases env with
  | nil => rfl
  | cons tally x value outer =>
      rw [recount, extend, size, names_recount, outer.size_recount, names, List.toFinset_cons,
        Finset.card_insert_eq_ite]
      simp only [List.mem_toFinset]

theorem innermost?_recount (env : Env) (x : Name) :
    env.recount.innermost? x = (env.innermost? x).map Value.recount := by
  cases env with
  | nil => rfl
  | cons tally y value outer =>
      rw [recount, extend, innermost?, innermost?]
      by_cases same : y = x
      · rw [if_pos same, if_pos same, Option.map_some]
      · rw [if_neg same, if_neg same]
        exact outer.innermost?_recount x

/-- A name is found or hidden as before. -/
theorem lookup?_recount (env : Env) (x : Name) :
    env.recount.lookup? x = (env.lookup? x).map Value.recount := by
  rw [lookup?, lookup?, clouds, clouds, names_recount]
  split
  · rfl
  · exact env.innermost?_recount x

/-- However the registers count a new name, counting again counts it like a plain computation. -/
theorem recount_extendWith (registers : Registers) (env : Env) (x : Name) (value : Value) :
    (env.extendWith registers x value).1.recount = env.recount.extend x value.recount := rfl

-- All five names have one fingerprint. The last but one is written over the fourth, which is then
-- counted a second time.
example :
    let bind := fun (env : Env) (registers : Registers) x => env.extendWith registers x .zero
    let (one, registers) := bind .nil {} "costarring"
    let (two, registers) := bind one registers "liquid"
    let (three, registers) := bind two registers "urssvhe"
    let (four, registers) := bind three registers "tcfsadaz"
    let (_, registers) := bind three registers "niwqafgk"
    let (again, _) := bind four registers "tcfsadaz"
    again.size = 5 ∧ again.recount.size = 4 := by
  decide +kernel

end Env

/-! ## Evaluation -/

def Comparison.accounted : Comparison Unit (Stateful Registers Stuck) (Outcome Stuck) where
  Ends results fuel _ first second :=
    ∀ registers, Alike Eq (results ()) (first registers).1 (second fuel)
  done related _ := .done related
  bind {_ _ _ _ _ _ _ _ first second next next'} ends nextEnds registers := by
    have alike := ends registers
    change Alike Eq _ (Stateful.bind first next registers).1 (second _ >>= next' _)
    unfold Stateful.bind
    generalize first registers = ran at alike ⊢
    generalize second _ = ran' at alike ⊢
    obtain ⟨outcome, left⟩ := ran
    cases alike with
    | done related => exact nextEnds le_rfl related left
    | failed same => exact .failed same
    | exhausted => exact .exhausted
  mono ends included registers := (ends registers).mono fun _ _ related => included le_rfl related
  spend ends := ends
  stuck _ _ := .failed rfl
  exhausted spent _ := by
    rw [spent]
    exact .exhausted

theorem Value.recount_eq_iff {value value' : Value} :
    value.recount = value' ↔ Value.Congruent (fun part part' => part.recount = part')
      (fun part part' => part.recount = part') (fun part part' => part.recount = part')
      value value' := by
  constructor
  · rintro rfl
    cases value <;> constructor <;> rfl
  · rintro ⟨⟩ <;> subst_vars <;> rfl

theorem Normal.recount_eq_iff {normal normal' : Normal} : normal.recount = normal' ↔
    Normal.Congruent (fun value value' => value.recount = value') normal normal' := by
  constructor
  · rintro rfl
    cases normal with
    | mk type value => exact .mk rfl rfl
  · rintro ⟨rfl, rfl⟩
    rfl

theorem Neutral.recount_eq_iff {blocked blocked' : Neutral} :
    blocked.recount = blocked' ↔ Neutral.Congruent (fun value value' => value.recount = value')
      (fun part part' => part.recount = part') Eq blocked blocked' := by
  constructor
  · rintro rfl
    cases blocked <;> constructor <;> first | rfl | exact Normal.recount_eq_iff.mp rfl
  · intro alike
    cases alike <;> simp_all [Neutral.recount, ← Normal.recount_eq_iff]

def recounted : Correspondence Comparison.accounted where
  values _ value value' := value.recount = value'
  closures _ closure closure' := closure.recount = closure'
  neutrals _ blocked blocked' := blocked.recount = blocked'
  names := Eq
  scopes _ env term env' term' := env.recount = env' ∧ term = term'
  values_iff := Value.recount_eq_iff
  neutrals_iff := Neutral.recount_eq_iff
  values_mono _ := id
  closures_mono _ := id
  neutrals_mono _ := id
  scopes_mono _ := id
  motives _ _ := rfl
  natStepType same := by rw [← same]; rfl
  parts := by
    rintro _ env _ term _ ⟨rfl, rfl⟩
    cases term <;> constructor <;> trivial
  lookup := by
    rintro fuel _ env _ x _ ⟨rfl, rfl⟩ registers
    change Alike Eq _ ((env.eval (fuel + 1) (.var x) : Accounting Value) registers).1
      (env.recount.eval (fuel + 1) (.var x))
    rw [Env.eval, Env.eval, env.lookup?_recount x]
    cases env.lookup? x with
    | none => exact .failed rfl
    | some value => exact .done rfl
  extend := by
    rintro _ _ env env' x x' body body' argument argument' same rfl registers
    cases same
    exact .done ⟨env.recount_extendWith registers x argument, rfl⟩

/-! ## Contexts and reading back -/

def Binding.recount : Binding → Binding
  | .assumed type y => .assumed type.recount y
  | .defined type value => .defined type.recount value.recount

def Entry.recount (entry : Entry) : Entry :=
  ⟨entry.name, entry.binding.recount⟩

theorem Binding.type_recount (binding : Binding) : binding.recount.type = binding.type.recount := by
  cases binding <;> rfl

theorem Binding.value_recount (binding : Binding) :
    binding.recount.value = binding.value.recount := by
  cases binding <;> rfl

@[simp]
theorem Entry.name_recount (entry : Entry) : entry.recount.name = entry.name := rfl

@[simp]
theorem Entry.renamed?_recount (entry : Entry) : entry.recount.renamed? = entry.renamed? := by
  obtain ⟨x, binding⟩ := entry
  cases binding <;> rfl

namespace Context

def recount (ctx : Context) : Context :=
  ⟨ctx.entries.map Entry.recount, ctx.env.recount⟩

variable (ctx : Context) (x : Name)

@[simp]
theorem names_recount : ctx.recount.names = ctx.names := by
  simp [names, recount, List.filterMap_map, Function.comp_def]

@[simp]
theorem freshFor_recount : ctx.recount.freshFor x = ctx.freshFor x := by
  rw [freshFor, freshFor, names_recount]

theorem binding?_recount : ctx.recount.binding? x = (ctx.binding? x).map Binding.recount := by
  simp only [binding?, recount, List.find?_map, Option.map_map]
  rfl

theorem type?_recount : ctx.recount.type? x = (ctx.type? x).map Value.recount := by
  simp [type?, binding?_recount, Function.comp_def, Binding.type_recount]

theorem bind_recounts (fuel : Nat) (binding : Binding) :
    Comparison.accounted.Ends (fun _ inner inner' => recount inner = inner') fuel () (ctx.bind x binding)
      fun _ => ctx.recount.bind x binding.recount := by
  intro registers
  simp only [Context.bind, binding.value_recount]
  exact .done rfl

theorem assume_recounts (fuel : Nat) (type : Value) :
    Comparison.accounted.Ends (fun _ inner inner' => recount inner = inner') fuel () (ctx.assume x type)
      fun _ => ctx.recount.assume x type.recount := by
  simp only [assume, freshFor_recount]
  exact ctx.bind_recounts x fuel (.assumed type (ctx.freshFor x))

end Context

theorem Closure.binder_recount (closure : Closure) : closure.recount.binder = closure.binder := by
  cases closure with
  | mk env x body => rfl

def readingRecounted : Reading Comparison.accounted where
  Scope := Unit
  relation _ := recounted
  contexts _ _ ctx ctx' := ctx.recount = ctx'
  terms _ := Eq
  New _ := Eq
  below _ _ _ := ()
  contexts_mono _ := id
  new := by
    rintro _ _ ctx _ range _ rfl rfl
    rw [range.binder_recount, ctx.freshFor_recount]
  values_below _ _ _ := id
  closures_below _ _ _ := id
  names_below isNew := isNew
  assume := by
    rintro _ x _ rfl fuel _ ctx _ type _ rfl rfl
    exact ctx.assume_recounts x fuel type
  term := by
    rintro _ term term' built
    refine built.eq fun x _ replaced => ?_
    obtain ⟨_, rfl, rfl⟩ := replaced
    rfl

end LambdaCalculi.Dependent
