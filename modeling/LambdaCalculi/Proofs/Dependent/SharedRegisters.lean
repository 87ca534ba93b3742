import LambdaCalculi.Dependent.Accounting
import LambdaCalculi.Proofs.Dependent.Invariants
import Mathlib.Data.Finset.Card

/-!
# What computations do to shared registers

Environments extended from one another share registers, and so do closures that captured them. A
computation may open registers and write in those that are there, but never in their first three
places: a register of two names has no free place behind them, and whoever sees three names or more
writes behind those. So the names that an environment sees in the first three places stay what they
are, whatever is evaluated, read back or type checked in between.

This is an order on registers, and an invariant: all views in an environment, and in the values that
it binds, are of registers that have the names in view.
-/

set_option autoImplicit false

namespace LambdaCalculi.Dependent

/-! ## Registers over time -/

/-- The register has grown, and its first three places are as they were. -/
structure Register.Keeps (before after : Register) : Prop where
  capacity : after.capacity = before.capacity
  length : before.places.length ≤ after.places.length
  firstThree : after.places.take 3 = before.places.take 3

namespace Registers

instance : Preorder Registers where
  le before after := ∀ (index : Nat) (row : Register), before.rows[index]? = some row →
    ∃ row', after.rows[index]? = some row' ∧ row.Keeps row'
  le_refl _ _ row found := ⟨row, found, rfl, le_rfl, rfl⟩
  le_trans first second third le le' index row found := by
    obtain ⟨row', found', capacity, length, firstThree⟩ := le index row found
    obtain ⟨row'', found'', capacity', length', firstThree'⟩ := le' index row' found'
    exact ⟨row'', found'', capacity'.trans capacity, length.trans length',
      firstThree'.trans firstThree⟩

theorem le_iff {before after : Registers} : before ≤ after ↔ ∀ (index : Nat) (row : Register),
    before.rows[index]? = some row → ∃ row', after.rows[index]? = some row' ∧ row.Keeps row' := Iff.rfl

/-- The register has the names in view, and a place behind them is not one of the first three. -/
structure Shows (registers : Registers) (view : View) : Prop where
  present : view.register < registers.rows.size
  filled : view.length ≤ (registers.row view).places.length
  settled : 3 ≤ view.length ∨ (registers.row view).capacity ≤ view.length

variable {registers later : Registers} {view : View}

theorem keeps_row (le : registers ≤ later) (present : view.register < registers.rows.size) :
    view.register < later.rows.size ∧ (registers.row view).Keeps (later.row view) := by
  obtain ⟨later', found, keeps⟩ := le_iff.mp le _ _ (Array.getElem?_eq_getElem present)
  obtain ⟨present', _⟩ := Array.getElem?_eq_some_iff.mp found
  refine ⟨present', ?_⟩
  rw [row, row, found, Array.getElem?_eq_getElem present]
  exact keeps

namespace Shows

theorem mono (shows : registers.Shows view) (le : registers ≤ later) : later.Shows view := by
  obtain ⟨present, capacity, length, _⟩ := keeps_row le shows.present
  exact ⟨present, shows.filled.trans length, capacity ▸ shows.settled⟩

theorem length_seen (shows : registers.Shows view) : (registers.seen view).length = view.length := by
  rw [seen, List.length_take, min_eq_left shows.filled]

/-- Up to three names, what is seen never changes. -/
theorem seen_eq (shows : registers.Shows view) (le : registers ≤ later) (few : view.length ≤ 3) :
    later.seen view = registers.seen view := by
  obtain ⟨_, _, _, firstThree⟩ := keeps_row le shows.present
  have both (names : List Name) : names.take view.length = (names.take 3).take view.length := by
    rw [List.take_take, min_eq_left few]
  rw [seen, seen, both, firstThree, ← both]

end Shows

/-! ## The ways to change registers -/

section

variable (registers : Registers) {capacity : Nat} {names : List Name}

theorem le_start : registers ≤ (registers.start capacity names).2 := by
  refine le_iff.mpr fun index row found => ?_
  obtain ⟨bound, _⟩ := Array.getElem?_eq_some_iff.mp found
  refine ⟨row, ?_, rfl, le_rfl, rfl⟩
  rw [start, Array.getElem?_push, if_neg (Nat.ne_of_lt bound), found]

theorem row_start :
    (registers.start capacity names).2.row (registers.start capacity names).1 = ⟨capacity, names⟩ := by
  simp [start, row]

theorem seen_start :
    (registers.start capacity names).2.seen (registers.start capacity names).1 = names := by
  rw [seen, row_start, start, List.take_length]

theorem shows_start (settled : 3 ≤ names.length ∨ capacity ≤ names.length) :
    (registers.start capacity names).2.Shows (registers.start capacity names).1 := by
  refine ⟨?_, ?_, ?_⟩
  · simp [start]
  · rw [row_start]
    exact le_rfl
  · rw [row_start]
    exact settled

end

section

variable (shows : registers.Shows view) (x : Name)
include shows

/-- There is a free place only behind three names or more. -/
theorem three_le_length (free : view.length < (registers.row view).capacity) : 3 ≤ view.length :=
  shows.settled.resolve_right (Nat.not_le.mpr free)

theorem keeps_write (free : view.length < (registers.row view).capacity) :
    (registers.row view).Keeps ((registers.row view).write view.length x) where
  capacity := rfl
  length := by
    have filled := shows.filled
    simp only [Register.write, List.length_append, List.length_take, List.length_cons,
      List.length_drop]
    omega
  firstThree := by
    have three := three_le_length shows free
    rw [Register.write, List.take_append_of_le_length, List.take_take, min_eq_left three]
    rw [List.length_take]
    exact le_min three (three.trans shows.filled)

theorem le_enter : registers ≤ (registers.enter view x).2 := by
  unfold enter
  dsimp only
  split
  · rename_i free
    refine le_iff.mpr fun index row found => ?_
    rw [Array.getElem?_modify]
    split
    · rename_i here
      subst here
      have isRow : registers.row view = row := by rw [Registers.row, found, Option.getD_some]
      refine ⟨row.write view.length x, by rw [found]; rfl, isRow ▸ keeps_write shows x free⟩
    · exact ⟨row, found, rfl, le_rfl, rfl⟩
  · exact registers.le_start

theorem shows_enter : (registers.enter view x).2.Shows (registers.enter view x).1 := by
  have filled := shows.filled
  unfold enter
  dsimp only
  split
  · rename_i free
    have three := three_le_length shows free
    refine ⟨?_, ?_, .inl (three.trans (Nat.le_succ _))⟩
    · simpa using shows.present
    · have written : Registers.row ⟨registers.rows.modify view.register fun row =>
          row.write view.length x⟩ ⟨view.register, view.length + 1⟩ =
          (registers.row view).write view.length x := by
        simp [Registers.row, Array.getElem?_modify, Array.getElem?_eq_getElem shows.present]
      rw [written, Register.write, List.length_append, List.length_take, List.length_cons,
        min_eq_left filled]
      exact Nat.add_le_add_left (Nat.succ_le_succ (Nat.zero_le _)) _
  · rename_i full
    refine registers.shows_start ?_
    rw [List.length_append, shows.length_seen, List.length_singleton]
    omega

theorem seen_enter (few : view.length < 3) :
    (registers.enter view x).2.seen (registers.enter view x).1 = registers.seen view ++ [x] := by
  have full : ¬ view.length < (registers.row view).capacity := fun free =>
    Nat.not_le.mpr few (three_le_length shows free)
  rw [enter, if_neg full, seen_start]

end

theorem shows_detach (registers : Registers) (view : View) :
    (registers.detach view).2.Shows (registers.detach view).1 :=
  registers.shows_start (.inr le_rfl)

end Registers

/-! ## The views in a value -/

mutual

def Value.views : Value → List View
  | .pi domain range => domain.views ++ range.views
  | .lam body => body.views
  | .sigma carType cdrType => carType.views ++ cdrType.views
  | .pair first second => first.views ++ second.views
  | .add1 predecessor => predecessor.views
  | .equal type left right => type.views ++ left.views ++ right.views
  | .neutral type blocked => type.views ++ blocked.views
  | .nat | .zero | .same | .trivial | .sole | .absurd | .atom | .tick _ | .univ => []

def Closure.views : Closure → List View
  | .mk env _ _ => env.views

def Neutral.views : Neutral → List View
  | .var _ => []
  | .app function argument => function.views ++ argument.views
  | .car pair => pair.views
  | .cdr pair => pair.views
  | .indNat target motive base step => target.views ++ motive.views ++ base.views ++ step.views
  | .replace target motive base => target.views ++ motive.views ++ base.views
  | .indAbsurd target motive => target.views ++ motive.views

def Normal.views : Normal → List View
  | .mk type value => type.views ++ value.views

def Env.views : Env → List View
  | .nil => []
  | .cons tally _ value outer => tally.view?.toList ++ value.views ++ outer.views

end

def Registers.ShowAll (registers : Registers) (views : List View) : Prop :=
  ∀ view ∈ views, registers.Shows view

namespace Registers.ShowAll

variable {registers later : Registers} {views more : List View}

theorem mono (shown : registers.ShowAll views) (le : registers ≤ later) : later.ShowAll views :=
  fun view mem => (shown view mem).mono le

theorem append_iff :
    registers.ShowAll (views ++ more) ↔ registers.ShowAll views ∧ registers.ShowAll more :=
  List.forall_mem_append

theorem nil_iff : registers.ShowAll [] ↔ True :=
  iff_true_intro (List.forall_mem_nil _)

end Registers.ShowAll

open Registers.ShowAll (append_iff nil_iff)

theorem Value.showAll_iff {registers : Registers} {value : Value} : registers.ShowAll value.views ↔
    Value.Congruent (fun part _ => registers.ShowAll part.views)
      (fun part _ => registers.ShowAll part.views) (fun part _ => registers.ShowAll part.views)
      value value := by
  constructor
  · intro shown
    cases value <;> simp only [Value.views, append_iff] at shown <;> constructor <;> simp only [shown]
  · intro built
    cases built <;> simp only [Value.views, append_iff, nil_iff, and_self, *]

theorem Neutral.showAll_iff {registers : Registers} {blocked : Neutral} :
    registers.ShowAll blocked.views ↔ Neutral.Congruent (fun part _ => registers.ShowAll part.views)
      (fun part _ => registers.ShowAll part.views) (fun _ _ => True) blocked blocked := by
  have normal {normal : Normal} : registers.ShowAll normal.views ↔
      Normal.Congruent (fun part _ => registers.ShowAll part.views) normal normal := by
    cases normal with
    | mk type value =>
        rw [Normal.views, append_iff]
        exact ⟨fun shown => .mk shown.1 shown.2, fun ⟨type, value⟩ => ⟨type, value⟩⟩
  constructor
  · intro shown
    cases blocked <;> simp only [Neutral.views, append_iff, normal] at shown <;> constructor <;>
      simp only [shown]
  · intro built
    cases built <;> simp only [Neutral.views, append_iff, nil_iff, and_self, *]

namespace Env

theorem views_subset_of_innermost? (env : Env) {x : Name} {value : Value}
    (found : env.innermost? x = some value) : value.views ⊆ env.views := by
  cases env with
  | nil => cases found
  | cons tally y head outer =>
      rw [innermost?] at found
      split at found
      · cases found
        exact List.subset_append_of_subset_left _ (List.subset_append_right _ _)
      · exact List.subset_append_of_subset_right _ (outer.views_subset_of_innermost? found)

theorem views_subset_of_lookup? (env : Env) {x : Name} {value : Value}
    (found : env.lookup? x = some value) : value.views ⊆ env.views := by
  rw [lookup?] at found
  split at found
  · cases found
  · exact env.views_subset_of_innermost? found

theorem mem_views_of_innermostLike? (env : Env) {digest : UInt32} {y : Name} {view : View}
    (found : env.innermostLike? digest = some (y, some view)) : view ∈ env.views := by
  cases env with
  | nil => cases found
  | cons tally x value outer =>
      rw [innermostLike?] at found
      split at found
      · have here : tally.view? = some view := congrArg Prod.snd (Option.some.inj found)
        rw [views, here]
        exact List.mem_cons_self
      · exact List.mem_append_right _ (outer.mem_views_of_innermostLike? found)

/-- A new binding leaves later registers, which show all that was shown and its own view. -/
theorem extendWith_shown {registers : Registers} {env : Env} {value : Value}
    (shown : registers.ShowAll env.views) (valueShown : registers.ShowAll value.views) (x : Name) :
    registers ≤ (env.extendWith registers x value).2 ∧
      (env.extendWith registers x value).2.ShowAll (env.extendWith registers x value).1.views := by
  have tally : registers ≤ (env.tallyWith registers x).2 ∧
      (env.tallyWith registers x).2.ShowAll (env.tallyWith registers x).1.view?.toList := by
    unfold tallyWith
    split
    · exact ⟨le_rfl, nil_iff.mpr trivial⟩
    · split
      · exact ⟨le_rfl, nil_iff.mpr trivial⟩
      · refine ⟨registers.le_start, List.forall_mem_singleton.mpr ?_⟩
        exact registers.shows_start (.inr le_rfl)
    · rename_i y view found
      have showsView := shown view (env.mem_views_of_innermostLike? found)
      split
      · refine ⟨registers.le_start, List.forall_mem_singleton.mpr ?_⟩
        exact registers.shows_detach view
      · refine ⟨registers.le_enter showsView x, List.forall_mem_singleton.mpr ?_⟩
        exact registers.shows_enter showsView x
  refine ⟨tally.1, ?_⟩
  rw [extendWith, views, append_iff, append_iff]
  exact ⟨⟨tally.2, valueShown.mono tally.1⟩, shown.mono tally.1⟩

end Env

/-! ## Evaluation and reading back -/

/-- The computation leaves later registers, and its value is related in them to some value. -/
def Comparison.shared :
    Comparison Registers (Stateful Registers Stuck) (Stateful Registers Stuck) where
  Ends results _ registers first _ := registers ≤ (first registers).2 ∧
    ∀ value, (first registers).1 = .done value → ∃ value', results (first registers).2 value value'
  done related := ⟨le_rfl, fun _ finished => by cases finished; exact ⟨_, related⟩⟩
  bind {_ _ _ _ _ results _ registers first _ next _} ends nextEnds := by
    change registers ≤ (Stateful.bind first next registers).2 ∧
      ∀ value, (Stateful.bind first next registers).1 = .done value →
        ∃ value', results (Stateful.bind first next registers).2 value value'
    unfold Stateful.bind
    generalize first registers = ran at ends ⊢
    obtain ⟨outcome, left⟩ := ran
    obtain ⟨le, finishes⟩ := ends
    cases outcome with
    | done value =>
        obtain ⟨_, related⟩ := finishes value rfl
        obtain ⟨le', nextFinishes⟩ := nextEnds le related
        exact ⟨le.trans le', nextFinishes⟩
    | failed | exhausted => exact ⟨le, fun _ finished => by cases finished⟩
  mono ends included := by
    refine ⟨ends.1, fun value finished => ?_⟩
    obtain ⟨value', related⟩ := ends.2 value finished
    exact ⟨value', included ends.1 related⟩
  spend ends := ends
  stuck _ := ⟨le_rfl, fun _ finished => by cases finished⟩
  exhausted _ := ⟨le_rfl, fun _ finished => by cases finished⟩

def Invariant.shared : Invariant Comparison.shared where
  values registers value := registers.ShowAll value.views
  closures registers closure := registers.ShowAll closure.views
  neutrals registers blocked := registers.ShowAll blocked.views
  names _ := True
  scopes registers env _ := registers.ShowAll env.views
  values_iff := Value.showAll_iff
  neutrals_iff := Neutral.showAll_iff
  values_mono le _ shown := shown.mono le
  closures_mono le _ shown := shown.mono le
  neutrals_mono le _ shown := shown.mono le
  scopes_mono le _ _ shown := shown.mono le
  motives _ _ := List.forall_mem_nil _
  natStepType shown := by
    simpa [Value.natStepType, Value.views, Closure.views, Env.extend, Env.views] using shown
  parts {_ _ term} shown := by
    cases term <;> constructor <;> trivial
  lookup {fuel registers env x} shown := by
    change registers ≤ ((env.eval (fuel + 1) (.var x) : Accounting Value) registers).2 ∧ ∀ value,
      ((env.eval (fuel + 1) (.var x) : Accounting Value) registers).1 = .done value → _
    rw [Env.eval]
    cases found : env.lookup? x with
    | none => exact ⟨le_rfl, fun _ finished => by cases finished⟩
    | some value =>
        refine ⟨le_rfl, fun _ finished => ?_⟩
        cases finished
        exact ⟨_, rfl, fun view mem => shown view (env.views_subset_of_lookup? found mem)⟩
  extend {_ registers env x _ argument} closureShown argumentShown := by
    obtain ⟨le, shown⟩ := Env.extendWith_shown closureShown argumentShown x
    refine ⟨le, fun _ finished => ?_⟩
    cases finished
    exact ⟨_, rfl, shown⟩

def Context.views (ctx : Context) : List View :=
  ctx.entries.flatMap (fun entry => entry.binding.type.views) ++ ctx.env.views

theorem Context.bind_shown {fuel : Nat} {registers : Registers} {ctx : Context} {x : Name}
    {binding : Binding} (shown : registers.ShowAll ctx.views)
    (typeShown : registers.ShowAll binding.type.views)
    (valueShown : registers.ShowAll binding.value.views) :
    Comparison.shared.Ends
      (fun later inner inner' => inner = inner' ∧ later.ShowAll (Context.views inner)) fuel registers
      (ctx.bind x binding) fun _ => ctx.bind x binding := by
  obtain ⟨entriesShown, envShown⟩ := append_iff.mp shown
  obtain ⟨le, innerShown⟩ := Env.extendWith_shown envShown valueShown x
  refine ⟨le, fun _ finished => ?_⟩
  cases finished
  refine ⟨_, rfl, ?_⟩
  rw [views, List.flatMap_cons, append_iff, append_iff]
  exact ⟨⟨typeShown.mono le, entriesShown.mono le⟩, innerShown⟩

theorem Context.assume_shown {fuel : Nat} {registers : Registers} {ctx : Context} {x : Name}
    {type : Value} (shown : registers.ShowAll ctx.views) (typeShown : registers.ShowAll type.views) :
    Comparison.shared.Ends
      (fun later inner inner' => inner = inner' ∧ later.ShowAll (Context.views inner)) fuel registers
      (ctx.assume x type) fun _ => ctx.assume x type := by
  refine bind_shown shown typeShown ?_
  rw [Binding.value, Value.ofVar, Value.views, Neutral.views, List.append_nil]
  exact typeShown

theorem Context.type?_shown {registers : Registers} {ctx : Context} {x : Name} {type : Value}
    (shown : registers.ShowAll ctx.views) (found : ctx.type? x = some type) :
    registers.ShowAll type.views := by
  simp only [type?, binding?, Option.map_eq_some_iff] at found
  obtain ⟨_, ⟨entry, entryFound, rfl⟩, rfl⟩ := found
  have mem := List.mem_of_find?_eq_some entryFound
  exact fun view inside => (append_iff.mp shown).1 view (List.mem_flatMap.mpr ⟨entry, mem, inside⟩)

def Invariant.sharedContexts : Invariant.shared.OfContexts where
  contexts registers ctx := registers.ShowAll ctx.views
  contexts_mono le _ shown := shown.mono le
  names _ := trivial
  assume := Context.assume_shown

abbrev Reading.shared : Reading Comparison.shared := Invariant.sharedContexts.reading

/-! ## Type checking -/

def Verdicts.shared : Verdicts Reading.shared (Stateful Journal Fault) (Stateful Journal Fault) where
  Ends results _ registers first _ := ∀ events, registers ≤ (first ⟨registers, events⟩).2.registers ∧
    ∀ value, (first ⟨registers, events⟩).1 = .done value →
      ∃ value', results (first ⟨registers, events⟩).2.registers value value'
  events _ _ := True
  errors _ _ := True
  done related _ := ⟨le_rfl, fun _ finished => by cases finished; exact ⟨_, related⟩⟩
  bind {_ _ _ _ _ results _ registers first _ next _} ends nextEnds events := by
    have ended := ends events
    change registers ≤ (Stateful.bind first next ⟨registers, events⟩).2.registers ∧
      ∀ value, (Stateful.bind first next ⟨registers, events⟩).1 = .done value →
        ∃ value', results (Stateful.bind first next ⟨registers, events⟩).2.registers value value'
    unfold Stateful.bind
    generalize first ⟨registers, events⟩ = ran at ended ⊢
    obtain ⟨outcome, left, recorded⟩ := ran
    obtain ⟨le, finishes⟩ := ended
    cases outcome with
    | done value =>
        obtain ⟨_, related⟩ := finishes value rfl
        obtain ⟨le', nextFinishes⟩ := nextEnds le related recorded
        exact ⟨le.trans le', nextFinishes⟩
    | failed | exhausted => exact ⟨le, fun _ finished => by cases finished⟩
  spend ends := ends
  spent _ _ := ⟨le_rfl, fun _ finished => by cases finished⟩
  compute {_ _ _ _ registers first _} ends events := by
    refine ⟨ends.1, fun value finished => ends.2 value ?_⟩
    exact Outcome.mapFault_eq_done_iff.mp finished
  record _ _ := ⟨le_rfl, fun _ _ => ⟨(), trivial⟩⟩
  reject _ _ := ⟨le_rfl, fun _ finished => by cases finished⟩
  alphaEquiv_eq := by
    rintro _ _ _ _ _ rfl rfl
    rfl
  mismatch _ _ := ⟨trivial, trivial⟩
  wrongFormer _ _ _ _ := trivial
  definition _ := ⟨trivial, trivial⟩

def Deciding.shared : Deciding Verdicts.shared :=
  Invariant.sharedContexts.deciding (fun _ => trivial) (fun _ => trivial)
    (fun shown => (append_iff.mp shown).2) Context.type?_shown

end LambdaCalculi.Dependent
