import LambdaCalculi.Dependent.Scoping
import LambdaCalculi.Proofs.Lockstep
import LambdaCalculi.Proofs.Safety
import LambdaCalculi.Proofs.Settling
import Mathlib.Order.Basic

/-!
# Ways to compare computations

A `Comparison` says what it means that a computation ends like another one. The first is given a bound
on its depth, the second may be given any; and the first may change a world on its way, which only gets
later. No more is asked of a comparison than how ends are put in sequence, what comes of spending a unit
of the bound, and that both may stop at the same place.

Two computations can go in lockstep; the second can follow the first with a bound of its own; the first
can be the second with a smaller bound; and a comparison can look at the first alone.
-/

set_option autoImplicit false

namespace LambdaCalculi.Dependent

open Outcome

def Stuck.NotUnbound : Stuck → Prop
  | .unbound _ => False
  | _ => True

/-- When a computation with a given bound on its depth, started in a world, ends like another one that
may be given any bound. -/
structure Comparison (World : Type) [Preorder World] (m m' : Type → Type) [Monad m] [Scoping m]
    [Monad m'] [Scoping m'] where
  Ends {α α' : Type} (results : World → α → α' → Prop) (fuel : Nat) (world : World) (first : m α)
    (second : Nat → m' α') : Prop
  done {α α' : Type} {results : World → α → α' → Prop} {fuel : Nat} {world : World} {value : α}
    {value' : α'} (related : results world value value') :
    Ends results fuel world (pure value) fun _ => pure value'
  bind {α α' β β' : Type} {results : World → α → α' → Prop} {nextResults : World → β → β' → Prop}
    {fuel : Nat} {world : World} {first : m α} {second : Nat → m' α'} {next : α → m β}
    {next' : Nat → α' → m' β'} (ends : Ends results fuel world first second)
    (nextEnds : ∀ {later : World} {value : α} {value' : α'}, world ≤ later →
      results later value value' →
        Ends nextResults fuel later (next value) fun bound => next' bound value') :
    Ends nextResults fuel world (first >>= next) fun bound => second bound >>= next' bound
  mono {α α' : Type} {results more : World → α → α' → Prop} {fuel : Nat} {world : World} {first : m α}
    {second : Nat → m' α'} (ends : Ends results fuel world first second)
    (included : ∀ {later : World} {value : α} {value' : α'}, world ≤ later →
      results later value value' → more later value value') : Ends more fuel world first second
  spend {α α' : Type} {results : World → α → α' → Prop} {fuel : Nat} {world : World} {first : m α}
    {second : Nat → m' α'} (ends : Ends results fuel world first fun bound => second (bound + 1)) :
    Ends results (fuel + 1) world first second
  stuck {α α' : Type} {results : World → α → α' → Prop} {fuel : Nat} {world : World} {place : Stuck}
    (elsewhere : place.NotUnbound) :
    Ends results fuel world (Scoping.stuck place) fun _ => Scoping.stuck place
  exhausted {α α' : Type} {results : World → α → α' → Prop} {world : World} {second : Nat → m' α'}
    (spent : second 0 = Scoping.exhausted) : Ends results 0 world Scoping.exhausted second

namespace Comparison

/-- A computation that changes nothing has one world. -/
instance : Preorder Unit where
  le _ _ := True
  lt _ _ := False
  le_refl _ := trivial
  le_trans _ _ _ _ _ := trivial
  lt_iff_le_not_ge _ _ := by simp

def lockstep : Comparison Unit (Outcome Stuck) (Outcome Stuck) where
  Ends results fuel _ first second := Alike Eq (results ()) first (second fuel)
  done related := .done related
  bind ends nextEnds := ends.bind fun _ _ related => nextEnds le_rfl related
  mono ends included := ends.mono fun _ _ related => included le_rfl related
  spend ends := ends
  stuck _ := .failed rfl
  exhausted spent := by
    rw [spent]
    exact .exhausted

/-- If the first has a value, the second settles on a related one. -/
def follows : Comparison Unit (Outcome Stuck) (Outcome Stuck) where
  Ends results _ _ first second := Follows (results ()) first second
  done related := .done related
  bind ends nextEnds := ends.bind fun _ _ related => nextEnds le_rfl related
  mono ends included := ends.mono fun _ _ related => included le_rfl related
  spend ends := ends.spend
  stuck _ := .failed
  exhausted _ := .exhausted

/-- The second has one unit more. Unless the bound of the first is too small, they end in the same way. -/
def below : Comparison Unit (Outcome Stuck) (Outcome Stuck) where
  Ends results fuel _ first second :=
    first = .exhausted ∨ Alike Eq (results ()) first (second (fuel + 1))
  done related := .inr (.done related)
  bind ends nextEnds :=
    Alike.bind_of_exhausted_or ends fun _ _ related => nextEnds le_rfl related
  mono ends included := ends.imp_right fun alike => alike.mono fun _ _ related => included le_rfl related
  spend ends := ends
  stuck _ := .inr (.failed rfl)
  exhausted _ := .inl rfl

/-- The first is not stuck at a place that is not allowed, and its value is related to some value. -/
def safe (allowed : Stuck → Prop) (elsewhere : ∀ place, place.NotUnbound → allowed place) :
    Comparison Unit (Outcome Stuck) (Outcome Stuck) where
  Ends results _ _ first _ := Safe allowed (fun value => ∃ value', results () value value') first
  done related := ⟨_, related⟩
  bind ends nextEnds := ends.bind fun _ ⟨_, related⟩ => nextEnds le_rfl related
  mono ends included := ends.mono fun _ ⟨value', related⟩ => ⟨value', included le_rfl related⟩
  spend ends := ends
  stuck notUnbound := elsewhere _ notUnbound
  exhausted _ := trivial

abbrev values : Comparison Unit (Outcome Stuck) (Outcome Stuck) :=
  safe (fun _ => True) fun _ _ => trivial

end Comparison

end LambdaCalculi.Dependent
