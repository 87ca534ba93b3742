import LambdaCalculi.Outcome

/-!
# Outcomes as the bound grows

A computation with a bound on its depth settles on a result when every bound that is large enough
gives that result. Sequences settle step by step, so a run can be put together without computing
with the bounds. `Below` compares two outcomes of one computation at two bounds: the smaller bound
may be reached, and otherwise changes nothing. `Follows` compares two computations that need
different bounds: where the first finishes, the second settles on a related value.
-/

set_option autoImplicit false

namespace LambdaCalculi.Outcome

variable {ε ε' α α' β β' : Type}

/-- Every large enough bound gives the result. -/
def Settles (run : Nat → Outcome ε α) (result : Outcome ε α) : Prop :=
  ∃ bound, ∀ fuel, bound ≤ fuel → run fuel = result

namespace Settles

theorem const (result : Outcome ε α) : Settles (fun _ => result) result :=
  ⟨0, fun _ _ => rfl⟩

theorem bind {run : Nat → Outcome ε α} {next : Nat → α → Outcome ε β} {value : α}
    {result : Outcome ε β} (first : Settles run (done value))
    (second : Settles (fun fuel => next fuel value) result) :
    Settles (fun fuel => run fuel >>= next fuel) result := by
  obtain ⟨firstBound, first⟩ := first
  obtain ⟨secondBound, second⟩ := second
  refine ⟨max firstBound secondBound, ?_⟩
  intro fuel enough
  have firstRun := first fuel (by omega)
  have secondRun := second fuel (by omega)
  simp only [firstRun, done_bind]
  exact secondRun

theorem bind_failed {run : Nat → Outcome ε α} {next : Nat → α → Outcome ε β} {fault : ε}
    (first : Settles run (failed fault)) :
    Settles (fun fuel => run fuel >>= next fuel) (failed fault) := by
  obtain ⟨bound, first⟩ := first
  refine ⟨bound, ?_⟩
  intro fuel enough
  simp only [first fuel enough, failed_bind]

theorem mapFault {run : Nat → Outcome ε α} {result : Outcome ε α} (change : ε → ε')
    (settled : Settles run result) :
    Settles (fun fuel => (run fuel).mapFault change) (result.mapFault change) := by
  obtain ⟨bound, settled⟩ := settled
  refine ⟨bound, ?_⟩
  intro fuel enough
  simp only [settled fuel enough]

/-- One unit of the bound may be spent first. -/
theorem spend {run : Nat → Outcome ε α} {result : Outcome ε α}
    (settled : Settles (fun fuel => run (fuel + 1)) result) : Settles run result := by
  obtain ⟨bound, settled⟩ := settled
  refine ⟨bound + 1, ?_⟩
  intro fuel enough
  obtain ⟨rest, rfl⟩ : ∃ rest, fuel = rest + 1 := ⟨fuel - 1, by omega⟩
  exact settled rest (by omega)

end Settles

def Below (smaller larger : Outcome ε α) : Prop :=
  smaller = exhausted ∨ smaller = larger

namespace Below

theorem exhausted (larger : Outcome ε α) : Below .exhausted larger :=
  .inl rfl

theorem refl (outcome : Outcome ε α) : Below outcome outcome :=
  .inr rfl

theorem trans {small middle large : Outcome ε α} (first : Below small middle)
    (second : Below middle large) : Below small large := by
  rcases first with rfl | rfl
  · exact exhausted large
  · exact second

theorem bind {first first' : Outcome ε α} {next next' : α → Outcome ε β} (below : Below first first')
    (nextBelow : ∀ value, Below (next value) (next' value)) :
    Below (first >>= next) (first' >>= next') := by
  rcases below with rfl | rfl
  · exact exhausted _
  · cases first with
    | done value => exact nextBelow value
    | failed fault => exact refl _
    | exhausted => exact refl _

theorem mapFault {smaller larger : Outcome ε α} (change : ε → ε') (below : Below smaller larger) :
    Below (smaller.mapFault change) (larger.mapFault change) := by
  rcases below with rfl | rfl
  · exact exhausted _
  · exact refl _

theorem of_le {run : Nat → Outcome ε α} (step : ∀ fuel, Below (run fuel) (run (fuel + 1)))
    {fuel more : Nat} (le : fuel ≤ more) : Below (run fuel) (run more) := by
  induction le with
  | refl => exact refl _
  | step _ ih => exact ih.trans (step _)

end Below

/-- Where a larger bound changes no finished result, no bound gives a result other than the one
settled on. -/
theorem Settles.below {run : Nat → Outcome ε α} {result : Outcome ε α}
    (settled : Settles run result) (step : ∀ fuel, Below (run fuel) (run (fuel + 1))) (fuel : Nat) :
    Below (run fuel) result := by
  obtain ⟨bound, settled⟩ := settled
  have larger := Below.of_le step (Nat.le_max_left fuel bound)
  rw [settled (max fuel bound) (Nat.le_max_right fuel bound)] at larger
  exact larger

/-- Where a larger bound changes no finished result, a finished result is the one settled on. -/
theorem Settles.eq_done {run : Nat → Outcome ε α} {result : Outcome ε α}
    (settled : Settles run result) (step : ∀ fuel, Below (run fuel) (run (fuel + 1))) {fuel : Nat}
    {value : α} (finished : run fuel = done value) : result = done value := by
  have below := settled.below step fuel
  rw [finished] at below
  rcases below with reached | same
  · cases reached
  · exact same.symm

/-- Where a larger bound changes no finished result, a finished result is settled on. -/
theorem Settles.of_not_exhausted {run : Nat → Outcome ε α}
    (step : ∀ fuel, Below (run fuel) (run (fuel + 1))) {fuel : Nat} {result : Outcome ε α}
    (reached : run fuel = result) (finished : result ≠ exhausted) : Settles run result := by
  refine ⟨fuel, fun more le => ?_⟩
  rcases Below.of_le step le with unfinished | same
  · exact absurd (reached.symm.trans unfinished) finished
  · exact same.symm.trans reached

theorem Settles.of_done {run : Nat → Outcome ε α}
    (step : ∀ fuel, Below (run fuel) (run (fuel + 1))) {fuel : Nat} {value : α}
    (finished : run fuel = done value) : Settles run (done value) :=
  .of_not_exhausted step finished (by simp)

theorem Settles.exists_eq {run : Nat → Outcome ε α} {result : Outcome ε α}
    (settled : Settles run result) : ∃ fuel, run fuel = result := by
  obtain ⟨bound, settled⟩ := settled
  exact ⟨bound, settled bound (Nat.le_refl bound)⟩

theorem Settles.unique {run : Nat → Outcome ε α} {result result' : Outcome ε α}
    (settled : Settles run result) (settled' : Settles run result') : result = result' := by
  obtain ⟨bound, settled⟩ := settled
  obtain ⟨bound', settled'⟩ := settled'
  rw [← settled (max bound bound') (by omega), settled' (max bound bound') (by omega)]

/-- If the first computation finished, the second settles on a related value. -/
def Follows (values : α → α' → Prop) (first : Outcome ε α) (second : Nat → Outcome ε' α') : Prop :=
  ∀ value, first = done value → ∃ value', Settles second (done value') ∧ values value value'

namespace Follows

variable {values : α → α' → Prop} {results : β → β' → Prop}

theorem done {value : α} {value' : α'} (related : values value value') :
    Follows values (.done value : Outcome ε α) (fun _ => (.done value' : Outcome ε' α')) := by
  rintro _ ⟨⟩
  exact ⟨value', .const _, related⟩

theorem failed {fault : ε} {second : Nat → Outcome ε' α'} : Follows values (.failed fault) second :=
  fun _ finished => by cases finished

theorem exhausted {second : Nat → Outcome ε' α'} :
    Follows values (.exhausted : Outcome ε α) second :=
  fun _ finished => by cases finished

theorem bind {first : Outcome ε α} {second : Nat → Outcome ε' α'} {next : α → Outcome ε β}
    {next' : Nat → α' → Outcome ε' β'} (follows : Follows values first second)
    (nextFollows : ∀ value value', values value value' →
      Follows results (next value) fun fuel => next' fuel value') :
    Follows results (first >>= next) (fun fuel => second fuel >>= next' fuel) := by
  intro result finished
  obtain ⟨value, firstRun, nextRun⟩ := bind_eq_done_iff.mp finished
  obtain ⟨value', settled, related⟩ := follows value firstRun
  obtain ⟨result', nextSettled, resultsRelated⟩ := nextFollows value value' related result nextRun
  exact ⟨result', settled.bind nextSettled, resultsRelated⟩

theorem mono {more : α → α' → Prop} {first : Outcome ε α} {second : Nat → Outcome ε' α'}
    (follows : Follows values first second)
    (included : ∀ value value', values value value' → more value value') :
    Follows more first second := by
  intro value finished
  obtain ⟨value', settled, related⟩ := follows value finished
  exact ⟨value', settled, included value value' related⟩

theorem spend {first : Outcome ε α} {second : Nat → Outcome ε' α'}
    (follows : Follows values first fun fuel => second (fuel + 1)) :
    Follows values first second := by
  intro value finished
  obtain ⟨value', settled, related⟩ := follows value finished
  exact ⟨value', settled.spend, related⟩

/-- A finished computation that follows itself has a value related to itself. -/
theorem self {values : α → α → Prop} {run : Nat → Outcome ε α} {fuel : Nat} {value : α}
    (follows : Follows values (run fuel) run) (step : ∀ fuel, Below (run fuel) (run (fuel + 1)))
    (finished : run fuel = .done value) : values value value := by
  obtain ⟨value', settled, related⟩ := follows value finished
  cases settled.eq_done step finished
  exact related

end Follows

end LambdaCalculi.Outcome
