import LambdaCalculi.Outcome

/-!
# Two computations in lockstep

Two outcomes are alike when both computations finished with related values, both failed with related
faults, or both reached their bound. Sequences of like steps are alike, so two runs of one algorithm
on related data can be compared step by step.
-/

set_option autoImplicit false

namespace LambdaCalculi.Outcome

variable {ε ε' δ δ' α α' β β' : Type} {faults : ε → ε' → Prop} {values : α → α' → Prop}

inductive Alike (faults : ε → ε' → Prop) (values : α → α' → Prop) :
    Outcome ε α → Outcome ε' α' → Prop where
  | done {value : α} {value' : α'} (related : values value value') :
      Alike faults values (.done value) (.done value')
  | failed {fault : ε} {fault' : ε'} (related : faults fault fault') :
      Alike faults values (.failed fault) (.failed fault')
  | exhausted : Alike faults values .exhausted .exhausted

namespace Alike

theorem bind {first : Outcome ε α} {first' : Outcome ε' α'} {next : α → Outcome ε β}
    {next' : α' → Outcome ε' β'} {results : β → β' → Prop} (alike : Alike faults values first first')
    (nextAlike : ∀ value value', values value value' →
      Alike faults results (next value) (next' value')) :
    Alike faults results (first >>= next) (first' >>= next') := by
  cases alike with
  | done related => exact nextAlike _ _ related
  | failed related => exact failed related
  | exhausted => exact exhausted

/-- The same where the first computation may be cut short by its bound. -/
theorem bind_of_exhausted_or {first : Outcome ε α} {first' : Outcome ε' α'} {next : α → Outcome ε β}
    {next' : α' → Outcome ε' β'} {results : β → β' → Prop}
    (alike : first = .exhausted ∨ Alike faults values first first')
    (nextAlike : ∀ value value', values value value' →
      next value = .exhausted ∨ Alike faults results (next value) (next' value')) :
    first >>= next = .exhausted ∨ Alike faults results (first >>= next) (first' >>= next') := by
  rcases alike with rfl | alike
  · exact .inl rfl
  · cases alike with
    | done related => exact nextAlike _ _ related
    | failed related => exact .inr (failed related)
    | exhausted => exact .inl rfl

theorem mono {more : α → α' → Prop} {outcome : Outcome ε α} {outcome' : Outcome ε' α'}
    (alike : Alike faults values outcome outcome')
    (included : ∀ value value', values value value' → more value value') :
    Alike faults more outcome outcome' := by
  cases alike with
  | done related => exact done (included _ _ related)
  | failed related => exact failed related
  | exhausted => exact exhausted

theorem mapFault {outcome : Outcome ε α} {outcome' : Outcome ε' α'} {changed : δ → δ' → Prop}
    {change : ε → δ} {change' : ε' → δ'} (alike : Alike faults values outcome outcome')
    (related : ∀ fault fault', faults fault fault' → changed (change fault) (change' fault')) :
    Alike changed values (outcome.mapFault change) (outcome'.mapFault change') := by
  cases alike with
  | done valuesRelated => exact done valuesRelated
  | failed faultsRelated => exact failed (related _ _ faultsRelated)
  | exhausted => exact exhausted

theorem exhausted_iff {outcome : Outcome ε α} {outcome' : Outcome ε' α'}
    (alike : Alike faults values outcome outcome') : outcome = .exhausted ↔ outcome' = .exhausted := by
  cases alike <;> simp

theorem of_done {outcome : Outcome ε α} {outcome' : Outcome ε' α'} {value : α}
    (alike : Alike faults values outcome outcome') (finished : outcome = .done value) :
    ∃ value', outcome' = .done value' ∧ values value value' := by
  subst finished
  cases alike with
  | done related => exact ⟨_, rfl, related⟩

/-- What is known of the values of either side may be added to how they are related. -/
theorem and {left : α → Prop} {right : α' → Prop} {outcome : Outcome ε α} {outcome' : Outcome ε' α'}
    (alike : Alike faults values outcome outcome') (onLeft : ∀ value, outcome = .done value → left value)
    (onRight : ∀ value', outcome' = .done value' → right value') :
    Alike faults (fun value value' => values value value' ∧ left value ∧ right value')
      outcome outcome' := by
  cases alike with
  | done related => exact done ⟨related, onLeft _ rfl, onRight _ rfl⟩
  | failed related => exact failed related
  | exhausted => exact exhausted

theorem eq {outcome outcome' : Outcome ε α} (alike : Alike Eq Eq outcome outcome') :
    outcome = outcome' := by
  cases alike with
  | done same => rw [same]
  | failed same => rw [same]
  | exhausted => rfl

end Alike

end LambdaCalculi.Outcome
