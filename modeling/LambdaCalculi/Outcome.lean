/-!
# Outcomes of bounded computations

Evaluation need not end: untyped terms may loop, and the dependent calculus has its universe as a
member of itself. Every evaluator therefore takes a bound on the depth of its recursion, and says
which of three things happened: it finished with a value, it failed with a fault of its own, or it
reached the bound. A computation diverges when every bound is too small for it.
-/

set_option autoImplicit false

namespace LambdaCalculi

inductive Outcome (ε α : Type) where
  | done (value : α)
  /-- The computation ran into a fault; a larger bound would not help. -/
  | failed (fault : ε)
  /-- The bound was reached; a larger bound may help. -/
  | exhausted
deriving DecidableEq, Repr

namespace Outcome

variable {ε ε' α β : Type}

/-- Runs `next` on the value of `first`; a fault or a reached bound ends the whole computation. -/
def bind (first : Outcome ε α) (next : α → Outcome ε β) : Outcome ε β :=
  match first with
  | done value => next value
  | failed fault => failed fault
  | exhausted => exhausted

instance : Monad (Outcome ε) where
  pure := done
  bind := bind

def mapFault (f : ε → ε') : Outcome ε α → Outcome ε' α
  | done value => done value
  | failed fault => failed (f fault)
  | exhausted => exhausted

def ofOption (fault : ε) : Option α → Outcome ε α
  | some value => done value
  | none => failed fault

@[simp]
theorem pure_eq_done (value : α) : (pure value : Outcome ε α) = done value := rfl

@[simp]
theorem done_bind (value : α) (next : α → Outcome ε β) : (done value >>= next) = next value := rfl

@[simp]
theorem failed_bind (fault : ε) (next : α → Outcome ε β) :
    (failed fault >>= next) = failed fault := rfl

@[simp]
theorem exhausted_bind (next : α → Outcome ε β) :
    ((exhausted : Outcome ε α) >>= next) = exhausted := rfl

@[simp]
theorem map_eq_bind (f : α → β) (first : Outcome ε α) :
    f <$> first = first >>= fun value => done (f value) := rfl

instance : LawfulMonad (Outcome ε) :=
  LawfulMonad.mk' (Outcome ε)
    (by intro α x; cases x <;> rfl)
    (by intro α β x f; rfl)
    (by intro α β γ x f g; cases x <;> rfl)

theorem bind_eq_done_iff {first : Outcome ε α} {next : α → Outcome ε β} {result : β} :
    first >>= next = done result ↔ ∃ value, first = done value ∧ next value = done result := by
  cases first <;> simp

theorem bind_eq_failed_iff {first : Outcome ε α} {next : α → Outcome ε β} {fault : ε} :
    first >>= next = failed fault ↔
      first = failed fault ∨ ∃ value, first = done value ∧ next value = failed fault := by
  cases first <;> simp

@[simp]
theorem mapFault_done (f : ε → ε') (value : α) :
    mapFault f (done value) = done value := rfl

@[simp]
theorem mapFault_failed (f : ε → ε') (fault : ε) :
    mapFault f (failed fault : Outcome ε α) = failed (f fault) := rfl

@[simp]
theorem mapFault_exhausted (f : ε → ε') :
    mapFault f (exhausted : Outcome ε α) = exhausted := rfl

theorem mapFault_eq_done_iff {f : ε → ε'} {outcome : Outcome ε α} {value : α} :
    outcome.mapFault f = done value ↔ outcome = done value := by
  cases outcome <;> simp

end Outcome

end LambdaCalculi
