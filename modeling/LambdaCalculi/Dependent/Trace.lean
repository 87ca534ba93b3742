import LambdaCalculi.Dependent.Term
import LambdaCalculi.Outcome

/-!
# Traced computations

The type checker keeps a record of the judgments it visits. A `Traced` computation is an outcome
together with the events on the way to it, which are kept also when the outcome is a fault. The
events never influence the outcome: `Traced.outcome` maps a sequence of traced steps to the
sequence of their outcomes.
-/

set_option autoImplicit false

namespace LambdaCalculi.Dependent

inductive Event where
  | synth (term : Term)
  | check (term : Term)
  | define (x : Name)
  | mismatch (left right : Term)
deriving DecidableEq, Repr

namespace Event

def text : Event → String
  | synth term => "synth " ++ term.render
  | check term => "check " ++ term.render
  | define x => "define " ++ x
  | mismatch left right => "convert failed: " ++ left.render ++ " vs " ++ right.render

/-- The event as lines of a trace. A text that ends in a line break gets no second one. -/
def lines (event : Event) : String :=
  "tartlet: " ++ event.text ++ (if event.text.toList.getLast? = some '\n' then "" else "\n")

end Event

def renderTrace (events : List Event) : String :=
  String.join (events.map Event.lines)

/-- An outcome and the events on the way to it, the earliest first. -/
structure Traced (ε α : Type) where
  events : List Event
  outcome : Outcome ε α

namespace Traced

variable {ε ε' α β : Type}

def bind (first : Traced ε α) (next : α → Traced ε β) : Traced ε β :=
  match first.outcome with
  | .done value => ⟨first.events ++ (next value).events, (next value).outcome⟩
  | .failed fault => ⟨first.events, .failed fault⟩
  | .exhausted => ⟨first.events, .exhausted⟩

instance : Monad (Traced ε) where
  pure value := ⟨[], .done value⟩
  bind := bind

def record (event : Event) : Traced ε Unit :=
  ⟨[event], .done ()⟩

def silent (outcome : Outcome ε α) : Traced ε α :=
  ⟨[], outcome⟩

def mapFault (f : ε → ε') (traced : Traced ε α) : Traced ε' α :=
  ⟨traced.events, traced.outcome.mapFault f⟩

@[simp]
theorem outcome_pure (value : α) : (pure value : Traced ε α).outcome = .done value := rfl

@[simp]
theorem outcome_bind (first : Traced ε α) (next : α → Traced ε β) :
    (first >>= next).outcome = first.outcome >>= fun value => (next value).outcome := by
  change (bind first next).outcome = _
  unfold bind
  cases first.outcome <;> rfl

@[simp]
theorem outcome_record (event : Event) : (record event : Traced ε Unit).outcome = .done () := rfl

@[simp]
theorem outcome_silent (outcome : Outcome ε α) : (silent outcome).outcome = outcome := rfl

@[simp]
theorem outcome_mapFault (f : ε → ε') (traced : Traced ε α) :
    (traced.mapFault f).outcome = traced.outcome.mapFault f := rfl

end Traced

end LambdaCalculi.Dependent
