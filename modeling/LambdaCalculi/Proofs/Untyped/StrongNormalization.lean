import LambdaCalculi.Proofs.Behaviour
import LambdaCalculi.Proofs.Untyped.LexicalScoping
import Mathlib.Order.WellFounded

/-!
# Normalisation ends where reduction does

Each application of a closure contracts a redex of the term that is evaluated, and everything else
that evaluation and reading back do goes on in a part of that term. An argument is evaluated before
it is known whether the function needs it, but it is a part of the application. So the term at hand
goes down along steps and parts, and on a term without infinite reductions there is no way down for
ever.
-/

set_option autoImplicit false

namespace LambdaCalculi.Untyped

open Outcome
open Nameless (lift)
open Relation (ReflTransGen TransGen)

namespace Nameless

def StronglyNormalizing (term : Nameless) : Prop :=
  Acc (fun next previous => Step previous next) term

/-- One redex is contracted, or an immediate part is taken. -/
inductive Shrinks : Nameless → Nameless → Prop where
  | step {term next : Nameless} (step : Step term next) : Shrinks term next
  | body (body : Nameless) : Shrinks (.lam body) body
  | function (function argument : Nameless) : Shrinks (.app function argument) function
  | argument (function argument : Nameless) : Shrinks (.app function argument) argument

abbrev Descends : Nameless → Nameless → Prop :=
  TransGen Shrinks

theorem Reduces.descends {term middle last : Nameless} (reduces : Reduces term middle)
    (shrinks : Shrinks middle last) : Descends term last := by
  have start : ReflTransGen Shrinks term middle :=
    ReflTransGen.mono (fun _ _ => Shrinks.step) _ _ reduces
  exact TransGen.tail' start shrinks

theorem Descends.reduces {term middle last : Nameless} (descends : Descends term middle)
    (reduces : Reduces middle last) : Descends term last :=
  descends.trans_left (ReflTransGen.mono (fun _ _ => Shrinks.step) _ _ reduces)

def Grounded (term : Nameless) : Prop :=
  Acc (fun next previous => Descends previous next) term

theorem Grounded.reduces {term last : Nameless} (grounded : term.Grounded)
    (reduces : Reduces term last) : last.Grounded := by
  induction reduces with
  | refl => exact grounded
  | tail _ step ih => exact ih.inv (.single (.step step))

/-- What a part can do, the whole can do with the rest unchanged. So where shrinking ends from all that
the whole becomes in one step, it ends from the parts, too. -/
theorem shrinks_ends_of_reducts {term : Nameless}
    (reducts : ∀ next, Step term next → Acc (fun next previous => Shrinks previous next) next) :
    Acc (fun next previous => Shrinks previous next) term := by
  induction term with
  | bound | free =>
      refine ⟨_, fun next shrinks => ?_⟩
      cases shrinks with
      | step step => exact reducts next step
  | lam body ih =>
      refine ⟨_, fun next shrinks => ?_⟩
      cases shrinks with
      | step step => exact reducts next step
      | body =>
          refine ih fun inner step => ?_
          exact (reducts _ (.lam step)).inv (.body inner)
  | app function argument functionIH argumentIH =>
      refine ⟨_, fun next shrinks => ?_⟩
      cases shrinks with
      | step step => exact reducts next step
      | function =>
          refine functionIH fun inner step => ?_
          exact (reducts _ (.function argument step)).inv (.function inner argument)
      | argument =>
          refine argumentIH fun inner step => ?_
          exact (reducts _ (.argument function step)).inv (.argument function inner)

theorem StronglyNormalizing.grounded {term : Nameless} (normalizing : term.StronglyNormalizing) :
    term.Grounded := by
  have ends : Acc (fun next previous => Shrinks previous next) term := by
    induction normalizing with
    | intro term _ ih => exact shrinks_ends_of_reducts ih
  have swapped : (fun next previous => Descends previous next) =
      TransGen fun next previous => Shrinks previous next := by
    funext next previous
    exact propext Relation.transGen_swap.symm
  rw [Grounded, swapped]
  exact ends.transGen

end Nameless

open Nameless (Descends)

/-! ## Evaluation -/

/-- Applying the value of a function contracts a redex of the application of the terms. -/
theorem Evaluates.contracts {fuel fuel' : Nat} {scope : List Name} {env captured : Env}
    {substitution : Nat → Nameless} {function argument body : Term} {x : Name} {argumentValue : Value}
    (standsFor : env.StandsFor scope substitution)
    (functionRun : env.eval fuel function = .done (.closure captured x body))
    (argumentRun : env.eval fuel' argument = .done argumentValue) :
    ∃ inner, (captured.extend x argumentValue).StandsFor scope inner ∧
      Descends (((Term.app function argument).nameless env.names).subst substitution)
        ((body.nameless (captured.extend x argumentValue).names).subst inner) := by
  obtain ⟨functionTerm, functionStandsFor, functionReduces⟩ :=
    (evaluates fuel).eval standsFor functionRun
  obtain ⟨argumentTerm, argumentStandsFor, argumentReduces⟩ :=
    (evaluates fuel').eval standsFor argumentRun
  cases functionStandsFor with
  | @closure _ inner _ _ capturedStandsFor =>
      refine ⟨Nameless.extend argumentTerm inner, .cons x argumentStandsFor capturedStandsFor, ?_⟩
      have redex := (functionReduces.app argumentReduces).descends (.step (.beta _ _))
      rw [Nameless.instantiate_subst_lift] at redex
      exact redex

theorem Nameless.Grounded.eval_ends {whole : Nameless} (grounded : whole.Grounded) :
    ∀ {scope : List Name} {env : Env} {substitution : Nat → Nameless} {term : Term},
      env.StandsFor scope substitution → (term.nameless env.names).subst substitution = whole →
      Ends fun fuel => env.eval fuel term := by
  induction grounded with
  | intro whole _ ih =>
      rintro scope env substitution term standsFor rfl
      cases term with
      | var x =>
          refine .spend ?_
          simp only [Env.eval]
          cases env.lookup? x with
          | none => exact .const (by simp [ofOption])
          | some value => exact .const (by simp [ofOption])
      | lam x body =>
          refine .spend ?_
          simp only [Env.eval]
          exact .const (by simp)
      | app function argument =>
          have functionEnds := ih _ (.single (.function _ _)) standsFor rfl
          have argumentEnds := ih _ (.single (.argument _ _)) standsFor rfl
          refine .spend ?_
          simp only [Env.eval]
          refine functionEnds.bind fun functionValue functionSettled => ?_
          refine argumentEnds.bind fun argumentValue argumentSettled => ?_
          obtain ⟨functionFuel, functionRun⟩ := functionSettled.exists_eq
          obtain ⟨argumentFuel, argumentRun⟩ := argumentSettled.exists_eq
          refine .spend ?_
          cases functionValue with
          | closure captured x body =>
              obtain ⟨inner, innerStandsFor, descends⟩ :=
                Evaluates.contracts standsFor functionRun argumentRun
              simp only [Value.apply]
              exact ih _ descends innerStandsFor rfl
          | neutral blocked =>
              simp only [Value.apply]
              exact .const (by simp)

/-! ## Reading back -/

theorem Nameless.Grounded.readBack_ends {term : Nameless} (grounded : term.Grounded) :
    ∀ {scope used : List Name}, scope ⊆ used →
      (∀ {value : Value}, value.StandsFor scope term → Ends fun fuel => value.readBack fuel used) ∧
      ∀ {blocked : Neutral}, blocked.StandsFor scope term →
        Ends fun fuel => blocked.readBack fuel used := by
  induction grounded with
  | intro term below ih =>
      intro scope used known
      have neutralEnds : ∀ {blocked : Neutral}, blocked.StandsFor scope term →
          Ends fun fuel => blocked.readBack fuel used := by
        intro blocked standsFor
        refine .spend ?_
        cases standsFor with
        | var _ =>
            simp only [Neutral.readBack]
            exact .const (by simp)
        | app functionStandsFor argumentStandsFor =>
            have functionEnds := (ih _ (.single (.function _ _)) known).2 functionStandsFor
            have argumentEnds := (ih _ (.single (.argument _ _)) known).1 argumentStandsFor
            simp only [Neutral.readBack]
            refine functionEnds.bind fun _ _ => ?_
            exact argumentEnds.bind fun _ _ => .const (by simp)
      refine ⟨?_, neutralEnds⟩
      intro value standsFor
      refine .spend ?_
      cases standsFor with
      | @closure env substitution x body envStandsFor =>
          have new : Name.fresh used x ∉ scope := fun bound =>
            Name.fresh_not_mem used x (known bound)
          let inner := (body.nameless (x :: env.names)).subst (lift substitution)
          have inside : Descends (.lam inner) inner := .single (.body inner)
          simp only [Value.readBack]
          refine Ends.bind (.spend ?_) fun bodyValue applied => ?_
          · simp only [Value.apply]
            exact Nameless.Grounded.eval_ends (below inner inside) (envStandsFor.bindNew new x) rfl
          · obtain ⟨fuel, run⟩ := applied.exists_eq
            obtain ⟨bodyTerm, bodyStandsFor, bodyReduces⟩ := envStandsFor.apply_new new run
            have bodyEnds := (ih bodyTerm (inside.reduces bodyReduces)
              (List.cons_subset_cons _ known)).1 bodyStandsFor
            exact bodyEnds.bind fun _ _ => .const (by simp)
      | neutral blockedStandsFor =>
          simp only [Value.readBack]
          exact neutralEnds blockedStandsFor

/-! ## Normal forms of terms -/

namespace Term

def StronglyNormalizing (term : Term) : Prop :=
  (term.nameless []).StronglyNormalizing

theorem StronglyNormalizing.normalize_ends {term : Term} (normalizing : term.StronglyNormalizing) :
    Ends fun fuel => term.normalize fuel := by
  have grounded := Nameless.StronglyNormalizing.grounded normalizing
  have start : Env.nil.StandsFor [] Nameless.bound := .nil Nameless.bound
  have whole : (term.nameless Env.nil.names).subst Nameless.bound = term.nameless [] :=
    Nameless.subst_bound _
  refine (grounded.eval_ends start whole).bind fun value settled => ?_
  obtain ⟨fuel, run⟩ := settled.exists_eq
  obtain ⟨result, standsFor, reduces⟩ := (evaluates fuel).eval start run
  rw [whole] at reduces
  exact ((grounded.reduces reduces).readBack_ends (List.nil_subset [])).1 standsFor

theorem Closed.normalize_ne_failed {term : Term} (closed : term.Closed) (fuel : Nat)
    (unbound : UnboundVariable) : term.normalize fuel ≠ .failed unbound := by
  intro stopped
  have same : (Program.mk [] term).run fuel = term.normalize fuel := rfl
  have dangling := (Program.run_safe fuel ⟨[], term⟩).of_failed (same.trans stopped)
  rcases dangling with ⟨place, _⟩ | ⟨free, _⟩
  · exact place.elim0
  · rw [closed] at free
    cases free

/-- A closed term without infinite reductions has a normal form, and normalisation finds it. So where
normalisation does not end, the term has an infinite reduction. -/
theorem normalize_terminates {term : Term} (closed : term.Closed) :
    (term.StronglyNormalizing →
      ∃ normal, Settles (fun fuel => term.normalize fuel) (.done normal)) ∧
    ((∀ fuel, term.normalize fuel = .exhausted) →
      ∃ reduction : Nat → Nameless, reduction 0 = term.nameless [] ∧
        ∀ n, Nameless.Step (reduction n) (reduction (n + 1))) := by
  have settles : term.StronglyNormalizing →
      ∃ normal, Settles (fun fuel => term.normalize fuel) (.done normal) := by
    intro normalizing
    obtain ⟨result, settled, finished⟩ := normalizing.normalize_ends
    cases result with
    | done normal => exact ⟨normal, settled⟩
    | failed unbound =>
        obtain ⟨fuel, run⟩ := settled.exists_eq
        exact absurd run (closed.normalize_ne_failed fuel unbound)
    | exhausted => exact absurd rfl finished
  refine ⟨settles, fun diverges => ?_⟩
  have infinite : ¬ term.StronglyNormalizing := by
    intro normalizing
    obtain ⟨normal, settled⟩ := settles normalizing
    obtain ⟨fuel, run⟩ := settled.exists_eq
    exact absurd ((diverges fuel).symm.trans run) (by simp)
  exact not_acc_iff_exists_descending_chain.mp infinite

end Term

/-! ## Searching all reductions -/

namespace Nameless

def contract? : (function argument : Nameless) → Option Nameless
  | lam body, argument => some (body.instantiate argument)
  | _, _ => none

def reducts : Nameless → List Nameless
  | bound _ => []
  | free _ => []
  | lam body => body.reducts.map lam
  | app function argument =>
      (contract? function argument).toList ++ function.reducts.map (app · argument) ++
        argument.reducts.map (app function)

def endsWithin : Nat → Nameless → Bool
  | 0, _ => false
  | steps + 1, term => term.reducts.all (endsWithin steps)

theorem Step.mem_reducts {term next : Nameless} (step : Step term next) : next ∈ term.reducts := by
  induction step with
  | beta body argument => simp [reducts, contract?]
  | lam _ ih => exact List.mem_map_of_mem ih
  | function argument _ ih =>
      exact List.mem_append_left _ (List.mem_append_right _ (List.mem_map_of_mem ih))
  | argument function _ ih => exact List.mem_append_right _ (List.mem_map_of_mem ih)

theorem stronglyNormalizing_of_endsWithin {steps : Nat} {term : Nameless}
    (ends : term.endsWithin steps = true) : term.StronglyNormalizing := by
  induction steps generalizing term with
  | zero => cases ends
  | succ steps ih =>
      refine ⟨_, fun next step => ih ?_⟩
      exact List.all_eq_true.mp ends next step.mem_reducts

end Nameless

/-- A function that forgets its argument, applied to the identity applied to itself by a function that
uses its argument twice. -/
def forgottenDouble : Term :=
  .app (.lam "x" (.lam "y" (.var "y")))
    (.app (.lam "x" (.app (.var "x") (.var "x"))) (.lam "y" (.var "y")))

theorem forgottenDouble_normalize_terminates :
    forgottenDouble.Closed ∧ forgottenDouble.StronglyNormalizing ∧
      (∃ normal, Settles (fun fuel => forgottenDouble.normalize fuel) (.done normal)) ∧
      forgottenDouble.normalize 9 = .done (.lam "y" (.var "y")) := by
  have closed : forgottenDouble.Closed := by decide
  have normalizing : forgottenDouble.StronglyNormalizing :=
    Nameless.stronglyNormalizing_of_endsWithin (by decide : Nameless.endsWithin 4 _ = true)
  exact ⟨closed, normalizing, (Term.normalize_terminates closed).1 normalizing, by decide +kernel⟩

end LambdaCalculi.Untyped
