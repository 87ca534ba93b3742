import LambdaCalculi.Proofs.Simple.Normalization
import LambdaCalculi.Proofs.Simple.StandardModel

/-!
# Programs and the standard model

Each definition denotes an element under the elements of those before it. A program returns a closed
term that denotes what its body denotes under the elements of the definitions; where this is a number,
the term is its numeral, for no closed number is blocked. The sum of two numerals is the numeral of the
sum.
-/

set_option autoImplicit false

namespace LambdaCalculi.Simple

open Outcome

namespace Interpretation

def define (interpretation : Interpretation) (definition : Definition) : Interpretation :=
  match definition.term.synth interpretation.context with
  | .ok type =>
      (definition.name, ⟨type, definition.term.meaning interpretation type⟩) :: interpretation
  | .error _ => interpretation

theorem define_eq {interpretation : Interpretation} {definition : Definition} {type : Ty}
    (found : definition.term.synth interpretation.context = .ok type) :
    interpretation.define definition =
      (definition.name, ⟨type, definition.term.meaning interpretation type⟩) :: interpretation := by
  rw [define, found]

def ofDefinitions (definitions : List Definition) : Interpretation :=
  definitions.foldl define []

end Interpretation

namespace Scope

def Denotes (scope : Scope) (interpretation : Interpretation) : Prop :=
  scope.env.Realizes scope.context [] fun _ => interpretation

theorem Denotes.nil : Denotes [] [] where
  depends _ _ _ := rfl
  context _ := rfl
  values _ _ found := by cases found

theorem Denotes.define {scope : Scope} {interpretation : Interpretation}
    (denotes : Denotes scope interpretation) {fuel : Nat} {definition : Definition} {type : Ty}
    {value : Value} (run : scope.typedValue fuel definition.term = .done (type, value)) :
    Denotes (⟨definition.name, type, value⟩ :: scope) (interpretation.define definition) := by
  obtain ⟨found, evaluated⟩ := typedValue_eq_done run
  have realizes := (Term.realized definition.term).synth denotes found evaluated
  have typed : definition.term.synth interpretation.context = .ok type := by
    rw [denotes.context fun _ type => type.someElement]
    exact found
  rw [Interpretation.define_eq typed]
  exact denotes.extend (.refl []) definition.name realizes

theorem Denotes.defineAll {fuel : Nat} {definitions : List Definition} {scope scope' : Scope}
    {interpretation : Interpretation} (denotes : Denotes scope interpretation)
    (run : definitions.foldlM (Scope.define fuel) scope = .done scope') :
    Denotes scope' (definitions.foldl Interpretation.define interpretation) := by
  induction definitions generalizing scope interpretation with
  | nil =>
      cases run
      exact denotes
  | cons definition rest ih =>
      rw [List.foldlM_cons] at run
      obtain ⟨inner, defined, run⟩ := bind_eq_done_iff.mp run
      obtain ⟨⟨type, value⟩, found, finished⟩ := bind_eq_done_iff.mp defined
      cases finished
      exact ih (denotes.define found) run

theorem denotes_ofDefinitions {fuel : Nat} {definitions : List Definition} {scope : Scope}
    (run : ofDefinitions fuel definitions = .done scope) :
    Denotes scope (.ofDefinitions definitions) :=
  Denotes.nil.defineAll run

end Scope

/-- A blocked computation is blocked on a variable, so its term has no type without one. -/
theorem Neutral.readBack_not_closed {fuel : Nat} {used : List Name} {blocked : Neutral} {term : Term}
    {type : Ty} (read : blocked.readBack fuel used = .done term) : term.synth [] ≠ .ok type := by
  induction fuel generalizing blocked term type with
  | zero => simp [Neutral.readBack] at read
  | succ fuel ih =>
      intro found
      cases blocked with
      | var x =>
          simp only [Neutral.readBack, Outcome.done.injEq] at read
          subst read
          simp [Term.synth] at found
      | app function argument =>
          simp only [Neutral.readBack] at read
          obtain ⟨functionTerm, functionRead, read⟩ := bind_eq_done_iff.mp read
          obtain ⟨argumentTerm, _, finished⟩ := bind_eq_done_iff.mp read
          cases finished
          obtain ⟨domain, functionFound, _⟩ := Term.synth_app_iff.mp found
          exact ih functionRead functionFound
      | recNat resultType target base step =>
          simp only [Neutral.readBack] at read
          obtain ⟨targetTerm, targetRead, read⟩ := bind_eq_done_iff.mp read
          obtain ⟨baseTerm, _, read⟩ := bind_eq_done_iff.mp read
          obtain ⟨stepTerm, _, finished⟩ := bind_eq_done_iff.mp read
          cases finished
          obtain ⟨targetFound, _⟩ := Term.synth_recNat_iff.mp found
          exact ih targetRead targetFound

/-- A closed number is read back to the numeral of what it realizes. -/
theorem Value.RealizesNat.reads_numeral {value : Value} {element : Valuation → Nat}
    (realizes : RealizesNat [] value element) {used : List Name} {fuel : Nat} {term : Term}
    (read : value.readBack fuel used .nat = .done term) (valuation : Valuation) :
    term = .ofNat (element valuation) := by
  induction realizes generalizing fuel term with
  | zero =>
      cases fuel with
      | zero => simp [Value.readBack] at read
      | succ fuel =>
          simp only [Value.readBack, Outcome.done.injEq] at read
          exact read.symm
  | add1 _ ih =>
      cases fuel with
      | zero => simp [Value.readBack] at read
      | succ fuel =>
          simp only [Value.readBack] at read
          obtain ⟨predecessor, predecessorRead, finished⟩ := bind_eq_done_iff.mp read
          cases finished
          exact congrArg Term.add1 (ih predecessorRead)
  | neutral blocked =>
      cases fuel with
      | zero => simp [Value.readBack] at read
      | succ fuel =>
          simp only [Value.readBack] at read
          obtain ⟨found, _⟩ := blocked.reads (.refl []) (List.nil_subset used) read
          exact absurd found (Neutral.readBack_not_closed read)

/-- The value that a program reads back realizes what the body denotes under the definitions. -/
theorem Program.realized_of_run {fuel : Nat} {program : Program} {normal : Term}
    (ran : program.run fuel = .done normal) :
    ∃ scope type value, Scope.ofDefinitions fuel program.definitions = .done scope ∧
      program.body.synth scope.context = .ok type ∧
      Value.Realizes type [] value
        (fun _ => program.body.meaning (.ofDefinitions program.definitions) type) ∧
      value.readBack fuel scope.names type = .done normal := by
  obtain ⟨scope, type, value, defined, found, evaluated, read⟩ := run_eq_done ran
  have realizes := (Term.realized program.body).synth (Scope.denotes_ofDefinitions defined)
    found evaluated
  exact ⟨scope, type, value, defined, found, realizes, read⟩

/-! ## Arithmetic -/

/-- Recursion with the successor for its step adds the number to the base. -/
theorem Ty.iterate_succ (base number : Nat) :
    @Ty.iterate .nat base (fun _ almost => Nat.succ almost) number = number + base := by
  induction number with
  | zero => exact (Nat.zero_add base).symm
  | succ number ih =>
      have step : @Ty.iterate .nat base (fun _ almost => Nat.succ almost) (number + 1) =
        Nat.succ (@Ty.iterate .nat base (fun _ almost => Nat.succ almost) number) := rfl
      rw [step, ih]
      exact (Nat.succ_add number base).symm

namespace Term

theorem check_ofNat (ctx : Context) (number : Nat) : (ofNat number).check ctx .nat = .ok () := by
  induction number with
  | zero => rw [ofNat, check]
  | succ number ih => rw [ofNat, check, ih]

theorem meaning_ofNat (interpretation : Interpretation) (number : Nat) :
    (ofNat number).meaning interpretation .nat = number := by
  induction number with
  | zero => rfl
  | succ number ih => exact congrArg Nat.succ ih

end Term

namespace Arithmetic

def sum (first second : Int) : Term :=
  .app (.app (.var "+") (.ofInt first)) (.ofInt second)

theorem plus_found : (Term.var "+").synth arithmeticScope.context =
    .ok (.arrow .nat (.arrow .nat .nat)) := by
  decide +kernel

theorem plus_applied_found (first : Int) :
    (Term.app (.var "+") (.ofInt first)).synth arithmeticScope.context = .ok (.arrow .nat .nat) :=
  Term.synth_app plus_found (Term.check_ofNat _ _)

theorem sum_found (first second : Int) :
    (sum first second).synth arithmeticScope.context = .ok .nat :=
  Term.synth_app (plus_applied_found first) (Term.check_ofNat _ _)

theorem scope_defined : Scope.ofDefinitions 9 definitions = .done arithmeticScope := by
  decide +kernel

/-- What the name of addition is bound to denotes recursion with the successor for its step. -/
theorem plus_meaning :
    (Term.var "+").meaning (.ofDefinitions definitions) (.arrow .nat (.arrow .nat .nat)) =
      fun first second => @Ty.iterate .nat second (fun _ almost => Nat.succ almost) first := by
  have found : (Term.ann (.lam "n" (.lam "k" (.recNat .nat (.var "n") (.var "k")
        (.lam "pred" (.lam "almostSum" (.add1 (.var "almostSum")))))))
      (.arrow .nat (.arrow .nat .nat))).synth
      (Interpretation.ofDefinitions [⟨"two", .ann (.ofNat 2) .nat⟩,
        ⟨"three", .ann (.ofNat 3) .nat⟩]).context = .ok (.arrow .nat (.arrow .nat .nat)) := by
    decide +kernel
  rw [definitions, Interpretation.ofDefinitions, List.foldl_cons, List.foldl_cons, List.foldl_cons,
    List.foldl_nil, Interpretation.define_eq found]
  rfl

theorem sum_meaning (first second : Int) :
    (sum first second).meaning (.ofDefinitions definitions) .nat =
      first.toNat + second.toNat := by
  have context : (Interpretation.ofDefinitions definitions).context = arithmeticScope.context :=
    (Scope.denotes_ofDefinitions scope_defined).context fun _ type => type.someElement
  rw [sum, Term.meaning_app (by rw [context]; exact plus_applied_found first),
    Term.meaning_app (by rw [context]; exact plus_found), Term.ofInt, Term.ofInt,
    Term.meaning_ofNat, Term.meaning_ofNat, plus_meaning]
  exact Ty.iterate_succ second.toNat first.toNat

theorem ofNat_toNat_sum (first second : Int) :
    Term.ofNat (first.toNat + second.toNat) = .ofInt (max first 0 + max second 0) := by
  have same : (max first 0 + max second 0).toNat = first.toNat + second.toNat := by omega
  rw [Term.ofInt, same]

/-- The sum of two numerals runs to the numeral of what it denotes. -/
theorem sum_settles (first second : Int) :
    Settles (fun fuel => Program.run fuel ⟨definitions, sum first second⟩)
      (.done (.ofInt (max first 0 + max second 0))) := by
  obtain ⟨settled, values, follows⟩ := Scope.follows_of_ofDefinitions scope_defined
  obtain ⟨normal, ⟨bound, runs⟩, _⟩ := @Scope.Follows.run_settles
    ⟨definitions, sum first second⟩ _ _ follows settled _ (sum_found first second)
  obtain ⟨scope, type, value, defined, found, realizes, read⟩ :=
    Program.realized_of_run (runs bound (Nat.le_refl bound))
  -- The scope of the run is the one the definitions settle on, so the type is that of numbers.
  have same : Outcome.done arithmeticScope = Outcome.done scope :=
    settled.eq_done (fun fuel => Scope.ofDefinitions_below fuel definitions) defined
  cases same
  obtain rfl : type = .nat := Except.ok.inj (found.symm.trans (sum_found first second))
  have numeral := Value.RealizesNat.reads_numeral realizes read fun _ type => type.someElement
  rw [sum_meaning, ofNat_toNat_sum] at numeral
  rw [← numeral]
  exact ⟨bound, runs⟩

end Arithmetic

/-- The normal form of a program is closed, has the type of the body, and denotes in the standard model
what the body denotes under the elements of the definitions; where that is a number, the normal form
is its numeral. In particular the sum of the numerals of two integers runs to the numeral of their
sum, a negative integer counting as zero. -/
theorem Program.run_preserves_meaning :
    (∀ {fuel : Nat} {program : Program} {normal : Term}, program.run fuel = .done normal →
      ∃ scope type, Scope.ofDefinitions fuel program.definitions = .done scope ∧
        program.body.synth scope.context = .ok type ∧ normal.check [] type = .ok () ∧
        normal.meaning [] type = program.body.meaning (.ofDefinitions program.definitions) type ∧
        (type = .nat →
          normal = .ofNat (program.body.meaning (.ofDefinitions program.definitions) .nat))) ∧
    ∀ first second : Int, ∃ bound, ∀ fuel, bound ≤ fuel →
      Program.run fuel ⟨Arithmetic.definitions, Arithmetic.sum first second⟩ =
        .done (.ofInt (max first 0 + max second 0)) := by
  refine ⟨?_, Arithmetic.sum_settles⟩
  intro fuel program normal ran
  obtain ⟨scope, type, value, defined, found, realizes, read⟩ := realized_of_run ran
  obtain ⟨checked, denotes⟩ := realizes.reads (List.nil_subset scope.names) read
  refine ⟨scope, type, defined, found, checked, denotes fun _ type => type.someElement, ?_⟩
  rintro rfl
  exact Value.RealizesNat.reads_numeral realizes read fun _ type => type.someElement

/-- Addition of two runs to the function that adds one twice, and both denote one function. -/
theorem addTwo_preserves_meaning :
    Program.run 9 ⟨Arithmetic.definitions, .app (.var "+") (.var "two")⟩ =
        .done (.lam "k" (.add1 (.add1 (.var "k")))) ∧
      ∃ scope type, Scope.ofDefinitions 9 Arithmetic.definitions = .done scope ∧
        (Term.app (.var "+") (.var "two")).synth scope.context = .ok type ∧
        (Term.lam "k" (.add1 (.add1 (.var "k")))).check [] type = .ok () ∧
        (Term.lam "k" (.add1 (.add1 (.var "k")))).meaning [] type =
          (Term.app (.var "+") (.var "two")).meaning (.ofDefinitions Arithmetic.definitions) type ∧
        (type = .nat → Term.lam "k" (.add1 (.add1 (.var "k"))) =
          .ofNat ((Term.app (.var "+") (.var "two")).meaning
            (.ofDefinitions Arithmetic.definitions) .nat)) := by
  have ran : Program.run 9 ⟨Arithmetic.definitions, .app (.var "+") (.var "two")⟩ =
      .done (.lam "k" (.add1 (.add1 (.var "k")))) := by
    decide +kernel
  exact ⟨ran, Program.run_preserves_meaning.1 ran⟩

end LambdaCalculi.Simple
