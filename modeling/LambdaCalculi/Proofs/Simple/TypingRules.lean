import LambdaCalculi.Proofs.Simple.Contexts
import Mathlib.Data.List.Basic

/-!
# The checker decides the typing rules

`Derivable` gives the typing rules for terms with names, and the checker is an algorithm for them: a
term is accepted at a type exactly when the type is derivable, as long as no function is applied and
no numeral recursed on right where it is written. Such terms would need an annotation, because the
checker finds the type of what is applied or recursed on, and finds none for functions and numerals.
-/

set_option autoImplicit false

namespace LambdaCalculi.Simple

theorem Except.bind_eq_ok_iff {ε α β : Type} {first : Except ε α} {next : α → Except ε β}
    {result : β} :
    (first >>= next) = .ok result ↔ ∃ value, first = .ok value ∧ next value = .ok result := by
  cases first <;> simp [bind, Except.bind]

/-- The typing rules. A function carries no type for its argument, so it may have several types. -/
inductive Derivable : Context → Term → Ty → Prop where
  | var {ctx : Context} {x : Name} {type : Ty} : ctx.Binds x type → Derivable ctx (.var x) type
  | lam {ctx : Context} {x : Name} {domain codomain : Ty} {body : Term} :
      Derivable ((x, domain) :: ctx) body codomain →
      Derivable ctx (.lam x body) (.arrow domain codomain)
  | app {ctx : Context} {domain codomain : Ty} {function argument : Term} :
      Derivable ctx function (.arrow domain codomain) → Derivable ctx argument domain →
      Derivable ctx (.app function argument) codomain
  | zero {ctx : Context} : Derivable ctx .zero .nat
  | add1 {ctx : Context} {predecessor : Term} :
      Derivable ctx predecessor .nat → Derivable ctx (.add1 predecessor) .nat
  | recNat {ctx : Context} {type : Ty} {target base step : Term} :
      Derivable ctx target .nat → Derivable ctx base type → Derivable ctx step type.step →
      Derivable ctx (.recNat type target base step) type
  | ann {ctx : Context} {type : Ty} {expr : Term} :
      Derivable ctx expr type → Derivable ctx (.ann expr type) type

namespace Term

def isFunction : Term → Bool
  | lam _ _ => true
  | _ => false

def isNumeral : Term → Bool
  | zero | add1 _ => true
  | _ => false

/-- No function is applied, and no numeral recursed on, right where it is written. -/
def Bidirectional : Term → Prop
  | var _ | zero => True
  | lam _ body => body.Bidirectional
  | app function argument =>
      function.isFunction = false ∧ function.Bidirectional ∧ argument.Bidirectional
  | add1 predecessor => predecessor.Bidirectional
  | recNat _ target base step =>
      target.isNumeral = false ∧ target.Bidirectional ∧ base.Bidirectional ∧ step.Bidirectional
  | ann expr _ => expr.Bidirectional

instance decidableBidirectional : DecidablePred Bidirectional
  | var _ | zero => inferInstanceAs (Decidable True)
  | lam _ body => decidableBidirectional body
  | app function argument =>
      have := decidableBidirectional function
      have := decidableBidirectional argument
      inferInstanceAs (Decidable (_ ∧ _ ∧ _))
  | add1 predecessor => decidableBidirectional predecessor
  | recNat _ target base step =>
      have := decidableBidirectional target
      have := decidableBidirectional base
      have := decidableBidirectional step
      inferInstanceAs (Decidable (_ ∧ _ ∧ _ ∧ _))
  | ann expr _ => decidableBidirectional expr

/-! ## The rules of the checker -/

section Rules

variable {ctx : Context} {x : Name} {type stated : Ty}
  {body function argument predecessor target base step expr term : Term}

theorem synth_var_iff : (var x).synth ctx = .ok type ↔ ctx.lookup x = some type := by
  rw [synth]
  cases ctx.lookup x <;> simp

theorem synth_app_iff :
    (app function argument).synth ctx = .ok type ↔
      ∃ domain, function.synth ctx = .ok (.arrow domain type) ∧
        argument.check ctx domain = .ok () := by
  rw [synth, Except.bind_eq_ok_iff]
  constructor
  · rintro ⟨functionType, functionFound, found⟩
    cases functionType with
    | nat => cases found
    | arrow domain codomain =>
        obtain ⟨_, argumentChecked, finished⟩ := Except.bind_eq_ok_iff.mp found
        cases finished
        exact ⟨domain, functionFound, argumentChecked⟩
  · rintro ⟨domain, functionFound, argumentChecked⟩
    exact ⟨_, functionFound, Except.bind_eq_ok_iff.mpr ⟨(), argumentChecked, rfl⟩⟩

theorem synth_recNat_iff :
    (recNat stated target base step).synth ctx = .ok type ↔
      target.synth ctx = .ok .nat ∧ base.check ctx stated = .ok () ∧
        step.check ctx stated.step = .ok () ∧ stated = type := by
  rw [synth, Except.bind_eq_ok_iff]
  constructor
  · rintro ⟨targetType, targetFound, found⟩
    cases targetType with
    | arrow domain codomain => cases found
    | nat =>
        obtain ⟨_, baseChecked, found⟩ := Except.bind_eq_ok_iff.mp found
        obtain ⟨_, stepChecked, finished⟩ := Except.bind_eq_ok_iff.mp found
        exact ⟨targetFound, baseChecked, stepChecked, Except.ok.inj finished⟩
  · rintro ⟨targetFound, baseChecked, stepChecked, rfl⟩
    exact ⟨_, targetFound, Except.bind_eq_ok_iff.mpr ⟨(), baseChecked,
      Except.bind_eq_ok_iff.mpr ⟨(), stepChecked, rfl⟩⟩⟩

theorem synth_ann_iff :
    (ann expr stated).synth ctx = .ok type ↔ expr.check ctx stated = .ok () ∧ stated = type := by
  rw [synth, Except.bind_eq_ok_iff]
  constructor
  · rintro ⟨_, exprChecked, finished⟩
    exact ⟨exprChecked, Except.ok.inj finished⟩
  · rintro ⟨exprChecked, rfl⟩
    exact ⟨(), exprChecked, rfl⟩

theorem check_lam_iff :
    (lam x body).check ctx type = .ok () ↔
      ∃ domain codomain, type = .arrow domain codomain ∧
        body.check ((x, domain) :: ctx) codomain = .ok () := by
  cases type with
  | nat => simp [check]
  | arrow domain codomain =>
      rw [check]
      constructor
      · intro checked
        exact ⟨domain, codomain, rfl, checked⟩
      · rintro ⟨_, _, same, checked⟩
        cases same
        exact checked

theorem check_zero_iff : zero.check ctx type = .ok () ↔ type = .nat := by
  cases type <;> simp [check]

theorem check_add1_iff :
    (add1 predecessor).check ctx type = .ok () ↔
      type = .nat ∧ predecessor.check ctx .nat = .ok () := by
  cases type <;> simp [check]

theorem not_introduction_of_synth (found : term.synth ctx = .ok type) :
    term.isFunction = false ∧ term.isNumeral = false := by
  cases term with
  | lam | zero | add1 => simp [synth] at found
  | _ => exact ⟨rfl, rfl⟩

theorem check_eq_synth (notFunction : term.isFunction = false)
    (notNumeral : term.isNumeral = false) :
    term.check ctx type = (do
      let got ← term.synth ctx
      if got = type then .ok () else .error (.unexpected type got)) := by
  cases term with
  | lam => cases notFunction
  | zero | add1 => cases notNumeral
  | _ => rw [check] <;> simp

/-- A term that is neither a function nor a numeral is checked by finding its type. -/
theorem check_iff_synth (notFunction : term.isFunction = false)
    (notNumeral : term.isNumeral = false) :
    term.check ctx type = .ok () ↔ term.synth ctx = .ok type := by
  rw [check_eq_synth notFunction notNumeral, Except.bind_eq_ok_iff]
  constructor
  · rintro ⟨got, found, same⟩
    split at same
    · next equal => exact equal ▸ found
    · cases same
  · intro found
    exact ⟨type, found, if_pos rfl⟩

theorem check_of_synth (found : term.synth ctx = .ok type) : term.check ctx type = .ok () := by
  obtain ⟨notFunction, notNumeral⟩ := not_introduction_of_synth found
  exact (check_iff_synth notFunction notNumeral).mpr found

theorem synth_app (functionFound : function.synth ctx = .ok (.arrow stated type))
    (argumentChecked : argument.check ctx stated = .ok ()) :
    (app function argument).synth ctx = .ok type :=
  synth_app_iff.mpr ⟨stated, functionFound, argumentChecked⟩

theorem synth_recNat (targetFound : target.synth ctx = .ok .nat)
    (baseChecked : base.check ctx type = .ok ()) (stepChecked : step.check ctx type.step = .ok ()) :
    (recNat type target base step).synth ctx = .ok type :=
  synth_recNat_iff.mpr ⟨targetFound, baseChecked, stepChecked, rfl⟩

end Rules

structure Decided (term : Term) : Prop where
  synth : ∀ {ctx : Context} {type : Ty}, term.synth ctx = .ok type ↔
    Derivable ctx term type ∧ term.Bidirectional ∧ term.isFunction = false ∧ term.isNumeral = false
  check : ∀ {ctx : Context} {type : Ty}, term.check ctx type = .ok () ↔
    Derivable ctx term type ∧ term.Bidirectional

namespace Decided

variable {x : Name} {body function argument predecessor target base step expr term : Term}

theorem of_synth (notFunction : term.isFunction = false) (notNumeral : term.isNumeral = false)
    (synth : ∀ {ctx : Context} {type : Ty}, term.synth ctx = .ok type ↔
      Derivable ctx term type ∧ term.Bidirectional) : term.Decided where
  synth := by simp [synth, notFunction, notNumeral]
  check := by
    intro ctx type
    rw [check_iff_synth notFunction notNumeral, synth]

theorem of_check (introduction : ¬ (term.isFunction = false ∧ term.isNumeral = false))
    (check : ∀ {ctx : Context} {type : Ty}, term.check ctx type = .ok () ↔
      Derivable ctx term type ∧ term.Bidirectional) : term.Decided where
  synth := by
    intro ctx type
    constructor
    · intro found
      exact absurd (not_introduction_of_synth found) introduction
    · rintro ⟨_, _, notIntroduction⟩
      exact absurd notIntroduction introduction
  check := check

theorem var : (var x).Decided := by
  refine .of_synth rfl rfl ?_
  intro ctx type
  rw [synth_var_iff, Context.lookup_eq_some_iff_binds]
  constructor
  · intro binds
    exact ⟨.var binds, True.intro⟩
  · rintro ⟨derivable, _⟩
    cases derivable with
    | var binds => exact binds

theorem lam (bodyDecided : body.Decided) : (lam x body).Decided := by
  refine .of_check (by simp [isFunction]) ?_
  intro ctx type
  rw [check_lam_iff]
  constructor
  · rintro ⟨domain, codomain, rfl, bodyChecked⟩
    obtain ⟨bodyDerivable, form⟩ := bodyDecided.check.mp bodyChecked
    exact ⟨.lam bodyDerivable, form⟩
  · rintro ⟨derivable, form⟩
    cases derivable with
    | lam bodyDerivable => exact ⟨_, _, rfl, bodyDecided.check.mpr ⟨bodyDerivable, form⟩⟩

/-- What has a function type is no numeral, so an applied term that is no function has its type
found. -/
theorem app (functionDecided : function.Decided) (argumentDecided : argument.Decided) :
    (app function argument).Decided := by
  refine .of_synth rfl rfl ?_
  intro ctx type
  rw [synth_app_iff]
  constructor
  · rintro ⟨domain, functionFound, argumentChecked⟩
    obtain ⟨functionDerivable, functionForm, notFunction, _⟩ :=
      functionDecided.synth.mp functionFound
    obtain ⟨argumentDerivable, argumentForm⟩ := argumentDecided.check.mp argumentChecked
    exact ⟨.app functionDerivable argumentDerivable, notFunction, functionForm, argumentForm⟩
  · rintro ⟨derivable, notFunction, functionForm, argumentForm⟩
    cases derivable with
    | app functionDerivable argumentDerivable =>
        have notNumeral : function.isNumeral = false := by
          cases functionDerivable <;> rfl
        have functionFound := functionDecided.synth.mpr
          ⟨functionDerivable, functionForm, notFunction, notNumeral⟩
        exact ⟨_, functionFound, argumentDecided.check.mpr ⟨argumentDerivable, argumentForm⟩⟩

theorem zero : zero.Decided := by
  refine .of_check (by simp [isNumeral]) ?_
  intro ctx type
  rw [check_zero_iff]
  constructor
  · rintro rfl
    exact ⟨.zero, True.intro⟩
  · rintro ⟨derivable, _⟩
    cases derivable
    rfl

theorem add1 (predecessorDecided : predecessor.Decided) : (add1 predecessor).Decided := by
  refine .of_check (by simp [isNumeral]) ?_
  intro ctx type
  rw [check_add1_iff]
  constructor
  · rintro ⟨rfl, predecessorChecked⟩
    obtain ⟨predecessorDerivable, form⟩ := predecessorDecided.check.mp predecessorChecked
    exact ⟨.add1 predecessorDerivable, form⟩
  · rintro ⟨derivable, form⟩
    cases derivable with
    | add1 predecessorDerivable =>
        exact ⟨rfl, predecessorDecided.check.mpr ⟨predecessorDerivable, form⟩⟩

theorem recNat {stated : Ty} (targetDecided : target.Decided) (baseDecided : base.Decided)
    (stepDecided : step.Decided) : (recNat stated target base step).Decided := by
  refine .of_synth rfl rfl ?_
  intro ctx type
  rw [synth_recNat_iff]
  constructor
  · rintro ⟨targetFound, baseChecked, stepChecked, rfl⟩
    obtain ⟨targetDerivable, targetForm, _, notNumeral⟩ := targetDecided.synth.mp targetFound
    obtain ⟨baseDerivable, baseForm⟩ := baseDecided.check.mp baseChecked
    obtain ⟨stepDerivable, stepForm⟩ := stepDecided.check.mp stepChecked
    exact ⟨.recNat targetDerivable baseDerivable stepDerivable, notNumeral, targetForm, baseForm,
      stepForm⟩
  · rintro ⟨derivable, notNumeral, targetForm, baseForm, stepForm⟩
    cases derivable with
    | recNat targetDerivable baseDerivable stepDerivable =>
        have notFunction : target.isFunction = false := by
          cases targetDerivable <;> rfl
        exact ⟨targetDecided.synth.mpr ⟨targetDerivable, targetForm, notFunction, notNumeral⟩,
          baseDecided.check.mpr ⟨baseDerivable, baseForm⟩,
          stepDecided.check.mpr ⟨stepDerivable, stepForm⟩, rfl⟩

theorem ann {stated : Ty} (exprDecided : expr.Decided) : (ann expr stated).Decided := by
  refine .of_synth rfl rfl ?_
  intro ctx type
  rw [synth_ann_iff]
  constructor
  · rintro ⟨exprChecked, rfl⟩
    obtain ⟨exprDerivable, form⟩ := exprDecided.check.mp exprChecked
    exact ⟨.ann exprDerivable, form⟩
  · rintro ⟨derivable, form⟩
    cases derivable with
    | ann exprDerivable => exact ⟨exprDecided.check.mpr ⟨exprDerivable, form⟩, rfl⟩

end Decided

theorem decided (term : Term) : term.Decided := by
  induction term with
  | var x => exact .var
  | lam x body ih => exact .lam ih
  | app function argument functionIH argumentIH => exact .app functionIH argumentIH
  | zero => exact .zero
  | add1 predecessor ih => exact .add1 ih
  | recNat type target base step targetIH baseIH stepIH => exact .recNat targetIH baseIH stepIH
  | ann expr type ih => exact .ann ih

theorem derivable_of_synth {ctx : Context} {term : Term} {type : Ty}
    (found : term.synth ctx = .ok type) : Derivable ctx term type :=
  ((decided term).synth.mp found).1

theorem derivable_of_check {ctx : Context} {term : Term} {type : Ty}
    (checked : term.check ctx type = .ok ()) : Derivable ctx term type :=
  ((decided term).check.mp checked).1

/-- The checker accepts a term at a type exactly when the type is derivable and the term applies no
function, and recurses on no numeral, right where it is written. It finds a type exactly when,
besides, the term itself is neither a function nor a numeral, and then no other type is
derivable. -/
theorem accepts_iff_derivable (ctx : Context) (term : Term) (type : Ty) :
    (term.check ctx type = .ok () ↔ Derivable ctx term type ∧ term.Bidirectional) ∧
      (term.synth ctx = .ok type ↔ Derivable ctx term type ∧ term.Bidirectional ∧
        term.isFunction = false ∧ term.isNumeral = false) ∧
      (term.synth ctx = .ok type → ∀ other, Derivable ctx term other → other = type) := by
  refine ⟨(decided term).check, (decided term).synth, ?_⟩
  intro found other derivable
  obtain ⟨_, form⟩ := (decided term).synth.mp found
  have otherFound : term.synth ctx = .ok other := (decided term).synth.mpr ⟨derivable, form⟩
  exact Except.ok.inj (otherFound.symm.trans found)

/-- A function applied to a recursion on its own value at zero. -/
def shadowedCall : Term :=
  .app (.var "f") (.recNat .nat (.app (.var "f") .zero) .zero
    (.lam "k" (.lam "f" (.add1 (.var "f")))))

/-- The function shadows a number of the same name, and a result of the recursion shadows it. -/
theorem shadowedCall_accepts_iff_derivable :
    let ctx : Context := [("f", .arrow .nat .nat), ("f", .nat)]
    shadowedCall.synth ctx = .ok .nat ∧ Derivable ctx shadowedCall .nat ∧
      shadowedCall.Bidirectional ∧ ∀ other, Derivable ctx shadowedCall other → other = .nat := by
  intro ctx
  have found : shadowedCall.synth ctx = .ok .nat := by
    decide +kernel
  obtain ⟨_, decides, only⟩ := accepts_iff_derivable ctx shadowedCall .nat
  obtain ⟨derivable, form, _⟩ := decides.mp found
  exact ⟨found, derivable, form, only found⟩

end Term

end LambdaCalculi.Simple
