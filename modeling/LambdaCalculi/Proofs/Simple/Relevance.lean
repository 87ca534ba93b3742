import LambdaCalculi.Proofs.Simple.Nameless
import LambdaCalculi.Proofs.Simple.Places
import LambdaCalculi.Proofs.Simple.TypingRules

/-!
# Checking depends on what is relevant only

The checker looks names up and otherwise never compares them, so it cannot tell two terms apart that
differ in the names of their bound variables, nor two contexts that agree on the free ones. Both runs
give the same type, or both reject at the same place and for the same reason. Below a binder the two
contexts bind different names; what they keep is that a variable of one term and the variable that
corresponds to it in the other have the same type.
-/

set_option autoImplicit false

namespace LambdaCalculi.Simple

/-! ## Terms that differ in the names of bound variables -/

/-- The terms differ at most in the names of their bound variables, those bound by the binders around
them included. -/
inductive Term.Renamed : List Name → List Name → Term → Term → Prop where
  | var {binders binders' : List Name} {x x' : Name}
      (same : (Term.var x).nameless binders = (Term.var x').nameless binders') :
      Renamed binders binders' (.var x) (.var x')
  | lam {binders binders' : List Name} {x x' : Name} {body body' : Term}
      (bodyRenamed : Renamed (x :: binders) (x' :: binders') body body') :
      Renamed binders binders' (.lam x body) (.lam x' body')
  | app {binders binders' : List Name} {function function' argument argument' : Term}
      (functionRenamed : Renamed binders binders' function function')
      (argumentRenamed : Renamed binders binders' argument argument') :
      Renamed binders binders' (.app function argument) (.app function' argument')
  | zero {binders binders' : List Name} : Renamed binders binders' .zero .zero
  | add1 {binders binders' : List Name} {predecessor predecessor' : Term}
      (predecessorRenamed : Renamed binders binders' predecessor predecessor') :
      Renamed binders binders' (.add1 predecessor) (.add1 predecessor')
  | recNat {binders binders' : List Name} {type : Ty} {target target' base base' step step' : Term}
      (targetRenamed : Renamed binders binders' target target')
      (baseRenamed : Renamed binders binders' base base')
      (stepRenamed : Renamed binders binders' step step') :
      Renamed binders binders' (.recNat type target base step) (.recNat type target' base' step')
  | ann {binders binders' : List Name} {type : Ty} {expr expr' : Term}
      (exprRenamed : Renamed binders binders' expr expr') :
      Renamed binders binders' (.ann expr type) (.ann expr' type)

theorem Term.Renamed.nameless_eq {binders binders' : List Name} {term term' : Term}
    (renamed : Renamed binders binders' term term') :
    term.nameless binders = term'.nameless binders' := by
  induction renamed with
  | var same => exact same
  | lam _ ih => rw [nameless, nameless, ih]
  | app _ _ functionIH argumentIH => rw [nameless, nameless, functionIH, argumentIH]
  | zero => rfl
  | add1 _ ih => rw [nameless, nameless, ih]
  | recNat _ _ _ targetIH baseIH stepIH => rw [nameless, nameless, targetIH, baseIH, stepIH]
  | ann _ ih => rw [nameless, nameless, ih]

theorem Term.Renamed.of_nameless_eq {term : Term} :
    ∀ {binders binders' : List Name} {term' : Term},
      term.nameless binders = term'.nameless binders' → Renamed binders binders' term term' := by
  induction term with
  | var x =>
      intro binders binders' term' same
      cases term' with
      | var x' => exact .var same
      | _ => grind [nameless]
  | lam x body ih =>
      intro binders binders' term' same
      cases term' with
      | lam x' body' => exact .lam (ih (Nameless.lam.inj same))
      | _ => grind [nameless]
  | app function argument functionIH argumentIH =>
      intro binders binders' term' same
      cases term' with
      | app function' argument' =>
          obtain ⟨functionSame, argumentSame⟩ := Nameless.app.inj same
          exact .app (functionIH functionSame) (argumentIH argumentSame)
      | _ => grind [nameless]
  | zero =>
      intro binders binders' term' same
      cases term' with
      | zero => exact .zero
      | _ => grind [nameless]
  | add1 predecessor ih =>
      intro binders binders' term' same
      cases term' with
      | add1 predecessor' => exact .add1 (ih (Nameless.add1.inj same))
      | _ => grind [nameless]
  | recNat type target base step targetIH baseIH stepIH =>
      intro binders binders' term' same
      cases term' with
      | recNat type' target' base' step' =>
          obtain ⟨rfl, targetSame, baseSame, stepSame⟩ := Nameless.recNat.inj same
          exact .recNat (targetIH targetSame) (baseIH baseSame) (stepIH stepSame)
      | _ => grind [nameless]
  | ann expr type ih =>
      intro binders binders' term' same
      cases term' with
      | ann expr' type' =>
          obtain ⟨exprSame, rfl⟩ := Nameless.ann.inj same
          exact .ann (ih exprSame)
      | _ => grind [nameless]

/-- Below a pair of binders two variables are the same if both are bound by it, or neither is and they
are the same outside. -/
theorem Term.nameless_var_cons_iff {binders binders' : List Name} {x x' y y' : Name} :
    (Term.var y).nameless (x :: binders) = (Term.var y').nameless (x' :: binders') ↔
      (y = x ∧ y' = x') ∨
        (y ≠ x ∧ y' ≠ x' ∧ (Term.var y).nameless binders = (Term.var y').nameless binders') := by
  grind [nameless]

/-! ## Contexts that agree on what is needed -/

/-- A needed variable has the same type in the first context as the variable that corresponds to it
has in the second. If neither has a type, the two have one name. -/
def Context.AgreesOn (binders binders' needed : List Name) (ctx ctx' : Context) : Prop :=
  ∀ x ∈ needed, ∀ x', (Term.var x).nameless binders = (Term.var x').nameless binders' →
    ctx.lookup x = ctx'.lookup x' ∧ (ctx.lookup x = none → x = x')

namespace Context.AgreesOn

variable {binders binders' needed fewer : List Name} {ctx ctx' : Context}

theorem mono (agrees : Context.AgreesOn binders binders' needed ctx ctx') (included : fewer ⊆ needed) :
    Context.AgreesOn binders binders' fewer ctx ctx' :=
  fun x mem => agrees x (included mem)

/-- Outside of all binders the same free variables have the same types. -/
theorem of_lookup (same : ∀ x ∈ needed, ctx.lookup x = ctx'.lookup x) :
    Context.AgreesOn [] [] needed ctx ctx' := by
  intro x mem x' corresponds
  obtain rfl : x = x' := by simpa [Term.nameless] using corresponds
  exact ⟨same x mem, fun _ => rfl⟩

/-- Below a binder both variables have the type that is assumed for them. -/
theorem below {x x' : Name} {body : Term}
    (agrees : Context.AgreesOn binders binders' (Term.lam x body).free ctx ctx') (type : Ty) :
    Context.AgreesOn (x :: binders) (x' :: binders') body.free ((x, type) :: ctx)
      ((x', type) :: ctx') := by
  intro y mem y' corresponds
  rcases Term.nameless_var_cons_iff.mp corresponds with ⟨rfl, rfl⟩ | ⟨outer, outer', same⟩
  · simp
  · have needed : y ∈ (Term.lam x body).free := by simp [Term.free, mem, outer]
    rw [List.lookup_cons, List.lookup_cons, beq_false_of_ne outer, beq_false_of_ne outer']
    exact agrees y needed y' same

end Context.AgreesOn

/-! ## Verdicts -/

/-- The parts stand at the same place of the two terms, and they differ at most in the names of
variables bound in the terms. -/
def Term.PartsCorrespond (binders binders' : List Name) (term term' part part' : Term) : Prop :=
  ∃ place inner inner', term.part? binders place = some (inner, part) ∧
    term'.part? binders' place = some (inner', part') ∧ part.nameless inner = part'.nameless inner'

/-- The errors are of one kind and carry the same name and the same types. The terms that they carry, if
any, are corresponding parts of the terms that were checked. -/
inductive TypeError.Corresponds (binders binders' : List Name) (term term' : Term) :
    TypeError → TypeError → Prop where
  | same {error : TypeError} (noTerm : ∀ part, error ≠ .notSynthesizable part) :
      Corresponds binders binders' term term' error error
  | notSynthesizable {part part' : Term}
      (correspond : Term.PartsCorrespond binders binders' term term' part part') :
      Corresponds binders binders' term term' (.notSynthesizable part) (.notSynthesizable part')

inductive SameVerdict {α : Type} (errors : TypeError → TypeError → Prop) :
    Except TypeError α → Except TypeError α → Prop where
  | accepted (result : α) : SameVerdict errors (.ok result) (.ok result)
  | rejected {error error' : TypeError} (correspond : errors error error') :
      SameVerdict errors (.error error) (.error error')

namespace SameVerdict

variable {α β : Type} {errors : TypeError → TypeError → Prop}

theorem bind {first first' : Except TypeError α} {next next' : α → Except TypeError β}
    (same : SameVerdict errors first first')
    (nextSame : ∀ result, SameVerdict errors (next result) (next' result)) :
    SameVerdict errors (first >>= next) (first' >>= next') := by
  cases same with
  | accepted result => exact nextSame result
  | rejected correspond => exact .rejected correspond

/-- Errors that correspond for the parts with one number correspond for the terms. -/
theorem ofChild {binders binders' inner inner' : List Name} {term term' child child' : Term}
    {verdict verdict' : Except TypeError α} (index : Nat)
    (same : SameVerdict (TypeError.Corresponds inner inner' child child') verdict verdict')
    (found : (term.children binders)[index]? = some (inner, child))
    (found' : (term'.children binders')[index]? = some (inner', child')) :
    SameVerdict (TypeError.Corresponds binders binders' term term') verdict verdict' := by
  cases same with
  | accepted result => exact .accepted result
  | rejected correspond =>
      refine .rejected ?_
      cases correspond with
      | same noTerm => exact .same noTerm
      | notSynthesizable correspond =>
          obtain ⟨place, deeper, deeper', part, part', same⟩ := correspond
          refine .notSynthesizable ⟨index :: place, deeper, deeper', ?_, ?_, same⟩
          · rw [Term.part?, found]
            exact part
          · rw [Term.part?, found']
            exact part'

/-- A term that is rejected for its shape corresponds to the other as a whole. -/
theorem ofShape {binders binders' : List Name} {term term' : Term}
    (renamed : Term.Renamed binders binders' term term') :
    SameVerdict (TypeError.Corresponds binders binders' term term')
      (.error (.notSynthesizable term) : Except TypeError α) (.error (.notSynthesizable term')) :=
  .rejected (.notSynthesizable ⟨[], binders, binders', rfl, rfl, renamed.nameless_eq⟩)

end SameVerdict

structure JudgedAlike (binders binders' : List Name) (term term' : Term) : Prop where
  synth : ∀ {ctx ctx' : Context}, Context.AgreesOn binders binders' term.free ctx ctx' →
    SameVerdict (TypeError.Corresponds binders binders' term term') (term.synth ctx)
      (term'.synth ctx')
  check : ∀ {ctx ctx' : Context}, Context.AgreesOn binders binders' term.free ctx ctx' →
    ∀ type, SameVerdict (TypeError.Corresponds binders binders' term term') (term.check ctx type)
      (term'.check ctx' type)

namespace JudgedAlike

variable {binders binders' : List Name} {x x' : Name} {type : Ty}
  {term term' body body' function function' argument argument' predecessor predecessor' target target'
    base base' step step' expr expr' : Term}

/-- Terms that are neither functions nor numerals are checked by finding their types. -/
theorem of_synth (notIntroduction : term.isFunction = false ∧ term.isNumeral = false)
    (notIntroduction' : term'.isFunction = false ∧ term'.isNumeral = false)
    (synth : ∀ {ctx ctx' : Context}, Context.AgreesOn binders binders' term.free ctx ctx' →
      SameVerdict (TypeError.Corresponds binders binders' term term') (term.synth ctx)
        (term'.synth ctx')) : JudgedAlike binders binders' term term' where
  synth := synth
  check := by
    intro ctx ctx' agrees type
    rw [Term.check_eq_synth notIntroduction.1 notIntroduction.2,
      Term.check_eq_synth notIntroduction'.1 notIntroduction'.2]
    refine (synth agrees).bind fun got => ?_
    split
    · exact .accepted ()
    · exact .rejected (.same (by rintro _ ⟨⟩))

theorem var (same : (Term.var x).nameless binders = (Term.var x').nameless binders') :
    JudgedAlike binders binders' (.var x) (.var x') := by
  refine .of_synth ⟨rfl, rfl⟩ ⟨rfl, rfl⟩ ?_
  intro ctx ctx' agrees
  obtain ⟨sameType, sameName⟩ := agrees x (by simp [Term.free]) x' same
  rw [Term.synth, Term.synth, ← sameType]
  cases found : ctx.lookup x with
  | some type => exact .accepted type
  | none =>
      obtain rfl := sameName found
      exact .rejected (.same (by rintro _ ⟨⟩))

theorem lam (renamed : Term.Renamed binders binders' (.lam x body) (.lam x' body'))
    (bodyAlike : JudgedAlike (x :: binders) (x' :: binders') body body') :
    JudgedAlike binders binders' (.lam x body) (.lam x' body') where
  synth := by
    intro ctx ctx' _
    simp only [Term.synth]
    exact .ofShape renamed
  check := by
    intro ctx ctx' agrees type
    cases type with
    | nat =>
        simp only [Term.check]
        exact .rejected (.same (by rintro _ ⟨⟩))
    | arrow domain codomain =>
        simp only [Term.check]
        exact (bodyAlike.check (agrees.below domain) codomain).ofChild 0 rfl rfl

theorem app (functionAlike : JudgedAlike binders binders' function function')
    (argumentAlike : JudgedAlike binders binders' argument argument') :
    JudgedAlike binders binders' (.app function argument) (.app function' argument') := by
  refine .of_synth ⟨rfl, rfl⟩ ⟨rfl, rfl⟩ ?_
  intro ctx ctx' agrees
  rw [Term.synth, Term.synth]
  have functionAgrees := agrees.mono (List.subset_append_left function.free argument.free)
  have argumentAgrees := agrees.mono (List.subset_append_right function.free argument.free)
  refine ((functionAlike.synth functionAgrees).ofChild 0 rfl rfl).bind fun functionType => ?_
  cases functionType with
  | nat => exact .rejected (.same (by rintro _ ⟨⟩))
  | arrow domain codomain =>
      refine ((argumentAlike.check argumentAgrees domain).ofChild 1 rfl rfl).bind fun _ => ?_
      exact .accepted codomain

theorem zero : JudgedAlike binders binders' .zero .zero where
  synth := by
    intro ctx ctx' _
    simp only [Term.synth]
    exact .ofShape .zero
  check := by
    intro ctx ctx' _ type
    cases type with
    | nat =>
        simp only [Term.check]
        exact .accepted ()
    | arrow domain codomain =>
        simp only [Term.check]
        exact .rejected (.same (by rintro _ ⟨⟩))

theorem add1 (renamed : Term.Renamed binders binders' (.add1 predecessor) (.add1 predecessor'))
    (predecessorAlike : JudgedAlike binders binders' predecessor predecessor') :
    JudgedAlike binders binders' (.add1 predecessor) (.add1 predecessor') where
  synth := by
    intro ctx ctx' _
    simp only [Term.synth]
    exact .ofShape renamed
  check := by
    intro ctx ctx' agrees type
    cases type with
    | nat =>
        simp only [Term.check]
        exact (predecessorAlike.check agrees .nat).ofChild 0 rfl rfl
    | arrow domain codomain =>
        simp only [Term.check]
        exact .rejected (.same (by rintro _ ⟨⟩))

theorem recNat (targetAlike : JudgedAlike binders binders' target target')
    (baseAlike : JudgedAlike binders binders' base base')
    (stepAlike : JudgedAlike binders binders' step step') :
    JudgedAlike binders binders' (.recNat type target base step)
      (.recNat type target' base' step') := by
  refine .of_synth ⟨rfl, rfl⟩ ⟨rfl, rfl⟩ ?_
  intro ctx ctx' agrees
  rw [Term.synth, Term.synth]
  have targetAgrees : Context.AgreesOn binders binders' target.free ctx ctx' :=
    agrees.mono (by simp [Term.free])
  have baseAgrees : Context.AgreesOn binders binders' base.free ctx ctx' :=
    agrees.mono (by simp [Term.free])
  have stepAgrees : Context.AgreesOn binders binders' step.free ctx ctx' :=
    agrees.mono (by simp [Term.free])
  refine ((targetAlike.synth targetAgrees).ofChild 0 rfl rfl).bind fun targetType => ?_
  cases targetType with
  | arrow domain codomain => exact .rejected (.same (by rintro _ ⟨⟩))
  | nat =>
      refine ((baseAlike.check baseAgrees type).ofChild 1 rfl rfl).bind fun _ => ?_
      refine ((stepAlike.check stepAgrees type.step).ofChild 2 rfl rfl).bind fun _ => ?_
      exact .accepted type

theorem ann (exprAlike : JudgedAlike binders binders' expr expr') :
    JudgedAlike binders binders' (.ann expr type) (.ann expr' type) := by
  refine .of_synth ⟨rfl, rfl⟩ ⟨rfl, rfl⟩ ?_
  intro ctx ctx' agrees
  rw [Term.synth, Term.synth]
  refine ((exprAlike.check agrees type).ofChild 0 rfl rfl).bind fun _ => ?_
  exact .accepted type

end JudgedAlike

theorem Term.Renamed.judgedAlike {binders binders' : List Name} {term term' : Term}
    (renamed : Renamed binders binders' term term') : JudgedAlike binders binders' term term' := by
  induction renamed with
  | var same => exact .var same
  | lam bodyRenamed ih => exact .lam (.lam bodyRenamed) ih
  | app _ _ functionIH argumentIH => exact .app functionIH argumentIH
  | zero => exact .zero
  | add1 predecessorRenamed ih => exact .add1 (.add1 predecessorRenamed) ih
  | recNat _ _ _ targetIH baseIH stepIH => exact .recNat targetIH baseIH stepIH
  | ann _ ih => exact .ann ih

/-- The checker gives two terms that differ in the names of bound variables the same type, or rejects
both for the same reason, whatever the two contexts say of names that are not free in the terms. An
error carries the same name and types in both runs, and a term that it carries is the corresponding
part. -/
theorem Term.judged_by_free_variables {ctx ctx' : Context} {term term' : Term}
    (agree : ∀ x ∈ term.free, ctx.lookup x = ctx'.lookup x) (renamed : term.AlphaEquiv term') :
    SameVerdict (TypeError.Corresponds [] [] term term') (term.synth ctx) (term'.synth ctx') ∧
      ∀ type, SameVerdict (TypeError.Corresponds [] [] term term') (term.check ctx type)
        (term'.check ctx' type) := by
  have alike := (Term.Renamed.of_nameless_eq renamed).judgedAlike
  have agrees := Context.AgreesOn.of_lookup agree
  exact ⟨alike.synth agrees, alike.check agrees⟩

/-- Calls a function right where it is written, below two binders. -/
def deepCall : Term :=
  .ann (.lam "x" (.lam "y" (.app (.lam "z" (.var "x")) (.var "k"))))
    (.arrow .nat (.arrow .nat .nat))

/-- The same with the outer binders called the other way round and one of them shadowed. -/
def deepCallRenamed : Term :=
  .ann (.lam "y" (.lam "x" (.app (.lam "x" (.var "y")) (.var "k"))))
    (.arrow .nat (.arrow .nat .nat))

/-- The contexts differ in all but the free variable, and both runs stop at the function that is
called. -/
theorem deepCall_judged_by_free_variables :
    let ctx : Context := [("k", .nat), ("x", .arrow .nat .nat)]
    let ctx' : Context := [("y", .nat), ("k", .nat)]
    (∀ x ∈ deepCall.free, ctx.lookup x = ctx'.lookup x) ∧ deepCall.AlphaEquiv deepCallRenamed ∧
      deepCall.synth ctx = .error (.notSynthesizable (.lam "z" (.var "x"))) ∧
      deepCallRenamed.synth ctx' = .error (.notSynthesizable (.lam "x" (.var "y"))) ∧
      SameVerdict (TypeError.Corresponds [] [] deepCall deepCallRenamed) (deepCall.synth ctx)
        (deepCallRenamed.synth ctx') := by
  intro ctx ctx'
  have agree : ∀ x ∈ deepCall.free, ctx.lookup x = ctx'.lookup x := by decide
  have renamed : deepCall.AlphaEquiv deepCallRenamed := rfl
  exact ⟨agree, renamed, by decide +kernel, by decide +kernel,
    (Term.judged_by_free_variables agree renamed).1⟩

end LambdaCalculi.Simple
