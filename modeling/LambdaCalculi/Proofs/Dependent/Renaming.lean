import LambdaCalculi.Dependent.AlphaEquiv

/-!
# Renaming bound variables

Two terms are renamings of each other when they differ at most in the names of their bound variables.
This is finer than alpha-equivalence, which also takes two terms annotated with `Absurd` for the same.
Pairs of binders relate names one to one, so alpha-equivalence cannot tell a term from a renaming.
-/

set_option autoImplicit false

namespace LambdaCalculi.Dependent

namespace BinderPairs

theorem relates_cons_iff {binders : BinderPairs} {left right x y : Name} :
    relates ((left, right) :: binders) x y = true ↔
      (x = left ∧ y = right) ∨ (x ≠ left ∧ y ≠ right ∧ binders.relates x y = true) := by
  by_cases first : x = left <;> by_cases second : y = right <;> simp [relates, first, second]

/-- A name on one side is related to at most one name on the other. -/
theorem eq_iff_eq_of_relates {binders : BinderPairs} {x x' y y' : Name}
    (first : binders.relates x x' = true) (second : binders.relates y y' = true) :
    x = y ↔ x' = y' := by
  induction binders with
  | nil =>
      simp only [relates, beq_iff_eq] at first second
      rw [first, second]
  | cons pair outer ih =>
      obtain ⟨left, right⟩ := pair
      rw [relates_cons_iff] at first second
      grind

def Diagonal (binders : BinderPairs) : Prop :=
  ∀ pair ∈ binders, pair.1 = pair.2

theorem Diagonal.relates {binders : BinderPairs} (diagonal : binders.Diagonal) (x : Name) :
    binders.relates x x = true := by
  induction binders with
  | nil => exact beq_self_eq_true x
  | cons pair outer ih =>
      obtain ⟨left, right⟩ := pair
      obtain ⟨same, rest⟩ := List.forall_mem_cons.mp diagonal
      simp only at same
      subst same
      have below := ih rest
      rw [relates_cons_iff]
      by_cases here : x = left
      · exact .inl ⟨here, here⟩
      · exact .inr ⟨here, here, below⟩

theorem Diagonal.eq_of_relates {binders : BinderPairs} (diagonal : binders.Diagonal) {x y : Name}
    (related : binders.relates x y = true) : x = y :=
  (eq_iff_eq_of_relates (diagonal.relates x) related).mp rfl

end BinderPairs

/-- The terms differ at most in the names of their bound variables, below the given binders. -/
inductive Term.Renamed : BinderPairs → Term → Term → Prop where
  | var {binders : BinderPairs} {x y : Name} (related : binders.relates x y = true) :
      Renamed binders (.var x) (.var y)
  | pi {binders : BinderPairs} {x y : Name} {domain domain' range range' : Term}
      (domainRenamed : Renamed binders domain domain')
      (rangeRenamed : Renamed ((x, y) :: binders) range range') :
      Renamed binders (.pi x domain range) (.pi y domain' range')
  | lam {binders : BinderPairs} {x y : Name} {body body' : Term}
      (bodyRenamed : Renamed ((x, y) :: binders) body body') :
      Renamed binders (.lam x body) (.lam y body')
  | app {binders : BinderPairs} {function function' argument argument' : Term}
      (functionRenamed : Renamed binders function function')
      (argumentRenamed : Renamed binders argument argument') :
      Renamed binders (.app function argument) (.app function' argument')
  | sigma {binders : BinderPairs} {x y : Name} {carType carType' cdrType cdrType' : Term}
      (carRenamed : Renamed binders carType carType')
      (cdrRenamed : Renamed ((x, y) :: binders) cdrType cdrType') :
      Renamed binders (.sigma x carType cdrType) (.sigma y carType' cdrType')
  | cons {binders : BinderPairs} {first first' second second' : Term}
      (firstRenamed : Renamed binders first first')
      (secondRenamed : Renamed binders second second') :
      Renamed binders (.cons first second) (.cons first' second')
  | car {binders : BinderPairs} {pair pair' : Term} (pairRenamed : Renamed binders pair pair') :
      Renamed binders (.car pair) (.car pair')
  | cdr {binders : BinderPairs} {pair pair' : Term} (pairRenamed : Renamed binders pair pair') :
      Renamed binders (.cdr pair) (.cdr pair')
  | nat {binders : BinderPairs} : Renamed binders .nat .nat
  | zero {binders : BinderPairs} : Renamed binders .zero .zero
  | add1 {binders : BinderPairs} {predecessor predecessor' : Term}
      (predecessorRenamed : Renamed binders predecessor predecessor') :
      Renamed binders (.add1 predecessor) (.add1 predecessor')
  | indNat {binders : BinderPairs} {target target' motive motive' base base' step step' : Term}
      (targetRenamed : Renamed binders target target')
      (motiveRenamed : Renamed binders motive motive') (baseRenamed : Renamed binders base base')
      (stepRenamed : Renamed binders step step') :
      Renamed binders (.indNat target motive base step) (.indNat target' motive' base' step')
  | equal {binders : BinderPairs} {type type' left left' right right' : Term}
      (typeRenamed : Renamed binders type type') (leftRenamed : Renamed binders left left')
      (rightRenamed : Renamed binders right right') :
      Renamed binders (.equal type left right) (.equal type' left' right')
  | same {binders : BinderPairs} : Renamed binders .same .same
  | replace {binders : BinderPairs} {target target' motive motive' base base' : Term}
      (targetRenamed : Renamed binders target target')
      (motiveRenamed : Renamed binders motive motive') (baseRenamed : Renamed binders base base') :
      Renamed binders (.replace target motive base) (.replace target' motive' base')
  | trivial {binders : BinderPairs} : Renamed binders .trivial .trivial
  | sole {binders : BinderPairs} : Renamed binders .sole .sole
  | absurd {binders : BinderPairs} : Renamed binders .absurd .absurd
  | indAbsurd {binders : BinderPairs} {target target' motive motive' : Term}
      (targetRenamed : Renamed binders target target')
      (motiveRenamed : Renamed binders motive motive') :
      Renamed binders (.indAbsurd target motive) (.indAbsurd target' motive')
  | atom {binders : BinderPairs} : Renamed binders .atom .atom
  | tick {binders : BinderPairs} (symbol : String) : Renamed binders (.tick symbol) (.tick symbol)
  | univ {binders : BinderPairs} : Renamed binders .univ .univ
  | the {binders : BinderPairs} {type type' expr expr' : Term}
      (typeRenamed : Renamed binders type type') (exprRenamed : Renamed binders expr expr') :
      Renamed binders (.the type expr) (.the type' expr')

namespace Term.Renamed

/-- A renaming stays one where more names are related. -/
theorem mono {binders more : BinderPairs} {term term' : Term} (renamed : Renamed binders term term')
    (weaker : ∀ x y, binders.relates x y = true → more.relates x y = true) :
    Renamed more term term' := by
  have below : ∀ {binders more : BinderPairs} (left right : Name),
      (∀ x y, binders.relates x y = true → more.relates x y = true) →
      ∀ x y, BinderPairs.relates ((left, right) :: binders) x y = true →
        BinderPairs.relates ((left, right) :: more) x y = true := by
    intro binders more left right weaker x y related
    rw [BinderPairs.relates_cons_iff] at related ⊢
    exact related.imp_right fun ⟨first, second, outer⟩ => ⟨first, second, weaker x y outer⟩
  induction renamed generalizing more with
  | var related => exact .var (weaker _ _ related)
  | pi _ _ domainIH rangeIH => exact .pi (domainIH weaker) (rangeIH (below _ _ weaker))
  | lam _ ih => exact .lam (ih (below _ _ weaker))
  | app _ _ functionIH argumentIH => exact .app (functionIH weaker) (argumentIH weaker)
  | sigma _ _ carIH cdrIH => exact .sigma (carIH weaker) (cdrIH (below _ _ weaker))
  | cons _ _ firstIH secondIH => exact .cons (firstIH weaker) (secondIH weaker)
  | car _ ih => exact .car (ih weaker)
  | cdr _ ih => exact .cdr (ih weaker)
  | nat => exact .nat
  | zero => exact .zero
  | add1 _ ih => exact .add1 (ih weaker)
  | indNat _ _ _ _ targetIH motiveIH baseIH stepIH =>
      exact .indNat (targetIH weaker) (motiveIH weaker) (baseIH weaker) (stepIH weaker)
  | equal _ _ _ typeIH leftIH rightIH =>
      exact .equal (typeIH weaker) (leftIH weaker) (rightIH weaker)
  | same => exact .same
  | replace _ _ _ targetIH motiveIH baseIH =>
      exact .replace (targetIH weaker) (motiveIH weaker) (baseIH weaker)
  | trivial => exact .trivial
  | sole => exact .sole
  | absurd => exact .absurd
  | indAbsurd _ _ targetIH motiveIH => exact .indAbsurd (targetIH weaker) (motiveIH weaker)
  | atom => exact .atom
  | tick symbol => exact .tick symbol
  | univ => exact .univ
  | the _ _ typeIH exprIH => exact .the (typeIH weaker) (exprIH weaker)

theorem alphaEquivUnder {binders : BinderPairs} {term term' : Term}
    (renamed : Renamed binders term term') : term.alphaEquivUnder binders term' = true := by
  induction renamed with
  | var related => exact related
  | _ => simp_all [Term.alphaEquivUnder]

/-- Two ways into a pair of terms and their renamings relate the same variables. -/
def Coherent (leftNames rightNames binders binders' : BinderPairs) : Prop :=
  ∀ x x' y y', leftNames.relates x x' = true → rightNames.relates y y' = true →
    binders.relates x y = binders'.relates x' y'

theorem Coherent.cons {leftNames rightNames binders binders' : BinderPairs}
    (coherent : Coherent leftNames rightNames binders binders') (x x' y y' : Name) :
    Coherent ((x, x') :: leftNames) ((y, y') :: rightNames) ((x, y) :: binders)
      ((x', y') :: binders') := by
  intro z z' w w' left right
  rw [BinderPairs.relates_cons_iff] at left right
  have outer := coherent z z' w w'
  rw [Bool.eq_iff_iff, BinderPairs.relates_cons_iff, BinderPairs.relates_cons_iff]
  grind

theorem eq_absurd_iff {binders : BinderPairs} {term term' : Term}
    (renamed : Renamed binders term term') : term = .absurd ↔ term' = .absurd := by
  cases renamed <;> simp

/-- Alpha-equivalence cannot tell terms from their renamings. -/
theorem alphaEquivUnder_eq {leftNames rightNames binders binders' : BinderPairs}
    {left left' right right' : Term} (leftRenamed : Renamed leftNames left left')
    (rightRenamed : Renamed rightNames right right')
    (coherent : Coherent leftNames rightNames binders binders') :
    left.alphaEquivUnder binders right = left'.alphaEquivUnder binders' right' := by
  induction leftRenamed generalizing rightNames binders binders' right right' with
  | var related =>
      cases rightRenamed with
      | var related' => exact coherent _ _ _ _ related related'
      | _ => rfl
  | pi _ _ domainIH rangeIH =>
      cases rightRenamed with
      | pi domainRenamed rangeRenamed =>
          simp only [Term.alphaEquivUnder, domainIH domainRenamed coherent,
            rangeIH rangeRenamed (coherent.cons _ _ _ _)]
      | _ => rfl
  | lam _ bodyIH =>
      cases rightRenamed with
      | lam bodyRenamed =>
          simp only [Term.alphaEquivUnder, bodyIH bodyRenamed (coherent.cons _ _ _ _)]
      | _ => rfl
  | app _ _ functionIH argumentIH =>
      cases rightRenamed with
      | app functionRenamed argumentRenamed =>
          simp only [Term.alphaEquivUnder, functionIH functionRenamed coherent,
            argumentIH argumentRenamed coherent]
      | _ => rfl
  | sigma _ _ carIH cdrIH =>
      cases rightRenamed with
      | sigma carRenamed cdrRenamed =>
          simp only [Term.alphaEquivUnder, carIH carRenamed coherent,
            cdrIH cdrRenamed (coherent.cons _ _ _ _)]
      | _ => rfl
  | cons _ _ firstIH secondIH =>
      cases rightRenamed with
      | cons firstRenamed secondRenamed =>
          simp only [Term.alphaEquivUnder, firstIH firstRenamed coherent,
            secondIH secondRenamed coherent]
      | _ => rfl
  | car _ pairIH =>
      cases rightRenamed with
      | car pairRenamed =>
          simp only [Term.alphaEquivUnder, pairIH pairRenamed coherent]
      | _ => rfl
  | cdr _ pairIH =>
      cases rightRenamed with
      | cdr pairRenamed =>
          simp only [Term.alphaEquivUnder, pairIH pairRenamed coherent]
      | _ => rfl
  | add1 _ predecessorIH =>
      cases rightRenamed with
      | add1 predecessorRenamed =>
          simp only [Term.alphaEquivUnder, predecessorIH predecessorRenamed coherent]
      | _ => rfl
  | indNat _ _ _ _ targetIH motiveIH baseIH stepIH =>
      cases rightRenamed with
      | indNat targetRenamed motiveRenamed baseRenamed stepRenamed =>
          simp only [Term.alphaEquivUnder, targetIH targetRenamed coherent,
            motiveIH motiveRenamed coherent, baseIH baseRenamed coherent,
            stepIH stepRenamed coherent]
      | _ => rfl
  | equal _ _ _ typeIH leftIH rightIH =>
      cases rightRenamed with
      | equal typeRenamed leftRenamed rightRenamed =>
          simp only [Term.alphaEquivUnder, typeIH typeRenamed coherent, leftIH leftRenamed coherent,
            rightIH rightRenamed coherent]
      | _ => rfl
  | replace _ _ _ targetIH motiveIH baseIH =>
      cases rightRenamed with
      | replace targetRenamed motiveRenamed baseRenamed =>
          simp only [Term.alphaEquivUnder, targetIH targetRenamed coherent,
            motiveIH motiveRenamed coherent, baseIH baseRenamed coherent]
      | _ => rfl
  | indAbsurd _ _ targetIH motiveIH =>
      cases rightRenamed with
      | indAbsurd targetRenamed motiveRenamed =>
          simp only [Term.alphaEquivUnder, targetIH targetRenamed coherent,
            motiveIH motiveRenamed coherent]
      | _ => rfl
  | the typeRenamed _ typeIH exprIH =>
      cases rightRenamed with
      | the typeRenamed' exprRenamed' =>
          simp only [Term.alphaEquivUnder, typeRenamed.eq_absurd_iff, typeRenamed'.eq_absurd_iff,
            typeIH typeRenamed' coherent, exprIH exprRenamed' coherent]
      | _ => rfl
  | nat | zero | same | trivial | sole | absurd | atom | tick | univ => cases rightRenamed <;> rfl

theorem refl {binders : BinderPairs} (diagonal : binders.Diagonal) (term : Term) :
    Renamed binders term term := by
  have below : ∀ {binders : BinderPairs} (x : Name), binders.Diagonal →
      BinderPairs.Diagonal ((x, x) :: binders) :=
    fun _ diagonal => List.forall_mem_cons.mpr ⟨rfl, diagonal⟩
  induction term generalizing binders with
  | var x => exact .var (diagonal.relates x)
  | pi x _ _ domainIH rangeIH => exact .pi (domainIH diagonal) (rangeIH (below x diagonal))
  | lam x _ ih => exact .lam (ih (below x diagonal))
  | app _ _ functionIH argumentIH => exact .app (functionIH diagonal) (argumentIH diagonal)
  | sigma x _ _ carIH cdrIH => exact .sigma (carIH diagonal) (cdrIH (below x diagonal))
  | cons _ _ firstIH secondIH => exact .cons (firstIH diagonal) (secondIH diagonal)
  | car _ ih => exact .car (ih diagonal)
  | cdr _ ih => exact .cdr (ih diagonal)
  | nat => exact .nat
  | zero => exact .zero
  | add1 _ ih => exact .add1 (ih diagonal)
  | indNat _ _ _ _ targetIH motiveIH baseIH stepIH =>
      exact .indNat (targetIH diagonal) (motiveIH diagonal) (baseIH diagonal) (stepIH diagonal)
  | equal _ _ _ typeIH leftIH rightIH =>
      exact .equal (typeIH diagonal) (leftIH diagonal) (rightIH diagonal)
  | same => exact .same
  | replace _ _ _ targetIH motiveIH baseIH =>
      exact .replace (targetIH diagonal) (motiveIH diagonal) (baseIH diagonal)
  | trivial => exact .trivial
  | sole => exact .sole
  | absurd => exact .absurd
  | indAbsurd _ _ targetIH motiveIH => exact .indAbsurd (targetIH diagonal) (motiveIH diagonal)
  | atom => exact .atom
  | tick symbol => exact .tick symbol
  | univ => exact .univ
  | the _ _ typeIH exprIH => exact .the (typeIH diagonal) (exprIH diagonal)

/-- Two terms are alpha-equivalent exactly when their renamings by the same pairs are. -/
theorem alphaEquiv_eq {names : BinderPairs} {left left' right right' : Term}
    (leftRenamed : Renamed names left left') (rightRenamed : Renamed names right right') :
    left.alphaEquiv right = left'.alphaEquiv right' := by
  refine leftRenamed.alphaEquivUnder_eq rightRenamed fun x x' y y' related related' => ?_
  have same := BinderPairs.eq_iff_eq_of_relates related related'
  exact Bool.eq_iff_iff.mpr (by simpa [BinderPairs.relates] using same)

end Term.Renamed

/-- Binders that give both sides one name change nothing. -/
theorem Term.alphaEquivUnder_diagonal {binders : BinderPairs} (diagonal : binders.Diagonal)
    (left right : Term) : left.alphaEquivUnder binders right = left.alphaEquiv right := by
  have none : BinderPairs.Diagonal [] := fun _ mem => by cases mem
  refine (Renamed.refl none left).alphaEquivUnder_eq (Renamed.refl none right) ?_
  intro x x' y y' related related'
  rw [none.eq_of_relates related, none.eq_of_relates related', Bool.eq_iff_iff]
  refine ⟨fun same => ?_, fun same => ?_⟩
  · exact diagonal.eq_of_relates same ▸ none.relates x'
  · exact none.eq_of_relates same ▸ diagonal.relates x'

end LambdaCalculi.Dependent
