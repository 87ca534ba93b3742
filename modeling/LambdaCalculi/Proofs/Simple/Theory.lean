import LambdaCalculi.Proofs.Simple.Nameless

/-!
# Types and equations of nameless terms

`HasType` gives the declarative typing rules of the calculus and `Equal` the typed equations: the
rule of functions applied to arguments, expansion of functions, recursion on zero and on a
successor, and erasure of annotations, closed under all term formers. A function carries no type for
its argument, so it may be typed in more than one way; an equation is always meant at one type.
-/

set_option autoImplicit false

namespace LambdaCalculi.Simple

abbrev Types := List Ty

inductive HasType : Types → Nameless → Ty → Prop where
  | bound {types : Types} {index : Nat} {type : Ty} :
      types[index]? = some type → HasType types (.bound index) type
  | lam {types : Types} {domain codomain : Ty} {body : Nameless} :
      HasType (domain :: types) body codomain →
      HasType types (.lam body) (.arrow domain codomain)
  | app {types : Types} {domain codomain : Ty} {function argument : Nameless} :
      HasType types function (.arrow domain codomain) → HasType types argument domain →
      HasType types (.app function argument) codomain
  | zero {types : Types} : HasType types .zero .nat
  | add1 {types : Types} {predecessor : Nameless} :
      HasType types predecessor .nat → HasType types (.add1 predecessor) .nat
  | recNat {types : Types} {type : Ty} {target base step : Nameless} :
      HasType types target .nat → HasType types base type → HasType types step type.step →
      HasType types (.recNat type target base step) type
  | ann {types : Types} {type : Ty} {expr : Nameless} :
      HasType types expr type → HasType types (.ann expr type) type

inductive Equal : Types → Nameless → Nameless → Ty → Prop where
  | refl {types : Types} {term : Nameless} {type : Ty} :
      HasType types term type → Equal types term term type
  | symm {types : Types} {left right : Nameless} {type : Ty} :
      Equal types left right type → Equal types right left type
  | trans {types : Types} {left middle right : Nameless} {type : Ty} :
      Equal types left middle type → Equal types middle right type → Equal types left right type
  | lam {types : Types} {domain codomain : Ty} {left right : Nameless} :
      Equal (domain :: types) left right codomain →
      Equal types (.lam left) (.lam right) (.arrow domain codomain)
  | app {types : Types} {domain codomain : Ty} {function function' argument argument' : Nameless} :
      Equal types function function' (.arrow domain codomain) →
      Equal types argument argument' domain →
      Equal types (.app function argument) (.app function' argument') codomain
  | add1 {types : Types} {left right : Nameless} :
      Equal types left right .nat → Equal types (.add1 left) (.add1 right) .nat
  | recNat {types : Types} {type : Ty} {target target' base base' step step' : Nameless} :
      Equal types target target' .nat → Equal types base base' type →
      Equal types step step' type.step →
      Equal types (.recNat type target base step) (.recNat type target' base' step') type
  | ann {types : Types} {type : Ty} {left right : Nameless} :
      Equal types left right type → Equal types (.ann left type) (.ann right type) type
  /-- A function applied to an argument is its body at the argument. -/
  | beta {types : Types} {domain codomain : Ty} {body argument : Nameless} :
      HasType (domain :: types) body codomain → HasType types argument domain →
      Equal types (.app (.lam body) argument) (body.instantiate argument) codomain
  /-- A function is what it does to its argument. -/
  | eta {types : Types} {domain codomain : Ty} {function : Nameless} :
      HasType types function (.arrow domain codomain) →
      Equal types function (.lam (.app (function.shift 1) (.bound 0))) (.arrow domain codomain)
  | recNatZero {types : Types} {type : Ty} {base step : Nameless} :
      HasType types base type → HasType types step type.step →
      Equal types (.recNat type .zero base step) base type
  | recNatAdd1 {types : Types} {type : Ty} {predecessor base step : Nameless} :
      HasType types predecessor .nat → HasType types base type → HasType types step type.step →
      Equal types (.recNat type (.add1 predecessor) base step)
        (.app (.app step predecessor) (.recNat type predecessor base step)) type
  | erase {types : Types} {type : Ty} {expr : Nameless} :
      HasType types expr type → Equal types (.ann expr type) expr type

def Renumbers (mapping : Nat → Nat) (source target : Types) : Prop :=
  ∀ index type, source[index]? = some type → target[mapping index]? = some type

theorem Renumbers.lift {mapping : Nat → Nat} {source target : Types} (domain : Ty)
    (moves : Renumbers mapping source target) :
    Renumbers (Nameless.liftRenaming mapping) (domain :: source) (domain :: target) := by
  intro index type found
  cases index with
  | zero => exact found
  | succ index => exact moves index type found

theorem renumbers_append (inner types : Types) :
    Renumbers (· + inner.length) types (inner ++ types) := by
  intro index type found
  change (inner ++ types)[index + inner.length]? = some type
  rw [List.getElem?_append_right (by omega), Nat.add_sub_cancel]
  exact found

namespace HasType

theorem rename {source : Types} {term : Nameless} {type : Ty} (typed : HasType source term type) :
    ∀ {target : Types} {mapping : Nat → Nat}, Renumbers mapping source target →
      HasType target (term.rename mapping) type := by
  induction typed with
  | bound found =>
      intro target mapping moves
      exact .bound (moves _ _ found)
  | lam _ ih =>
      intro target mapping moves
      exact .lam (ih (moves.lift _))
  | app _ _ functionIH argumentIH =>
      intro target mapping moves
      exact .app (functionIH moves) (argumentIH moves)
  | zero =>
      intro target mapping _
      exact .zero
  | add1 _ ih =>
      intro target mapping moves
      exact .add1 (ih moves)
  | recNat _ _ _ targetIH baseIH stepIH =>
      intro target mapping moves
      exact .recNat (targetIH moves) (baseIH moves) (stepIH moves)
  | ann _ ih =>
      intro target mapping moves
      exact .ann (ih moves)

theorem shift {types : Types} {term : Nameless} {type : Ty} (typed : HasType types term type)
    (inner : Types) : HasType (inner ++ types) (term.shift inner.length) type :=
  typed.rename (renumbers_append inner types)

theorem subst {source : Types} {term : Nameless} {type : Ty} (typed : HasType source term type) :
    ∀ {target : Types} {substitution : Nat → Nameless},
      (∀ index type, source[index]? = some type → HasType target (substitution index) type) →
      HasType target (term.subst substitution) type := by
  induction typed with
  | bound found =>
      intro target substitution typedAt
      exact typedAt _ _ found
  | @lam _ domain _ _ _ ih =>
      intro target substitution typedAt
      refine .lam (ih ?_)
      intro index type found
      cases index with
      | zero => exact .bound found
      | succ index => exact (typedAt index type found).shift [domain]
  | app _ _ functionIH argumentIH =>
      intro target substitution typedAt
      exact .app (functionIH typedAt) (argumentIH typedAt)
  | zero =>
      intro target substitution _
      exact .zero
  | add1 _ ih =>
      intro target substitution typedAt
      exact .add1 (ih typedAt)
  | recNat _ _ _ targetIH baseIH stepIH =>
      intro target substitution typedAt
      exact .recNat (targetIH typedAt) (baseIH typedAt) (stepIH typedAt)
  | ann _ ih =>
      intro target substitution typedAt
      exact .ann (ih typedAt)

theorem instantiate {types : Types} {domain codomain : Ty} {body argument : Nameless}
    (typed : HasType (domain :: types) body codomain) (argumentTyped : HasType types argument domain) :
    HasType types (body.instantiate argument) codomain := by
  apply typed.subst
  intro index type found
  cases index with
  | zero =>
      cases found
      exact argumentTyped
  | succ index => exact .bound found

theorem expand {types : Types} {domain codomain : Ty} {function : Nameless}
    (typed : HasType types function (.arrow domain codomain)) :
    HasType types (.lam (.app (function.shift 1) (.bound 0))) (.arrow domain codomain) :=
  .lam (.app (typed.shift [domain]) (.bound rfl))

end HasType

namespace Equal

theorem typed {types : Types} {left right : Nameless} {type : Ty}
    (equal : Equal types left right type) : HasType types left type ∧ HasType types right type := by
  induction equal with
  | refl typed => exact ⟨typed, typed⟩
  | symm _ ih => exact ⟨ih.2, ih.1⟩
  | trans _ _ firstIH secondIH => exact ⟨firstIH.1, secondIH.2⟩
  | lam _ ih => exact ⟨.lam ih.1, .lam ih.2⟩
  | app _ _ functionIH argumentIH =>
      exact ⟨.app functionIH.1 argumentIH.1, .app functionIH.2 argumentIH.2⟩
  | add1 _ ih => exact ⟨.add1 ih.1, .add1 ih.2⟩
  | recNat _ _ _ targetIH baseIH stepIH =>
      exact ⟨.recNat targetIH.1 baseIH.1 stepIH.1, .recNat targetIH.2 baseIH.2 stepIH.2⟩
  | ann _ ih => exact ⟨.ann ih.1, .ann ih.2⟩
  | beta bodyTyped argumentTyped =>
      exact ⟨.app (.lam bodyTyped) argumentTyped, bodyTyped.instantiate argumentTyped⟩
  | eta typed => exact ⟨typed, typed.expand⟩
  | recNatZero baseTyped stepTyped => exact ⟨.recNat .zero baseTyped stepTyped, baseTyped⟩
  | recNatAdd1 predecessorTyped baseTyped stepTyped =>
      exact ⟨.recNat (.add1 predecessorTyped) baseTyped stepTyped,
        .app (.app stepTyped predecessorTyped) (.recNat predecessorTyped baseTyped stepTyped)⟩
  | erase typed => exact ⟨.ann typed, typed⟩

theorem rename {source : Types} {left right : Nameless} {type : Ty}
    (equal : Equal source left right type) :
    ∀ {target : Types} {mapping : Nat → Nat}, Renumbers mapping source target →
      Equal target (left.rename mapping) (right.rename mapping) type := by
  induction equal with
  | refl typed =>
      intro target mapping moves
      exact .refl (typed.rename moves)
  | symm _ ih =>
      intro target mapping moves
      exact .symm (ih moves)
  | trans _ _ firstIH secondIH =>
      intro target mapping moves
      exact .trans (firstIH moves) (secondIH moves)
  | lam _ ih =>
      intro target mapping moves
      exact .lam (ih (moves.lift _))
  | app _ _ functionIH argumentIH =>
      intro target mapping moves
      exact .app (functionIH moves) (argumentIH moves)
  | add1 _ ih =>
      intro target mapping moves
      exact .add1 (ih moves)
  | recNat _ _ _ targetIH baseIH stepIH =>
      intro target mapping moves
      exact .recNat (targetIH moves) (baseIH moves) (stepIH moves)
  | ann _ ih =>
      intro target mapping moves
      exact .ann (ih moves)
  | beta bodyTyped argumentTyped =>
      intro target mapping moves
      rw [Nameless.rename_instantiate]
      exact .beta (bodyTyped.rename (moves.lift _)) (argumentTyped.rename moves)
  | @eta _ domain codomain function typed =>
      intro target mapping moves
      have moved := Equal.eta (typed.rename moves)
      have inner : (function.rename mapping).shift 1 =
          (function.shift 1).rename (Nameless.liftRenaming mapping) := by
        simp only [Nameless.shift, Nameless.rename_rename, Nameless.liftRenaming]
      rw [inner] at moved
      exact moved
  | recNatZero baseTyped stepTyped =>
      intro target mapping moves
      exact .recNatZero (baseTyped.rename moves) (stepTyped.rename moves)
  | recNatAdd1 predecessorTyped baseTyped stepTyped =>
      intro target mapping moves
      exact .recNatAdd1 (predecessorTyped.rename moves) (baseTyped.rename moves)
        (stepTyped.rename moves)
  | erase typed =>
      intro target mapping moves
      exact .erase (typed.rename moves)

theorem shift {types : Types} {left right : Nameless} {type : Ty}
    (equal : Equal types left right type) (inner : Types) :
    Equal (inner ++ types) (left.shift inner.length) (right.shift inner.length) type :=
  equal.rename (renumbers_append inner types)

end Equal

end LambdaCalculi.Simple
