import LambdaCalculi.Simple.Program

/-!
# Nameless terms of the simply typed calculus

A nameless term refers to a binder by the number of binders in between. Translating a named term
forgets the spelling of its binders and nothing else, so two terms are alpha-equivalent when their
nameless forms are the same. Substitution needs no renaming here, which makes nameless terms the
place for the equations of the calculus.
-/

set_option autoImplicit false

namespace LambdaCalculi.Simple

/-- A term whose bound variables are counted from the inside; free variables keep their names. -/
inductive Nameless where
  | bound (index : Nat)
  | free (x : Name)
  | lam (body : Nameless)
  | app (function argument : Nameless)
  | zero
  | add1 (predecessor : Nameless)
  | recNat (type : Ty) (target base step : Nameless)
  | ann (expr : Nameless) (type : Ty)
deriving DecidableEq, Repr

/-- The nameless form of a term below the binders listed, the innermost first. -/
def Term.nameless (binders : List Name) : Term → Nameless
  | var x => if x ∈ binders then .bound (binders.idxOf x) else .free x
  | lam x body => .lam (body.nameless (x :: binders))
  | app function argument => .app (function.nameless binders) (argument.nameless binders)
  | zero => .zero
  | add1 predecessor => .add1 (predecessor.nameless binders)
  | recNat type target base step =>
      .recNat type (target.nameless binders) (base.nameless binders) (step.nameless binders)
  | ann expr type => .ann (expr.nameless binders) type

def Term.AlphaEquiv (left right : Term) : Prop :=
  left.nameless [] = right.nameless []

namespace Nameless

def liftRenaming (mapping : Nat → Nat) : Nat → Nat
  | 0 => 0
  | index + 1 => mapping index + 1

def rename (mapping : Nat → Nat) : Nameless → Nameless
  | bound index => bound (mapping index)
  | free x => free x
  | lam body => lam (body.rename (liftRenaming mapping))
  | app function argument => app (function.rename mapping) (argument.rename mapping)
  | zero => zero
  | add1 predecessor => add1 (predecessor.rename mapping)
  | recNat type target base step =>
      recNat type (target.rename mapping) (base.rename mapping) (step.rename mapping)
  | ann expr type => ann (expr.rename mapping) type

def shift (count : Nat) (term : Nameless) : Nameless :=
  term.rename (· + count)

def lift (substitution : Nat → Nameless) : Nat → Nameless
  | 0 => bound 0
  | index + 1 => (substitution index).shift 1

def subst (substitution : Nat → Nameless) : Nameless → Nameless
  | bound index => substitution index
  | free x => free x
  | lam body => lam (body.subst (lift substitution))
  | app function argument => app (function.subst substitution) (argument.subst substitution)
  | zero => zero
  | add1 predecessor => add1 (predecessor.subst substitution)
  | recNat type target base step =>
      recNat type (target.subst substitution) (base.subst substitution) (step.subst substitution)
  | ann expr type => ann (expr.subst substitution) type

def extend (head : Nameless) (tail : Nat → Nameless) : Nat → Nameless
  | 0 => head
  | index + 1 => tail index

def instantiate (body argument : Nameless) : Nameless :=
  body.subst (extend argument bound)

theorem lift_bound : lift bound = bound := by
  funext index
  cases index <;> rfl

theorem subst_bound (term : Nameless) : term.subst bound = term := by
  induction term with
  | bound index => rfl
  | free x => rfl
  | lam body ih => rw [subst, lift_bound, ih]
  | app function argument functionIH argumentIH => rw [subst, functionIH, argumentIH]
  | zero => rfl
  | add1 predecessor ih => rw [subst, ih]
  | recNat type target base step targetIH baseIH stepIH => rw [subst, targetIH, baseIH, stepIH]
  | ann expr type ih => rw [subst, ih]

theorem rename_eq_subst (term : Nameless) (mapping : Nat → Nat) :
    term.rename mapping = term.subst fun index => bound (mapping index) := by
  induction term generalizing mapping with
  | bound index => rfl
  | free x => rfl
  | lam body ih =>
      have lifted : lift (fun index => bound (mapping index)) =
          fun index => bound (liftRenaming mapping index) := by
        funext index
        cases index <;> rfl
      rw [rename, subst, ih, lifted]
  | app function argument functionIH argumentIH => rw [rename, subst, functionIH, argumentIH]
  | zero => rfl
  | add1 predecessor ih => rw [rename, subst, ih]
  | recNat type target base step targetIH baseIH stepIH =>
      rw [rename, subst, targetIH, baseIH, stepIH]
  | ann expr type ih => rw [rename, subst, ih]

theorem subst_rename (term : Nameless) (mapping : Nat → Nat) (substitution : Nat → Nameless) :
    (term.rename mapping).subst substitution =
      term.subst fun index => substitution (mapping index) := by
  induction term generalizing mapping substitution with
  | bound index => rfl
  | free x => rfl
  | lam body ih =>
      have lifted : (fun index => lift substitution (liftRenaming mapping index)) =
          lift fun index => substitution (mapping index) := by
        funext index
        cases index <;> rfl
      rw [rename, subst, subst, ih, lifted]
  | app function argument functionIH argumentIH =>
      rw [rename, subst, subst, functionIH, argumentIH]
  | zero => rfl
  | add1 predecessor ih => rw [rename, subst, subst, ih]
  | recNat type target base step targetIH baseIH stepIH =>
      rw [rename, subst, subst, targetIH, baseIH, stepIH]
  | ann expr type ih => rw [rename, subst, subst, ih]

theorem rename_rename (term : Nameless) (first second : Nat → Nat) :
    (term.rename first).rename second = term.rename fun index => second (first index) := by
  rw [rename_eq_subst _ second, subst_rename, rename_eq_subst]

theorem rename_subst (term : Nameless) (substitution : Nat → Nameless) (mapping : Nat → Nat) :
    (term.subst substitution).rename mapping =
      term.subst fun index => (substitution index).rename mapping := by
  induction term generalizing mapping substitution with
  | bound index => rfl
  | free x => rfl
  | lam body ih =>
      have lifted : (fun index => (lift substitution index).rename (liftRenaming mapping)) =
          lift fun index => (substitution index).rename mapping := by
        funext index
        cases index with
        | zero => rfl
        | succ index =>
            simp only [lift, shift, rename_rename, liftRenaming]
      rw [subst, rename, subst, ih, lifted]
  | app function argument functionIH argumentIH =>
      rw [subst, rename, subst, functionIH, argumentIH]
  | zero => rfl
  | add1 predecessor ih => rw [subst, rename, subst, ih]
  | recNat type target base step targetIH baseIH stepIH =>
      rw [subst, rename, subst, targetIH, baseIH, stepIH]
  | ann expr type ih => rw [subst, rename, subst, ih]

theorem subst_subst (term : Nameless) (first second : Nat → Nameless) :
    (term.subst first).subst second = term.subst fun index => (first index).subst second := by
  induction term generalizing first second with
  | bound index => rfl
  | free x => rfl
  | lam body ih =>
      have lifted : (fun index => (lift first index).subst (lift second)) =
          lift fun index => (first index).subst second := by
        funext index
        cases index with
        | zero => rfl
        | succ index =>
            simp only [lift, shift, subst_rename, rename_subst]
      rw [subst, subst, subst, ih, lifted]
  | app function argument functionIH argumentIH =>
      rw [subst, subst, subst, functionIH, argumentIH]
  | zero => rfl
  | add1 predecessor ih => rw [subst, subst, subst, ih]
  | recNat type target base step targetIH baseIH stepIH =>
      rw [subst, subst, subst, targetIH, baseIH, stepIH]
  | ann expr type ih => rw [subst, subst, subst, ih]

theorem shift_zero (term : Nameless) : term.shift 0 = term := by
  have same : (fun index : Nat => bound (index + 0)) = bound := rfl
  rw [shift, rename_eq_subst, same, subst_bound]

theorem shift_shift (term : Nameless) (first second : Nat) :
    (term.shift first).shift second = term.shift (first + second) := by
  simp only [shift, rename_rename, Nat.add_assoc]

/-- What is shifted past a variable does not change when the variable is replaced. -/
theorem instantiate_shift (term argument : Nameless) :
    (term.shift 1).instantiate argument = term := by
  rw [shift, instantiate, subst_rename]
  exact subst_bound term

theorem instantiate_subst_lift (body argument : Nameless) (substitution : Nat → Nameless) :
    (body.subst (lift substitution)).instantiate argument =
      body.subst (extend argument substitution) := by
  have extended : (fun index => (lift substitution index).subst (extend argument bound)) =
      extend argument substitution := by
    funext index
    cases index with
    | zero => rfl
    | succ index => exact instantiate_shift (substitution index) argument
  rw [instantiate, subst_subst, extended]

theorem rename_instantiate (body argument : Nameless) (mapping : Nat → Nat) :
    (body.instantiate argument).rename mapping =
      (body.rename (liftRenaming mapping)).instantiate (argument.rename mapping) := by
  have extended : (fun index => (extend argument bound index).rename mapping) =
      fun index => extend (argument.rename mapping) bound (liftRenaming mapping index) := by
    funext index
    cases index <;> rfl
  rw [instantiate, instantiate, rename_subst, subst_rename, extended]

end Nameless

end LambdaCalculi.Simple
