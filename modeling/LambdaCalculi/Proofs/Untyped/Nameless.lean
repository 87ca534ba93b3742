import LambdaCalculi.Untyped.Term

/-!
# Nameless terms of the untyped calculus

A nameless term refers to a binder by the number of binders in between. The nameless form of a term
forgets how its binders are spelled and nothing else, so alpha-equivalent terms are those with the
same nameless form, and a reduction of nameless terms is one of named terms up to alpha.
-/

set_option autoImplicit false

namespace LambdaCalculi.Untyped

/-- A term whose bound variables are counted from the inside; free variables keep their names. -/
inductive Nameless where
  | bound (index : Nat)
  | free (x : Name)
  | lam (body : Nameless)
  | app (function argument : Nameless)
deriving DecidableEq, Repr

def Term.nameless (binders : List Name) : Term → Nameless
  | var x => if x ∈ binders then .bound (binders.idxOf x) else .free x
  | lam x body => .lam (body.nameless (x :: binders))
  | app function argument => .app (function.nameless binders) (argument.nameless binders)

def Term.AlphaEquiv (left right : Term) : Prop :=
  left.nameless [] = right.nameless []

instance (left right : Term) : Decidable (left.AlphaEquiv right) :=
  inferInstanceAs (Decidable (left.nameless [] = right.nameless []))

namespace Nameless

def liftRenaming (mapping : Nat → Nat) : Nat → Nat
  | 0 => 0
  | index + 1 => mapping index + 1

def rename (mapping : Nat → Nat) : Nameless → Nameless
  | bound index => bound (mapping index)
  | free x => free x
  | lam body => lam (body.rename (liftRenaming mapping))
  | app function argument => app (function.rename mapping) (argument.rename mapping)

def shift (term : Nameless) : Nameless :=
  term.rename (· + 1)

def lift (substitution : Nat → Nameless) : Nat → Nameless
  | 0 => bound 0
  | index + 1 => (substitution index).shift

def subst (substitution : Nat → Nameless) : Nameless → Nameless
  | bound index => substitution index
  | free x => free x
  | lam body => lam (body.subst (lift substitution))
  | app function argument => app (function.subst substitution) (argument.subst substitution)

def extend (head : Nameless) (tail : Nat → Nameless) : Nat → Nameless
  | 0 => head
  | index + 1 => tail index

def instantiate (body argument : Nameless) : Nameless :=
  body.subst (extend argument bound)

theorem subst_bound (term : Nameless) : term.subst bound = term := by
  have lifted : lift bound = bound := by
    funext index
    cases index <;> rfl
  induction term with
  | bound index => rfl
  | free x => rfl
  | lam body ih => rw [subst, lifted, ih]
  | app function argument functionIH argumentIH => rw [subst, functionIH, argumentIH]

theorem rename_eq_subst (term : Nameless) (mapping : Nat → Nat) :
    term.rename mapping = term.subst fun index => bound (mapping index) := by
  induction term generalizing mapping with
  | bound index => rfl
  | free x => rfl
  | lam body ih =>
      have lifted : lift (fun index => bound (mapping index)) =
          fun index => bound (liftRenaming mapping index) := by
        funext index
        cases index <;> rfl
      rw [rename, subst, ih, lifted]
  | app function argument functionIH argumentIH => rw [rename, subst, functionIH, argumentIH]

theorem subst_rename (term : Nameless) (mapping : Nat → Nat) (substitution : Nat → Nameless) :
    (term.rename mapping).subst substitution =
      term.subst fun index => substitution (mapping index) := by
  induction term generalizing mapping substitution with
  | bound index => rfl
  | free x => rfl
  | lam body ih =>
      have lifted : (fun index => lift substitution (liftRenaming mapping index)) =
          lift fun index => substitution (mapping index) := by
        funext index
        cases index <;> rfl
      rw [rename, subst, subst, ih, lifted]
  | app function argument functionIH argumentIH =>
      rw [rename, subst, subst, functionIH, argumentIH]

theorem rename_rename (term : Nameless) (first second : Nat → Nat) :
    (term.rename first).rename second = term.rename fun index => second (first index) := by
  rw [rename_eq_subst _ second, subst_rename, rename_eq_subst]

theorem rename_lift (substitution : Nat → Nameless) (mapping : Nat → Nat) :
    (fun index => (lift substitution index).rename (liftRenaming mapping)) =
      lift fun index => (substitution index).rename mapping := by
  funext index
  cases index with
  | zero => rfl
  | succ index => simp only [lift, shift, rename_rename, liftRenaming]

theorem rename_subst (term : Nameless) (substitution : Nat → Nameless) (mapping : Nat → Nat) :
    (term.subst substitution).rename mapping =
      term.subst fun index => (substitution index).rename mapping := by
  induction term generalizing mapping substitution with
  | bound index => rfl
  | free x => rfl
  | lam body ih => rw [subst, rename, subst, ih, rename_lift]
  | app function argument functionIH argumentIH =>
      rw [subst, rename, subst, functionIH, argumentIH]

theorem subst_subst (term : Nameless) (first second : Nat → Nameless) :
    (term.subst first).subst second = term.subst fun index => (first index).subst second := by
  induction term generalizing first second with
  | bound index => rfl
  | free x => rfl
  | lam body ih =>
      have lifted : (fun index => (lift first index).subst (lift second)) =
          lift fun index => (first index).subst second := by
        funext index
        cases index with
        | zero => rfl
        | succ index => simp only [lift, shift, subst_rename, rename_subst]
      rw [subst, subst, subst, ih, lifted]
  | app function argument functionIH argumentIH =>
      rw [subst, subst, subst, functionIH, argumentIH]

/-- What is shifted past a variable does not change when the variable is replaced. -/
theorem instantiate_shift (term argument : Nameless) :
    term.shift.instantiate argument = term := by
  rw [shift, instantiate, subst_rename]
  exact subst_bound term

theorem instantiate_subst_lift (body argument : Nameless) (substitution : Nat → Nameless) :
    (body.subst (lift substitution)).instantiate argument =
      body.subst (extend argument substitution) := by
  have extended : (fun index => (lift substitution index).subst (extend argument bound)) =
      extend argument substitution := by
    funext index
    cases index with
    | zero => rfl
    | succ index => exact instantiate_shift (substitution index) argument
  rw [instantiate, subst_subst, extended]

theorem rename_instantiate (body argument : Nameless) (mapping : Nat → Nat) :
    (body.instantiate argument).rename mapping =
      (body.rename (liftRenaming mapping)).instantiate (argument.rename mapping) := by
  have extended : (fun index => (extend argument bound index).rename mapping) =
      fun index => extend (argument.rename mapping) bound (liftRenaming mapping index) := by
    funext index
    cases index <;> rfl
  rw [instantiate, instantiate, rename_subst, subst_rename, extended]

/-- Substituting in an instance substitutes in the body and in the argument. -/
theorem subst_instantiate (body argument : Nameless) (substitution : Nat → Nameless) :
    (body.instantiate argument).subst substitution =
      (body.subst (lift substitution)).instantiate (argument.subst substitution) := by
  have extended : (fun index => (extend argument bound index).subst substitution) =
      extend (argument.subst substitution) substitution := by
    funext index
    cases index <;> rfl
  rw [instantiate_subst_lift, instantiate, subst_subst, extended]

end Nameless

end LambdaCalculi.Untyped
