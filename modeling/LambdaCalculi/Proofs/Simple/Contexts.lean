import LambdaCalculi.Simple.Typing

/-!
# Contexts of the simply typed calculus

A name has the type of its innermost binding. A context extends another when every variable keeps
its type; a binding of a new name does this.
-/

set_option autoImplicit false

namespace LambdaCalculi.Simple.Context

/-- The names bound, the innermost first; a shadowed name is listed again. -/
def names (ctx : Context) : List Name :=
  ctx.map Prod.fst

inductive Binds : Context → Name → Ty → Prop where
  | here {outer : Context} {x : Name} {type : Ty} : Binds ((x, type) :: outer) x type
  | there {outer : Context} {x y : Name} {type other : Ty} :
      y ≠ x → Binds outer x type → Binds ((y, other) :: outer) x type

theorem lookup_eq_some_iff_binds {ctx : Context} {x : Name} {type : Ty} :
    ctx.lookup x = some type ↔ ctx.Binds x type := by
  induction ctx with
  | nil =>
      constructor
      · intro found
        cases found
      · intro binds
        cases binds
  | cons entry outer ih =>
      obtain ⟨y, other⟩ := entry
      by_cases same : x = y
      · subst same
        rw [List.lookup_cons_self]
        constructor
        · intro found
          cases found
          exact .here
        · intro binds
          cases binds with
          | here => rfl
          | there different _ => exact absurd rfl different
      · have different : (x == y) = false := beq_false_of_ne same
        rw [List.lookup_cons, different]
        constructor
        · intro found
          exact .there (Ne.symm same) (ih.mp found)
        · intro binds
          cases binds with
          | here => exact absurd rfl same
          | there _ binds => exact ih.mpr binds

theorem mem_names_of_lookup {vars : Context} {x : Name} {type : Ty}
    (found : vars.lookup x = some type) : x ∈ vars.names := by
  have binds := lookup_eq_some_iff_binds.mp found
  clear found
  induction binds with
  | here => exact List.mem_cons_self
  | there _ _ ih => exact List.mem_cons_of_mem _ ih

def Extends (more vars : Context) : Prop :=
  ∀ x type, vars.lookup x = some type → more.lookup x = some type

theorem Extends.refl (vars : Context) : vars.Extends vars :=
  fun _ _ found => found

theorem Extends.trans {most more vars : Context} (outer : most.Extends more)
    (inner : more.Extends vars) : most.Extends vars :=
  fun x type found => outer x type (inner x type found)

theorem extends_nil (more : Context) : more.Extends [] :=
  fun _ _ found => by cases found

theorem extends_cons {vars : Context} {x : Name} (new : x ∉ vars.names) (type : Ty) :
    Context.Extends ((x, type) :: vars) vars := by
  intro y other found
  have different : (y == x) = false :=
    beq_false_of_ne fun same => new (same ▸ mem_names_of_lookup found)
  rw [List.lookup_cons, different]
  exact found

/-- The same binding in front of both contexts. -/
theorem Extends.bind {more vars : Context} (larger : more.Extends vars) (x : Name) (type : Ty) :
    Context.Extends ((x, type) :: more) ((x, type) :: vars) := by
  intro y other found
  rw [List.lookup_cons] at found ⊢
  split at found
  · exact found
  · exact larger y other found

end LambdaCalculi.Simple.Context
