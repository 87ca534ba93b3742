import LambdaCalculi.Dependent.Context
import LambdaCalculi.Proofs.Freshness

/-!
# Names taken in contexts

A new variable gets a name that is not taken, and this name is taken from then on.
-/

set_option autoImplicit false

namespace LambdaCalculi.Dependent.Context

theorem freshFor_not_mem (ctx : Context) (x : Name) : ctx.freshFor x ∉ ctx.names :=
  Name.fresh_not_mem _ _

theorem freshFor_of_not_mem {ctx : Context} {x : Name} (nonempty : x ≠ "") (new : x ∉ ctx.names) :
    ctx.freshFor x = x := by
  rw [freshFor, freshBinder, if_neg nonempty, Name.fresh_of_not_mem new]

theorem assume_eq_done (ctx : Context) (x : Name) (type : Value) :
    ∃ inner, (ctx.assume x type : Outcome Stuck Context) = .done inner ∧
      inner.entries = ⟨x, .assumed type (ctx.freshFor x)⟩ :: ctx.entries ∧
      inner.env = ctx.env.extend x (.ofVar type (ctx.freshFor x)) :=
  ⟨_, rfl, rfl, rfl⟩

section Names

variable {ctx inner : Context} {x : Name} {binding : Binding}
  (entries : inner.entries = ⟨x, binding⟩ :: ctx.entries)

include entries

theorem names_cons : x :: ctx.names ⊆ inner.names := by
  intro y mem
  rw [names, entries]
  rw [List.mem_cons, names, List.mem_append] at mem
  rw [List.mem_append, List.map_cons, List.mem_cons]
  rcases mem with same | inEntries | renamed
  · exact .inl (.inl same)
  · exact .inl (.inr inEntries)
  · refine .inr ?_
    rw [List.filterMap_cons]
    split
    · exact renamed
    · exact List.mem_cons_of_mem _ renamed

end Names

theorem freshFor_mem_names {ctx inner : Context} {x : Name} {type : Value}
    (entries : inner.entries = ⟨x, .assumed type (ctx.freshFor x)⟩ :: ctx.entries) :
    ctx.freshFor x ∈ inner.names := by
  rw [names, entries, List.mem_append, List.map_cons, List.mem_cons]
  by_cases same : ctx.freshFor x = x
  · exact .inl (.inl same)
  · exact .inr (List.mem_filterMap.mpr ⟨_, List.mem_cons_self, if_neg same⟩)

end LambdaCalculi.Dependent.Context
