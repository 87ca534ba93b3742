import LambdaCalculi.Proofs.Dependent.Contexts
import LambdaCalculi.Proofs.Dependent.ReachableContexts
import LambdaCalculi.Proofs.Dependent.Settling

/-!
# Shadowing keeps variables apart

A variable may take a name that is in use, and inside values it is then called by another. That name
is new to everything the context holds at this moment. Later entries may well be called by it: only
variables have to stay apart, and each later variable is new in turn. So no two variables of a context
have one name inside values, and no two of them are taken for the same by the type checker.
-/

set_option autoImplicit false

namespace LambdaCalculi.Dependent

open Outcome

/-- The name that values use for the entry, if it is a variable. -/
def Entry.neutralName? (entry : Entry) : Option Name :=
  match entry.binding with
  | .assumed _ neutralName => some neutralName
  | .defined _ _ => none

namespace Context

variable {ctx : Context}

/-- The names taken are those of the entries and those that values use. -/
theorem mem_names_iff {y : Name} :
    y ∈ ctx.names ↔ ∃ entry ∈ ctx.entries, entry.name = y ∨ entry.neutralName? = some y := by
  have split (entry : Entry) : entry.name = y ∨ entry.neutralName? = some y ↔
      entry.name = y ∨ entry.renamed? = some y := by
    obtain ⟨x, binding⟩ := entry
    cases binding with
    | assumed type neutralName =>
        simp only [Entry.neutralName?, Entry.renamed?]
        by_cases same : neutralName = x
        · simp [same]
        · simp [same]
    | defined type value => rfl
  simp only [names, List.mem_append, List.mem_map, List.mem_filterMap, split, and_or_left, exists_or]

/-- Every variable is new to the entries before it, under the name that values use. -/
def Separate (ctx : Context) : Prop :=
  ctx.entries.Pairwise fun newer older =>
    ∀ y, newer.neutralName? = some y → older.name ≠ y ∧ older.neutralName? ≠ some y

theorem Separate.add {x : Name} {binding : Binding} (separate : ctx.Separate)
    (new : ∀ y, (Entry.mk x binding).neutralName? = some y → y ∉ ctx.names) :
    (ctx.adding x binding).Separate := by
  refine List.pairwise_cons.mpr ⟨fun older mem y isVariable => ?_, separate⟩
  have notTaken := new y isVariable
  rw [mem_names_iff] at notTaken
  constructor
  · intro named
    exact notTaken ⟨older, mem, .inl named⟩
  · intro named
    exact notTaken ⟨older, mem, .inr named⟩

theorem Reachable.separate (reachable : ctx.Reachable) : ctx.Separate := by
  induction reachable with
  | refl => exact List.Pairwise.nil
  | @tail outer _ _ step ih =>
      obtain ⟨x, binding, rfl, ⟨type, rfl⟩ | ⟨type, value, rfl, _⟩⟩ := step.adds
      · refine ih.add fun y isVariable => ?_
        cases isVariable
        exact outer.freshFor_not_mem x
      · exact ih.add fun y isVariable => by cases isVariable

namespace Separate

theorem nodup (separate : ctx.Separate) : (ctx.entries.filterMap Entry.neutralName?).Nodup := by
  refine List.pairwise_filterMap.mpr (separate.imp ?_)
  rintro newer older new y isVariable _ isVariable' rfl
  exact (new y isVariable).2 isVariable'

theorem ne_of_ne {i j : Nat} {entry entry' : Entry} {y y' : Name} (separate : ctx.Separate)
    (different : i ≠ j) (at_i : ctx.entries[i]? = some entry) (at_j : ctx.entries[j]? = some entry')
    (isVariable : entry.neutralName? = some y) (isVariable' : entry'.neutralName? = some y') :
    y ≠ y' := by
  obtain ⟨inside, rfl⟩ := List.getElem?_eq_some_iff.mp at_i
  obtain ⟨inside', rfl⟩ := List.getElem?_eq_some_iff.mp at_j
  have ordered := List.pairwise_iff_getElem.mp separate
  rintro rfl
  rcases Nat.lt_or_gt_of_ne different with before | after
  · exact (ordered i j inside inside' before y isVariable).2 isVariable'
  · exact (ordered j i inside' inside after y isVariable').2 isVariable

end Separate

/-! ## Comparing variables -/

theorem ReadsBackTo.ofVar {type : Value} (base : type = .nat ∨ type = .atom ∨ type = .univ) (y : Name) :
    ctx.ReadsBackTo type (.ofVar type y) (.var y) := by
  rcases base with rfl | rfl | rfl
  · exact .spend (.spend (.const _))
  · exact .spend (.spend (.const _))
  · exact .spend (.spend (.spend (.const _)))

/-- Values that are read back to terms that are not alpha-equivalent are not the same. -/
theorem convert_rejects {type left right : Value} {leftTerm rightTerm : Term}
    (leftReads : ctx.ReadsBackTo type left leftTerm)
    (rightReads : ctx.ReadsBackTo type right rightTerm)
    (different : leftTerm.alphaEquiv rightTerm = false) :
    ChecksTo (fun fuel => ctx.convert fuel type left right)
      (.failed (.rejected none (.notSame leftTerm rightTerm))) := by
  refine .bind (.compute leftReads) (.bind (.compute rightReads) ?_)
  simp only [different, Bool.false_eq_true, if_false]
  exact .bind (.const _) (.const _)

/-- However a context has grown, its variables are apart from each other and from what was there before
them, all their names are taken, and no two of them are converted into each other. -/
theorem Reachable.variables_apart (reachable : ctx.Reachable) :
    (ctx.entries.filterMap Entry.neutralName?).Nodup ∧
    (∀ later x type y earlier, ctx.entries = later ++ ⟨x, .assumed type y⟩ :: earlier →
      ∀ entry ∈ earlier, entry.name ≠ y ∧ entry.neutralName? ≠ some y) ∧
    (∀ entry ∈ ctx.entries, entry.name ∈ ctx.names ∧
      ∀ y, entry.neutralName? = some y → y ∈ ctx.names) ∧
    ∀ (i j : Nat) x x' type y y', i ≠ j → ctx.entries[i]? = some ⟨x, .assumed type y⟩ →
      ctx.entries[j]? = some ⟨x', .assumed type y'⟩ →
      type = .nat ∨ type = .atom ∨ type = .univ →
      ChecksTo (fun fuel => ctx.convert fuel type (.ofVar type y) (.ofVar type y'))
        (.failed (.rejected none (.notSame (.var y) (.var y')))) := by
  have separate := reachable.separate
  refine ⟨separate.nodup, ?_, fun entry mem => ⟨?_, fun y isVariable => ?_⟩, ?_⟩
  · intro later x type y earlier split entry mem
    rw [Separate, split, List.pairwise_append, List.pairwise_cons] at separate
    exact separate.2.1.1 entry mem y rfl
  · exact mem_names_iff.mpr ⟨entry, mem, .inl rfl⟩
  · exact mem_names_iff.mpr ⟨entry, mem, .inr isVariable⟩
  · intro i j x x' type y y' different at_i at_j base
    have apart : y ≠ y' := separate.ne_of_ne different at_i at_j rfl rfl
    exact convert_rejects (.ofVar base y) (.ofVar base y') (beq_false_of_ne apart)

/-- Two numbers called `x`, a definition that is called as values call the second of them, and a number
without a name. -/
def crowded : Context :=
  (((empty.adding "x" (.assumed .nat "x")).adding "x" (.assumed .nat "x'")).adding "x'"
    (.defined .nat .zero)).adding "" (.assumed .nat "x''")

theorem crowded_reachable : crowded.Reachable := by
  let one := empty.adding "x" (.assumed .nat "x")
  let two := one.adding "x" (.assumed .nat "x'")
  let three := two.adding "x'" (.defined .nat .zero)
  have first : (empty.assume "x" .nat : Outcome Stuck Context) = .done one := by decide +kernel
  have second : (one.assume "x" .nat : Outcome Stuck Context) = .done two := by decide +kernel
  have third : (two.addDefinition 9 "x'" (.the .nat .zero) : Checking Context).outcome =
      .done three := by decide +kernel
  have fourth : (three.assume "" .nat : Outcome Stuck Context) = .done crowded := by decide +kernel
  exact (((Relation.ReflTransGen.single (.assume first)).tail (.assume second)).tail
    (.define third)).tail (.assume fourth)

theorem crowded_variables_apart :
    crowded.Reachable ∧ crowded.names = ["", "x'", "x", "x", "x''", "x'"] ∧
      crowded.entries.filterMap Entry.neutralName? = ["x''", "x'", "x"] ∧
      ChecksTo (fun fuel => crowded.convert fuel .nat (.ofVar .nat "x''") (.ofVar .nat "x'"))
        (.failed (.rejected none (.notSame (.var "x''") (.var "x'")))) := by
  obtain ⟨_, _, _, apart⟩ := crowded_reachable.variables_apart
  refine ⟨crowded_reachable, by decide +kernel, by decide +kernel, ?_⟩
  exact apart 0 2 "" "x" .nat "x''" "x'" (by decide) rfl rfl (.inl rfl)

end Context

end LambdaCalculi.Dependent
