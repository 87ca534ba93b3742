import LambdaCalculi.Name
import Mathlib.Data.List.Nodup
import Mathlib.Data.List.Perm.Subperm
import Mathlib.Order.Bounds.Defs

/-!
# Fresh names

The primed forms of a name differ in length, so `used.length + 1` of them cannot all be in `used`, and
the search of `Name.fresh` ends on a name that is not. Without its bound the search would end too, and
on the same name. Main statement: the name found has the least number of primes that makes it free,
and a search made for fewer names can be taken up for more.
-/

set_option autoImplicit false

namespace LambdaCalculi.Name

def primed (x : Name) : Nat → Name
  | 0 => x
  | primes + 1 => primed (x ++ "'") primes

theorem length_primed (x : Name) (primes : Nat) : (primed x primes).length = x.length + primes := by
  induction primes generalizing x with
  | zero => rfl
  | succ primes ih =>
      have one : ("'" : String).length = 1 := rfl
      rw [primed, ih, String.length_append, one]
      omega

theorem primed_eq_append (x : Name) (primes : Nat) :
    primed x primes = x ++ String.ofList (List.replicate primes '\'') := by
  induction primes generalizing x with
  | zero => exact (String.append_empty).symm
  | succ primes ih =>
      have one : "'" = String.ofList ['\''] := rfl
      rw [primed, ih, String.append_assoc, one, ← String.ofList_append, List.replicate_succ,
        List.singleton_append]

theorem primed_injective (x : Name) : Function.Injective (primed x) := by
  intro first second same
  have lengths := congrArg String.length same
  rw [length_primed, length_primed] at lengths
  omega

/-- Only as many of the primed forms are taken as there are names in use. Repetitions in `used` do no
harm, since it is the primed forms that have to be distinct. -/
theorem le_length_of_primed_mem {used : List Name} {x : Name} {count : Nat}
    (taken : ∀ primes < count, primed x primes ∈ used) : count ≤ used.length := by
  have distinct : ((List.range count).map (primed x)).Nodup :=
    List.nodup_range.map (primed_injective x)
  have inside : (List.range count).map (primed x) ⊆ used := by
    intro name mem
    obtain ⟨primes, inRange, rfl⟩ := List.mem_map.mp mem
    exact taken primes (List.mem_range.mp inRange)
  have fits := (List.subperm_of_subset distinct inside).length_le
  rwa [List.length_map, List.length_range] at fits

theorem primed_mem_of_freshWithin_mem (used : List Name) (bound : Nat) (x : Name)
    (taken : freshWithin used bound x ∈ used) (primes : Nat) (le : primes ≤ bound) :
    primed x primes ∈ used := by
  induction bound generalizing x primes with
  | zero =>
      obtain rfl : primes = 0 := by omega
      exact taken
  | succ bound ih =>
      by_cases mem : x ∈ used
      · rw [freshWithin, if_pos mem] at taken
        cases primes with
        | zero => exact mem
        | succ primes => exact ih (x ++ "'") taken primes (by omega)
      · rw [freshWithin, if_neg mem] at taken
        exact absurd taken mem

theorem fresh_not_mem (used : List Name) (x : Name) : fresh used x ∉ used := by
  intro taken
  have tooMany : used.length + 1 ≤ used.length := by
    refine le_length_of_primed_mem (x := x) ?_
    intro primes lt
    exact primed_mem_of_freshWithin_mem used used.length x taken primes (by omega)
  omega

theorem fresh_of_not_mem {used : List Name} {x : Name} (new : x ∉ used) : fresh used x = x := by
  rw [fresh]
  cases used.length with
  | zero => rfl
  | succ bound => rw [freshWithin, if_neg new]

/-- Where the search for a free name ends when nothing bounds it: it stops at a name that is not in
`used`, and goes on from one that is with a prime more. A search that never stops has no derivation. -/
inductive SearchEnds (used : List Name) : (start found : Name) → Prop where
  | free {x : Name} (new : x ∉ used) : SearchEnds used x x
  | taken {x found : Name} (mem : x ∈ used) (onward : SearchEnds used (x ++ "'") found) :
      SearchEnds used x found

namespace SearchEnds

variable {used : List Name} {x found : Name}

/-- A bounded search that did find a free name is a search that ends there. -/
theorem of_freshWithin (bound : Nat) (new : freshWithin used bound x ∉ used) :
    SearchEnds used x (freshWithin used bound x) := by
  induction bound generalizing x with
  | zero => exact .free new
  | succ bound ih =>
      by_cases mem : x ∈ used
      · rw [freshWithin, if_pos mem] at new ⊢
        exact .taken mem (ih new)
      · rw [freshWithin, if_neg mem]
        exact .free mem

theorem unique {other : Name} (ends : SearchEnds used x found) (ends' : SearchEnds used x other) :
    found = other := by
  induction ends with
  | free new =>
      cases ends' with
      | free _ => rfl
      | taken mem _ => exact absurd mem new
  | taken mem _ ih =>
      cases ends' with
      | free new => exact absurd mem new
      | taken _ onward => exact ih onward

/-- Every name the search passes is taken, so it ends at the least number of primes that is free. -/
theorem exists_isLeast (ends : SearchEnds used x found) :
    ∃ primes, found = primed x primes ∧ IsLeast {count | primed x count ∉ used} primes := by
  induction ends with
  | free new => exact ⟨0, rfl, new, fun _ _ => Nat.zero_le _⟩
  | taken mem _ ih =>
      obtain ⟨primes, rfl, new, least⟩ := ih
      refine ⟨primes + 1, rfl, new, ?_⟩
      intro count free
      cases count with
      | zero => exact absurd mem free
      | succ count => exact Nat.succ_le_succ (least free)

/-- What a search passes for fewer names it also passes for more, so that it can be taken up from where
it ended. -/
theorem resume {larger : List Name} {middle : Name} (subset : used ⊆ larger)
    (ends : SearchEnds used x middle) (onward : SearchEnds larger middle found) :
    SearchEnds larger x found := by
  induction ends with
  | free _ => exact onward
  | taken mem _ ih => exact .taken (subset mem) (ih onward)

end SearchEnds

theorem searchEnds_fresh (used : List Name) (x : Name) : SearchEnds used x (fresh used x) :=
  .of_freshWithin used.length (fresh_not_mem used x)

theorem searchEnds_iff {used : List Name} {x found : Name} :
    SearchEnds used x found ↔ found = fresh used x := by
  constructor
  · intro ends
    exact ends.unique (searchEnds_fresh used x)
  · rintro rfl
    exact searchEnds_fresh used x

theorem fresh_fresh_of_subset {used larger : List Name} (subset : used ⊆ larger) (x : Name) :
    fresh larger (fresh used x) = fresh larger x := by
  have resumed : SearchEnds larger x (fresh larger (fresh used x)) :=
    (searchEnds_fresh used x).resume subset (searchEnds_fresh larger (fresh used x))
  exact resumed.unique (searchEnds_fresh larger x)

/-- The unbounded search always ends, and with the name that `fresh` returns: `x` and the least number
of primes that makes it free, at most one for each name in use. For more names in use, it makes no
difference whether the search goes on from there or starts again from `x`. -/
theorem fresh_least_primes (used : List Name) (x : Name) :
    (∀ found, SearchEnds used x found ↔ found = fresh used x) ∧
      (∃ primes ≤ used.length,
        fresh used x = x ++ String.ofList (List.replicate primes '\'') ∧
          IsLeast {count | x ++ String.ofList (List.replicate count '\'') ∉ used} primes) ∧
      ∀ larger, used ⊆ larger → fresh larger (fresh used x) = fresh larger x := by
  obtain ⟨primes, found, least⟩ := (searchEnds_fresh used x).exists_isLeast
  have few : primes ≤ used.length := by
    refine le_length_of_primed_mem (x := x) ?_
    intro count lt
    by_contra new
    exact absurd (least.2 new) (by omega)
  simp only [primed_eq_append] at found least
  exact ⟨fun _ => searchEnds_iff, ⟨primes, few, found, least⟩,
    fun _ subset => fresh_fresh_of_subset subset x⟩

/-- Names that are repeated, and names that have primes already, among those in use. -/
theorem repeatedNames_fresh_least_primes :
    ["x'", "x", "y", "x"] ⊆ ["x'''", "x", "y", "x''", "x'"] ∧
      SearchEnds ["x'", "x", "y", "x"] "x" "x''" ∧
      fresh ["x'''", "x", "y", "x''", "x'"] (fresh ["x'", "x", "y", "x"] "x") =
        fresh ["x'''", "x", "y", "x''", "x'"] "x" ∧
      fresh ["x'''", "x", "y", "x''", "x'"] "x" = "x''''" := by
  have subset : ["x'", "x", "y", "x"] ⊆ ["x'''", "x", "y", "x''", "x'"] := by simp
  have search := fresh_least_primes ["x'", "x", "y", "x"] "x"
  exact ⟨subset, (search.1 "x''").mpr (by decide), search.2.2 _ subset, by decide⟩

end LambdaCalculi.Name
