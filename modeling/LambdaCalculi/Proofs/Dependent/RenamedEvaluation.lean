import LambdaCalculi.Proofs.Dependent.Fingerprints
import LambdaCalculi.Proofs.Dependent.PairedVariables

/-!
# Evaluation does not see the names of bound variables

Two values are renamings of each other when their variables correspond, by a list of pairs, and the
bodies in their closures differ at most in the names of bound variables, those bound by the
environments included. Evaluation takes renamed terms to renamed values, step by step, as long as
looking a name up always finds its innermost binding: so a closure keeps with it that the names in
sight have different fingerprints.
-/

set_option autoImplicit false

namespace LambdaCalculi.Dependent

open Outcome

/-- The environments bind the names of the pairs, in this order. -/
structure Env.Binds (binders : BinderPairs) (env env' : Env) : Prop where
  left : binders.map Prod.fst = env.names
  right : binders.map Prod.snd = env'.names

def Linking.renaming : Linking where
  Link := BinderPairs
  fits
    | binders, .mk env x body, .mk env' x' body' => env.Binds binders env' ∧
        Term.Renamed ((x, x') :: binders) body body' ∧
        DistinctFingerprints (x :: env.names ++ body.names) ∧
        DistinctFingerprints (x' :: env'.names ++ body'.names)
  binds binders env env' value value' := ∃ x y, binders.relates x y = true ∧
    env.innermost? x = some value ∧ env'.innermost? y = some value'

/-- The values differ at most in the names of bound variables and, as `names` has it, of variables. -/
abbrev Value.Renamed (names : BinderPairs) : Value → Value → Prop :=
  Value.Linked .renaming names.Links

abbrev Closure.Renamed (names : BinderPairs) : Closure → Closure → Prop :=
  Closure.Linked .renaming names.Links

/-- The environments bind the names of `binders`, pair by pair, to renamed values. -/
structure Env.Renamed (names binders : BinderPairs) (env env' : Env) : Prop
    extends Env.Binds binders env env' where
  values : ∀ {x y value value'}, binders.relates x y = true → env.innermost? x = some value →
    env'.innermost? y = some value' → value.Renamed names value'

theorem Closure.renamed_iff {names : BinderPairs} {env env' : Env} {x x' : Name} {body body' : Term} :
    Closure.Renamed names (.mk env x body) (.mk env' x' body') ↔
      ∃ binders, env.Renamed names binders env' ∧ Term.Renamed ((x, x') :: binders) body body' ∧
        DistinctFingerprints (x :: env.names ++ body.names) ∧
        DistinctFingerprints (x' :: env'.names ++ body'.names) := by
  constructor
  · rintro ⟨binders, ⟨binds, bodies⟩, bound⟩
    exact ⟨binders, ⟨binds, fun related found found' => bound _ _ ⟨_, _, related, found, found'⟩⟩, bodies⟩
  · rintro ⟨binders, ⟨binds, values⟩, bodies⟩
    refine .mk binders ⟨binds, bodies⟩ ?_
    rintro value value' ⟨x, y, related, found, found'⟩
    exact values related found found'

/-! ## Looking names up -/

/-- Related names are both bound by the pairs, or neither is and they are the same. -/
theorem BinderPairs.mem_or_eq_of_relates {binders : BinderPairs} {x y : Name}
    (related : binders.relates x y = true) :
    (x ∈ binders.map Prod.fst ∧ y ∈ binders.map Prod.snd) ∨
      (x ∉ binders.map Prod.fst ∧ y ∉ binders.map Prod.snd ∧ x = y) := by
  induction binders with
  | nil => exact .inr ⟨List.not_mem_nil, List.not_mem_nil, by simpa [relates] using related⟩
  | cons pair outer ih =>
      obtain ⟨left, right⟩ := pair
      rcases relates_cons_iff.mp related with ⟨rfl, rfl⟩ | ⟨first, second, below⟩
      · exact .inl ⟨List.mem_cons_self, List.mem_cons_self⟩
      · simpa [first, second] using ih below

namespace Env.Renamed

variable {names binders : BinderPairs} {env env' : Env} {x y : Name}

theorem nil : Env.nil.Renamed names [] .nil where
  left := rfl
  right := rfl
  values _ found := by cases found

theorem cons (renamed : env.Renamed names binders env') {value value' : Value}
    (valueRenamed : value.Renamed names value') (x x' : Name) :
    (env.extend x value).Renamed names ((x, x') :: binders) (env'.extend x' value') where
  left := congrArg (x :: ·) renamed.left
  right := congrArg (x' :: ·) renamed.right
  values related found found' := by
    rw [innermost?_extend] at found found'
    rcases BinderPairs.relates_cons_iff.mp related with ⟨rfl, rfl⟩ | ⟨first, second, outer⟩
    · rw [if_pos rfl] at found found'
      cases found
      cases found'
      exact valueRenamed
    · rw [if_neg (Ne.symm first)] at found
      rw [if_neg (Ne.symm second)] at found'
      exact renamed.values outer found found'

theorem extend (renamed : env.Renamed names binders env') (new : names.New x y) :
    env.Renamed ((x, y) :: names) binders env' where
  left := renamed.left
  right := renamed.right
  values related found found' := (renamed.values related found found').extend new

theorem innermost (renamed : env.Renamed names binders env') (related : binders.relates x y = true) :
    (∃ value value', env.innermost? x = some value ∧ env'.innermost? y = some value' ∧
      value.Renamed names value') ∨
    (env.innermost? x = none ∧ env'.innermost? y = none ∧ x = y) := by
  have bound := BinderPairs.mem_or_eq_of_relates related
  rw [renamed.left, renamed.right] at bound
  rcases bound with ⟨mem, mem'⟩ | ⟨notMem, notMem', same⟩
  · cases found : env.innermost? x with
    | none => exact absurd mem (innermost?_eq_none_iff.mp found)
    | some value =>
        cases found' : env'.innermost? y with
        | none => exact absurd mem' (innermost?_eq_none_iff.mp found')
        | some value' => exact .inl ⟨value, value', rfl, rfl, renamed.values related found found'⟩
  · exact .inr ⟨innermost?_eq_none_iff.mpr notMem, innermost?_eq_none_iff.mpr notMem', same⟩

end Env.Renamed

structure Env.RenamedAt (names binders : BinderPairs) (env env' : Env) (term term' : Term) : Prop where
  envRenamed : env.Renamed names binders env'
  termRenamed : Term.Renamed binders term term'
  clear : env.Clear term
  clear' : env'.Clear term'

section Terms

variable {names binders : BinderPairs} {env env' : Env} {term term' part part' : Term}

theorem Env.RenamedAt.sub (renamed : env.RenamedAt names binders env' term term')
    (partRenamed : Term.Renamed binders part part')
    (included : part.names ⊆ term.names := by simp +contextual [Term.names, List.subset_def])
    (included' : part'.names ⊆ term'.names := by simp +contextual [Term.names, List.subset_def]) :
    env.RenamedAt names binders env' part part' :=
  ⟨renamed.envRenamed, partRenamed, renamed.clear.mono included, renamed.clear'.mono included'⟩

theorem Env.RenamedAt.closure (renamed : env.RenamedAt names binders env' term term') {x x' : Name}
    (partRenamed : Term.Renamed ((x, x') :: binders) part part')
    (included : x :: part.names ⊆ term.names := by simp +contextual [Term.names, List.subset_def])
    (included' : x' :: part'.names ⊆ term'.names := by simp +contextual [Term.names, List.subset_def]) :
    Closure.Renamed names (.mk env x part) (.mk env' x' part') :=
  Closure.renamed_iff.mpr ⟨binders, renamed.envRenamed, partRenamed, renamed.clear.below included,
    renamed.clear'.below included'⟩

end Terms

/-! ## Evaluation -/

theorem Value.Renamed.natStepType {names : BinderPairs} {motive motive' : Value}
    (renamed : motive.Renamed names motive') :
    (Value.natStepType motive).Renamed names (Value.natStepType motive') := by
  have clear : DistinctFingerprints ["n-1", "mot", "almost", "mot", "n-1", "mot", "n-1"] := by
    decide +kernel
  refine .pi .nat (Closure.renamed_iff.mpr ⟨_, Env.Renamed.nil.cons renamed "mot" "mot",
    .pi (.app (.var ?_) (.var ?_)) (.app (.var ?_) (.add1 (.var ?_))), clear, clear⟩)
  all_goals rfl

def Linking.Evaluating.renaming (names : BinderPairs) :
    Linking.renaming.Evaluating names.Links Comparison.lockstep where
  scopes env term env' term' := ∃ binders, env.RenamedAt names binders env' term term'
  motives x named := by
    refine Closure.renamed_iff.mpr ⟨[], .nil, .univ, ?_⟩
    rcases named with rfl | rfl <;> decide +kernel
  natStepType := Value.Renamed.natStepType
  parts := by
    rintro env env' term term' ⟨binders, renamed⟩
    cases renamed.termRenamed <;> constructor <;> first
      | exact True.intro
      | exact ⟨binders, renamed.sub ‹_›⟩
      | exact renamed.closure ‹_›
  lookup := by
    rintro fuel _ env env' x _ ⟨binders, envRenamed, termRenamed, clear, clear'⟩
    cases termRenamed with
    | var related =>
        refine Comparison.lockstep.spend ?_
        simp only [Env.eval]
        rw [clear.lookup?, clear'.lookup?]
        rcases envRenamed.innermost related with
          ⟨value, value', bound, bound', valueRenamed⟩ | ⟨unbound, unbound', rfl⟩
        · rw [bound, bound']
          exact .done valueRenamed
        · rw [unbound, unbound']
          exact .failed rfl
  extend := by
    intro _ _ env env' x x' body body' argument argument' renamed argumentRenamed
    obtain ⟨binders, envRenamed, bodyRenamed, clear, clear'⟩ := Closure.renamed_iff.mp renamed
    exact .done ⟨_, envRenamed.cons argumentRenamed x x', bodyRenamed, clear, clear'⟩

abbrev Reading.renaming : Reading Comparison.lockstep :=
  Linking.reading Linking.Evaluating.renaming

end LambdaCalculi.Dependent
