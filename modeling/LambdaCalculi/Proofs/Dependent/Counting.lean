import LambdaCalculi.Proofs.Dependent.SharedRegisters

/-!
# What registers count

Each binding adds at most one to the number of names, and the first name of a fingerprint always adds
one. What happens between these bounds is up to the registers. As long as no fingerprint has more than
three names, registers are as good as a list of the names: an environment sees every name it binds
once, whatever else is extended from where it was extended, so it counts every name once.
-/

set_option autoImplicit false

namespace LambdaCalculi.Dependent

open Registers.ShowAll (append_iff)

/-- No four of the names have a common fingerprint. -/
def FewAlike (names : List Name) : Prop :=
  ∀ x ∈ names, (names.toFinset.filter fun y => y.fingerprint = x.fingerprint).card ≤ 3

instance (names : List Name) : Decidable (FewAlike names) :=
  inferInstanceAs (Decidable (∀ x ∈ names, _ ≤ 3))

theorem FewAlike.mono {names more : List Name} (few : FewAlike more) (included : names ⊆ more) :
    FewAlike names := by
  intro x mem
  have subset : names.toFinset ⊆ more.toFinset := fun y => by simpa using @included y
  exact (Finset.card_le_card (Finset.filter_subset_filter _ subset)).trans (few x (included mem))

namespace Env

variable {registers later : Registers} {env : Env} {x y z : Name} {value : Value} {digest : UInt32}

/-! ## The innermost name with a fingerprint -/

theorem innermostLike?_eq_none_iff (env : Env) :
    env.innermostLike? digest = none ↔ ∀ y ∈ env.names, y.fingerprint ≠ digest := by
  cases env with
  | nil => simp [innermostLike?, names]
  | cons tally x value outer =>
      by_cases same : x.fingerprint = digest
      · simp [innermostLike?, names, same]
      · simp [innermostLike?, names, same, outer.innermostLike?_eq_none_iff]

theorem mem_names_of_innermostLike? (env : Env) {view? : Option View}
    (found : env.innermostLike? digest = some (y, view?)) : y ∈ env.names ∧ y.fingerprint = digest := by
  cases env with
  | nil => cases found
  | cons tally x value outer =>
      rw [innermostLike?] at found
      split at found
      · rename_i same
        cases found
        exact ⟨List.mem_cons_self, same⟩
      · obtain ⟨mem, same⟩ := outer.mem_names_of_innermostLike? found
        exact ⟨List.mem_cons_of_mem _ mem, same⟩

/-! ## Bounds -/

/-- The number of names is at least the number of fingerprints and at most the number of bindings. -/
structure Bounded (env : Env) : Prop where
  least : (env.names.map Name.fingerprint).toFinset.card ≤ env.size
  most : env.size ≤ env.names.length

theorem Bounded.nil : Env.nil.Bounded :=
  ⟨le_rfl, le_rfl⟩

theorem size_tallyWith (registers : Registers) (env : Env) (x : Name) :
    (env.tallyWith registers x).1.size = env.size + 1 ∨
      (env.tallyWith registers x).1.size = env.size ∧ x.fingerprint ∈ env.names.map Name.fingerprint := by
  have like {view? : Option View} {y : Name} (found : env.innermostLike? x.fingerprint = some (y, view?)) :
      x.fingerprint ∈ env.names.map Name.fingerprint := by
    obtain ⟨bound, same⟩ := env.mem_names_of_innermostLike? found
    exact same ▸ List.mem_map_of_mem bound
  unfold tallyWith
  split
  · exact .inl rfl
  · split
    · exact .inr ⟨rfl, like ‹_›⟩
    · exact .inl rfl
  · split
    · exact .inr ⟨rfl, like ‹_›⟩
    · exact .inl rfl

theorem Bounded.extendWith (bounded : env.Bounded) (registers : Registers) (x : Name) (value : Value) :
    (env.extendWith registers x value).1.Bounded := by
  have least := bounded.least
  have most := bounded.most
  refine ⟨?_, ?_⟩
  · change ((x :: env.names).map Name.fingerprint).toFinset.card ≤ (env.tallyWith registers x).1.size
    rw [List.map_cons, List.toFinset_cons]
    rcases env.size_tallyWith registers x with more | ⟨same, like⟩
    · rw [more]
      exact (Finset.card_insert_le _ _).trans (Nat.succ_le_succ least)
    · rw [same, Finset.insert_eq_of_mem (List.mem_toFinset.mpr like)]
      exact least
  · change (env.tallyWith registers x).1.size ≤ env.names.length + 1
    rcases env.size_tallyWith registers x with more | ⟨same, _⟩ <;> omega

/-! ## Names with few fingerprints in common -/

/-- Every name is counted once. The names with a fingerprint are one name without a view, or they are
seen in the register, each once. -/
structure Faithful (registers : Registers) (env : Env) : Prop where
  size : env.size = env.names.toFinset.card
  alone {digest : UInt32} {y : Name} : env.innermostLike? digest = some (y, none) →
    ∀ z ∈ env.names, z.fingerprint = digest → z = y
  together {digest : UInt32} {y : Name} {view : View} :
    env.innermostLike? digest = some (y, some view) →
    (registers.seen view).Nodup ∧
      ∀ z, z ∈ registers.seen view ↔ z ∈ env.names ∧ z.fingerprint = digest

namespace Faithful

theorem nil : Env.nil.Faithful registers :=
  ⟨rfl, (fun found => by cases found), (fun found => by cases found)⟩

/-- The register has as many names in view as there are with the fingerprint. -/
theorem length_view (faithful : env.Faithful registers) (shown : registers.ShowAll env.views)
    {view : View} (found : env.innermostLike? digest = some (y, some view)) :
    view.length = (env.names.toFinset.filter fun z => z.fingerprint = digest).card := by
  obtain ⟨nodup, seen⟩ := faithful.together found
  rw [← (shown view (env.mem_views_of_innermostLike? found)).length_seen,
    ← List.toFinset_card_of_nodup nodup]
  congr 1
  ext z
  simp [seen]

theorem mono (faithful : env.Faithful registers) (shown : registers.ShowAll env.views)
    (few : FewAlike env.names) (le : registers ≤ later) : env.Faithful later where
  size := faithful.size
  alone := faithful.alone
  together {digest y view} found := by
    obtain ⟨bound, rfl⟩ := env.mem_names_of_innermostLike? found
    have three : view.length ≤ 3 := (faithful.length_view shown found).trans_le (few y bound)
    rw [(shown view (env.mem_views_of_innermostLike? found)).seen_eq le three]
    exact faithful.together found

/-- One binding more, whose own view is right. -/
theorem cons (faithful : env.Faithful registers) {tally : Tally}
    (size : tally.size = (x :: env.names).toFinset.card)
    (alone : tally.view? = none → ∀ z ∈ env.names, z.fingerprint = x.fingerprint → z = x)
    (together : ∀ view, tally.view? = some view → (registers.seen view).Nodup ∧
      ∀ z, z ∈ registers.seen view ↔ z ∈ x :: env.names ∧ z.fingerprint = x.fingerprint) :
    (Env.cons tally x value env).Faithful registers where
  size := size
  alone {digest y} found z bound like := by
    rw [innermostLike?] at found
    split at found
    · rename_i here
      obtain ⟨rfl, unseen⟩ := Prod.mk.inj (Option.some.inj found)
      rcases List.mem_cons.mp bound with same | older
      · exact same
      · exact alone unseen z older (like.trans here.symm)
    · rename_i elsewhere
      rcases List.mem_cons.mp bound with rfl | older
      · exact absurd like elsewhere
      · exact faithful.alone found z older like
  together {digest y view} found := by
    rw [innermostLike?] at found
    split at found
    · rename_i here
      obtain ⟨_, seen⟩ := Prod.mk.inj (Option.some.inj found)
      subst here
      exact together view seen
    · rename_i elsewhere
      obtain ⟨nodup, seen⟩ := faithful.together found
      refine ⟨nodup, fun z => (seen z).trans ?_⟩
      rw [names, List.mem_cons]
      constructor
      · rintro ⟨bound, like⟩
        exact ⟨.inr bound, like⟩
      · rintro ⟨rfl | bound, like⟩
        · exact absurd like elsewhere
        · exact ⟨bound, like⟩

theorem card_cons_of_mem (bound : x ∈ env.names) :
    (x :: env.names).toFinset.card = env.names.toFinset.card := by
  rw [List.toFinset_cons, Finset.insert_eq_of_mem (List.mem_toFinset.mpr bound)]

theorem card_cons_of_notMem (unbound : x ∉ env.names) :
    (x :: env.names).toFinset.card = env.names.toFinset.card + 1 := by
  rw [List.toFinset_cons, Finset.card_insert_of_notMem (mt List.mem_toFinset.mp unbound)]

/-- The first name of its fingerprint. -/
theorem first (faithful : env.Faithful registers) (unseen : env.innermostLike? x.fingerprint = none) :
    (Env.cons ⟨env.size + 1, none⟩ x value env).Faithful registers := by
  have unlike := env.innermostLike?_eq_none_iff.mp unseen
  have unbound : x ∉ env.names := fun bound => unlike x bound rfl
  refine faithful.cons ?_ (fun _ z bound like => absurd like (unlike z bound)) (by simp)
  rw [card_cons_of_notMem unbound, faithful.size]

/-- The only name of its fingerprint, once more. -/
theorem again (faithful : env.Faithful registers)
    (seen : env.innermostLike? x.fingerprint = some (x, none)) :
    (Env.cons ⟨env.size, none⟩ x value env).Faithful registers := by
  obtain ⟨bound, _⟩ := env.mem_names_of_innermostLike? seen
  refine faithful.cons ?_ (fun _ => faithful.alone seen) (by simp)
  rw [card_cons_of_mem bound, faithful.size]

/-- The second name of its fingerprint, which opens a register. -/
theorem second (faithful : env.Faithful registers) (shown : registers.ShowAll env.views)
    (few : FewAlike env.names) (seen : env.innermostLike? x.fingerprint = some (y, none))
    (different : y ≠ x) :
    (Env.cons ⟨env.size + 1, some (registers.start 2 [y, x]).1⟩ x value env).Faithful
      (registers.start 2 [y, x]).2 := by
  have alone := faithful.alone seen
  obtain ⟨bound, like⟩ := env.mem_names_of_innermostLike? seen
  have unbound : x ∉ env.names := fun bound => different (alone x bound rfl).symm
  refine (faithful.mono shown few registers.le_start).cons ?_ (by simp) fun view isView => ?_
  · rw [card_cons_of_notMem unbound, faithful.size]
  · obtain rfl := Option.some.inj isView
    rw [registers.seen_start]
    refine ⟨by simpa using different, fun z => ?_⟩
    have older := alone z
    grind

/-- A name in view, which gets a register of its own with the same names. -/
theorem known (faithful : env.Faithful registers) (shown : registers.ShowAll env.views)
    (few : FewAlike env.names) {view : View}
    (seen : env.innermostLike? x.fingerprint = some (y, some view)) (inside : x ∈ registers.seen view) :
    (Env.cons ⟨env.size, some (registers.detach view).1⟩ x value env).Faithful
      (registers.detach view).2 := by
  obtain ⟨nodup, inView⟩ := faithful.together seen
  have bound := ((inView x).mp inside).1
  refine (faithful.mono shown few registers.le_start).cons ?_ (by simp) fun view' isView => ?_
  · rw [card_cons_of_mem bound, faithful.size]
  · obtain rfl := Option.some.inj isView
    rw [Registers.detach, registers.seen_start]
    refine ⟨nodup, fun z => (inView z).trans ?_⟩
    grind

/-- A name that is new to its fingerprint, which is then the third at most. -/
theorem entered (faithful : env.Faithful registers) (shown : registers.ShowAll env.views)
    (few : FewAlike (x :: env.names)) {view : View}
    (seen : env.innermostLike? x.fingerprint = some (y, some view)) (outside : x ∉ registers.seen view) :
    (Env.cons ⟨env.size + 1, some (registers.enter view x).1⟩ x value env).Faithful
      (registers.enter view x).2 := by
  obtain ⟨nodup, inView⟩ := faithful.together seen
  have showsView := shown view (env.mem_views_of_innermostLike? seen)
  have unbound : x ∉ env.names := fun bound => outside ((inView x).mpr ⟨bound, rfl⟩)
  have two : view.length < 3 := by
    have three := few x List.mem_cons_self
    rw [List.toFinset_cons, Finset.filter_insert, if_pos rfl, Finset.card_insert_of_notMem
      (by simp [unbound]), ← faithful.length_view shown seen] at three
    exact three
  have fewOuter : FewAlike env.names := few.mono (List.subset_cons_self x _)
  refine (faithful.mono shown fewOuter (registers.le_enter showsView x)).cons ?_
    (fun none => by cases none) fun view' isView => ?_
  · rw [card_cons_of_notMem unbound, faithful.size]
  · obtain rfl := Option.some.inj isView
    rw [registers.seen_enter showsView x two]
    refine ⟨List.nodup_append.mpr ⟨nodup, List.nodup_singleton x, ?_⟩, fun z => ?_⟩
    · grind
    · grind

theorem extendWith (faithful : env.Faithful registers) (shown : registers.ShowAll env.views)
    (few : FewAlike (x :: env.names)) :
    (env.extendWith registers x value).1.Faithful (env.extendWith registers x value).2 := by
  have fewOuter : FewAlike env.names := few.mono (List.subset_cons_self x _)
  change (Env.cons (env.tallyWith registers x).1 x value env).Faithful (env.tallyWith registers x).2
  unfold tallyWith
  split
  · rename_i unseen
    exact faithful.first unseen
  · rename_i y seen
    split
    · rename_i same
      exact faithful.again (same ▸ seen)
    · rename_i different
      exact faithful.second shown fewOuter seen different
  · rename_i y view seen
    split
    · rename_i inside
      exact faithful.known shown fewOuter seen inside
    · rename_i outside
      exact faithful.entered shown few seen outside

end Faithful

end Env

end LambdaCalculi.Dependent
