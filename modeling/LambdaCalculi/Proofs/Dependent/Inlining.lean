import LambdaCalculi.Proofs.Dependent.Fingerprints
import LambdaCalculi.Proofs.Dependent.Substitution

/-!
# Definitions put in place of their names

An inlining has a term for some of the names. Putting these terms in place of the free occurrences of
the names goes by the structure of a term and leaves alone what a binder hides. The terms of an
inlining are meant to have no free variables, so no binder captures any of theirs. The definitions of
a program give an inlining that puts each definition, with all earlier ones put in, in place of its
name.
-/

set_option autoImplicit false

namespace LambdaCalculi.Dependent

abbrev Inlining := Name → Option Term

namespace Inlining

def empty : Inlining := fun _ => none

/-- Below a binder of `x`, where `x` stands for what is bound there. -/
def below (inlining : Inlining) (x : Name) : Inlining :=
  fun y => if y = x then none else inlining y

def add (inlining : Inlining) (x : Name) (term : Term) : Inlining :=
  fun y => if y = x then some term else inlining y

theorem empty_below (x : Name) : empty.below x = empty := by
  funext y
  exact ite_self none

end Inlining

def Term.inline (inlining : Inlining) : Term → Term
  | var x => (inlining x).getD (var x)
  | pi x domain range => pi x (domain.inline inlining) (range.inline (inlining.below x))
  | lam x body => lam x (body.inline (inlining.below x))
  | app function argument => app (function.inline inlining) (argument.inline inlining)
  | sigma x carType cdrType =>
      sigma x (carType.inline inlining) (cdrType.inline (inlining.below x))
  | cons first second => cons (first.inline inlining) (second.inline inlining)
  | car pair => car (pair.inline inlining)
  | cdr pair => cdr (pair.inline inlining)
  | nat => nat
  | zero => zero
  | add1 predecessor => add1 (predecessor.inline inlining)
  | indNat target motive base step =>
      indNat (target.inline inlining) (motive.inline inlining) (base.inline inlining)
        (step.inline inlining)
  | equal type left right =>
      equal (type.inline inlining) (left.inline inlining) (right.inline inlining)
  | same => same
  | replace target motive base =>
      replace (target.inline inlining) (motive.inline inlining) (base.inline inlining)
  | trivial => trivial
  | sole => sole
  | absurd => absurd
  | indAbsurd target motive => indAbsurd (target.inline inlining) (motive.inline inlining)
  | atom => atom
  | tick symbol => tick symbol
  | univ => univ
  | the type expr => the (type.inline inlining) (expr.inline inlining)

def Inlining.define (inlining : Inlining) (definition : Definition) : Inlining :=
  inlining.add definition.name (definition.term.inline inlining)

/-- The inlining of a list of definitions, each of which refers to earlier ones only. -/
def Inlining.ofDefinitions (definitions : List Definition) : Inlining :=
  definitions.foldl Inlining.define .empty

def Program.inlined (program : Program) : Program :=
  ⟨[], program.body.inline (.ofDefinitions program.definitions)⟩

/-! ## Inlining is substitution -/

namespace Inlining

def Closed (inlining : Inlining) : Prop :=
  ∀ x term, inlining x = some term → term.free = []

/-- A name without a term stands for itself. -/
def substitution (inlining : Inlining) : Substitution :=
  fun x => (inlining x).getD (.var x)

variable {inlining : Inlining}

namespace Closed

theorem empty : Inlining.empty.Closed :=
  fun _ _ found => by cases found

theorem below (closed : inlining.Closed) (x : Name) : (inlining.below x).Closed := by
  intro y term found
  rw [Inlining.below] at found
  split at found
  · cases found
  · exact closed y term found

theorem add (closed : inlining.Closed) (x : Name) {term : Term} (termClosed : term.free = []) :
    (inlining.add x term).Closed := by
  intro y other found
  rw [Inlining.add] at found
  split at found
  · cases found
    exact termClosed
  · exact closed y other found

/-- Only a name that stands for itself is free in what stands for it. -/
theorem mem_free_substitution (closed : inlining.Closed) {x y : Name}
    (mem : y ∈ (inlining.substitution x).free) : y = x ∧ inlining x = none := by
  rw [substitution] at mem
  cases found : inlining x with
  | none =>
      rw [found] at mem
      exact ⟨List.mem_singleton.mp mem, rfl⟩
  | some term =>
      rw [found, Option.getD_some, closed x term found] at mem
      cases mem

/-- No binder captures what is put in, so none has to be renamed. -/
theorem binder_eq (closed : inlining.Closed) (x : Name) (body : Term) :
    inlining.substitution.binder x body = x := by
  refine Name.fresh_of_not_mem fun captured => ?_
  obtain ⟨y, _, different, mem⟩ := Substitution.mem_freeBelow_iff.mp captured
  exact different (closed.mem_free_substitution mem).1.symm

end Closed

theorem substitution_bind (x : Name) :
    inlining.substitution.bind x x = (inlining.below x).substitution := by
  funext y
  by_cases same : y = x <;> simp [Substitution.bind, substitution, below, same]

end Inlining

theorem Term.inline_eq_substitute {inlining : Inlining} (closed : inlining.Closed) (term : Term) :
    term.inline inlining = term.substitute inlining.substitution := by
  induction term generalizing inlining with
  | var x => rfl
  | pi x domain range domainIH rangeIH | sigma x domain range domainIH rangeIH =>
      simp only [inline, substitute, closed.binder_eq, Inlining.substitution_bind, domainIH closed,
        rangeIH (closed.below x)]
  | lam x body ih =>
      simp only [inline, substitute, closed.binder_eq, Inlining.substitution_bind, ih (closed.below x)]
  | _ => simp_all only [inline, substitute]

/-- What is free in a term with an inlining put in was free there and stands for itself. -/
theorem Term.mem_free_inline {inlining : Inlining} (closed : inlining.Closed) {term : Term} {y : Name}
    (mem : y ∈ (term.inline inlining).free) : y ∈ term.free ∧ inlining y = none := by
  have below {x : Name} {body : Term}
      (ih : ∀ {inlining : Inlining}, inlining.Closed → y ∈ (body.inline inlining).free →
        y ∈ body.free ∧ inlining y = none) {inlining : Inlining} (closed : inlining.Closed)
      (mem : y ∈ (body.inline (inlining.below x)).free) (different : y ≠ x) :
      y ∈ body.free ∧ inlining y = none := by
    have inside := ih (closed.below x) mem
    rwa [Inlining.below, if_neg different] at inside
  induction term generalizing inlining with
  | var x =>
      obtain ⟨rfl, kept⟩ := closed.mem_free_substitution mem
      exact ⟨List.mem_singleton_self y, kept⟩
  | pi x domain range domainIH rangeIH | sigma x domain range domainIH rangeIH =>
      simp only [inline, free, List.mem_append, List.mem_filter, bne_iff_ne] at mem ⊢
      rcases mem with inDomain | ⟨inRange, different⟩
      · exact (domainIH closed inDomain).imp_left .inl
      · exact (below rangeIH closed inRange different).imp_left fun inside => .inr ⟨inside, different⟩
  | lam x body ih =>
      simp only [inline, free, List.mem_filter, bne_iff_ne] at mem ⊢
      exact (below ih closed mem.1 mem.2).imp_left fun inside => ⟨inside, mem.2⟩
  | nat | zero | same | trivial | sole | absurd | atom | tick | univ => cases mem
  | _ =>
      simp only [inline, free, List.mem_append] at mem ⊢
      grind

/-! ## The names of inlined terms -/

theorem Term.inline_empty (term : Term) : term.inline .empty = term := by
  induction term <;> simp_all [inline, Inlining.empty_below]
  rfl

def Inlining.NamesIn (inlining : Inlining) (names : List Name) : Prop :=
  ∀ x term, inlining x = some term → term.names ⊆ names

namespace Inlining.NamesIn

variable {inlining : Inlining} {names : List Name}

theorem empty : Inlining.empty.NamesIn names :=
  fun _ _ found => by cases found

theorem below (included : inlining.NamesIn names) (x : Name) : (inlining.below x).NamesIn names := by
  intro y term found
  rw [Inlining.below] at found
  split at found
  · cases found
  · exact included y term found

theorem add (included : inlining.NamesIn names) {x : Name} {term : Term}
    (termIncluded : term.names ⊆ names) : (inlining.add x term).NamesIn names := by
  intro y other found
  rw [Inlining.add] at found
  split at found
  · cases found
    exact termIncluded
  · exact included y other found

end Inlining.NamesIn

theorem Term.names_inline {inlining : Inlining} {names : List Name} {term : Term}
    (included : inlining.NamesIn names) (termIncluded : term.names ⊆ names) :
    (term.inline inlining).names ⊆ names := by
  induction term generalizing inlining with
  | var x =>
      rw [inline]
      cases found : inlining x with
      | none => exact termIncluded
      | some term => exact included x term found
  | pi | lam | sigma =>
      simp_all [inline, Term.names, List.append_subset, included.below]
  | _ => simp_all [inline, Term.names, List.append_subset]

theorem Inlining.ofDefinitions_namesIn {definitions : List Definition} {names : List Name}
    (included : ∀ definition ∈ definitions, definition.term.names ⊆ names) :
    (ofDefinitions definitions).NamesIn names := by
  have starting : ∀ inlining : Inlining, inlining.NamesIn names →
      (definitions.foldl define inlining).NamesIn names := by
    induction definitions with
    | nil => exact fun _ start => start
    | cons definition rest ih =>
        obtain ⟨here, later⟩ := List.forall_mem_cons.mp included
        exact fun inlining start => ih later _ (start.add (Term.names_inline start here))
  exact starting _ .empty

theorem Program.names_inlined (program : Program) : program.inlined.names ⊆ program.names := by
  refine Term.names_inline (Inlining.ofDefinitions_namesIn ?_) program.body_names_subset
  exact fun definition mem => (program.definition_names_subset mem).2

end LambdaCalculi.Dependent
