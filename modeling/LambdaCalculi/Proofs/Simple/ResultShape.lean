import LambdaCalculi.Proofs.Simple.LongNormalForms
import LambdaCalculi.Proofs.Simple.Places

/-!
# The shape of results

What a program runs to is a fully expanded normal form. Seen from its parts this means: nothing is
annotated, what is applied or recursed on is a chain of eliminators on a variable, what is checked
against a function type is a function, every variable is bound, and no binder has the name of a
definition or of a binder around it. Each part of a normal form is itself a normal form over the
binders passed on the way to it, so it is enough to go down one step.
-/

set_option autoImplicit false

namespace LambdaCalculi.Simple

def Term.isChain : Term → Bool
  | var _ => true
  | app function _ => function.isChain
  | recNat _ target _ _ => target.isChain
  | lam _ _ | zero | add1 _ | ann _ _ => false

/-- The term is not annotated and has no rule at its head: what it applies or recurses on, if it does, is
a chain of eliminators on a variable. -/
def Term.Irreducible : Term → Prop
  | ann _ _ => False
  | app function _ => function.isChain = true
  | recNat _ target _ _ => target.isChain = true
  | var _ | lam _ _ | zero | add1 _ => True

/-! ## Places where the checker looks -/

mutual

/-- When the whole is checked against its type, the term is checked against the type, and the context
has the binders passed on the way. -/
inductive CheckedIn (whole : Term) (wholeType : Ty) : Context → Term → Ty → Prop where
  | whole : CheckedIn whole wholeType [] whole wholeType
  | body {ctx : Context} {x : Name} {body : Term} {domain codomain : Ty}
      (function : CheckedIn whole wholeType ctx (.lam x body) (.arrow domain codomain)) :
      CheckedIn whole wholeType ((x, domain) :: ctx) body codomain
  | predecessor {ctx : Context} {predecessor : Term}
      (successor : CheckedIn whole wholeType ctx (.add1 predecessor) .nat) :
      CheckedIn whole wholeType ctx predecessor .nat
  | argument {ctx : Context} {function argument : Term} {domain codomain : Ty}
      (call : SynthesizedIn whole wholeType ctx (.app function argument))
      (functionFound : function.synth ctx = .ok (.arrow domain codomain)) :
      CheckedIn whole wholeType ctx argument domain
  | base {ctx : Context} {type : Ty} {target base step : Term}
      (recursion : SynthesizedIn whole wholeType ctx (.recNat type target base step)) :
      CheckedIn whole wholeType ctx base type
  | step {ctx : Context} {type : Ty} {target base step : Term}
      (recursion : SynthesizedIn whole wholeType ctx (.recNat type target base step)) :
      CheckedIn whole wholeType ctx step type.step
  | annotated {ctx : Context} {type : Ty} {expr : Term}
      (synthesized : SynthesizedIn whole wholeType ctx (.ann expr type)) :
      CheckedIn whole wholeType ctx expr type

inductive SynthesizedIn (whole : Term) (wholeType : Ty) : Context → Term → Prop where
  | checked {ctx : Context} {term : Term} {type : Ty}
      (checked : CheckedIn whole wholeType ctx term type) (notFunction : term.isFunction = false)
      (notNumeral : term.isNumeral = false) : SynthesizedIn whole wholeType ctx term
  | function {ctx : Context} {function argument : Term}
      (call : SynthesizedIn whole wholeType ctx (.app function argument)) :
      SynthesizedIn whole wholeType ctx function
  | target {ctx : Context} {type : Ty} {target base step : Term}
      (recursion : SynthesizedIn whole wholeType ctx (.recNat type target base step)) :
      SynthesizedIn whole wholeType ctx target

end

section Checked

variable {reserved : List Name} {whole : Term} {wholeType : Ty}

theorem Term.Long.isFunction {vars : Context} {domain codomain : Ty} {term : Term} :
    term.Long reserved vars (.arrow domain codomain) → term.isFunction = true
  | .lam _ _ => rfl

/-- A normal form that is neither a function nor a numeral is blocked. -/
theorem Term.Long.isBlocked {vars : Context} {type : Ty} {term : Term}
    (notFunction : term.isFunction = false) (notNumeral : term.isNumeral = false) :
    term.Long reserved vars type → term.Blocked reserved vars type
  | .zero => by cases notNumeral
  | .add1 _ => by cases notNumeral
  | .blocked neutral => neutral
  | .lam _ _ => by cases notFunction

mutual

/-- What is checked in the course of checking a normal form is a normal form of the type it is checked
against. -/
theorem CheckedIn.long (long : whole.Long reserved [] wholeType) {ctx : Context} {term : Term}
    {type : Ty} : CheckedIn whole wholeType ctx term type → term.Long reserved ctx type
  | .whole => long
  | .body function => by
      cases function.long long with
      | lam _ bodyLong => exact bodyLong
  | .predecessor successor => by
      cases successor.long long with
      | add1 predecessorLong => exact predecessorLong
      | blocked blocked => cases blocked
  | .argument call functionFound => by
      obtain ⟨_, blocked⟩ := call.blocked long
      cases blocked with
      | app functionBlocked argumentLong =>
          have found := functionBlocked.synth (.refl ctx)
          cases functionFound.symm.trans found
          exact argumentLong
  | .base recursion => by
      obtain ⟨_, blocked⟩ := recursion.blocked long
      cases blocked with
      | recNat _ baseLong _ => exact baseLong
  | .step recursion => by
      obtain ⟨_, blocked⟩ := recursion.blocked long
      cases blocked with
      | recNat _ _ stepLong => exact stepLong
  | .annotated synthesized => by
      obtain ⟨_, blocked⟩ := synthesized.blocked long
      cases blocked

theorem SynthesizedIn.blocked (long : whole.Long reserved [] wholeType) {ctx : Context}
    {term : Term} : SynthesizedIn whole wholeType ctx term → ∃ type, term.Blocked reserved ctx type
  | .checked checked notFunction notNumeral =>
      ⟨_, (checked.long long).isBlocked notFunction notNumeral⟩
  | .function call => by
      obtain ⟨_, blocked⟩ := call.blocked long
      cases blocked with
      | app functionBlocked _ => exact ⟨_, functionBlocked⟩
  | .target recursion => by
      obtain ⟨_, blocked⟩ := recursion.blocked long
      cases blocked with
      | recNat targetBlocked _ _ => exact ⟨_, targetBlocked⟩

end

end Checked

/-! ## Parts of normal forms -/

def Term.NormalIn (reserved : List Name) (vars : Context) (term : Term) : Prop :=
  ∃ type, term.Long reserved vars type ∨ term.Blocked reserved vars type

section Parts

variable {reserved : List Name} {vars : Context} {type : Ty} {term : Term}

theorem Term.Blocked.isChain (blocked : term.Blocked reserved vars type) : term.isChain = true := by
  induction term generalizing type with
  | app _ _ functionIH _ =>
      cases blocked with
      | app function _ => exact functionIH function
  | recNat _ _ _ _ targetIH _ _ =>
      cases blocked with
      | recNat target _ _ => exact targetIH target
  | _ => cases blocked <;> rfl

theorem Term.Blocked.irreducible (blocked : term.Blocked reserved vars type) : term.Irreducible := by
  cases blocked with
  | var _ => exact True.intro
  | app function _ => exact function.isChain
  | recNat target _ _ => exact target.isChain

theorem Term.NormalIn.irreducible (normal : term.NormalIn reserved vars) : term.Irreducible := by
  obtain ⟨type, long | blocked⟩ := normal
  · cases long with
    | blocked blocked => exact blocked.irreducible
    | _ => exact True.intro
  · exact blocked.irreducible

theorem Term.NormalIn.binder_new {x : Name} {body : Term}
    (normal : (Term.lam x body).NormalIn reserved vars) : x ∉ vars.names ++ reserved := by
  obtain ⟨type, long | blocked⟩ := normal
  · cases long with
    | lam new _ => exact new
    | blocked blocked => cases blocked
  · cases blocked

/-- The immediate parts of a blocked computation. -/
theorem Term.Blocked.child {inner : List Name} {part : Term} (blocked : term.Blocked reserved vars type)
    (mem : (inner, part) ∈ term.children vars.names) :
    inner = vars.names ∧ part.NormalIn reserved vars := by
  cases blocked with
  | var _ => cases mem
  | app function argument =>
      simp only [children, List.mem_cons, List.not_mem_nil, or_false, Prod.mk.injEq] at mem
      rcases mem with ⟨rfl, rfl⟩ | ⟨rfl, rfl⟩
      · exact ⟨rfl, _, .inr function⟩
      · exact ⟨rfl, _, .inl argument⟩
  | recNat target base step =>
      simp only [children, List.mem_cons, List.not_mem_nil, or_false, Prod.mk.injEq] at mem
      rcases mem with ⟨rfl, rfl⟩ | ⟨rfl, rfl⟩ | ⟨rfl, rfl⟩
      · exact ⟨rfl, _, .inr target⟩
      · exact ⟨rfl, _, .inl base⟩
      · exact ⟨rfl, _, .inl step⟩

/-- One step down from a normal form there are normal forms. -/
theorem Term.NormalIn.child {inner : List Name} {part : Term} (normal : term.NormalIn reserved vars)
    (mem : (inner, part) ∈ term.children vars.names) :
    ∃ vars', Context.names vars' = inner ∧ part.NormalIn reserved vars' := by
  obtain ⟨type, long | blocked⟩ := normal
  · cases long with
    | zero => cases mem
    | add1 predecessor =>
        simp only [children, List.mem_singleton, Prod.mk.injEq] at mem
        obtain ⟨rfl, rfl⟩ := mem
        exact ⟨vars, rfl, _, .inl predecessor⟩
    | blocked blocked =>
        obtain ⟨rfl, normal⟩ := blocked.child mem
        exact ⟨vars, rfl, normal⟩
    | @lam _ x domain _ _ _ bodyLong =>
        simp only [children, List.mem_singleton, Prod.mk.injEq] at mem
        obtain ⟨rfl, rfl⟩ := mem
        exact ⟨(x, domain) :: vars, rfl, _, .inl bodyLong⟩
  · obtain ⟨rfl, normal⟩ := blocked.child mem
    exact ⟨vars, rfl, normal⟩

/-- So every part is a normal form over the binders around it. -/
theorem Term.NormalIn.part {place : List Nat} :
    ∀ {vars : Context} {term : Term} {inner : List Name} {part : Term},
      term.NormalIn reserved vars → term.part? vars.names place = some (inner, part) →
      ∃ vars', Context.names vars' = inner ∧ part.NormalIn reserved vars' := by
  induction place with
  | nil =>
      intro vars term inner part normal found
      cases found
      exact ⟨vars, rfl, normal⟩
  | cons index place ih =>
      intro vars term inner part normal found
      rw [part?] at found
      split at found
      · next childInner child atIndex =>
          obtain ⟨vars', rfl, childNormal⟩ := normal.child (List.mem_of_getElem? atIndex)
          exact ih childNormal found
      · cases found

mutual

/-- The free variables of a normal form have types. -/
theorem Term.Long.free_subset {vars : Context} {type : Ty} {term : Term} :
    term.Long reserved vars type → term.free ⊆ vars.names
  | .zero => List.nil_subset _
  | .add1 predecessor => predecessor.free_subset
  | .blocked blocked => blocked.free_subset
  | @Term.Long.lam _ vars x domain _ body _ bodyLong => by
      intro y mem
      obtain ⟨inBody, different⟩ := List.mem_filter.mp mem
      have bound : y ∈ x :: vars.names := bodyLong.free_subset inBody
      exact List.mem_of_ne_of_mem (by simpa using different) bound

theorem Term.Blocked.free_subset {vars : Context} {type : Ty} {term : Term} :
    term.Blocked reserved vars type → term.free ⊆ vars.names
  | .var found => List.cons_subset.mpr ⟨Context.mem_names_of_lookup found, List.nil_subset _⟩
  | .app function argument => List.append_subset.mpr ⟨function.free_subset, argument.free_subset⟩
  | .recNat target base step =>
      List.append_subset.mpr
        ⟨List.append_subset.mpr ⟨target.free_subset, base.free_subset⟩, step.free_subset⟩

end

end Parts

/-! ## Programs -/

/-- The scope of a list of definitions has their names, the last one first. -/
theorem Scope.names_ofDefinitions {fuel : Nat} {definitions : List Definition} {scope : Scope}
    (defined : ofDefinitions fuel definitions = .done scope) :
    scope.names = (definitions.map Definition.name).reverse := by
  -- The fold starts from no definitions; the induction needs it to start from any.
  suffices general : scope.names = (definitions.map Definition.name).reverse ++ names [] by
    simpa [names] using general
  rw [ofDefinitions] at defined
  generalize ([] : Scope) = start at defined ⊢
  induction definitions generalizing start with
  | nil =>
      cases defined
      rfl
  | cons definition rest ih =>
      rw [List.foldlM_cons] at defined
      obtain ⟨next, added, defined⟩ := Outcome.bind_eq_done_iff.mp defined
      obtain ⟨_, _, same⟩ := Outcome.bind_eq_done_iff.mp added
      cases same
      rw [ih _ defined]
      simp [names]

/-- The result of a program has no free variables, no annotation and no rule to apply, is expanded to a
function wherever it is checked against a function type, and binds no name of a definition or of a binder
around. It has the type of the body, so the checker looks at all of it. -/
theorem Program.run_result_shape {fuel : Nat} {program : Program} {normal : Term}
    (ran : program.run fuel = .done normal) :
    ∃ scope type, Scope.ofDefinitions fuel program.definitions = .done scope ∧
      program.body.synth scope.context = .ok type ∧ normal.check [] type = .ok () ∧
      normal.free = [] ∧
      (∀ place binders part, normal.part? [] place = some (binders, part) → part.Irreducible) ∧
      (∀ ctx part domain codomain, CheckedIn normal type ctx part (.arrow domain codomain) →
        part.isFunction = true) ∧
      ∀ place binders x body, normal.part? [] place = some (binders, .lam x body) →
        x ∉ program.definitions.map Definition.name ∧ x ∉ binders := by
  obtain ⟨scope, type, defined, found, long⟩ := long_of_run ran
  have normalIn : normal.NormalIn scope.names [] := ⟨type, .inl long⟩
  refine ⟨scope, type, defined, found, long.check (.refl []),
    List.subset_nil.mp long.free_subset, ?_, ?_, ?_⟩
  · intro place binders part atPlace
    obtain ⟨vars, _, partNormal⟩ := normalIn.part atPlace
    exact partNormal.irreducible
  · intro ctx part domain codomain checked
    exact (checked.long long).isFunction
  · intro place binders x body atPlace
    obtain ⟨vars, rfl, partNormal⟩ := normalIn.part atPlace
    have new := partNormal.binder_new
    rw [List.mem_append, Scope.names_ofDefinitions defined, List.mem_reverse, not_or] at new
    exact ⟨new.2, new.1⟩

/-- Passes a partial application on, after definitions of the name that it binds. -/
def passedOn : Program :=
  ⟨[⟨"x", .ann .zero .nat⟩,
      ⟨"apply", .ann (.lam "f" (.lam "x" (.app (.var "f") (.var "x"))))
        (.arrow (.arrow .nat .nat) (.arrow .nat .nat))⟩],
    .ann (.lam "g" (.lam "f" (.app (.var "g") (.app (.var "apply") (.var "f")))))
      (.arrow (.arrow (.arrow .nat .nat) .nat) (.arrow (.arrow .nat .nat) .nat))⟩

def passedOnNormal : Term :=
  .lam "g" (.lam "f" (.app (.var "g") (.lam "x'" (.app (.var "f") (.var "x'")))))

/-- The argument of `g` is expanded, under a name that is not defined. -/
theorem passedOn_run_result_shape :
    passedOn.run 12 = .done passedOnNormal ∧
      passedOnNormal.part? [] [0, 0, 1] =
        some (["f", "g"], .lam "x'" (.app (.var "f") (.var "x'"))) ∧
      ∃ scope type, Scope.ofDefinitions 12 passedOn.definitions = .done scope ∧
        passedOn.body.synth scope.context = .ok type ∧ passedOnNormal.check [] type = .ok () ∧
        passedOnNormal.free = [] ∧
        (∀ place binders part, passedOnNormal.part? [] place = some (binders, part) →
          part.Irreducible) ∧
        (∀ ctx part domain codomain,
          CheckedIn passedOnNormal type ctx part (.arrow domain codomain) → part.isFunction = true) ∧
        ∀ place binders x body, passedOnNormal.part? [] place = some (binders, .lam x body) →
          x ∉ ["x", "apply"] ∧ x ∉ binders := by
  have ran : passedOn.run 12 = .done passedOnNormal := by decide +kernel
  exact ⟨ran, rfl, Program.run_result_shape ran⟩

end LambdaCalculi.Simple
