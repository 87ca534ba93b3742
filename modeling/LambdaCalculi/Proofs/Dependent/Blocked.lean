import LambdaCalculi.Proofs.Dependent.Codes

/-!
# Blocked computations as elements of the domain

A computation is blocked when it has to look at a variable. Its spine tells which variable that is
and what was done with it, and is itself an element of the domain. The element `blocked spine`
answers everything that can be asked of it by a blocked computation with a longer spine: applied to
an argument it gives an application, and its components are projections. The spine can be read off it
as it is, so blocked computations are equal only if the same was done with the same variable.
-/

set_option autoImplicit false

namespace LambdaCalculi.Dependent.Domain

variable {ι : Type}

/-! ## Spines -/

namespace Spine

def assumed (level : Nat) : Domain :=
  node (.assumed level) ∅ ∅ ∅

def app (function argument : Domain) : Domain :=
  node .app function argument ∅

def car (pair : Domain) : Domain :=
  node .car pair ∅ ∅

def cdr (pair : Domain) : Domain :=
  node .cdr pair ∅ ∅

def indNat (target motive base step : Domain) : Domain :=
  node .indNat target (lam fun argument => motive.apply argument) (node .pair base step ∅)

/-- The motive is told by its results at the members of the type whose equality is the target's. -/
def replace (type target motive base : Domain) : Domain :=
  node .replace target (lam fun argument => motive.apply (fit type argument)) base

/-- What the empty type is eliminated into; its members are all alike, so the target is not told. -/
def indAbsurd (type : Domain) : Domain :=
  node .indAbsurd type ∅ ∅

theorem finitary_indNat {target motive base step : (ι → Domain) → Domain}
    (targetFinitary : Finitary target) (motiveFinitary : Finitary motive)
    (baseFinitary : Finitary base) (stepFinitary : Finitary step) :
    Finitary fun valuation =>
      indNat (target valuation) (motive valuation) (base valuation) (step valuation) := by
  have motiveInside : Finitary fun valuation : Option ι → Domain =>
      motive fun place => valuation (some place) := motiveFinitary.comp fun place => .place _
  exact .node .indNat targetFinitary (.lam (motiveInside.apply (.place none)))
    (.node .pair baseFinitary stepFinitary (.const ∅))

theorem finitary_replace {type target motive base : (ι → Domain) → Domain}
    (typeFinitary : Finitary type) (targetFinitary : Finitary target)
    (motiveFinitary : Finitary motive) (baseFinitary : Finitary base) :
    Finitary fun valuation =>
      replace (type valuation) (target valuation) (motive valuation) (base valuation) := by
  have typeInside : Finitary fun valuation : Option ι → Domain =>
      type fun place => valuation (some place) := typeFinitary.comp fun place => .place _
  have motiveInside : Finitary fun valuation : Option ι → Domain =>
      motive fun place => valuation (some place) := motiveFinitary.comp fun place => .place _
  have argument := continuous_fit.finitary typeInside (Finitary.place none)
  exact .node .replace targetFinitary (.lam (motiveInside.apply argument)) baseFinitary

end Spine

/-! ## Blocked computations -/

def Blocks : Token → Domain → Prop
  | .tag tag, _ => tag = .blocked
  | .part 0 token, spine => Blocks token (Spine.car spine)
  | .part 1 token, spine => Blocks token (Spine.cdr spine)
  | .part 2 token, spine => Blocks token spine
  | .part 3 token, spine => token ∈ spine
  | .part _ _, _ => False
  | .graph inputs output, spine => Blocks output (Spine.app spine {input | input ∈ inputs})

def blocked (spine : Domain) : Domain :=
  {token | Blocks token spine}

section Answers

variable (spine : Domain)

@[simp]
theorem tag_mem_blocked (tag : Tag) : Token.tag tag ∈ blocked spine ↔ tag = .blocked :=
  Iff.rfl

@[simp]
theorem part_zero_blocked : part 0 (blocked spine) = blocked (Spine.car spine) :=
  rfl

@[simp]
theorem part_one_blocked : part 1 (blocked spine) = blocked (Spine.cdr spine) :=
  rfl

/-- The evidence of a blocked proof of an equality is the proof itself. -/
@[simp]
theorem part_two_blocked : part 2 (blocked spine) = blocked spine :=
  rfl

@[simp]
theorem part_three_blocked : part 3 (blocked spine) = spine :=
  rfl

end Answers

/-- A token of a blocked computation needs only finitely many tokens of what its spine depends on.
The spine grows as the token is taken apart. -/
theorem Finitary.blocks : (token : Token) → {spine : (ι → Domain) → Domain} → Finitary spine →
    {valuation : ι → Domain} → Blocks token (spine valuation) →
    ∃ needed, Meets valuation needed ∧ ∀ other, Meets other needed → Blocks token (spine other)
  | .tag _, _, _, _, holds => ⟨[], by simp [Meets], fun _ _ => holds⟩
  | .part 0 token, _, finitary, _, holds =>
      Finitary.blocks token (.node .car finitary (.const ∅) (.const ∅)) holds
  | .part 1 token, _, finitary, _, holds =>
      Finitary.blocks token (.node .cdr finitary (.const ∅) (.const ∅)) holds
  | .part 2 token, _, finitary, _, holds => Finitary.blocks token finitary holds
  | .part 3 token, _, finitary, valuation, holds => finitary valuation token holds
  | .graph inputs output, _, finitary, _, holds =>
      Finitary.blocks output (.node .app finitary (.const {input | input ∈ inputs}) (.const ∅)) holds

theorem Finitary.blocked {spine : (ι → Domain) → Domain} (finitary : Finitary spine) :
    Finitary fun valuation => Domain.blocked (spine valuation) :=
  fun _ token mem => Finitary.blocks token finitary mem

/-- A blocked function gives blocked results. -/
theorem apply_blocked (spine argument : Domain) :
    (blocked spine).apply argument = blocked (Spine.app spine argument) := by
  have finitary : FinitaryMap fun argument => blocked (Spine.app spine argument) :=
    Finitary.blocked (.node _ (.const spine) (.place ()) (.const ∅))
  rw [← apply_lam finitary argument]
  ext token
  constructor
  · rintro ⟨inputs, inputsMem, graph⟩
    exact ⟨inputs, inputsMem, inputs, token, rfl, graph⟩
  · rintro ⟨inputs, inputsMem, _, _, same, mem⟩
    cases same
    exact ⟨inputs, inputsMem, mem⟩

/-- Everything is a member of a blocked type. -/
theorem fit_blocked (spine element : Domain) : fit (blocked spine) element = element := by
  rw [fit_eq]
  exact fitStep_of_tag fit ((tag_mem_blocked spine .blocked).mpr rfl) (by simp) element

end LambdaCalculi.Dependent.Domain
