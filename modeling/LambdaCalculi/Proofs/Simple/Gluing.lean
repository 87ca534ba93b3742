import LambdaCalculi.Proofs.Simple.NaturalSemantics
import LambdaCalculi.Proofs.Simple.Theory

/-!
# Values that stand for terms

A value stands for a term of its type when the theory proves what the value shows: a number is equal
to the term, a blocked computation has a term that is equal to it, and a function takes arguments to
results that stand for the application, also below more binders. The value of a typed term stands for
the term, and the normal form of a value is equal to every term it stands for.
-/

set_option autoImplicit false

namespace LambdaCalculi.Simple.Leveled

/-- Below any further binders, the blocked computation has a term equal to the given one. -/
def Neutral.StandsFor (types : Types) (type : Ty) (blocked : Neutral) (term : Nameless) : Prop :=
  ∀ inner : Types, ∃ normal, NeutralReadsBack (inner ++ types).length blocked normal ∧
    Equal (inner ++ types) (term.shift inner.length) normal type

theorem Neutral.StandsFor.var (types : Types) (type : Ty) :
    Neutral.StandsFor (type :: types) type (.var types.length) (.bound 0) := by
  intro inner
  refine ⟨_, .var, ?_⟩
  have place : (inner ++ type :: types).length - (types.length + 1) = 0 + inner.length := by
    rw [List.length_append, List.length_cons]
    omega
  rw [place]
  exact .refl (HasType.shift (.bound rfl) inner)

theorem Neutral.StandsFor.shift {types : Types} {type : Ty} {blocked : Neutral} {term : Nameless}
    (stands : blocked.StandsFor types type term) (inner : Types) :
    blocked.StandsFor (inner ++ types) type (term.shift inner.length) := by
  intro more
  obtain ⟨normal, reads, equal⟩ := stands (more ++ inner)
  rw [List.length_append, Nat.add_comm, ← Nameless.shift_shift, List.append_assoc] at equal
  rw [List.append_assoc] at reads
  exact ⟨normal, reads, equal⟩

theorem Neutral.StandsFor.equal {types : Types} {type : Ty} {blocked : Neutral} {term : Nameless}
    (stands : blocked.StandsFor types type term) :
    ∃ normal, NeutralReadsBack types.length blocked normal ∧ Equal types term normal type := by
  obtain ⟨normal, reads, equal⟩ := stands []
  rw [List.length_nil, Nameless.shift_zero] at equal
  exact ⟨normal, reads, equal⟩

theorem Neutral.StandsFor.conv {types : Types} {type : Ty} {blocked : Neutral}
    {term term' : Nameless} (stands : blocked.StandsFor types type term)
    (equal : Equal types term' term type) : blocked.StandsFor types type term' := by
  intro inner
  obtain ⟨normal, reads, normalEqual⟩ := stands inner
  exact ⟨normal, reads, (equal.shift inner).trans normalEqual⟩

inductive Value.StandsForNat (types : Types) : Value → Nameless → Prop where
  | zero {term : Nameless} : Equal types term .zero .nat → StandsForNat types .zero term
  | add1 {predecessor : Value} {term inner : Nameless} :
      Equal types term (.add1 inner) .nat → StandsForNat types predecessor inner →
      StandsForNat types (.add1 predecessor) term
  | neutral {blocked : Neutral} {term : Nameless} :
      blocked.StandsFor types .nat term → StandsForNat types (.neutral .nat blocked) term

/-- The value stands for the term at a type, over variables of the given types. -/
def Value.StandsFor : Ty → Types → Value → Nameless → Prop
  | .nat, types, value, term => StandsForNat types value term
  | .arrow domain codomain, types, value, term =>
      HasType types term (.arrow domain codomain) ∧
        ∀ (inner : Types) (argument : Value) (argumentTerm : Nameless),
          StandsFor domain (inner ++ types) argument argumentTerm →
          ∃ result, Applies value argument result ∧
            StandsFor codomain (inner ++ types) result (.app (term.shift inner.length) argumentTerm)

namespace Value.StandsForNat

variable {types : Types} {value : Value} {term : Nameless}

theorem typed (stands : StandsForNat types value term) : HasType types term .nat := by
  cases stands with
  | zero equal => exact equal.typed.1
  | add1 equal _ => exact equal.typed.1
  | neutral stands =>
      obtain ⟨_, _, equal⟩ := stands.equal
      exact equal.typed.1

theorem conv {term' : Nameless} (stands : StandsForNat types value term)
    (equal : Equal types term' term .nat) : StandsForNat types value term' := by
  cases stands with
  | zero same => exact .zero (equal.trans same)
  | add1 same rest => exact .add1 (equal.trans same) rest
  | neutral stands => exact .neutral (stands.conv equal)

theorem shift (stands : StandsForNat types value term) (inner : Types) :
    StandsForNat (inner ++ types) value (term.shift inner.length) := by
  induction stands with
  | zero equal => exact .zero (equal.shift inner)
  | add1 equal _ ih => exact .add1 (equal.shift inner) ih
  | neutral stands => exact .neutral (stands.shift inner)

theorem reads (stands : StandsForNat types value term) :
    ∃ normal, ReadsBack types.length .nat value normal ∧ Equal types term normal .nat := by
  induction stands with
  | zero equal => exact ⟨.zero, .zero, equal⟩
  | add1 equal _ ih =>
      obtain ⟨normal, reads, normalEqual⟩ := ih
      exact ⟨.add1 normal, .add1 reads, equal.trans (.add1 normalEqual)⟩
  | neutral stands =>
      obtain ⟨normal, reads, equal⟩ := stands.equal
      exact ⟨normal, .neutral reads, equal⟩

end Value.StandsForNat

namespace Value.StandsFor

theorem typed {type : Ty} {types : Types} {value : Value} {term : Nameless}
    (stands : StandsFor type types value term) : HasType types term type := by
  cases type with
  | nat => exact StandsForNat.typed stands
  | arrow domain codomain => exact stands.1

theorem conv {type : Ty} {types : Types} {value : Value} {term term' : Nameless}
    (stands : StandsFor type types value term) (equal : Equal types term' term type) :
    StandsFor type types value term' := by
  induction type generalizing types value term term' with
  | nat => exact StandsForNat.conv stands equal
  | arrow domain codomain domainIH codomainIH =>
      refine ⟨equal.typed.1, ?_⟩
      intro inner argument argumentTerm argumentStands
      obtain ⟨result, applies, resultStands⟩ := stands.2 inner argument argumentTerm argumentStands
      exact ⟨result, applies,
        codomainIH resultStands (.app (equal.shift inner) (.refl argumentStands.typed))⟩

theorem shift {type : Ty} {types : Types} {value : Value} {term : Nameless}
    (stands : StandsFor type types value term) (inner : Types) :
    StandsFor type (inner ++ types) value (term.shift inner.length) := by
  cases type with
  | nat => exact StandsForNat.shift stands inner
  | arrow domain codomain =>
      refine ⟨stands.1.shift inner, ?_⟩
      intro more argument argumentTerm argumentStands
      rw [← List.append_assoc] at argumentStands ⊢
      obtain ⟨result, applies, resultStands⟩ :=
        stands.2 (more ++ inner) argument argumentTerm argumentStands
      rw [List.length_append, Nat.add_comm, ← Nameless.shift_shift] at resultStands
      exact ⟨result, applies, resultStands⟩

/-- Blocked computations stand for the terms they are equal to, and a value is read back to a term
equal to the one it stands for. The two facts need each other at the parts of a function type. -/
theorem neutral_and_reads (type : Ty) :
    (∀ (types : Types) (blocked : Neutral) (term : Nameless), blocked.StandsFor types type term →
        StandsFor type types (.neutral type blocked) term) ∧
      ∀ (types : Types) (value : Value) (term : Nameless), StandsFor type types value term →
        ∃ normal, ReadsBack types.length type value normal ∧ Equal types term normal type := by
  induction type with
  | nat => exact ⟨fun _ _ _ stands => .neutral stands, fun _ _ _ stands => stands.reads⟩
  | arrow domain codomain domainIH codomainIH =>
      refine ⟨?_, ?_⟩
      · intro types blocked term stands
        obtain ⟨_, _, equal⟩ := stands.equal
        refine ⟨equal.typed.1, ?_⟩
        intro inner argument argumentTerm argumentStands
        refine ⟨_, .neutral, codomainIH.1 _ _ _ ?_⟩
        intro more
        obtain ⟨normal, reads, functionEqual⟩ := stands.shift inner more
        obtain ⟨argumentNormal, argumentReads, argumentEqual⟩ :=
          domainIH.2 _ _ _ (argumentStands.shift more)
        exact ⟨_, .app reads argumentReads, .app functionEqual argumentEqual⟩
      · intro types value term stands
        obtain ⟨result, applies, resultStands⟩ :=
          stands.2 [domain] _ _ (domainIH.1 _ _ _ (Neutral.StandsFor.var types domain))
        obtain ⟨body, bodyReads, bodyEqual⟩ := codomainIH.2 _ _ _ resultStands
        exact ⟨.lam body, .function applies bodyReads,
          (Equal.eta stands.1).trans (.lam bodyEqual)⟩

theorem neutral {type : Ty} {types : Types} {blocked : Neutral} {term : Nameless}
    (stands : blocked.StandsFor types type term) :
    StandsFor type types (.neutral type blocked) term :=
  (neutral_and_reads type).1 types blocked term stands

theorem reads {type : Ty} {types : Types} {value : Value} {term : Nameless}
    (stands : StandsFor type types value term) :
    ∃ normal, ReadsBack types.length type value normal ∧ Equal types term normal type :=
  (neutral_and_reads type).2 types value term stands

theorem apply {domain codomain : Ty} {types : Types} {function argument : Value}
    {functionTerm argumentTerm : Nameless}
    (functionStands : StandsFor (.arrow domain codomain) types function functionTerm)
    (argumentStands : StandsFor domain types argument argumentTerm) :
    ∃ result, Applies function argument result ∧
      StandsFor codomain types result (.app functionTerm argumentTerm) := by
  obtain ⟨result, applies, stands⟩ := functionStands.2 [] argument argumentTerm argumentStands
  rw [List.length_nil, Nameless.shift_zero] at stands
  exact ⟨result, applies, stands⟩

end Value.StandsFor

open LambdaCalculi.Simple.Leveled.Value

theorem Value.StandsForNat.recurse {types : Types} {type : Ty} {target base step : Value}
    {targetTerm baseTerm stepTerm : Nameless} (targetStands : StandsForNat types target targetTerm)
    (baseStands : StandsFor type types base baseTerm)
    (stepStands : StandsFor type.step types step stepTerm) :
    ∃ result, Recurses type base step target result ∧
      StandsFor type types result (.recNat type targetTerm baseTerm stepTerm) := by
  have baseSame := Equal.refl baseStands.typed
  have stepSame := Equal.refl stepStands.typed
  induction targetStands with
  | zero equal =>
      have computes := (Equal.recNat equal baseSame stepSame).trans
        (.recNatZero baseStands.typed stepStands.typed)
      exact ⟨base, .zero, baseStands.conv computes⟩
  | add1 equal predecessorStands ih =>
      obtain ⟨almost, recurses, almostStands⟩ := ih
      obtain ⟨stepAt, applies, stepAtStands⟩ := stepStands.apply predecessorStands
      obtain ⟨result, final, resultStands⟩ := stepAtStands.apply almostStands
      have computes := (Equal.recNat equal baseSame stepSame).trans
        (.recNatAdd1 predecessorStands.typed baseStands.typed stepStands.typed)
      exact ⟨result, .add1 applies recurses final, resultStands.conv computes⟩
  | neutral stands =>
      refine ⟨_, .neutral, StandsFor.neutral ?_⟩
      intro inner
      obtain ⟨_, targetReads, targetEqual⟩ := stands inner
      obtain ⟨_, baseReads, baseEqual⟩ := (baseStands.shift inner).reads
      obtain ⟨_, stepReads, stepEqual⟩ := (stepStands.shift inner).reads
      exact ⟨_, .recNat targetReads baseReads stepReads, .recNat targetEqual baseEqual stepEqual⟩

def EnvStandsFor (types inner : Types) (env : List Value) (substitution : Nat → Nameless) : Prop :=
  ∀ (index : Nat) (type : Ty), types[index]? = some type →
    ∃ value, env[index]? = some value ∧ StandsFor type inner value (substitution index)

theorem EnvStandsFor.extend {types inner : Types} {env : List Value} {substitution : Nat → Nameless}
    (stands : EnvStandsFor types inner env substitution) (more : Types) {domain : Ty}
    {argument : Value} {argumentTerm : Nameless}
    (argumentStands : StandsFor domain (more ++ inner) argument argumentTerm) :
    EnvStandsFor (domain :: types) (more ++ inner) (argument :: env)
      (Nameless.extend argumentTerm fun index => (substitution index).shift more.length) := by
  intro index type found
  cases index with
  | zero =>
      cases found
      exact ⟨argument, rfl, argumentStands⟩
  | succ index =>
      obtain ⟨value, valueFound, valueStands⟩ := stands index type found
      exact ⟨value, valueFound, valueStands.shift more⟩

end LambdaCalculi.Simple.Leveled

namespace LambdaCalculi.Simple

open Leveled.Value (StandsFor)

/-- The value of a typed term stands for the term under the substitution that the environment
stands for. -/
theorem HasType.standsFor {types : Types} {term : Nameless} {type : Ty}
    (typed : HasType types term type) :
    ∀ {inner : Types} {env : List Leveled.Value} {substitution : Nat → Nameless},
      Leveled.EnvStandsFor types inner env substitution →
      ∃ value, Leveled.Evaluates env term value ∧
        StandsFor type inner value (term.subst substitution) := by
  induction typed with
  | bound found =>
      intro inner env substitution stands
      obtain ⟨value, valueFound, valueStands⟩ := stands _ _ found
      exact ⟨value, .bound valueFound, valueStands⟩
  | @lam types domain codomain body bodyTyped ih =>
      intro inner env substitution stands
      have functionTyped : HasType inner ((Nameless.lam body).subst substitution)
          (.arrow domain codomain) := by
        refine HasType.subst (.lam bodyTyped) ?_
        intro index type found
        obtain ⟨_, _, valueStands⟩ := stands index type found
        exact valueStands.typed
      refine ⟨_, .lam, functionTyped, ?_⟩
      intro more argument argumentTerm argumentStands
      obtain ⟨result, evaluates, resultStands⟩ := ih (stands.extend more argumentStands)
      refine ⟨result, .closure evaluates, resultStands.conv ?_⟩
      -- The function applied to the argument computes to the body the induction speaks of.
      have moved := functionTyped.shift more
      rw [Nameless.shift, Nameless.rename_subst] at moved ⊢
      cases moved with
      | lam movedTyped =>
          have computes := Equal.beta movedTyped argumentStands.typed
          rw [Nameless.instantiate_subst_lift] at computes
          exact computes
  | app _ _ functionIH argumentIH =>
      intro inner env substitution stands
      obtain ⟨_, functionEvaluates, functionStands⟩ := functionIH stands
      obtain ⟨_, argumentEvaluates, argumentStands⟩ := argumentIH stands
      obtain ⟨result, applies, resultStands⟩ := functionStands.apply argumentStands
      exact ⟨result, .app functionEvaluates argumentEvaluates applies, resultStands⟩
  | zero =>
      intro inner env substitution _
      exact ⟨.zero, .zero, .zero (.refl .zero)⟩
  | add1 _ ih =>
      intro inner env substitution stands
      obtain ⟨value, evaluates, valueStands⟩ := ih stands
      exact ⟨.add1 value, .add1 evaluates, .add1 (.refl (.add1 valueStands.typed)) valueStands⟩
  | recNat _ _ _ targetIH baseIH stepIH =>
      intro inner env substitution stands
      obtain ⟨_, targetEvaluates, targetStands⟩ := targetIH stands
      obtain ⟨_, baseEvaluates, baseStands⟩ := baseIH stands
      obtain ⟨_, stepEvaluates, stepStands⟩ := stepIH stands
      obtain ⟨result, recurses, resultStands⟩ :=
        Leveled.Value.StandsForNat.recurse targetStands baseStands stepStands
      exact ⟨result, .recNat targetEvaluates baseEvaluates stepEvaluates recurses, resultStands⟩
  | ann _ ih =>
      intro inner env substitution stands
      obtain ⟨value, evaluates, valueStands⟩ := ih stands
      exact ⟨value, .ann evaluates, valueStands.conv (.erase valueStands.typed)⟩

end LambdaCalculi.Simple
