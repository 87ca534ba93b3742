import LambdaCalculi.Proofs.Dependent.Settling
import LambdaCalculi.Simple.Program

/-!
# Simple types and terms in the dependent calculus

An arrow becomes a function type whose range does not mention its variable, and recursion becomes
induction with a constant motive. Both bind a name that nothing refers to, which is `hole`
throughout. A translated type is accepted as a type in every context. Its value denotes the simple
type and reads back to a term that spells it; two such terms are alpha-equivalent exactly when the
simple types are the same.
-/

set_option autoImplicit false

namespace LambdaCalculi

open Outcome

/-! ## The translation -/

namespace Simple

def Ty.embed (hole : Name) : Ty → Dependent.Term
  | nat => .nat
  | arrow domain codomain => .pi hole (domain.embed hole) (codomain.embed hole)

def Term.embed (hole : Name) : Term → Dependent.Term
  | var x => .var x
  | lam x body => .lam x (body.embed hole)
  | app function argument => .app (function.embed hole) (argument.embed hole)
  | zero => .zero
  | add1 predecessor => .add1 (predecessor.embed hole)
  | recNat type target base step =>
      .indNat (target.embed hole) (.lam hole (type.embed hole)) (base.embed hole) (step.embed hole)
  | ann expr type => .the (type.embed hole) (expr.embed hole)

def Definition.embed (hole : Name) (definition : Definition) : Dependent.Definition :=
  ⟨definition.name, definition.term.embed hole⟩

def Program.embed (hole : Name) (program : Program) : Dependent.Program :=
  ⟨program.definitions.map (Definition.embed hole), program.body.embed hole⟩

def Term.names : Term → List Name
  | var x => [x]
  | lam x body => x :: body.names
  | app function argument => function.names ++ argument.names
  | zero => []
  | add1 predecessor => predecessor.names
  | recNat _ target base step => target.names ++ base.names ++ step.names
  | ann expr _ => expr.names

def Program.names (program : Program) : List Name :=
  program.definitions.flatMap (fun definition => definition.name :: definition.term.names) ++
    program.body.names

end Simple

/-! ## Values and terms of a simple type -/

namespace Simple.Ty

/-- The value is a dependent type that stands for the simple type, whatever its functions are
applied to. -/
def Denoted : Ty → Dependent.Value → Prop
  | nat, value => value = .nat
  | arrow domain codomain, value =>
      ∃ domainValue range, value = .pi domainValue range ∧ domain.Denoted domainValue ∧
        ∀ argument, ∃ codomainValue, range.InstantiatesTo argument codomainValue ∧
          codomain.Denoted codomainValue

def Motive (type : Ty) (motive : Dependent.Value) : Prop :=
  ∀ argument, ∃ value, motive.AppliesTo argument value ∧ type.Denoted value

/-- The term is the translated type with some names for its binders. -/
inductive Spelled : Ty → Dependent.Term → Prop where
  | nat : Spelled .nat .nat
  | arrow {domain codomain : Ty} {x : Name} {domainTerm codomainTerm : Dependent.Term} :
      domain.Spelled domainTerm → codomain.Spelled codomainTerm →
      Spelled (.arrow domain codomain) (.pi x domainTerm codomainTerm)

theorem embed_spelled (hole : Name) (type : Ty) : type.Spelled (type.embed hole) := by
  induction type with
  | nat => exact .nat
  | arrow domain codomain domainIH codomainIH => exact .arrow domainIH codomainIH

/-- Terms that spell types are alpha-equivalent exactly when the types are the same. -/
theorem Spelled.alphaEquivUnder {type type' : Ty} {term term' : Dependent.Term}
    (spelled : type.Spelled term) (spelled' : type'.Spelled term')
    (binders : Dependent.BinderPairs) :
    term.alphaEquivUnder binders term' = decide (type = type') := by
  induction spelled generalizing type' term' binders with
  | nat => cases spelled' <;> simp [Dependent.Term.alphaEquivUnder]
  | arrow _ _ domainIH codomainIH =>
      cases spelled' with
      | nat => simp [Dependent.Term.alphaEquivUnder]
      | arrow domain' codomain' =>
          rw [Dependent.Term.alphaEquivUnder, domainIH domain', codomainIH codomain']
          simp

theorem embed_evaluates (hole : Name) (type : Ty) (env : Dependent.Env) :
    ∃ value, env.EvaluatesTo (type.embed hole) value ∧ type.Denoted value := by
  induction type generalizing env with
  | nat => exact ⟨.nat, .spend (.const _), rfl⟩
  | arrow domain codomain domainIH codomainIH =>
      obtain ⟨domainValue, domainEvaluates, domainDenoted⟩ := domainIH env
      refine ⟨.pi domainValue (.mk env hole (codomain.embed hole)),
        domainEvaluates.pi, domainValue, _, rfl, domainDenoted, ?_⟩
      intro argument
      obtain ⟨codomainValue, evaluates, denoted⟩ := codomainIH (env.extend hole argument)
      exact ⟨codomainValue, evaluates.instantiates, denoted⟩

theorem embed_motive (hole : Name) (type : Ty) (env : Dependent.Env) :
    type.Motive (.lam (.mk env hole (type.embed hole))) := by
  intro argument
  obtain ⟨value, evaluates, denoted⟩ := type.embed_evaluates hole (env.extend hole argument)
  exact ⟨value, evaluates.instantiates.applies, denoted⟩

theorem Denoted.readsBack {type : Ty} {value : Dependent.Value} (denoted : type.Denoted value)
    (ctx : Dependent.Context) : ∃ term, ctx.ReadsTypeBackTo value term ∧ type.Spelled term := by
  induction type generalizing value ctx with
  | nat =>
      cases denoted
      exact ⟨.nat, .spend (.const _), .nat⟩
  | arrow domain codomain domainIH codomainIH =>
      obtain ⟨domainValue, range, rfl, domainDenoted, ranges⟩ := denoted
      let x := ctx.freshFor range.binder
      obtain ⟨inner, assumed, -, -⟩ := ctx.assume_settles x domainValue
      obtain ⟨codomainValue, instantiates, codomainDenoted⟩ := ranges (.ofVar domainValue x)
      obtain ⟨domainTerm, domainReads, domainSpelled⟩ := domainIH domainDenoted ctx
      obtain ⟨codomainTerm, codomainReads, codomainSpelled⟩ := codomainIH codomainDenoted inner
      refine ⟨.pi x domainTerm codomainTerm, .spend ?_, .arrow domainSpelled codomainSpelled⟩
      exact instantiates.bind (domainReads.bind (assumed.bind (codomainReads.bind (.const _))))

/-- The type of the step of an induction with such a motive stands for the type of the step of a
recursion. -/
theorem Motive.natStepType_denoted {type : Ty} {motive : Dependent.Value}
    (constant : type.Motive motive) :
    type.step.Denoted (.natStepType motive) := by
  refine ⟨.nat, _, rfl, rfl, ?_⟩
  intro number
  obtain ⟨almostType, almostApplies, almostDenoted⟩ := constant number
  refine ⟨.pi almostType _, Dependent.Env.EvaluatesTo.instantiates (.pi ?_), almostType, _, rfl,
    almostDenoted, ?_⟩
  · exact .app (.var rfl) (.var rfl) almostApplies
  · intro almost
    obtain ⟨resultType, resultApplies, resultDenoted⟩ := constant (.add1 number)
    refine ⟨resultType, Dependent.Env.EvaluatesTo.instantiates ?_, resultDenoted⟩
    exact .app (.var rfl) (.add1 (.var rfl)) resultApplies

theorem converts_univ (ctx : Dependent.Context) :
    Dependent.ChecksTo (fun fuel => ctx.convert fuel .univ .univ .univ) (.done ()) := by
  have reads : ctx.ReadsBackTo .univ .univ .univ := .spend (.spend (.const _))
  exact .bind (.compute reads) (.bind (.compute reads) (.done _))

/-- A translated type is accepted as a type. -/
theorem embed_checks (hole : Name) (type : Ty) (ctx : Dependent.Context) :
    Dependent.ChecksTo (fun fuel => ctx.check fuel (type.embed hole) .univ) (.done ()) := by
  induction type generalizing ctx with
  | nat =>
      refine .rule _ _ (fun _ => rfl) (.bind ?_ (converts_univ ctx))
      exact .rule _ _ (fun _ => rfl) (.done _)
  | arrow domain codomain domainIH codomainIH =>
      obtain ⟨domainValue, domainEvaluates, _⟩ := domain.embed_evaluates hole ctx.env
      obtain ⟨inner, assumed, -, -⟩ := ctx.assume_settles hole domainValue
      refine .rule _ _ (fun _ => rfl) (.bind ?_ (converts_univ ctx))
      refine .rule _ _ (fun _ => rfl) (.bind (domainIH ctx) (.bind (.compute domainEvaluates) ?_))
      exact .bind (.compute assumed) (.bind (codomainIH inner) (.done _))

end Simple.Ty

end LambdaCalculi
