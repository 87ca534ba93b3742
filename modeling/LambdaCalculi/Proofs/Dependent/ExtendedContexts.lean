import LambdaCalculi.Proofs.Dependent.InlinedChecking
import LambdaCalculi.Proofs.Dependent.RenamedPrograms
import LambdaCalculi.Proofs.Dependent.UnchangedContexts

/-!
# Extending a context is conservative

A term that has a normal form in a context has the same one in every larger context. The larger
context has other names taken and other values captured in its closures, so the two runs choose
different names for new variables, and that is all. Nothing is put in place of names here: a context
that was built corresponds to itself, and so to a larger one, because the new names are not bound in it.
-/

set_option autoImplicit false

namespace LambdaCalculi.Dependent

open Outcome

/-! ## Larger contexts -/

/-- The context is the base with more variables and definitions, under known names that are not bound
in the base. -/
inductive Context.Extends (known : List Name) (base : Context) : Context → Prop where
  | refl : Extends known base base
  | assume {ctx inner : Context} {x : Name} {type : Value} (outer : Extends known base ctx)
      (nameKnown : x ∈ known) (new : base.binding? x = none)
      (run : (ctx.assume x type : Outcome Stuck Context) = .done inner) : Extends known base inner
  | define {ctx inner : Context} {x : Name} {term : Term} {fuel : Nat}
      (outer : Extends known base ctx) (nameKnown : x ∈ known) (new : base.binding? x = none)
      (run : (ctx.addDefinition fuel x term : Checking Context).outcome = .done inner) :
      Extends known base inner

/-! ## A context corresponds to a larger one -/

theorem Context.Coherent.not_mem_names {ctx : Context} (coherent : ctx.Coherent) {x : Name}
    (unbound : ctx.binding? x = none) : x ∉ ctx.env.names := by
  rw [coherent.names, ← isSome_binding?_iff, unbound]
  exact Bool.false_ne_true

/-- Nothing is put in place of the names of a context that corresponds to itself. -/
theorem Context.UnchangedSince.inlined {known : List Name} {earlier : List Context} {ctx : Context}
    (since : ctx.UnchangedSince known earlier ctx.ownNames) :
    ctx.Inlined ctx.ownNames .empty ctx where
  closed := .empty
  env _ := by
    obtain ⟨unchanged, _⟩ := since.envs ctx List.mem_cons_self
    exact .ofValues fun x _ value found => ⟨value, found, unchanged x value found⟩
  types := by
    refine ⟨fun {x type} found _ => ⟨type, found, ?_⟩, fun _ put => by cases put⟩
    obtain ⟨binding, bound, rfl⟩ := Option.map_eq_some_iff.mp found
    obtain ⟨later, before, split, _⟩ := binding?_eq_some_iff.mp bound
    exact since.types ⟨x, binding⟩ (by simp [split])
  taken := ctx.ownNames_takenIn

/-- The second context may bind more, under names that are not bound in the first. -/
theorem Context.Inlined.more {names : BinderPairs} {inlining : Inlining} {ctx ctx' inner : Context}
    (inlined : ctx.Inlined names inlining ctx') {x : Name} {binding : Binding} {value : Value}
    (unbound : ctx.binding? x = none) (notMem : x ∉ ctx.env.names)
    (entries : inner.entries = ⟨x, binding⟩ :: ctx'.entries)
    (env : inner.env = ctx'.env.extend x value) : ctx.Inlined names inlining inner := by
  refine ⟨inlined.closed, ?_, inlined.types.more unbound entries, inlined.taken.moreRight entries⟩
  rw [env]
  exact Env.Substituted.more inlined.closed inlined.env notMem value

theorem Context.Extends.inlined {known : List Name} {names : BinderPairs} {base ctx : Context}
    (extended : base.Extends known ctx) (coherent : base.Coherent)
    (inlined : base.Inlined names .empty base) (baseKnown : base.env.names ⊆ known) :
    base.Inlined names .empty ctx ∧ ctx.env.names ⊆ known := by
  induction extended with
  | refl => exact ⟨inlined, baseKnown⟩
  | assume _ nameKnown new run ih =>
      obtain ⟨inlined, ctxKnown⟩ := ih
      cases run
      exact ⟨inlined.more new (coherent.not_mem_names new) rfl rfl,
        List.cons_subset.mpr ⟨nameKnown, ctxKnown⟩⟩
  | define _ nameKnown new run ih =>
      obtain ⟨inlined, ctxKnown⟩ := ih
      obtain ⟨type, value, _, _, _, rfl⟩ := addDefinition_eq_done run
      exact ⟨inlined.more new (coherent.not_mem_names new) rfl rfl,
        List.cons_subset.mpr ⟨nameKnown, ctxKnown⟩⟩

/-- A term that has a normal form in a context has the same one, up to the names of bound variables,
in every context with more variables and definitions, whatever the term itself binds. -/
theorem Context.run_extended {known : List Name} (distinct : DistinctFingerprints known)
    {earlier : List Context} {ctx larger : Context} (built : Context.Built known earlier ctx)
    (extended : ctx.Extends known larger) {term : Term} (termKnown : term.names ⊆ known) {fuel : Nat}
    {result : NormalForm} (run : (ctx.run fuel term : Checking NormalForm).outcome = .done result) :
    ∃ result', ChecksTo (fun fuel => larger.run fuel term) (.done result') ∧
      result.AlphaEquiv result' := by
  have since := built.unchangedSince distinct fun y mem => ctx.ownNames_links mem
  obtain ⟨inlined, largerKnown⟩ := extended.inlined built.reachable.coherent since.inlined
    (since.envs ctx List.mem_cons_self).2
  have clear : larger.env.Clear term := distinct.mono (List.append_subset.mpr ⟨largerKnown, termKnown⟩)
  have inlinedAt : ctx.InlinedAt ctx.ownNames .empty larger term :=
    ⟨inlined, by rwa [Term.inline_empty]⟩
  obtain ⟨result', settled, typeRenamed, termRenamed⟩ := inlinedAt.run fuel result run
  rw [Term.inline_empty] at settled
  exact ⟨result', settled, typeRenamed.alphaEquiv ctx.ownNames_diagonal,
    termRenamed.alphaEquiv ctx.ownNames_diagonal⟩

/-! ## A type and a member of it -/

namespace TypeAndMember

def typeOnly : Context :=
  ⟨[⟨"A", .assumed .univ "A"⟩], Env.nil.extend "A" (.ofVar .univ "A")⟩

/-- A type `A` and a member `x` of it. -/
def small : Context :=
  let type : Value := .ofVar .univ "A"
  ⟨⟨"x", .assumed type "x"⟩ :: typeOnly.entries, typeOnly.env.extend "x" (.ofVar type "x")⟩

def withAtom : Context :=
  ⟨⟨"y", .assumed .atom "y"⟩ :: small.entries, small.env.extend "y" (.ofVar .atom "y")⟩

def large : Context :=
  ⟨⟨"z", .defined .nat .zero⟩ :: withAtom.entries, withAtom.env.extend "z" .zero⟩

def known : List Name := ["A", "x", "y", "z"]

theorem small_built : Context.Built known [typeOnly, .empty] small := by
  have univRun : (Context.empty.eval 1 .univ : Outcome Stuck Value) = .done .univ := rfl
  have varRun : (typeOnly.eval 1 (.var "A") : Outcome Stuck Value) = .done (.ofVar .univ "A") := by
    decide +kernel
  have typeBuilt : Context.Built known [.empty] typeOnly :=
    .assume .empty List.mem_cons_self List.mem_cons_self (List.nil_subset _) trivial univRun
      (by decide +kernel)
  have memberRun : (typeOnly.assume "x" (.ofVar .univ "A") : Outcome Stuck Context) = .done small := by
    decide +kernel
  exact .assume typeBuilt (by decide) List.mem_cons_self (by decide) trivial varRun memberRun

theorem large_extends : small.Extends known large := by
  have assumed : (small.assume "y" .atom : Outcome Stuck Context) = .done withAtom := by
    decide +kernel
  have defined : (withAtom.addDefinition 9 "z" (.the .nat .zero) : Checking Context).outcome =
      .done large := by decide +kernel
  exact .define (.assume .refl (by decide) (by decide +kernel) assumed) (by decide)
    (by decide +kernel) defined

/-- The function that returns `x`; it binds the names that are new in the larger context. -/
def constant : Term :=
  .the (.pi "y" (.var "A") (.pi "z" (.var "A") (.var "A"))) (.lam "y" (.lam "z" (.var "x")))

theorem run_constant_extended :
    let result : NormalForm :=
      ⟨.pi "y" (.var "A") (.pi "z" (.var "A") (.var "A")), .lam "y" (.lam "z" (.var "x"))⟩
    let renamed : NormalForm :=
      ⟨.pi "y'" (.var "A") (.pi "z'" (.var "A") (.var "A")), .lam "y'" (.lam "z'" (.var "x"))⟩
    DistinctFingerprints known ∧ Context.Built known [typeOnly, .empty] small ∧
      small.Extends known large ∧
      (small.run 9 constant : Checking NormalForm).outcome = .done result ∧
      (large.run 9 constant : Checking NormalForm).outcome = .done renamed ∧
      ∃ result', ChecksTo (fun fuel => large.run fuel constant) (.done result') ∧
        result.AlphaEquiv result' := by
  intro result renamed
  have distinct : DistinctFingerprints known := by decide +kernel
  have run : (small.run 9 constant : Checking NormalForm).outcome = .done result := by
    decide +kernel
  exact ⟨distinct, small_built, large_extends, run, by decide +kernel,
    Context.run_extended distinct small_built large_extends (by decide) run⟩

end TypeAndMember

end LambdaCalculi.Dependent
