import LambdaCalculi.Proofs.Dependent.Contexts
import LambdaCalculi.Proofs.Dependent.NeutralVariables
import LambdaCalculi.Proofs.Dependent.ReachableContexts

/-!
# The type checker looks at every free variable

A term that is accepted has only free variables that the context knows, and a variable that is rejected
as unbound is a free variable of the term that the context does not know. Both say that the checker
looks at every part of a term, and at each part in the context of its binders. `Context.Scopes` says
this of a computation for a list of variables; sequences of computations append their lists.
-/

set_option autoImplicit false

namespace LambdaCalculi.Dependent

open Judging (compute record reject)

/-- If the computation finishes, the context knows all the variables; and a variable that it rejects as
unbound is one of them that the context does not know. -/
structure Context.Scopes {α : Type} (ctx : Context) (free : List Name) (computation : Checking α) :
    Prop where
  known : ∀ {value : α}, computation.outcome = .done value →
    ∀ x ∈ free, x ∈ ctx.entries.map Entry.name
  unknown : ∀ {definition? : Option Name} {x : Name},
    computation.outcome = .failed (.rejected definition? (.unbound x)) →
    x ∈ free ∧ x ∉ ctx.entries.map Entry.name

namespace Context.Scopes

variable {α β : Type} {ctx : Context} {free free' : List Name} {fuel : Nat}

theorem bind {first : Checking α} {next : α → Checking β} (firstScopes : ctx.Scopes free first)
    (nextScopes : ∀ value, ctx.Scopes free' (next value)) :
    ctx.Scopes (free ++ free') (first >>= next) where
  known run x mem := by
    rw [Traced.outcome_bind, Outcome.bind_eq_done_iff] at run
    obtain ⟨value, firstRun, nextRun⟩ := run
    rcases List.mem_append.mp mem with inFirst | inNext
    · exact firstScopes.known firstRun x inFirst
    · exact (nextScopes value).known nextRun x inNext
  unknown run := by
    rw [Traced.outcome_bind, Outcome.bind_eq_failed_iff] at run
    rcases run with firstRun | ⟨value, _, nextRun⟩
    · obtain ⟨mem, missing⟩ := firstScopes.unknown firstRun
      exact ⟨List.mem_append_left _ mem, missing⟩
    · obtain ⟨mem, missing⟩ := (nextScopes value).unknown nextRun
      exact ⟨List.mem_append_right _ mem, missing⟩

/-! ## Steps that look at no variable -/

theorem after {first : Checking α} {next : α → Checking β} (firstScopes : ctx.Scopes [] first)
    (nextScopes : ∀ value, ctx.Scopes free (next value)) : ctx.Scopes free (first >>= next) :=
  bind firstScopes nextScopes

theorem before {first : Checking α} {next : α → Checking β} (firstScopes : ctx.Scopes free first)
    (nextScopes : ∀ value, ctx.Scopes [] (next value)) : ctx.Scopes free (first >>= next) := by
  rw [← List.append_nil free]
  exact bind firstScopes nextScopes

theorem pure (value : α) : ctx.Scopes [] (pure value : Checking α) where
  known _ _ mem := by cases mem
  unknown run := by cases run

theorem record (event : Event) : ctx.Scopes [] (record event : Checking Unit) where
  known _ _ mem := by cases mem
  unknown run := by cases run

theorem compute (outcome : Outcome Stuck α) : ctx.Scopes [] (compute outcome : Checking α) where
  known _ _ mem := by cases mem
  unknown run := by
    rw [Checking.outcome_compute] at run
    cases outcome <;> cases run

theorem reject {error : TypeError} (other : ∀ x, error ≠ .unbound x) :
    ctx.Scopes free (reject error : Checking α) where
  known run := by cases run
  unknown run := by
    cases run
    exact absurd rfl (other _)

theorem rejectFormer (want : TypeFormer) (type : Value) :
    ctx.Scopes [] (ctx.rejectFormer fuel want type : Checking α) :=
  after (compute _) fun _ => reject fun x same => by cases same

theorem expectPi (type : Value) :
    ctx.Scopes [] (ctx.expectPi fuel type : Checking (Value × Closure)) := by
  cases type with
  | pi domain range => exact pure _
  | _ => exact rejectFormer .pi _

theorem expectSigma (type : Value) :
    ctx.Scopes [] (ctx.expectSigma fuel type : Checking (Value × Closure)) := by
  cases type with
  | sigma carType cdrType => exact pure _
  | _ => exact rejectFormer .sigma _

theorem expectEqual (type : Value) :
    ctx.Scopes [] (ctx.expectEqual fuel type : Checking (Value × Value × Value)) := by
  cases type with
  | equal type left right => exact pure _
  | _ => exact rejectFormer .equal _

theorem expectNat (type : Value) : ctx.Scopes [] (ctx.expectNat fuel type : Checking Unit) := by
  cases type with
  | nat => exact pure _
  | _ => exact rejectFormer .nat _

theorem expectTrivial (type : Value) : ctx.Scopes [] (ctx.expectTrivial fuel type : Checking Unit) := by
  cases type with
  | trivial => exact pure _
  | _ => exact rejectFormer .trivial _

theorem expectAbsurd (type : Value) : ctx.Scopes [] (ctx.expectAbsurd fuel type : Checking Unit) := by
  cases type with
  | absurd => exact pure _
  | _ => exact rejectFormer .absurd _

theorem expectAtom (type : Value) : ctx.Scopes [] (ctx.expectAtom fuel type : Checking Unit) := by
  cases type with
  | atom => exact pure _
  | _ => exact rejectFormer .atom _

theorem convert (type left right : Value) :
    ctx.Scopes [] (ctx.convert fuel type left right : Checking Unit) := by
  refine after (compute _) fun leftTerm => ?_
  refine after (compute _) fun rightTerm => ?_
  split
  · exact pure ()
  · exact after (record _) fun _ => reject fun x same => by cases same

/-! ## Variables and binders -/

theorem lookupType (x : Name) : ctx.Scopes [x] (ctx.lookupType x : Checking Value) where
  known run y mem := by
    obtain rfl := List.mem_singleton.mp mem
    obtain ⟨binding, found, _⟩ := lookupType_eq_done_iff.mp run
    exact isSome_binding?_iff.mp (found ▸ rfl)
  unknown run := by
    rw [Context.lookupType] at run
    split at run
    · cases run
    · rename_i missing
      cases run
      refine ⟨List.mem_singleton_self x, fun mem => ?_⟩
      rw [← isSome_binding?_iff] at mem
      rw [Context.type?, Option.map_eq_none_iff] at missing
      rw [missing] at mem
      cases mem

/-- What is looked at below a binder, in the context with its variable. -/
theorem assume {x : Name} {type : Value} {next : Context → Checking α}
    (scopes : ∀ inner : Context, inner.entries.map Entry.name = x :: ctx.entries.map Entry.name →
      inner.Scopes free (next inner)) :
    ctx.Scopes (free.filter (· != x))
      (Judging.compute (ctx.assume x type : Outcome Stuck Context) >>= next) := by
  obtain ⟨inner, assumed, entries, _⟩ := ctx.assume_eq_done x type
  have names : inner.entries.map Entry.name = x :: ctx.entries.map Entry.name := by
    rw [entries, List.map_cons]
  have outcome : (Judging.compute (ctx.assume x type : Outcome Stuck Context) >>= next).outcome =
      (next inner).outcome := by
    rw [assumed]
    rfl
  constructor
  · intro value run y mem
    obtain ⟨inside, different⟩ := List.mem_filter.mp mem
    have bound := (scopes inner names).known (outcome ▸ run) y inside
    rw [names] at bound
    exact (List.mem_cons.mp bound).resolve_left (by simpa using different)
  · intro definition? y run
    obtain ⟨inside, missing⟩ := (scopes inner names).unknown (outcome ▸ run)
    rw [names, List.mem_cons, not_or] at missing
    exact ⟨List.mem_filter.mpr ⟨inside, by simpa using missing.1⟩, missing.2⟩

end Context.Scopes

/-! ## Checking -/

structure ChecksInScope (fuel : Nat) : Prop where
  synth : ∀ (ctx : Context) (term : Term),
    ctx.Scopes term.free (ctx.synth fuel term : Checking Value)
  check : ∀ (ctx : Context) (term : Term) (type : Value),
    ctx.Scopes term.free (ctx.check fuel term type : Checking Unit)

namespace ChecksInScope

open Context.Scopes (lookupType expectPi expectSigma expectEqual expectNat expectTrivial expectAbsurd
  expectAtom convert assume)

variable {fuel : Nat}

theorem zero : ChecksInScope 0 where
  synth _ _ := ⟨fun run => (by cases run), fun run => (by cases run)⟩
  check _ _ _ := ⟨fun run => (by cases run), fun run => (by cases run)⟩

theorem synth_succ (ih : ChecksInScope fuel) (ctx : Context) (term : Term) :
    ctx.Scopes term.free (ctx.synth (fuel + 1) term : Checking Value) := by
  cases term with
  | var x => exact .after (.record _) fun _ => lookupType x
  | pi x domain range | sigma x domain range =>
      refine .after (.record _) fun _ => .bind (ih.check ctx domain .univ) fun _ => ?_
      refine .after (.compute _) fun domainValue => assume fun inner names => ?_
      exact .before (ih.check inner range .univ) fun _ => .pure _
  | app function argument =>
      refine .after (.record _) fun _ => .bind (ih.synth ctx function) fun functionType => ?_
      refine .after (expectPi functionType) fun (domain, range) => ?_
      refine .before (ih.check ctx argument domain) fun _ => ?_
      exact .after (.compute _) fun _ => .compute _
  | car pair =>
      refine .after (.record _) fun _ => .before (ih.synth ctx pair) fun pairType => ?_
      exact .after (expectSigma pairType) fun _ => .pure _
  | cdr pair =>
      refine .after (.record _) fun _ => .before (ih.synth ctx pair) fun pairType => ?_
      refine .after (expectSigma pairType) fun _ => .after (.compute _) fun _ => ?_
      exact .after (.compute _) fun _ => .compute _
  | indNat target motive base step =>
      rw [Term.free, List.append_assoc, List.append_assoc]
      refine .after (.record _) fun _ => .bind (ih.synth ctx target) fun targetType => ?_
      refine .after (expectNat targetType) fun _ => .bind (ih.check ctx motive _) fun _ => ?_
      refine .after (.compute _) fun motiveValue => .after (.compute _) fun baseType => ?_
      refine .bind (ih.check ctx base baseType) fun _ => .before (ih.check ctx step _) fun _ => ?_
      exact .after (.compute _) fun _ => .compute _
  | equal type left right =>
      rw [Term.free, List.append_assoc]
      refine .after (.record _) fun _ => .bind (ih.check ctx type .univ) fun _ => ?_
      refine .after (.compute _) fun typeValue => .bind (ih.check ctx left typeValue) fun _ => ?_
      exact .before (ih.check ctx right typeValue) fun _ => .pure _
  | replace target motive base =>
      rw [Term.free, List.append_assoc]
      refine .after (.record _) fun _ => .bind (ih.synth ctx target) fun targetType => ?_
      refine .after (expectEqual targetType) fun sides => ?_
      obtain ⟨type, left, right⟩ := sides
      refine .bind (ih.check ctx motive _) fun _ => .after (.compute _) fun motiveValue => ?_
      refine .after (.compute _) fun baseType => .before (ih.check ctx base baseType) fun _ => ?_
      exact .compute _
  | indAbsurd target motive =>
      refine .after (.record _) fun _ => .bind (ih.synth ctx target) fun targetType => ?_
      refine .after (expectAbsurd targetType) fun _ => ?_
      exact .before (ih.check ctx motive .univ) fun _ => .compute _
  | the type expr =>
      refine .after (.record _) fun _ => .bind (ih.check ctx type .univ) fun _ => ?_
      refine .after (.compute _) fun typeValue => ?_
      exact .before (ih.check ctx expr typeValue) fun _ => .pure _
  | nat | trivial | absurd | atom | univ => exact .after (.record _) fun _ => .pure _
  | lam | cons | zero | add1 | same | sole | tick =>
      exact .after (.record _) fun _ => .reject fun x same => by cases same

theorem check_succ (ih : ChecksInScope fuel) (ctx : Context) (term : Term) (type : Value) :
    ctx.Scopes term.free (ctx.check (fuel + 1) term type : Checking Unit) := by
  cases term with
  | lam x body =>
      refine .after (.record _) fun _ => .after (expectPi type) fun (domain, range) => ?_
      refine assume fun inner names => .after (.compute _) fun bodyType => ?_
      exact ih.check inner body bodyType
  | cons first second =>
      refine .after (.record _) fun _ => .after (expectSigma type) fun (carType, cdrType) => ?_
      refine .bind (ih.check ctx first carType) fun _ => .after (.compute _) fun firstValue => ?_
      exact .after (.compute _) fun secondType => ih.check ctx second secondType
  | zero => exact .after (.record _) fun _ => expectNat type
  | add1 predecessor =>
      refine .after (.record _) fun _ => .after (expectNat type) fun _ => ?_
      exact ih.check ctx predecessor .nat
  | same =>
      refine .after (.record _) fun _ => .after (expectEqual type) fun (type, left, right) => ?_
      exact convert type left right
  | sole => exact .after (.record _) fun _ => expectTrivial type
  | tick symbol => exact .after (.record _) fun _ => expectAtom type
  | _ =>
      refine .after (.record _) fun _ => .before (ih.synth ctx _) fun synthesized => ?_
      exact convert .univ synthesized type

end ChecksInScope

/-- Checking looks at every free variable of the term, whatever the fuel. -/
theorem checksInScope (fuel : Nat) : ChecksInScope fuel := by
  induction fuel with
  | zero => exact .zero
  | succ fuel ih => exact ⟨ih.synth_succ, ih.check_succ⟩

end LambdaCalculi.Dependent
