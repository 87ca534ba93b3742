import LambdaCalculi.Dependent.ReadBack
import LambdaCalculi.Proofs.Dependent.Bounds
import LambdaCalculi.Proofs.Dependent.Coincidence
import LambdaCalculi.Proofs.Dependent.ReachableContexts
import LambdaCalculi.Proofs.Dependent.Settling

/-!
# Eta laws

Reading back is directed by the type. A function is read back by calling it on a new variable, so it
does not matter whether it is expanded already; the same goes for a pair and its components. All
members of `Trivial` are read back alike, and so are all blocked members of `Absurd` that are read back
at all.

An expanded function evaluates its body in an environment with one more binding. The value of the body
coincides with that of the original function, and values that coincide are read back to the same
term, names included, since names are chosen by the types and by the names taken.
-/

set_option autoImplicit false

namespace LambdaCalculi.Dependent

open Outcome

/-! ## Reading back values that coincide -/

structure Context.SameNames (ctx ctx' : Context) : Prop where
  entries : ctx.entries.map Entry.name = ctx'.entries.map Entry.name
  renamed : ctx.entries.filterMap Entry.renamed? = ctx'.entries.filterMap Entry.renamed?

namespace Context.SameNames

variable {ctx ctx' : Context}

theorem refl (ctx : Context) : ctx.SameNames ctx :=
  ⟨rfl, rfl⟩

theorem freshFor (same : ctx.SameNames ctx') (x : Name) : ctx.freshFor x = ctx'.freshFor x := by
  rw [Context.freshFor, Context.freshFor, names, names, same.entries, same.renamed]

theorem assume (same : ctx.SameNames ctx') (x : Name) (type type' : Value) :
    Alike (@Eq Stuck) SameNames (ctx.assume x type) (ctx'.assume x type') := by
  refine .done ⟨congrArg (x :: ·) same.entries, ?_⟩
  simp only [List.filterMap_cons, Entry.renamed?, same.freshFor x, same.renamed]

end Context.SameNames

def Reading.coincidence : Reading Comparison.lockstep where
  Scope := Unit
  relation _ := Linking.Evaluating.coincidence.correspondence
  contexts _ _ := Context.SameNames
  terms _ := Eq
  New _ := Eq
  below _ _ _ := ()
  contexts_mono _ := id
  new {_ _ ctx ctx' range range'} same coincides := by
    cases range with
    | mk env x body =>
        cases range' with
        | mk env' x' body' =>
            obtain ⟨rfl, _⟩ := Closure.coincides_iff.mp coincides
            exact same.freshFor x
  values_below _ _ _ := id
  closures_below _ _ _ := id
  names_below same := same
  assume := by
    rintro _ x _ rfl _ _ ctx ctx' type type' same _
    exact same.assume x type type'
  term built := by
    refine built.eq fun x _ replaced => ?_
    obtain ⟨_, rfl, rfl⟩ := replaced
    rfl

/-- Values that coincide are read back to the same term, at types that coincide. -/
theorem Context.SameNames.readBack {ctx ctx' : Context} (same : ctx.SameNames ctx')
    {type type' value value' : Value} (types : type.Coincides type') (values : value.Coincides value')
    (fuel : Nat) : (ctx.readBack fuel type value : Outcome Stuck Term) =
      ctx'.readBack fuel type' value' := by
  have contexts : Reading.coincidence.contexts () () ctx ctx' := same
  exact Alike.eq ((Reading.coincidence.readsBack fuel).readBack contexts types values)

/-! ## Functions -/

def Term.expanded (term : Term) (z : Name) : Term :=
  .lam z (.app term (.var z))

theorem Env.EvaluatesTo.newest {env : Env} {term : Term} {z : Name}
    (clear : env.Clear (term.expanded z)) (value : Value) : (env.extend z value).EvaluatesTo (.var z) value := by
  have clearOfOthers : (env.extend z value).Clear (.var z) :=
    DistinctFingerprints.mono clear (by simp [Term.expanded, Term.names])
  exact .var (clearOfOthers.lookup?.trans (by simp [innermost?_extend]))

/-- Where a function is called, its expansion can be called as well, and the results coincide. -/
theorem Env.expanded_applies {env : Env} {term : Term} {z : Name} (unused : z ∉ term.free)
    (clear : env.Clear (term.expanded z)) {valueFuel fuel : Nat} {value argument result : Value}
    (valueRun : (env.eval valueFuel term : Outcome Stuck Value) = .done value)
    (run : (value.apply fuel argument : Outcome Stuck Value) = .done result) :
    ∃ result', (Value.lam (.mk env z (.app term (.var z)))).AppliesTo argument result' ∧
      result.Coincides result' := by
  have hidesNone : ∀ y ∈ term.names, z.fingerprint = y.fingerprint → z = y := by
    intro y mem
    exact clear z (by simp [Term.expanded, Term.names]) y (by simp [Term.expanded, Term.names, mem])
  -- One binding more does not matter to the function, and so not to what it returns.
  have coincides : env.CoincidesAt term (env.extend z argument) := .more env argument unused hidesNone
  obtain ⟨value', valueRun', valuesCoincide⟩ :=
    (coincides.eval valueFuel).of_done valueRun
  obtain ⟨result', run', resultsCoincide⟩ :=
    (Value.apply_coincides fuel valuesCoincide argument.coincides_refl).of_done run
  have evaluates : (env.extend z argument).EvaluatesTo term value' :=
    .of_done (fun fuel => Env.eval_below fuel _ term) valueRun'
  have applies : value'.AppliesTo argument result' :=
    .of_done (fun fuel => Value.apply_below fuel value' argument) run'
  have calls := evaluates.app (.newest clear argument) applies
  exact ⟨result', calls.instantiates.applies, resultsCoincide⟩

theorem Context.readBack_expanded {ctx : Context} {term : Term} {z : Name} (unused : z ∉ term.free)
    (clear : ctx.env.Clear (term.expanded z)) {domain value : Value} {range : Closure}
    {normal : Term} {valueFuel fuel : Nat}
    (valueRun : (ctx.eval valueFuel term : Outcome Stuck Value) = .done value)
    (run : (ctx.readBack fuel (.pi domain range) value : Outcome Stuck Term) = .done normal) :
    ∃ value', ctx.env.EvaluatesTo (term.expanded z) value' ∧
      ctx.ReadsBackTo (.pi domain range) value' normal := by
  refine ⟨.lam (.mk ctx.env z (.app term (.var z))), .spend (.const _), ?_⟩
  cases fuel with
  | zero => simp [readBack] at run
  | succ fuel =>
      simp only [readBack, bind_eq_done_iff] at run
      obtain ⟨inner, assumed, bodyType, typeRun, body, bodyRun, bodyTerm, bodyRead, same⟩ := run
      cases same
      -- The name of the new variable comes from the type, so both functions are called on the same one.
      obtain ⟨body', applies, bodiesCoincide⟩ := Env.expanded_applies unused clear valueRun bodyRun
      have sameTerm :=
        (Context.SameNames.refl inner).readBack bodyType.coincides_refl bodiesCoincide fuel
      have assumes : Settles (fun _ => ctx.assume (ctx.freshFor range.binder) domain) (.done inner) :=
        ⟨0, fun _ _ => assumed⟩
      have typeSettles := Settles.of_done (fun fuel => Closure.instantiate_below fuel range _) typeRun
      have bodyReads : inner.ReadsBackTo bodyType body' bodyTerm :=
        .of_done (fun fuel => Context.readBack_below fuel inner bodyType body') (sameTerm.symm.trans bodyRead)
      refine .spend ?_
      simp only [readBack]
      exact assumes.bind (typeSettles.bind (applies.bind (bodyReads.bind (.const _))))

/-! ## Pairs -/

/-- A pair that is read back is read back in the same way when it is taken apart and put together. -/
theorem Context.readBack_repaired {ctx : Context} {term : Term} {carType value : Value}
    {cdrType : Closure} {normal : Term} {valueFuel fuel : Nat}
    (valueRun : (ctx.eval valueFuel term : Outcome Stuck Value) = .done value)
    (run : (ctx.readBack fuel (.sigma carType cdrType) value : Outcome Stuck Term) = .done normal) :
    ∃ value', ctx.env.EvaluatesTo (.cons (.car term) (.cdr term)) value' ∧
      ctx.ReadsBackTo (.sigma carType cdrType) value' normal := by
  have evaluates : ctx.env.EvaluatesTo term value :=
    .of_done (fun fuel => Env.eval_below fuel _ term) valueRun
  cases fuel with
  | zero => simp [readBack] at run
  | succ fuel =>
      simp only [readBack, bind_eq_done_iff] at run
      obtain ⟨first, firstRun, firstTerm, firstRead, secondType, typeRun, second, secondRun,
        secondTerm, secondRead, same⟩ := run
      cases same
      have carSettles : Settles (fun _ => (value.car : Outcome Stuck Value)) (.done first) :=
        ⟨0, fun _ _ => firstRun⟩
      have cdrSettles := Settles.of_done (fun fuel => Value.cdr_below fuel value) secondRun
      have typeInstantiates : cdrType.InstantiatesTo first secondType :=
        .of_done (fun fuel => Closure.instantiate_below fuel cdrType first) typeRun
      have firstReads : ctx.ReadsBackTo carType first firstTerm :=
        .of_done (fun fuel => Context.readBack_below fuel ctx carType first) firstRead
      have secondReads : ctx.ReadsBackTo secondType second secondTerm :=
        .of_done (fun fuel => Context.readBack_below fuel ctx secondType second) secondRead
      have carEvaluates : ctx.env.EvaluatesTo (.car term) first := .spend (evaluates.bind carSettles)
      have cdrEvaluates : ctx.env.EvaluatesTo (.cdr term) second := .spend (evaluates.bind cdrSettles)
      have secondAgain : Settles
          (fun fuel => ((Value.pair first second).cdr fuel : Outcome Stuck Value)) (.done second) :=
        .spend (.const _)
      refine ⟨.pair first second, .spend (carEvaluates.bind (cdrEvaluates.bind (.const _))), .spend ?_⟩
      exact firstReads.bind (typeInstantiates.bind (secondAgain.bind (secondReads.bind (.const _))))

/-! ## Members of `Trivial` and of `Absurd` -/

theorem Context.readsBackTo_trivial (ctx : Context) (value : Value) :
    ctx.ReadsBackTo .trivial value .sole :=
  .spend (.const _)

/-- A blocked member of `Absurd` is read back exactly when its computation is, with an annotation. -/
theorem Context.readsBackTo_absurd_iff {ctx : Context} {blocked : Neutral} {normal : Term} :
    ctx.ReadsBackTo .absurd (.neutral .absurd blocked) normal ↔
      ∃ inner, ctx.ReadsNeutralBackTo blocked inner ∧ normal = .the .absurd inner := by
  constructor
  · rintro ⟨bound, reads⟩
    have read := reads (bound + 1) (Nat.le_succ bound)
    simp only [readBack, bind_eq_done_iff] at read
    obtain ⟨inner, innerRead, same⟩ := read
    cases same
    exact ⟨inner, .of_done (fun fuel => Context.readBackNeutral_below fuel ctx blocked) innerRead, rfl⟩
  · rintro ⟨inner, innerReads, rfl⟩
    exact .spend (innerReads.bind (.const _))

theorem Term.the_absurd_alphaEquiv (left right : Term) :
    (Term.the .absurd left).alphaEquiv (.the .absurd right) = true := by
  simp [Term.alphaEquiv, Term.alphaEquivUnder]

/-! ## The laws -/

/-- A function is read back as its expansion is, whatever the new variable is called, and a pair as the
pair of its components; all values are read back alike at `Trivial`. A blocked member of `Absurd` is
read back at `Absurd` exactly when its computation is, and all that are read back are read back
alike. -/
theorem Context.readBack_eta_laws (ctx : Context) (term : Term) :
    (∀ (z : Name) (domain value : Value) (range : Closure) (normal : Term) (valueFuel fuel : Nat),
      z ∉ term.free → ctx.env.Clear (term.expanded z) →
      (ctx.eval valueFuel term : Outcome Stuck Value) = .done value →
      (ctx.readBack fuel (.pi domain range) value : Outcome Stuck Term) = .done normal →
      ∃ value', ctx.env.EvaluatesTo (term.expanded z) value' ∧
        ctx.ReadsBackTo (.pi domain range) value' normal) ∧
    (∀ (carType value : Value) (cdrType : Closure) (normal : Term) (valueFuel fuel : Nat),
      (ctx.eval valueFuel term : Outcome Stuck Value) = .done value →
      (ctx.readBack fuel (.sigma carType cdrType) value : Outcome Stuck Term) = .done normal →
      ∃ value', ctx.env.EvaluatesTo (.cons (.car term) (.cdr term)) value' ∧
        ctx.ReadsBackTo (.sigma carType cdrType) value' normal) ∧
    (∀ value value', ∃ normal normal', ctx.ReadsBackTo .trivial value normal ∧
      ctx.ReadsBackTo .trivial value' normal' ∧ normal.alphaEquiv normal' = true) ∧
    (∀ blocked, (∃ normal, ctx.ReadsBackTo .absurd (.neutral .absurd blocked) normal) ↔
      ∃ inner, ctx.ReadsNeutralBackTo blocked inner) ∧
    (∀ blocked blocked' normal normal', ctx.ReadsBackTo .absurd (.neutral .absurd blocked) normal →
      ctx.ReadsBackTo .absurd (.neutral .absurd blocked') normal' → normal.alphaEquiv normal' = true) := by
  refine ⟨?function, ?pair, ?trivial, ?absurd, ?absurdAlike⟩
  case function =>
    intro z domain value range normal valueFuel fuel unused clear valueRun run
    exact readBack_expanded unused clear valueRun run
  case pair =>
    intro carType value cdrType normal valueFuel fuel valueRun run
    exact readBack_repaired valueRun run
  case trivial =>
    intro value value'
    exact ⟨.sole, .sole, readsBackTo_trivial ctx value, readsBackTo_trivial ctx value', rfl⟩
  case absurd =>
    intro blocked
    constructor
    · rintro ⟨normal, reads⟩
      obtain ⟨inner, innerReads, -⟩ := readsBackTo_absurd_iff.mp reads
      exact ⟨inner, innerReads⟩
    · rintro ⟨inner, innerReads⟩
      exact ⟨.the .absurd inner, readsBackTo_absurd_iff.mpr ⟨inner, innerReads, rfl⟩⟩
  case absurdAlike =>
    intro blocked blocked' normal normal' reads reads'
    obtain ⟨inner, -, rfl⟩ := readsBackTo_absurd_iff.mp reads
    obtain ⟨inner', -, rfl⟩ := readsBackTo_absurd_iff.mp reads'
    exact Term.the_absurd_alphaEquiv inner inner'

/-- Variables of type `(Π ((n Nat)) (Σ ((l Nat)) Nat))` and `(Π ((n Nat)) Absurd)`. -/
def splitter : Context :=
  (Context.empty.adding "split"
    (.assumed (.pi .nat (.mk .nil "n" (.sigma "l" .nat .nat))) "split")).adding "refute"
      (.assumed (.pi .nat (.mk .nil "n" .absurd)) "refute")

/-- The first variable has an expansion at its own type and, once called, at the type of its results.
At `Trivial` both variables are read back alike, and at `Absurd` any two calls of the second. -/
theorem splitter_readBack_eta :
    (∃ value, splitter.env.EvaluatesTo ((Term.var "split").expanded "z") value ∧
      splitter.ReadsBackTo (.pi .nat (.mk .nil "n" (.sigma "l" .nat .nat))) value
        (.lam "n" (.cons (.car (.app (.var "split") (.var "n")))
          (.cdr (.app (.var "split") (.var "n")))))) ∧
    (∃ value, splitter.env.EvaluatesTo
        (.cons (.car (.app (.var "split") .zero)) (.cdr (.app (.var "split") .zero))) value ∧
      splitter.ReadsBackTo (.sigma .nat (.mk .nil "l" .nat)) value
        (.cons (.car (.app (.var "split") .zero)) (.cdr (.app (.var "split") .zero)))) ∧
    (∃ normal normal', splitter.ReadsBackTo .trivial (.ofVar .nat "split") normal ∧
      splitter.ReadsBackTo .trivial (.ofVar .nat "refute") normal' ∧
      normal.alphaEquiv normal' = true) ∧
    ∃ normal normal',
      splitter.ReadsBackTo .absurd (.neutral .absurd (.app (.var "refute") (.mk .nat .zero))) normal ∧
      splitter.ReadsBackTo .absurd
        (.neutral .absurd (.app (.var "refute") (.mk .nat (.add1 .zero)))) normal' ∧
      normal.alphaEquiv normal' = true := by
  obtain ⟨function, -, trivial, absurd, alike⟩ := splitter.readBack_eta_laws (.var "split")
  obtain ⟨-, pair, -, -, -⟩ := splitter.readBack_eta_laws (.app (.var "split") .zero)
  have clear : splitter.env.Clear ((Term.var "split").expanded "z") := by
    rw [Env.Clear]
    decide +kernel
  refine ⟨function "z" _ _ _ _ 5 9 (by decide) clear rfl (by decide +kernel),
    pair _ _ _ _ 5 9 rfl (by decide +kernel), trivial _ _, ?_⟩
  have called : (splitter.readBackNeutral 5 (.app (.var "refute") (.mk .nat .zero)) :
      Outcome Stuck Term) = .done (.app (.var "refute") .zero) := rfl
  have called' : (splitter.readBackNeutral 5 (.app (.var "refute") (.mk .nat (.add1 .zero))) :
      Outcome Stuck Term) = .done (.app (.var "refute") (.add1 .zero)) := rfl
  have below := fun blocked fuel => Context.readBackNeutral_below fuel splitter blocked
  obtain ⟨normal, reads⟩ := (absurd _).mpr ⟨_, .of_done (below _) called⟩
  obtain ⟨normal', reads'⟩ := (absurd _).mpr ⟨_, .of_done (below _) called'⟩
  exact ⟨normal, normal', reads, reads', alike _ _ _ _ reads reads'⟩

/-- A call with an argument of another type is a blocked member of `Absurd` all the same, but its
argument has no normal form at the type that the function asks for. -/
theorem misapplied_call_not_read_back :
    splitter.Reachable ∧ ∃ blocked,
      splitter.env.EvaluatesTo (.app (.var "refute") .sole) (.neutral .absurd blocked) ∧
      Settles (fun fuel => (splitter.readBack fuel .absurd (.neutral .absurd blocked) :
        Outcome Stuck Term)) (.failed .readBack) ∧
      ¬∃ normal, splitter.ReadsBackTo .absurd (.neutral .absurd blocked) normal := by
  have evaluated : (splitter.env.eval 5 (.app (.var "refute") .sole) : Outcome Stuck Value) =
      .done (.neutral .absurd (.app (.var "refute") (.mk .nat .sole))) := rfl
  have stuck : (splitter.readBack 5 .absurd
      (.neutral .absurd (.app (.var "refute") (.mk .nat .sole))) : Outcome Stuck Term) =
      .failed .readBack := rfl
  have settled := Settles.of_not_exhausted
    (fun fuel => Context.readBack_below fuel splitter .absurd _) stuck (by simp)
  refine ⟨?_, _, .of_done (fun fuel => Env.eval_below fuel _ _) evaluated, settled, ?_⟩
  · have assumed : (Context.empty.assume "split"
        (.pi .nat (.mk .nil "n" (.sigma "l" .nat .nat))) : Outcome Stuck Context) = .done _ := rfl
    have assumed' : ((Context.empty.adding "split"
        (.assumed (.pi .nat (.mk .nil "n" (.sigma "l" .nat .nat))) "split")).assume "refute"
          (.pi .nat (.mk .nil "n" .absurd)) : Outcome Stuck Context) = .done splitter := rfl
    exact (Relation.ReflTransGen.single (.assume assumed)).tail (.assume assumed')
  · rintro ⟨normal, reads⟩
    cases settled.unique reads

end LambdaCalculi.Dependent
