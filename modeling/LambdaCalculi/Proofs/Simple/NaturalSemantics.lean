import LambdaCalculi.Proofs.Simple.Nameless

/-!
# Evaluation of nameless terms as a relation

The values here are those of the evaluator with its names taken out: a function body is a nameless
term over the list of the values around it, and a variable that blocks a computation is a level, the
number of binders outside it. A level does not change when binders are added inside, so a value needs
no renumbering when it is used deeper. The relations have no bound on their depth; each gives at most
one result.
-/

set_option autoImplicit false

namespace LambdaCalculi.Simple.Leveled

mutual

inductive Value where
  | zero
  | add1 (predecessor : Value)
  | closure (env : List Value) (body : Nameless)
  | neutral (type : Ty) (blocked : Neutral)

inductive Neutral where
  | var (level : Nat)
  | app (function : Neutral) (domain : Ty) (argument : Value)
  | recNat (type : Ty) (target : Neutral) (base step : Value)

end

mutual

inductive Evaluates : List Value → Nameless → Value → Prop where
  | bound {env : List Value} {index : Nat} {value : Value} :
      env[index]? = some value → Evaluates env (.bound index) value
  | lam {env : List Value} {body : Nameless} : Evaluates env (.lam body) (.closure env body)
  | app {env : List Value} {function argument : Nameless} {functionValue argumentValue result : Value} :
      Evaluates env function functionValue → Evaluates env argument argumentValue →
      Applies functionValue argumentValue result → Evaluates env (.app function argument) result
  | zero {env : List Value} : Evaluates env .zero .zero
  | add1 {env : List Value} {predecessor : Nameless} {value : Value} :
      Evaluates env predecessor value → Evaluates env (.add1 predecessor) (.add1 value)
  | recNat {env : List Value} {type : Ty} {target base step : Nameless}
      {targetValue baseValue stepValue result : Value} :
      Evaluates env target targetValue → Evaluates env base baseValue →
      Evaluates env step stepValue → Recurses type baseValue stepValue targetValue result →
      Evaluates env (.recNat type target base step) result
  | ann {env : List Value} {expr : Nameless} {type : Ty} {value : Value} :
      Evaluates env expr value → Evaluates env (.ann expr type) value

inductive Applies : Value → Value → Value → Prop where
  | closure {env : List Value} {body : Nameless} {argument result : Value} :
      Evaluates (argument :: env) body result → Applies (.closure env body) argument result
  | neutral {domain codomain : Ty} {blocked : Neutral} {argument : Value} :
      Applies (.neutral (.arrow domain codomain) blocked) argument
        (.neutral codomain (.app blocked domain argument))

/-- Recursion on the target, which is the third value, gives the result. -/
inductive Recurses : Ty → Value → Value → Value → Value → Prop where
  | zero {type : Ty} {base step : Value} : Recurses type base step .zero base
  | add1 {type : Ty} {base step predecessor stepAtPredecessor almost result : Value} :
      Applies step predecessor stepAtPredecessor → Recurses type base step predecessor almost →
      Applies stepAtPredecessor almost result → Recurses type base step (.add1 predecessor) result
  | neutral {type : Ty} {base step : Value} {blocked : Neutral} :
      Recurses type base step (.neutral .nat blocked)
        (.neutral type (.recNat type blocked base step))

end

mutual

inductive ReadsBack : Nat → Ty → Value → Nameless → Prop where
  | zero {depth : Nat} : ReadsBack depth .nat .zero .zero
  | add1 {depth : Nat} {predecessor : Value} {term : Nameless} :
      ReadsBack depth .nat predecessor term → ReadsBack depth .nat (.add1 predecessor) (.add1 term)
  | neutral {depth : Nat} {blocked : Neutral} {term : Nameless} :
      NeutralReadsBack depth blocked term → ReadsBack depth .nat (.neutral .nat blocked) term
  | function {depth : Nat} {domain codomain : Ty} {function result : Value} {body : Nameless} :
      Applies function (.neutral domain (.var depth)) result →
      ReadsBack (depth + 1) codomain result body →
      ReadsBack depth (.arrow domain codomain) function (.lam body)

inductive NeutralReadsBack : Nat → Neutral → Nameless → Prop where
  | var {depth level : Nat} : NeutralReadsBack depth (.var level) (.bound (depth - (level + 1)))
  | app {depth : Nat} {function : Neutral} {domain : Ty} {argument : Value}
      {functionTerm argumentTerm : Nameless} :
      NeutralReadsBack depth function functionTerm → ReadsBack depth domain argument argumentTerm →
      NeutralReadsBack depth (.app function domain argument) (.app functionTerm argumentTerm)
  | recNat {depth : Nat} {type : Ty} {target : Neutral} {base step : Value}
      {targetTerm baseTerm stepTerm : Nameless} :
      NeutralReadsBack depth target targetTerm → ReadsBack depth type base baseTerm →
      ReadsBack depth type.step step stepTerm →
      NeutralReadsBack depth (.recNat type target base step)
        (.recNat type targetTerm baseTerm stepTerm)

end

mutual

theorem Evaluates.unique {env : List Value} {term : Nameless} {value : Value} :
    Evaluates env term value → ∀ {other : Value}, Evaluates env term other → value = other
  | .bound found, _, .bound otherFound => Option.some.inj (found.symm.trans otherFound)
  | .lam, _, .lam => rfl
  | .app function argument applies, _, .app otherFunction otherArgument otherApplies => by
      cases function.unique otherFunction
      cases argument.unique otherArgument
      exact applies.unique otherApplies
  | .zero, _, .zero => rfl
  | .add1 predecessor, _, .add1 otherPredecessor => by
      rw [predecessor.unique otherPredecessor]
  | .recNat target base step recurses, _, .recNat otherTarget otherBase otherStep otherRecurses => by
      cases target.unique otherTarget
      cases base.unique otherBase
      cases step.unique otherStep
      exact recurses.unique otherRecurses
  | .ann expr, _, .ann otherExpr => expr.unique otherExpr

theorem Applies.unique {function argument value : Value} :
    Applies function argument value → ∀ {other : Value}, Applies function argument other →
      value = other
  | .closure body, _, .closure otherBody => body.unique otherBody
  | .neutral, _, .neutral => rfl

theorem Recurses.unique {type : Ty} {base step target value : Value} :
    Recurses type base step target value → ∀ {other : Value},
      Recurses type base step target other → value = other
  | .zero, _, .zero => rfl
  | .add1 atPredecessor recurses applies, _,
      .add1 otherAtPredecessor otherRecurses otherApplies => by
      cases atPredecessor.unique otherAtPredecessor
      cases recurses.unique otherRecurses
      exact applies.unique otherApplies
  | .neutral, _, .neutral => rfl

end

mutual

theorem ReadsBack.unique {depth : Nat} {type : Ty} {value : Value} {term : Nameless} :
    ReadsBack depth type value term → ∀ {other : Nameless}, ReadsBack depth type value other →
      term = other
  | .zero, _, .zero => rfl
  | .add1 predecessor, _, .add1 otherPredecessor => by
      rw [predecessor.unique otherPredecessor]
  | .neutral blocked, _, .neutral otherBlocked => blocked.unique otherBlocked
  | .function applies body, _, .function otherApplies otherBody => by
      cases applies.unique otherApplies
      rw [body.unique otherBody]

theorem NeutralReadsBack.unique {depth : Nat} {blocked : Neutral} {term : Nameless} :
    NeutralReadsBack depth blocked term → ∀ {other : Nameless},
      NeutralReadsBack depth blocked other → term = other
  | .var, _, .var => rfl
  | .app function argument, _, .app otherFunction otherArgument => by
      rw [function.unique otherFunction, argument.unique otherArgument]
  | .recNat target base step, _, .recNat otherTarget otherBase otherStep => by
      rw [target.unique otherTarget, base.unique otherBase, step.unique otherStep]

end

end LambdaCalculi.Simple.Leveled
