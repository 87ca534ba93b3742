import LambdaCalculi.Proofs.Untyped.Settling
import LambdaCalculi.Untyped.Church

/-!
# Arithmetic on Church numerals

The value of an arithmetic expression is a nest of closures that has the shape of the expression. All
that matters of it is what it does: applied to a blocked function and an argument, it applies the one
to the other as often as its number says. Successor and sum keep to this, and reading such a value
back applies it to two variables, which gives the numeral.
-/

set_option autoImplicit false

namespace LambdaCalculi.Untyped.Church

open Outcome

inductive Expression where
  | zero
  | add1 (predecessor : Expression)
  | plus (left right : Expression)
deriving DecidableEq, Repr

namespace Expression

def term : Expression → Term
  | zero => .var "zero"
  | add1 predecessor => .app (.var "add1") predecessor.term
  | plus left right => .app (.app (.var "+") left.term) right.term

def number : Expression → Nat
  | zero => 0
  | add1 predecessor => predecessor.number + 1
  | plus left right => left.number + right.number

def ofNat : Nat → Expression
  | 0 => zero
  | n + 1 => add1 (ofNat n)

theorem term_ofNat (n : Nat) : (ofNat n).term = Church.ofNat n := by
  induction n with
  | zero => rfl
  | succ n ih => rw [ofNat, term, ih, Church.ofNat]

theorem number_ofNat (n : Nat) : (ofNat n).number = n := by
  induction n with
  | zero => rfl
  | succ n ih => rw [ofNat, number, ih]

end Expression

/-! ## Values that count -/

def repeated (function : Neutral) (argument : Value) : Nat → Value
  | 0 => argument
  | n + 1 => .neutral (.app function (repeated function argument n))

theorem repeated_add (function : Neutral) (argument : Value) (m n : Nat) :
    repeated function (repeated function argument n) m = repeated function argument (m + n) := by
  induction m with
  | zero => rw [Nat.zero_add, repeated]
  | succ m ih => rw [repeated, ih, Nat.succ_add, repeated]

/-- The value is a function of `f` and `x` that, for a blocked `f`, applies it `n` times to `x`. -/
def Counts (value : Value) (n : Nat) : Prop :=
  ∃ env body, value = .closure env "f" (.lam "x" body) ∧
    ∀ (function : Neutral) (argument : Value),
      ((env.extend "f" (.neutral function)).extend "x" argument).EvaluatesTo body
        (repeated function argument n)

/-- A call of a value that counts, with a blocked function and an argument. -/
theorem Counts.call {value argumentValue : Value} {n : Nat} (counts : Counts value n) {env : Env}
    {counter function argument : Term} {blocked : Neutral}
    (counterEvaluates : env.EvaluatesTo counter value)
    (functionEvaluates : env.EvaluatesTo function (.neutral blocked))
    (argumentEvaluates : env.EvaluatesTo argument argumentValue) :
    env.EvaluatesTo (.app (.app counter function) argument) (repeated blocked argumentValue n) := by
  obtain ⟨captured, body, rfl, evaluates⟩ := counts
  have partlyApplied := counterEvaluates.app functionEvaluates (.closure (.lam _ "x" body))
  exact partlyApplied.app argumentEvaluates (.closure (evaluates blocked argumentValue))

theorem readsBack_repeated (n : Nat) (used : List Name) :
    (repeated (.var "f") (.ofVar "x") n).ReadsBackTo used (iterate n) := by
  induction n with
  | zero => exact .neutral (.var "x" used)
  | succ n ih => exact .neutral (.app (.var "f" used) ih)

/-- Where `f` and `x` are not in use, a value that counts reads back to the numeral. -/
theorem Counts.readsBack {value : Value} {n : Nat} (counts : Counts value n) {used : List Name}
    (newFunction : "f" ∉ used) (newArgument : "x" ∉ used) : value.ReadsBackTo used (numeral n) := by
  obtain ⟨env, body, rfl, evaluates⟩ := counts
  have apart : "x" ∉ "f" :: used := by
    simpa using newArgument
  refine .closure newFunction (.lam _ "x" body) (.closure apart ?_ (readsBack_repeated n _))
  exact evaluates (.var "f") (.ofVar "x")

/-! ## The definitions -/

structure Computes (env : Env) : Prop where
  zero : ∃ value, env.EvaluatesTo (.var "zero") value ∧ Counts value 0
  add1 : ∀ {term : Term} {value : Value} {n : Nat}, env.EvaluatesTo term value → Counts value n →
    ∃ result, env.EvaluatesTo (.app (.var "add1") term) result ∧ Counts result (n + 1)
  plus : ∀ {left right : Term} {leftValue rightValue : Value} {m n : Nat},
    env.EvaluatesTo left leftValue → Counts leftValue m →
    env.EvaluatesTo right rightValue → Counts rightValue n →
    ∃ result, env.EvaluatesTo (.app (.app (.var "+") left) right) result ∧ Counts result (m + n)

theorem definitions_compute :
    ∃ env, Settles (fun fuel => Program.env fuel definitions) (.done env) ∧ Computes env := by
  -- The definitions are functions, so their environment does not depend on the bound, and what it has
  -- for a name is found by computing.
  refine ⟨_, .spend (.const _), ?_, ?_, ?_⟩
  · exact ⟨_, .var rfl, _, _, rfl, fun function argument => .var rfl⟩
  · intro term value n evaluates counts
    refine ⟨_, .app (.var rfl) evaluates (.closure (.lam _ _ _)), _, _, rfl, ?_⟩
    intro function argument
    exact .app (.var rfl) (counts.call (.var rfl) (.var rfl) (.var rfl)) (.neutral function _)
  · intro left right leftValue rightValue m n leftEvaluates leftCounts rightEvaluates rightCounts
    refine ⟨_, .app (.app (.var rfl) leftEvaluates (.closure (.lam _ _ _))) rightEvaluates
      (.closure (.lam _ _ _)), _, _, rfl, ?_⟩
    intro function argument
    rw [← repeated_add]
    exact leftCounts.call (.var rfl) (.var rfl) (rightCounts.call (.var rfl) (.var rfl) (.var rfl))

theorem Computes.expression {env : Env} (computes : Computes env) (expression : Expression) :
    ∃ value, env.EvaluatesTo expression.term value ∧ Counts value expression.number := by
  induction expression with
  | zero => exact computes.zero
  | add1 predecessor ih =>
      obtain ⟨value, evaluates, counts⟩ := ih
      exact computes.add1 evaluates counts
  | plus left right leftIH rightIH =>
      obtain ⟨leftValue, leftEvaluates, leftCounts⟩ := leftIH
      obtain ⟨rightValue, rightEvaluates, rightCounts⟩ := rightIH
      exact computes.plus leftEvaluates leftCounts rightEvaluates rightCounts

theorem expression_settles (expression : Expression) :
    Settles (fun fuel => Program.run fuel ⟨definitions, expression.term⟩)
      (.done (numeral expression.number)) := by
  obtain ⟨env, defined, computes⟩ := definitions_compute
  obtain ⟨value, evaluates, counts⟩ := computes.expression expression
  have newFunction : "f" ∉ definitions.map Definition.name := by decide
  have newArgument : "x" ∉ definitions.map Definition.name := by decide
  exact defined.bind (evaluates.bind (counts.readsBack newFunction newArgument))

/-- Every expression of zero, successors and sums runs to the Church numeral of its number, names
included; so the sum of two integers written with the definitions runs to the numeral of their sum,
where negative ones count as zero. -/
theorem run_arithmetic :
    (∀ expression : Expression,
      Settles (fun fuel => Program.run fuel ⟨definitions, expression.term⟩)
        (.done (numeral expression.number))) ∧
    (∀ m n : Int,
      Settles (fun fuel => Program.run fuel ⟨definitions, .app (.app (.var "+") (ofInt m)) (ofInt n)⟩)
        (.done (numeralOfInt (max m 0 + max n 0)))) := by
  refine ⟨expression_settles, fun m n => ?_⟩
  have settled := expression_settles (.plus (.ofNat m.toNat) (.ofNat n.toNat))
  have sum : (max m 0 + max n 0).toNat = m.toNat + n.toNat := by omega
  rw [Expression.term, Expression.number, Expression.term_ofNat, Expression.term_ofNat,
    Expression.number_ofNat, Expression.number_ofNat, ← sum] at settled
  exact settled

end LambdaCalculi.Untyped.Church
