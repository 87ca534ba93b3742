import LambdaCalculi.Proofs.Dependent.Acceptance
import LambdaCalculi.Proofs.Dependent.NeutralVariables

/-!
# Canonical results

The context of a program holds only definitions, so no value met at the top of a run has a variable
in it and none is blocked. Read back, such a value shows a constructor of its type, and so does each
component of a pair. In particular nothing can be read back at the empty type.
-/

set_option autoImplicit false

namespace LambdaCalculi.Dependent

/-! ## Types found by the checker -/

structure Context.Within (allowed : Name → Prop) (ctx : Context) : Prop where
  types : ∀ entry ∈ ctx.entries, entry.binding.type.Within allowed
  env : ctx.env.Within allowed

namespace Context

variable {allowed : Name → Prop} {ctx : Context}

theorem Within.type? (inside : ctx.Within allowed) {x : Name} {type : Value}
    (found : ctx.type? x = some type) : type.Within allowed := by
  unfold Context.type? binding? at found
  simp only [Option.map_map, Option.map_eq_some_iff, Function.comp] at found
  obtain ⟨entry, isEntry, rfl⟩ := found
  exact inside.types entry (List.mem_of_find?_eq_some isEntry)

theorem Within.lookupType (inside : ctx.Within allowed) {x : Name} {type : Value}
    (run : (ctx.lookupType x : Checking Value).outcome = .done type) : type.Within allowed := by
  unfold Context.lookupType at run
  split at run
  · rename_i found
    cases run
    exact inside.type? found
  · cases run

theorem Within.synth (inside : ctx.Within allowed) (fuel : Nat) :
    ∀ {term : Term} {type : Value},
      (ctx.synth fuel term : Checking Value).outcome = .done type → type.Within allowed := by
  induction fuel with
  | zero =>
      intro term type run
      simp [Context.synth] at run
  | succ fuel smaller =>
      have evaluation := evaluatesWithin allowed fuel
      intro term type run
      cases synth_eq_done run with
      | var run => exact inside.lookupType run
      | former => exact True.intro
      | app functionRun argumentRun run =>
          exact evaluation.instantiate (smaller functionRun).2 (evaluation.eval inside.env argumentRun)
            run
      | car run => exact (smaller run).1
      | cdr pairRun valueRun firstRun run =>
          have firstInside := (evaluation.eval inside.env valueRun).car firstRun
          exact evaluation.instantiate (smaller pairRun).2 firstInside run
      | indNat motiveRun targetRun run =>
          exact evaluation.apply (evaluation.eval inside.env motiveRun)
            (evaluation.eval inside.env targetRun) run
      | replace targetRun motiveRun run =>
          exact evaluation.apply (evaluation.eval inside.env motiveRun) (smaller targetRun).2.2 run
      | indAbsurd run => exact evaluation.eval inside.env run
      | the run => exact evaluation.eval inside.env run

end Context

/-! ## Constructors -/

def Term.ofNat : Nat → Term
  | 0 => zero
  | n + 1 => add1 (ofNat n)

def Term.isTypeFormer : Term → Bool
  | pi _ _ _ => true
  | sigma _ _ _ => true
  | nat => true
  | equal _ _ _ => true
  | trivial => true
  | absurd => true
  | atom => true
  | univ => true
  | _ => false

/-- A numeral, a type, or another term that a constructor heads. Pairs are closed and have
components of this kind again. -/
inductive ConstructorHeaded : Term → Prop where
  | numeral (n : Nat) : ConstructorHeaded (.ofNat n)
  | tick (symbol : String) : ConstructorHeaded (.tick symbol)
  | sole : ConstructorHeaded .sole
  | same : ConstructorHeaded .same
  | lam (x : Name) (body : Term) : ConstructorHeaded (.lam x body)
  | cons {first second : Term} : first.Closed → ConstructorHeaded first → second.Closed →
      ConstructorHeaded second → ConstructorHeaded (.cons first second)
  | type {type : Term} : type.isTypeFormer = true → ConstructorHeaded type

/-- The term is headed by the constructor that the type demands; no other types demand any. -/
def Term.Demands : (type term : Term) → Prop
  | nat, term => ∃ n, term = ofNat n
  | atom, term => ∃ symbol, term = tick symbol
  | trivial, term => term = sole
  | equal _ _ _, term => term = same
  | pi _ _ _, term => ∃ x body, term = lam x body
  | sigma _ _ _, term => ∃ first second, term = cons first second ∧
      (first.Closed ∧ ConstructorHeaded first) ∧ second.Closed ∧ ConstructorHeaded second
  | univ, term => term.isTypeFormer = true
  | _, _ => False

/-- Whether a value is a type that a closed value may be read back at. -/
def Value.hasMembers : Value → Bool
  | pi _ _ => true
  | sigma _ _ => true
  | nat => true
  | equal _ _ _ => true
  | trivial => true
  | atom => true
  | univ => true
  | _ => false

abbrev Value.Closed (value : Value) : Prop :=
  value.Within fun _ => False

/-- A blocked computation has a variable in it, the one that blocks it. -/
theorem Neutral.not_closed : ∀ blocked : Neutral, ¬ blocked.Within fun _ => False
  | .var _, inside => inside
  | .app function _, inside => function.not_closed inside.1
  | .car pair, inside => pair.not_closed inside
  | .cdr pair, inside => pair.not_closed inside
  | .indNat target _ _ _, inside => target.not_closed inside.1
  | .replace target _ _, inside => target.not_closed inside.1
  | .indAbsurd target _, inside => target.not_closed inside.1

theorem Term.Within.closed {term : Term} (inside : term.Within fun _ => False) : term.Closed :=
  List.eq_nil_iff_forall_not_mem.mpr inside

namespace Context

variable {ctx : Context}

theorem readBackType_closed {fuel : Nat} {type : Value} {term : Term} (closed : type.Closed)
    (run : (ctx.readBackType fuel type : Outcome Stuck Term) = .done term) :
    term.isTypeFormer = true := by
  cases fuel with
  | zero => simp [readBackType] at run
  | succ fuel =>
      cases type with
      | neutral type blocked => exact absurd closed.2 blocked.not_closed
      | pi | sigma =>
          simp only [readBackType, Outcome.bind_eq_done_iff] at run
          obtain ⟨_, _, _, _, _, _, _, _, run⟩ := run
          cases run
          rfl
      | equal =>
          simp only [readBackType, Outcome.bind_eq_done_iff] at run
          obtain ⟨_, _, _, _, _, _, run⟩ := run
          cases run
          rfl
      | nat | trivial | absurd | atom | univ =>
          simp only [readBackType] at run
          cases run
          rfl
      | lam | pair | zero | add1 | same | sole | tick => simp [readBackType] at run

theorem readBack_nat_closed {fuel : Nat} : ∀ {value : Value} {term : Term}, value.Closed →
    (ctx.readBack fuel .nat value : Outcome Stuck Term) = .done term → ∃ n, term = .ofNat n := by
  induction fuel with
  | zero =>
      intro value term closed run
      simp [readBack] at run
  | succ fuel smaller =>
      intro value term closed run
      cases value with
      | zero =>
          simp only [readBack] at run
          cases run
          exact ⟨0, rfl⟩
      | add1 predecessor =>
          simp only [readBack, Outcome.bind_eq_done_iff] at run
          obtain ⟨predecessorTerm, predecessorRun, run⟩ := run
          cases run
          have predecessorClosed : predecessor.Closed := closed
          obtain ⟨n, rfl⟩ := smaller predecessorClosed predecessorRun
          exact ⟨n + 1, rfl⟩
      | neutral type blocked => exact absurd closed.2 blocked.not_closed
      | pi | lam | sigma | pair | nat | equal | same | trivial | sole | absurd | atom | tick |
        univ => simp [readBack] at run

theorem readBack_pi_eq_lam {fuel : Nat} {domain value : Value} {range : Closure} {term : Term}
    (run : (ctx.readBack fuel (.pi domain range) value : Outcome Stuck Term) = .done term) :
    ∃ x body, term = .lam x body := by
  cases fuel with
  | zero => simp [readBack] at run
  | succ fuel =>
      simp only [readBack, Outcome.bind_eq_done_iff] at run
      obtain ⟨_, _, _, _, _, _, body, _, run⟩ := run
      cases run
      exact ⟨_, body, rfl⟩

theorem readBack_trivial_eq_sole {fuel : Nat} {value : Value} {term : Term}
    (run : (ctx.readBack fuel .trivial value : Outcome Stuck Term) = .done term) :
    term = .sole := by
  cases fuel with
  | zero => simp [readBack] at run
  | succ fuel =>
      simp only [readBack] at run
      cases run
      rfl

theorem readBack_equal_closed {fuel : Nat} {type left right value : Value} {term : Term}
    (closed : value.Closed)
    (run : (ctx.readBack fuel (.equal type left right) value : Outcome Stuck Term) = .done term) :
    term = .same := by
  cases fuel with
  | zero => simp [readBack] at run
  | succ fuel =>
      cases value with
      | same =>
          simp only [readBack] at run
          cases run
          rfl
      | neutral type blocked => exact absurd closed.2 blocked.not_closed
      | pi | lam | sigma | pair | nat | zero | add1 | equal | trivial | sole | absurd | atom | tick |
        univ => simp [readBack] at run

theorem readBack_atom_closed {fuel : Nat} {value : Value} {term : Term} (closed : value.Closed)
    (run : (ctx.readBack fuel .atom value : Outcome Stuck Term) = .done term) :
    ∃ symbol, term = .tick symbol := by
  cases fuel with
  | zero => simp [readBack] at run
  | succ fuel =>
      cases value with
      | tick symbol =>
          simp only [readBack] at run
          cases run
          exact ⟨symbol, rfl⟩
      | neutral type blocked => exact absurd closed.2 blocked.not_closed
      | pi | lam | sigma | pair | nat | zero | add1 | equal | same | trivial | sole | absurd | atom |
        univ => simp [readBack] at run

theorem readBack_univ_closed {fuel : Nat} {value : Value} {term : Term} (closed : value.Closed)
    (run : (ctx.readBack fuel .univ value : Outcome Stuck Term) = .done term) :
    term.isTypeFormer = true := by
  cases fuel with
  | zero => simp [readBack] at run
  | succ fuel =>
      simp only [readBack] at run
      exact readBackType_closed closed run

/-- Nothing closed is read back at the empty type, nor at a value that is not a type. -/
theorem hasMembers_of_readBack_closed {fuel : Nat} {type value : Value} {term : Term}
    (typeClosed : type.Closed) (valueClosed : value.Closed)
    (run : (ctx.readBack fuel type value : Outcome Stuck Term) = .done term) :
    type.hasMembers = true := by
  cases fuel with
  | zero => simp [readBack] at run
  | succ fuel =>
      cases type with
      | pi | sigma | nat | equal | trivial | atom | univ => rfl
      | neutral _ blocked => exact absurd typeClosed.2 blocked.not_closed
      | lam | pair | zero | add1 | same | sole | absurd | tick =>
          cases value with
          | neutral _ blocked => exact absurd valueClosed.2 blocked.not_closed
          | pi | lam | sigma | pair | nat | zero | add1 | equal | same | trivial | sole | absurd |
            atom | tick | univ => simp [readBack] at run

theorem readBack_sigma_closed {fuel : Nat} {carType value : Value} {cdrType : Closure} {term : Term}
    (typeClosed : (Value.sigma carType cdrType).Closed) (valueClosed : value.Closed)
    (run : (ctx.readBack (fuel + 1) (.sigma carType cdrType) value : Outcome Stuck Term) =
      .done term) :
    ∃ firstTerm secondTerm first secondType second, term = .cons firstTerm secondTerm ∧
      first.Closed ∧ secondType.Closed ∧ second.Closed ∧
      (ctx.readBack fuel carType first : Outcome Stuck Term) = .done firstTerm ∧
      (ctx.readBack fuel secondType second : Outcome Stuck Term) = .done secondTerm := by
  simp only [readBack, Outcome.bind_eq_done_iff] at run
  obtain ⟨first, firstRun, firstTerm, firstTermRun, secondType, secondTypeRun, second, secondRun,
    secondTerm, secondTermRun, run⟩ := run
  cases run
  have firstClosed := valueClosed.car firstRun
  have secondTypeClosed :=
    (evaluatesWithin _ fuel).instantiate typeClosed.2 firstClosed secondTypeRun
  have secondClosed := (evaluatesWithin _ fuel).cdr valueClosed secondRun
  exact ⟨firstTerm, secondTerm, first, secondType, second, rfl, firstClosed, secondTypeClosed,
    secondClosed, firstTermRun, secondTermRun⟩

theorem readBack_closed {fuel : Nat} {type value : Value} {term : Term} (typeClosed : type.Closed)
    (valueClosed : value.Closed)
    (run : (ctx.readBack fuel type value : Outcome Stuck Term) = .done term) : term.Closed :=
  ((readsBackWithin fuel).readBack typeClosed valueClosed run).closed

theorem readBack_constructorHeaded {fuel : Nat} : ∀ {type value : Value} {term : Term},
    type.Closed → value.Closed →
    (ctx.readBack fuel type value : Outcome Stuck Term) = .done term → ConstructorHeaded term := by
  induction fuel with
  | zero =>
      intro type value term typeClosed valueClosed run
      simp [readBack] at run
  | succ fuel smaller =>
      intro type value term typeClosed valueClosed run
      have members := hasMembers_of_readBack_closed typeClosed valueClosed run
      cases type with
      | nat =>
          obtain ⟨n, rfl⟩ := readBack_nat_closed valueClosed run
          exact .numeral n
      | pi domain range =>
          obtain ⟨x, body, rfl⟩ := readBack_pi_eq_lam run
          exact .lam x body
      | sigma carType cdrType =>
          obtain ⟨firstTerm, secondTerm, first, secondType, second, rfl, firstClosed,
            secondTypeClosed, secondClosed, firstRun, secondRun⟩ :=
            readBack_sigma_closed typeClosed valueClosed run
          exact .cons (readBack_closed typeClosed.1 firstClosed firstRun)
            (smaller typeClosed.1 firstClosed firstRun)
            (readBack_closed secondTypeClosed secondClosed secondRun)
            (smaller secondTypeClosed secondClosed secondRun)
      | trivial => exact readBack_trivial_eq_sole run ▸ .sole
      | equal type left right => exact readBack_equal_closed valueClosed run ▸ .same
      | atom =>
          obtain ⟨symbol, rfl⟩ := readBack_atom_closed valueClosed run
          exact .tick symbol
      | univ => exact .type (readBack_univ_closed valueClosed run)
      | lam | pair | zero | add1 | same | sole | absurd | tick | neutral => cases members

/-- The normal form of a closed type demands the head of the normal forms of its members. -/
theorem demands_of_readBack {fuel typeFuel : Nat} {type value : Value} {typeTerm term : Term}
    (typeClosed : type.Closed) (valueClosed : value.Closed)
    (typeRun : (ctx.readBackType typeFuel type : Outcome Stuck Term) = .done typeTerm)
    (run : (ctx.readBack fuel type value : Outcome Stuck Term) = .done term) :
    typeTerm ≠ .absurd ∧ typeTerm.Demands term := by
  have members := hasMembers_of_readBack_closed typeClosed valueClosed run
  cases typeFuel with
  | zero => simp [readBackType] at typeRun
  | succ typeFuel =>
      cases type with
      | nat =>
          cases typeRun
          exact ⟨by simp, readBack_nat_closed valueClosed run⟩
      | pi domain range =>
          simp only [readBackType, Outcome.bind_eq_done_iff] at typeRun
          obtain ⟨_, _, _, _, _, _, _, _, typeRun⟩ := typeRun
          cases typeRun
          exact ⟨by simp, readBack_pi_eq_lam run⟩
      | sigma carType cdrType =>
          simp only [readBackType, Outcome.bind_eq_done_iff] at typeRun
          obtain ⟨_, _, _, _, _, _, _, _, typeRun⟩ := typeRun
          cases typeRun
          refine ⟨by simp, ?_⟩
          cases fuel with
          | zero => simp [readBack] at run
          | succ fuel =>
              obtain ⟨firstTerm, secondTerm, first, secondType, second, rfl, firstClosed,
                secondTypeClosed, secondClosed, firstRun, secondRun⟩ :=
                readBack_sigma_closed typeClosed valueClosed run
              exact ⟨firstTerm, secondTerm, rfl,
                ⟨readBack_closed typeClosed.1 firstClosed firstRun,
                  readBack_constructorHeaded typeClosed.1 firstClosed firstRun⟩,
                readBack_closed secondTypeClosed secondClosed secondRun,
                readBack_constructorHeaded secondTypeClosed secondClosed secondRun⟩
      | trivial =>
          cases typeRun
          exact ⟨by simp, readBack_trivial_eq_sole run⟩
      | equal type left right =>
          simp only [readBackType, Outcome.bind_eq_done_iff] at typeRun
          obtain ⟨_, _, _, _, _, _, typeRun⟩ := typeRun
          cases typeRun
          exact ⟨by simp, readBack_equal_closed valueClosed run⟩
      | atom =>
          cases typeRun
          exact ⟨by simp, readBack_atom_closed valueClosed run⟩
      | univ =>
          cases typeRun
          exact ⟨by simp, readBack_univ_closed valueClosed run⟩
      | lam | pair | zero | add1 | same | sole | absurd | tick | neutral => cases members

/-! ## Programs -/

theorem Within.addDefinition {allowed : Name → Prop} {fuel : Nat} {x : Name} {term : Term}
    {next : Context} (inside : ctx.Within allowed)
    (run : (ctx.addDefinition fuel x term : Checking Context).outcome = .done next) :
    next.Within allowed := by
  obtain ⟨type, value, _, typeRun, valueRun, rfl⟩ := addDefinition_eq_done run
  have typeInside := inside.synth fuel typeRun
  have valueInside := (evaluatesWithin allowed fuel).eval inside.env valueRun
  constructor
  · intro entry member
    rcases List.mem_cons.mp member with rfl | old
    · exact typeInside
    · exact inside.types entry old
  · exact ⟨valueInside, inside.env⟩

theorem Within.addDefinitions {allowed : Name → Prop} {fuel : Nat} :
    ∀ {definitions : List Definition} {ctx final : Context}, ctx.Within allowed →
      (ctx.addDefinitions fuel definitions : Checking Context).outcome = .done final →
      final.Within allowed := by
  intro definitions
  induction definitions with
  | nil =>
      intro ctx final inside run
      cases run
      exact inside
  | cons definition rest ih =>
      intro ctx final inside run
      obtain ⟨next, nextRun, run⟩ := addDefinitions_cons_eq_done run
      exact ih (inside.addDefinition nextRun) run

theorem Within.empty {allowed : Name → Prop} : Context.empty.Within allowed :=
  ⟨by simp [Context.empty], True.intro⟩

end Context

/-- The result of a program is closed. Its type is headed by a type former other than `Absurd`, and
its term by the constructor that the type demands. -/
theorem Program.result_canonical (program : Program) (fuel : Nat) (result : NormalForm)
    (run : (program.run fuel : Checking NormalForm).outcome = .done result) :
    result.type.Closed ∧ result.term.Closed ∧ result.type.isTypeFormer = true ∧
      result.type ≠ .absurd ∧ result.type.Demands result.term := by
  simp only [Program.run, Context.run, Traced.outcome_bind, Checking.outcome_compute,
    Outcome.bind_eq_done_iff, Outcome.mapFault_eq_done_iff] at run
  obtain ⟨ctx, definitionsRun, type, typeRun, value, valueRun, typeTerm, typeTermRun, term, termRun,
    run⟩ := run
  cases run
  have inside : ctx.Within fun _ => False := Context.Within.empty.addDefinitions definitionsRun
  have typeClosed : type.Closed := inside.synth fuel typeRun
  have valueClosed : value.Closed := (evaluatesWithin _ fuel).eval inside.env valueRun
  have typeTermClosed := ((readsBackWithin fuel).readBackType typeClosed typeTermRun).closed
  have termClosed := Context.readBack_closed typeClosed valueClosed termRun
  exact ⟨typeTermClosed, termClosed, Context.readBackType_closed typeClosed typeTermRun,
    Context.demands_of_readBack typeClosed valueClosed typeTermRun termRun⟩

def countedTwo : Program :=
  ⟨[⟨"two", .the .nat (.add1 (.add1 .zero))⟩],
    .the (.sigma "n" .nat (.equal .nat (.var "n") (.var "two")))
      (.cons (.indNat (.var "two") (.lam "k" .nat) .zero
        (.lam "k" (.lam "almost" (.add1 (.var "almost"))))) .same)⟩

theorem countedTwo_canonical :
    let result : NormalForm :=
      ⟨.sigma "n" .nat (.equal .nat (.var "n") (.ofNat 2)), .cons (.ofNat 2) .same⟩
    (countedTwo.run 12 : Checking NormalForm).outcome = .done result ∧
      result.type.Closed ∧ result.term.Closed ∧ result.type.isTypeFormer = true ∧
      result.type ≠ .absurd ∧ result.type.Demands result.term := by
  intro result
  have run : (countedTwo.run 12 : Checking NormalForm).outcome = .done result := by
    decide +kernel
  exact ⟨run, countedTwo.result_canonical 12 result run⟩

end LambdaCalculi.Dependent
