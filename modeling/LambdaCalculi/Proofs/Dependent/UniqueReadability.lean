import LambdaCalculi.Proofs.Dependent.Fingerprints
import LambdaCalculi.Proofs.Text.Written

/-!
# Written terms can be read

The written form of a term is a word or a group. Its division into words and groups is determined by
its characters, and the term by the division: a group with one member after the first is an
application unless it begins with `car`, `cdr` or `add1`, and a larger one is told by its first word
and its size. So a term whose names have no other use in the notation is the only one with its
written form.
-/

set_option autoImplicit false

namespace LambdaCalculi.Dependent

open Text (Written Undivided)

/-! ## Names that fit the notation -/

def reservedWords : List String :=
  ["Nat", "zero", "same", "Trivial", "sole", "Absurd", "Atom", "U", "car", "cdr", "add1"]

/-- The name is a word that has no other meaning in the notation. -/
def PlainName (x : Name) : Prop :=
  x ≠ "" ∧ Undivided x ∧ x.toList.head? ≠ some '\'' ∧ x ∉ reservedWords

instance : DecidablePred PlainName := fun x =>
  inferInstanceAs (Decidable (x ≠ "" ∧ Undivided x ∧ x.toList.head? ≠ some '\'' ∧ x ∉ reservedWords))

namespace Term

def symbols : Term → List String
  | tick symbol => [symbol]
  | pi _ domain range => domain.symbols ++ range.symbols
  | lam _ body => body.symbols
  | app function argument => function.symbols ++ argument.symbols
  | sigma _ carType cdrType => carType.symbols ++ cdrType.symbols
  | cons first second => first.symbols ++ second.symbols
  | car pair => pair.symbols
  | cdr pair => pair.symbols
  | add1 predecessor => predecessor.symbols
  | indNat target motive base step =>
      target.symbols ++ motive.symbols ++ base.symbols ++ step.symbols
  | equal type left right => type.symbols ++ left.symbols ++ right.symbols
  | replace target motive base => target.symbols ++ motive.symbols ++ base.symbols
  | indAbsurd target motive => target.symbols ++ motive.symbols
  | the type expr => type.symbols ++ expr.symbols
  | var _ | nat | zero | same | trivial | sole | absurd | atom | univ => []

/-- The names of variables and binders are plain, and the symbols of quoted atoms are undivided. -/
structure PlainlyNamed (term : Term) : Prop where
  names : ∀ x ∈ term.names, PlainName x
  symbols : ∀ symbol ∈ term.symbols, Undivided symbol

instance : DecidablePred PlainlyNamed := fun term =>
  decidable_of_iff
    ((∀ x ∈ term.names, PlainName x) ∧ ∀ symbol ∈ term.symbols, Undivided symbol)
    ⟨fun ⟨names, symbols⟩ => ⟨names, symbols⟩, fun plain => ⟨plain.names, plain.symbols⟩⟩

theorem PlainlyNamed.part {term part : Term} (plain : term.PlainlyNamed)
    (names : part.names ⊆ term.names := by simp +contextual [Term.names, List.subset_def])
    (symbols : part.symbols ⊆ term.symbols := by
      simp +contextual [Term.symbols, List.subset_def]) :
    part.PlainlyNamed :=
  ⟨fun x mem => plain.names x (names mem), fun symbol mem => plain.symbols symbol (symbols mem)⟩

/-! ## The division of a written term -/

def written : Term → Written
  | var x => .word x
  | pi x domain range =>
      .group (.word "Π") [.group (.group (.word x) [domain.written]) [], range.written]
  | lam x body => .group (.word "λ") [.group (.word x) [], body.written]
  | app function argument => .group function.written [argument.written]
  | sigma x carType cdrType =>
      .group (.word "Σ") [.group (.group (.word x) [carType.written]) [], cdrType.written]
  | cons first second => .group (.word "cons") [first.written, second.written]
  | car pair => .group (.word "car") [pair.written]
  | cdr pair => .group (.word "cdr") [pair.written]
  | nat => .word "Nat"
  | zero => .word "zero"
  | add1 predecessor => .group (.word "add1") [predecessor.written]
  | indNat target motive base step =>
      .group (.word "ind-Nat") [target.written, motive.written, base.written, step.written]
  | equal type left right => .group (.word "=") [type.written, left.written, right.written]
  | same => .word "same"
  | replace target motive base =>
      .group (.word "replace") [target.written, motive.written, base.written]
  | trivial => .word "Trivial"
  | sole => .word "sole"
  | absurd => .word "Absurd"
  | indAbsurd target motive => .group (.word "ind-Absurd") [target.written, motive.written]
  | atom => .word "Atom"
  | tick symbol => .word ("'" ++ symbol)
  | univ => .word "U"
  | the type expr => .group (.word "the") [type.written, expr.written]

theorem text_written (term : Term) : term.written.text = term.render.toList := by
  -- The equations of single constructors, with their long literals, take far more time than the whole.
  induction term <;> rw [render.eq_def] <;> simp [written, Written.text, Written.textRest, *]

theorem undivided_quoted {symbol : String} (undivided : Undivided symbol) :
    Undivided ("'" ++ symbol) := by
  intro char mem
  rw [String.toList_append, List.mem_append] at mem
  rcases mem with quote | inside
  · obtain rfl : char = '\'' := by simpa using quote
    rfl
  · exact undivided char inside

theorem PlainlyNamed.proper_written {term : Term} (plain : term.PlainlyNamed) :
    term.written.Proper := by
  induction term with
  | nat | zero | same | trivial | sole | absurd | atom | univ =>
      exact ⟨by decide, by decide⟩
  | var x =>
      have plainName := plain.names x (List.mem_singleton_self x)
      exact ⟨plainName.1, plainName.2.1⟩
  | tick symbol =>
      have undivided := plain.symbols symbol (List.mem_singleton_self symbol)
      exact ⟨by simp, undivided_quoted undivided⟩
  | pi x domain range domainIH rangeIH | sigma x domain range domainIH rangeIH =>
      have plainName := plain.names x List.mem_cons_self
      exact ⟨⟨by decide, by decide⟩,
        ⟨⟨⟨plainName.1, plainName.2.1⟩, domainIH plain.part, True.intro⟩, True.intro⟩,
        rangeIH plain.part, True.intro⟩
  | lam x body bodyIH =>
      have plainName := plain.names x List.mem_cons_self
      exact ⟨⟨by decide, by decide⟩, ⟨⟨plainName.1, plainName.2.1⟩, True.intro⟩,
        bodyIH plain.part, True.intro⟩
  | app function argument functionIH argumentIH =>
      exact ⟨functionIH plain.part, argumentIH plain.part, True.intro⟩
  | car part ih | cdr part ih | add1 part ih =>
      exact ⟨⟨by decide, by decide⟩, ih plain.part, True.intro⟩
  | cons first second firstIH secondIH | indAbsurd first second firstIH secondIH
  | the first second firstIH secondIH =>
      exact ⟨⟨by decide, by decide⟩, firstIH plain.part, secondIH plain.part, True.intro⟩
  | equal first second third firstIH secondIH thirdIH
  | replace first second third firstIH secondIH thirdIH =>
      exact ⟨⟨by decide, by decide⟩, firstIH plain.part, secondIH plain.part, thirdIH plain.part,
        True.intro⟩
  | indNat target motive base step targetIH motiveIH baseIH stepIH =>
      exact ⟨⟨by decide, by decide⟩, targetIH plain.part, motiveIH plain.part, baseIH plain.part,
        stepIH plain.part, True.intro⟩

/-! ## Reading -/

def constants : List (String × Term) :=
  [("Nat", nat), ("zero", zero), ("same", same), ("Trivial", trivial), ("sole", sole),
    ("Absurd", absurd), ("Atom", atom), ("U", univ)]

/-- The quoted atom, the constant or the variable that a word stands for. -/
def ofWord (text : String) : Term :=
  match text.toList with
  | '\'' :: symbol => tick (.ofList symbol)
  | _ => (constants.lookup text).getD (var text)

def ofWritten? : Written → Option Term
  | .word text => some (ofWord text)
  | .group (.word "Π") [.group (.group (.word x) [domain]) [], range] => do
      return pi x (← ofWritten? domain) (← ofWritten? range)
  | .group (.word "λ") [.group (.word x) [], body] => do
      return lam x (← ofWritten? body)
  | .group (.word "Σ") [.group (.group (.word x) [carType]) [], cdrType] => do
      return sigma x (← ofWritten? carType) (← ofWritten? cdrType)
  | .group (.word "cons") [first, second] => do
      return cons (← ofWritten? first) (← ofWritten? second)
  | .group (.word "ind-Absurd") [target, motive] => do
      return indAbsurd (← ofWritten? target) (← ofWritten? motive)
  | .group (.word "the") [type, expr] => do
      return the (← ofWritten? type) (← ofWritten? expr)
  | .group (.word "=") [type, left, right] => do
      return equal (← ofWritten? type) (← ofWritten? left) (← ofWritten? right)
  | .group (.word "replace") [target, motive, base] => do
      return replace (← ofWritten? target) (← ofWritten? motive) (← ofWritten? base)
  | .group (.word "ind-Nat") [target, motive, base, step] => do
      return indNat (← ofWritten? target) (← ofWritten? motive) (← ofWritten? base)
        (← ofWritten? step)
  | .group (.word "car") [pair] => do
      return car (← ofWritten? pair)
  | .group (.word "cdr") [pair] => do
      return cdr (← ofWritten? pair)
  | .group (.word "add1") [predecessor] => do
      return add1 (← ofWritten? predecessor)
  | .group function [argument] => do
      return app (← ofWritten? function) (← ofWritten? argument)
  | .group _ _ => none

theorem ofWord_quoted (symbol : String) : ofWord ("'" ++ symbol) = tick symbol := by
  have spelled : ("'" ++ symbol).toList = '\'' :: symbol.toList := by simp
  unfold ofWord
  rw [spelled]
  simp

theorem ofWord_plain {x : Name} (plain : PlainName x) : ofWord x = var x := by
  obtain ⟨_, _, unquoted, unreserved⟩ := plain
  have reserved : ∀ constant ∈ constants, constant.1 ∈ reservedWords := by decide
  have unknown : constants.lookup x = none := by
    rw [List.lookup_eq_none_iff]
    intro constant mem
    exact bne_iff_ne.mpr fun same => unreserved (same ▸ reserved constant mem)
  unfold ofWord
  split
  · next quoted =>
      rw [quoted] at unquoted
      exact (unquoted rfl).elim
  · rw [unknown, Option.getD_none]

/-- No function is written like an operator on one argument: it would be the variable of that name. -/
theorem PlainlyNamed.written_ne_operator {function : Term} (plain : function.PlainlyNamed)
    (reads : ofWritten? function.written = some function) :
    ∀ operator ∈ ["car", "cdr", "add1"], function.written ≠ .word operator := by
  intro operator mem same
  have asVariable : ∀ operator ∈ ["car", "cdr", "add1"],
      ofWord operator = var operator ∧ operator ∈ reservedWords := by
    decide
  obtain ⟨readsVariable, reserved⟩ := asVariable operator mem
  rw [same, ofWritten?, readsVariable, Option.some.injEq] at reads
  subst reads
  exact (plain.names operator (List.mem_singleton_self operator)).2.2.2 reserved

theorem PlainlyNamed.ofWritten?_written {term : Term} (plain : term.PlainlyNamed) :
    ofWritten? term.written = some term := by
  induction term with
  | nat | zero | same | trivial | sole | absurd | atom | univ => rfl
  | var x => exact congrArg some (ofWord_plain (plain.names x (List.mem_singleton_self x)))
  | tick symbol => exact congrArg some (ofWord_quoted symbol)
  | pi x domain range domainIH rangeIH | sigma x domain range domainIH rangeIH =>
      simp [written, ofWritten?, domainIH plain.part, rangeIH plain.part]
  | lam x body bodyIH => simp [written, ofWritten?, bodyIH plain.part]
  | app function argument functionIH argumentIH =>
      have functionPlain : function.PlainlyNamed := plain.part
      have reads := functionIH functionPlain
      -- The first member is no operator, so of the patterns with two members the last one fits.
      have noOperator := functionPlain.written_ne_operator reads
      have noCar := noOperator "car" (by decide)
      have noCdr := noOperator "cdr" (by decide)
      have noAdd1 := noOperator "add1" (by decide)
      simp [written, ofWritten?, reads, argumentIH plain.part]
  | car part ih | cdr part ih | add1 part ih => simp [written, ofWritten?, ih plain.part]
  | cons first second firstIH secondIH | indAbsurd first second firstIH secondIH
  | the first second firstIH secondIH =>
      simp [written, ofWritten?, firstIH plain.part, secondIH plain.part]
  | equal first second third firstIH secondIH thirdIH
  | replace first second third firstIH secondIH thirdIH =>
      simp [written, ofWritten?, firstIH plain.part, secondIH plain.part, thirdIH plain.part]
  | indNat target motive base step targetIH motiveIH baseIH stepIH =>
      simp [written, ofWritten?, targetIH plain.part, motiveIH plain.part, baseIH plain.part,
        stepIH plain.part]

/-- Terms with plain names have the same written form only if they are the same. -/
theorem render_eq_iff {left right : Term} (leftPlain : left.PlainlyNamed)
    (rightPlain : right.PlainlyNamed) : left.render = right.render ↔ left = right := by
  refine ⟨fun sameText => ?_, fun sameTerm => congrArg render sameTerm⟩
  have sameWritten : left.written = right.written := by
    refine Written.text_inj leftPlain.proper_written rightPlain.proper_written ?_
    rw [text_written, text_written, sameText]
  have reads := leftPlain.ofWritten?_written
  rw [sameWritten, rightPlain.ofWritten?_written, Option.some.injEq] at reads
  exact reads.symm

/-- A variable with the name of an operator on two arguments, applied to two arguments, is not written
like the operator. -/
theorem appliedCons_render_eq_iff :
    let applied : Term := .app (.app (.var "cons") (.tick "")) (.lam "λ" (.var "λ"))
    let operator : Term := .cons (.tick "") (.lam "λ" (.var "λ"))
    applied.PlainlyNamed ∧ operator.PlainlyNamed ∧ applied.render = "((cons ') (λ (λ) λ))" ∧
      operator.render = "(cons ' (λ (λ) λ))" ∧
      (applied.render = operator.render ↔ applied = operator) := by
  intro applied operator
  have appliedPlain : applied.PlainlyNamed := by decide +kernel
  have operatorPlain : operator.PlainlyNamed := by decide +kernel
  exact ⟨appliedPlain, operatorPlain, by decide +kernel, by decide +kernel,
    render_eq_iff appliedPlain operatorPlain⟩

/-- The names of the larger operators are plain, but those of the operators on one argument are not:
a variable of such a name, applied, is written like the operator. -/
example : PlainName "cons" ∧ ¬ PlainName "car" ∧
    (app (var "car") (var "p")).render = (car (var "p")).render := by
  decide

end Term

end LambdaCalculi.Dependent
