import LambdaCalculi.Dependent.NatEquality
import LambdaCalculi.Simple.Arithmetic
import LambdaCalculi.Untyped.Church

/-!
# Example programs

A few programs over the definitions that come with each calculus, to be run from the command line.
-/

set_option autoImplicit false

namespace LambdaCalculi.CommandLine

inductive AnyProgram where
  | untyped (program : Untyped.Program)
  | simple (program : Simple.Program)
  | dependent (program : Dependent.Program)
deriving DecidableEq, Repr

/-- What a run leaves behind: the trace of the type checker and the result, shown in two ways, or
the message of what went wrong. -/
structure Transcript where
  trace : String
  outcome : Outcome String (String × String)
deriving DecidableEq, Repr

def AnyProgram.run (fuel : Nat) : AnyProgram → Transcript
  | untyped program =>
      ⟨"", (program.run fuel).mapFault Untyped.UnboundVariable.message >>= fun result =>
        return (result.render, reprStr result)⟩
  | simple program =>
      ⟨"", (program.run fuel).mapFault Simple.Fault.message >>= fun result =>
        return (result.render, reprStr result)⟩
  | dependent program =>
      let traced : Dependent.Checking Dependent.NormalForm := program.run fuel
      ⟨Dependent.renderTrace traced.events,
        traced.outcome.mapFault Dependent.Fault.message >>= fun result =>
          return (result.annotated.render, reprStr result.annotated)⟩

structure Example where
  name : String
  summary : String
  program : AnyProgram
deriving DecidableEq, Repr

namespace Example

def church (name summary : String) (body : Untyped.Term) : Example :=
  ⟨name, summary, .untyped ⟨Untyped.Church.definitions, body⟩⟩

def arithmetic (name summary : String) (body : Simple.Term) : Example :=
  ⟨name, summary, .simple ⟨Simple.Arithmetic.definitions, body⟩⟩

def natEquality (name summary : String) (body : Dependent.Term) : Example :=
  ⟨name, summary, .dependent ⟨Dependent.NatEquality.definitions, body⟩⟩

def all : List Example :=
  [church "church" "Church numeral 2 + 3"
      (.app (.app (.var "+") (Untyped.Church.ofNat 2)) (Untyped.Church.ofNat 3)),
    arithmetic "plus" "+ on Nat, by rec-Nat"
      (.var "+"),
    arithmetic "plus-three" "+ partially applied to three"
      (.app (.var "+") (.var "three")),
    arithmetic "five" "three + two"
      (.app (.app (.var "+") (.var "three")) (.var "two")),
    natEquality "refl" "nat=consequence-refl applied to two"
      (.app (.var "nat=consequence-refl") (.var "two")),
    natEquality "zero-one" "consequences of zero being one"
      (.app (.app (.var "there-are-consequences") .zero) (.add1 .zero)),
    natEquality "three-two" "consequences of three being two"
      (.app (.app (.var "there-are-consequences") (.var "three")) (.var "two"))]

/-- The line that lists the example, its name padded to a column of fourteen characters. -/
def listing (entry : Example) : String :=
  entry.name.pushn ' ' (14 - entry.name.length) ++ " " ++ entry.summary ++ "\n"

end Example

end LambdaCalculi.CommandLine
