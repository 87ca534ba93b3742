import LambdaCalculi.CommandLine.Example
import LambdaCalculi.CommandLine.Options

/-!
# The command

The command lists the examples or runs one of them. What it writes and how it exits is a function
of its arguments alone.
-/

set_option autoImplicit false

namespace LambdaCalculi.CommandLine

/-- What a run of the command writes, and the code it exits with. -/
structure Report where
  exitCode : UInt32
  stdout : String
  stderr : String
deriving DecidableEq, Repr

def usage : String :=
  "usage: nbe [ -v ] [ -dump ] ( -list | -example name )\n\n" ++
    "nbe normalizes and type checks example programs in the untyped, simply typed and " ++
    "dependently typed lambda calculus.\n"

/-- The report for arguments that the command cannot use: a message, if any, and the usage. -/
def misuse (message? : Option String) : Report :=
  ⟨2, "", message?.elim "" (· ++ "\n") ++ usage⟩

def runExample (fuel : Nat) (options : Options) (entry : Example) : Report :=
  let transcript := entry.program.run fuel
  let trace := if options.verbose then transcript.trace else ""
  match transcript.outcome with
  | .done (written, tree) => ⟨0, (if options.dump then tree else written) ++ "\n", trace⟩
  | .failed message => ⟨1, "", trace ++ message ++ "\n"⟩
  | .exhausted => ⟨1, "", trace ++ "the evaluation is too deep\n"⟩

def unknownExample (name : String) : String :=
  "unknown example " ++ Text.quote name ++ ", want one of [" ++
    " ".intercalate (Example.all.map Example.name) ++ "]"

def command (fuel : Nat) (arguments : List String) : Report :=
  match parseOptions {} arguments with
  | .error error => misuse error.message?
  | .ok (_, _ :: _) => misuse none
  | .ok (options, []) =>
      if options.list then
        ⟨0, String.join (Example.all.map Example.listing), ""⟩
      else
        match Example.all.find? (·.name == options.exampleName) with
        | some entry => runExample fuel options entry
        | none =>
            if options.exampleName = "" then misuse none
            else ⟨1, "", unknownExample options.exampleName ++ "\n"⟩

end LambdaCalculi.CommandLine
