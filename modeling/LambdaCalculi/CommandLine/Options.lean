import LambdaCalculi.Text.Quoted

/-!
# Options of the command line

An option is written with one dash or two. `v`, `list` and `dump` are switches, which may be given
a truth value after an equals sign; `example` takes a name, after an equals sign or as the next
argument. Options end at the first argument that is not one, or after `--`. A later option
overrides an earlier one.
-/

set_option autoImplicit false

namespace LambdaCalculi.CommandLine

structure Options where
  verbose : Bool := false
  list : Bool := false
  /-- Show the syntax tree of the result instead of its written form. -/
  dump : Bool := false
  /-- The example to run; empty for none. -/
  exampleName : String := ""
deriving DecidableEq, Repr

inductive OptionError where
  /-- Not a mistake: the usage was asked for. -/
  | help
  | badSyntax (argument : String)
  | unknown (name : String)
  | badSwitch (name value : String)
  | missingValue (name : String)
deriving DecidableEq, Repr

def OptionError.message? : OptionError → Option String
  | help => none
  | badSyntax argument => some ("bad flag syntax: " ++ argument)
  | unknown name => some ("flag provided but not defined: -" ++ name)
  | badSwitch name value =>
      some ("invalid boolean value " ++ Text.quote value ++ " for -" ++ name ++ ": parse error")
  | missingValue name => some ("flag needs an argument: -" ++ name)

inductive Argument where
  /-- Anything that does not look like an option. -/
  | operand
  /-- The mark that ends the options. -/
  | terminator
  | option (name : String) (value? : Option String)
  | malformed
deriving DecidableEq, Repr

namespace Argument

/-- Reads what follows the dashes of an option: a name, and a value after the first equals sign. -/
def ofBody (body : List Char) : Argument :=
  match body with
  | [] => malformed
  | '-' :: _ => malformed
  | '=' :: _ => malformed
  | _ =>
      let name := String.ofList (body.takeWhile (· != '='))
      match body.dropWhile (· != '=') with
      | _ :: value => option name (some (String.ofList value))
      | [] => option name none

def ofString (argument : String) : Argument :=
  match argument.toList with
  | ['-', '-'] => terminator
  | '-' :: '-' :: body => ofBody body
  | '-' :: first :: body => ofBody (first :: body)
  | _ => operand

end Argument

def truthValue? (word : String) : Option Bool :=
  if word ∈ ["1", "t", "T", "true", "TRUE", "True"] then some true
  else if word ∈ ["0", "f", "F", "false", "FALSE", "False"] then some false
  else none

/-- The setting of a switch, which is on when no value is given. -/
def switchValue (name : String) : Option String → Except OptionError Bool
  | none => pure true
  | some word =>
      match truthValue? word with
      | some value => pure value
      | none => throw (.badSwitch name word)

/-- Reads the options at the start of the arguments and returns them with the other arguments. -/
def parseOptions (options : Options) : List String → Except OptionError (Options × List String)
  | [] => pure (options, [])
  | argument :: rest =>
      match Argument.ofString argument with
      | .operand => pure (options, argument :: rest)
      | .terminator => pure (options, rest)
      | .malformed => throw (.badSyntax argument)
      | .option "v" value? => do
          let verbose ← switchValue "v" value?
          parseOptions { options with verbose } rest
      | .option "list" value? => do
          let list ← switchValue "list" value?
          parseOptions { options with list } rest
      | .option "dump" value? => do
          let dump ← switchValue "dump" value?
          parseOptions { options with dump } rest
      | .option "example" (some exampleName) => parseOptions { options with exampleName } rest
      | .option "example" none =>
          match rest with
          | [] => throw (.missingValue "example")
          | exampleName :: rest => parseOptions { options with exampleName } rest
      | .option "h" _ => throw .help
      | .option "help" _ => throw .help
      | .option name _ => throw (.unknown name)

end LambdaCalculi.CommandLine
