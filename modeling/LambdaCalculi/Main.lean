import LambdaCalculi.CommandLine.Command

/-!
# Entry point of the command
-/

set_option autoImplicit false

/-- Runs the command, writes its report and exits with its code. The depth of evaluation is bounded
far beyond what the examples need. -/
def main (arguments : List String) : IO UInt32 := do
  let report := LambdaCalculi.CommandLine.command 1000000 arguments
  IO.print report.stdout
  IO.eprint report.stderr
  return report.exitCode
