import Statechart.Tasks.CommandLine

/-
  The command line. Tasks that need other programs are planned and reported, but this program starts
  none itself.
-/

open Statechart

def usage : String :=
  "Usage: <command>\n\nCommands:\n  ci [--target <target>]\n  test\n  bench [--smoke]\n  " ++
    "check-all\n  diagram [toy-workshop|blinky]\n  help\n"

def main (args : List String) : IO UInt32 := do
  match CommandLine.read args with
  | .help =>
    IO.print usage
    return 0
  | .usageError =>
    IO.eprint usage
    return 2
  | .task task =>
    let report := task.run fun _ _ => .notStarted "other programs cannot be started from here"
    IO.print report.stdout
    IO.eprint report.stderr
    return report.exitCode.toUInt32
