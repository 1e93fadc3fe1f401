import Statechart.Program.Diagram
import Statechart.Samples.Blinky
import Statechart.Samples.ToyWorkshop

/-
  The chores of the project. Each task is a list of steps: lines to print and commands to run. The
  first command that fails ends the task.
-/

namespace Statechart

/-- The charts that can be drawn. -/
inductive Sample where
  | toyWorkshop
  | blinky
deriving DecidableEq

inductive Task where
  | ci (target : String)
  | test
  | bench (smoke : Bool)
  | checkAll
  | diagram (sample : Sample)
deriving DecidableEq

/-- One run of the build tool. -/
structure Invocation where
  args : List String
  /-- The setting for smoke runs is given to it. -/
  smoke : Bool := false
deriving DecidableEq

def Invocation.tool : String := "cargo"

/-- How an invocation ended. -/
inductive Ending where
  | notStarted (cause : String)
  | exited (code : Nat) (stdout stderr : String)
deriving DecidableEq

inductive TaskError where
  | failed (command : Invocation) (stdout stderr : String)
  | notStarted (cause : String)
  | notCompiled (what : String) (cause : ModelError)
deriving DecidableEq

namespace TaskError

def message : TaskError → String
  | failed command stdout stderr =>
    "Command failed: " ++ " ".intercalate (Invocation.tool :: command.args) ++ "\nstdout: " ++
      stdout ++ "\nstderr: " ++ stderr
  | notStarted _ => "failed to spawn `" ++ Invocation.tool ++ "`"
  | notCompiled what _ => "compiling " ++ what

def cause? : TaskError → Option String
  | failed _ _ _ => none
  | notStarted cause => some cause
  | notCompiled _ cause => some cause.message

/-- What is printed when a task ends with this error. -/
def report (error : TaskError) : String :=
  "Error: " ++ error.message ++
    (match error.cause? with
      | some cause => "\n\nCaused by:\n    " ++ cause
      | none => "") ++ "\n"

end TaskError

inductive TaskStep where
  | print (line : String)
  | run (command : Invocation)
  | fail (error : TaskError)
deriving DecidableEq

namespace Task

def hostTarget : String := "x86_64-unknown-linux-gnu"

/-- Targets without an operating system; only the core is checked for them. -/
def embeddedTargets : List String := ["thumbv7m-none-eabi", "riscv32imac-unknown-none-elf"]

def testSteps : List TaskStep :=
  [.print "Running all tests...",
   .run { args := ["test", "-p", "strata-core", "--all-features"] },
   .run { args := ["test", "-p", "strata-tests"] },
   .run { args := ["test", "-p", "strata"] },
   .print "✓ All tests passed"]

def ciSteps (target : String) : List TaskStep :=
  .print ("Running CI for target: " ++ target) ::
    if embeddedTargets.contains target then
      [.run { args := ["check", "--target", target, "-p", "strata-core", "--no-default-features"] },
       .print ("✓ Embedded target " ++ target ++ " builds successfully")]
    else
      .run { args := ["check", "--workspace", "--all-targets"] } :: testSteps ++
        [.run { args := ["check", "-p", "strata-bench", "--benches"] },
         .print ("✓ Host target " ++ target ++ " passes all checks")]

def benchSteps (smoke : Bool) : List TaskStep :=
  if smoke then
    [.print "Running benchmarks in smoke mode...",
     .run { args := ["bench", "-p", "strata-bench", "--", "--test"], smoke },
     .print "✓ Every benchmark ran once"]
  else
    [.print "Running full benchmarks...",
     .run { args := ["bench", "-p", "strata-bench"] },
     .print "✓ Benchmarks completed"]

def checkAllSteps : List TaskStep :=
  ((hostTarget :: embeddedTargets).flatMap fun target =>
    .print ("Checking target: " ++ target) :: ciSteps target) ++
    [.print "✓ All targets check successfully"]

/-- The text of a program's diagram. -/
def diagramText {V : Type} (p : Program V) : String := p.diagram.json.pretty

def diagramStep {V : Type} (what : String) : Except ModelError (Program V) → TaskStep
  | .ok p => .print (diagramText p)
  | .error e => .fail (.notCompiled what e)

def steps : Task → List TaskStep
  | ci target => ciSteps target
  | test => testSteps
  | bench smoke => benchSteps smoke
  | checkAll => checkAllSteps
  | diagram .toyWorkshop => [diagramStep "the toy workshop" Samples.toyWorkshop]
  | diagram .blinky => [diagramStep "blinky" Samples.blinky]

end Task

/-- All that a task did. -/
structure TaskReport where
  exitCode : Nat
  stdout : String
  stderr : String
  /-- The commands that were started, in order. -/
  started : List Invocation
deriving DecidableEq

/-- Takes steps one after the other. `ending n` says how the `n`-th command ends, if it is this
one; `printed` and `started` is what has been done before. -/
def runSteps (ending : Nat → Invocation → Ending) :
    List TaskStep → (printed : String) → (started : List Invocation) → TaskReport
  | [], printed, started => ⟨0, printed, "", started⟩
  | .print line :: steps, printed, started =>
    runSteps ending steps (printed ++ line ++ "\n") started
  | .run command :: steps, printed, started =>
    match ending started.length command with
    | .notStarted cause => ⟨1, printed, (TaskError.notStarted cause).report, started⟩
    | .exited 0 _ _ => runSteps ending steps printed (started ++ [command])
    | .exited _ stdout stderr =>
      ⟨1, printed, (TaskError.failed command stdout stderr).report, started ++ [command]⟩
  | .fail error :: _, printed, started => ⟨1, printed, error.report, started⟩

def Task.run (task : Task) (ending : Nat → Invocation → Ending) : TaskReport :=
  runSteps ending task.steps "" []

end Statechart
