import Statechart.Tasks

/-
  Reading the command line of the tasks: the name of a task, then its own arguments. Options may
  stand anywhere before `--`; none may be given twice; a value that looks like an option has to be
  attached by an equals sign.
-/

namespace Statechart

inductive CommandLine where
  | task (task : Task)
  | help
  | usageError
deriving DecidableEq

/-- Which arguments a task takes. -/
structure TaskShape where
  target : Bool := false
  smoke : Bool := false
  sample : Bool := false

/-- Arguments read so far. -/
structure TaskArgs where
  target : Option String := none
  smoke : Bool := false
  sample : Option Sample := none

namespace CommandLine

def sampleNamed? : String → Option Sample
  | "toy-workshop" => some .toyWorkshop
  | "blinky" => some .blinky
  | _ => none

/-- The value of `--name=value`. -/
def attached? (option arg : String) : Option String :=
  let start := (option ++ "=").toList
  if start.isPrefixOf arg.toList then some (String.ofList (arg.toList.drop start.length)) else none

/-- A single dash is no option. -/
def looksLikeOption (arg : String) : Bool := arg.toList.head? == some '-' && arg != "-"

/-- Reads arguments; the outcome other than success is `help` or `usageError`. -/
def readArgs (shape : TaskShape) : (optionsEnded : Bool) → List String → TaskArgs →
    Except CommandLine TaskArgs
  | _, [], args => .ok args
  | ended, arg :: rest, args =>
    if ended || !looksLikeOption arg then
      match sampleNamed? arg with
      | some sample =>
        if shape.sample && args.sample.isNone then
          readArgs shape ended rest { args with sample := some sample }
        else .error usageError
      | none => .error usageError
    else if arg = "--" then readArgs shape true rest args
    else if arg = "--help" || "-h".toList.isPrefixOf arg.toList then .error help
    else if shape.target && args.target.isNone then
      match attached? "--target" arg with
      | some value => readArgs shape ended rest { args with target := some value }
      | none =>
        if arg = "--target" then
          match rest with
          | value :: rest =>
            if looksLikeOption value then .error usageError
            else readArgs shape ended rest { args with target := some value }
          | [] => .error usageError
        else .error usageError
    else if shape.smoke && !args.smoke && arg = "--smoke" then
      readArgs shape ended rest { args with smoke := true }
    else .error usageError

/-- The task of this name, with the arguments it takes. -/
def taskNamed? : String → Option (TaskShape × (TaskArgs → Task))
  | "ci" => some ({ target := true }, fun args => .ci (args.target.getD Task.hostTarget))
  | "test" => some ({}, fun _ => .test)
  | "bench" => some ({ smoke := true }, fun args => .bench args.smoke)
  | "check-all" => some ({}, fun _ => .checkAll)
  | "diagram" => some ({ sample := true }, fun args => .diagram (args.sample.getD .toyWorkshop))
  | _ => none

/-- Help on a task, on help itself, or on everything. -/
def readHelp : List String → CommandLine
  | [] => help
  | [name] => if (taskNamed? name).isSome || name = "help" then help else usageError
  | _ => usageError

def read : List String → CommandLine
  | [] => usageError
  | name :: rest =>
    if name = "help" then readHelp rest
    else
      match taskNamed? name with
      | some (shape, toTask) =>
        match readArgs shape false rest {} with
        | .ok args => task (toTask args)
        | .error outcome => outcome
      | none => if name = "--help" || "-h".toList.isPrefixOf name.toList then help else usageError

end CommandLine

end Statechart
