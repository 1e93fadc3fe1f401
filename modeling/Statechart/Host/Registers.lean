import Statechart.Host

/-
  A small host: the variables are numbered registers of 64-bit integers, guards compare a register
  with a number, actions are lists of assignments. Sums wrap around.
-/

namespace Statechart

/-- The registers of a machine, by number. -/
abbrev Registers := Array Int64

namespace Registers

/-- A register that does not exist reads as zero. -/
def read (vars : Registers) (i : Nat) : Int64 := vars.getD i 0

/-- Writing a register that does not exist changes nothing. -/
def write (vars : Registers) (i : Nat) (value : Int64) : Registers := vars.setIfInBounds i value

end Registers

/-- A condition on registers. -/
inductive Test where
  | const (value : Bool)
  | eq (register : Nat) (value : Int64)
  | lt (register : Nat) (value : Int64)
  | gt (register : Nat) (value : Int64)
  | not (test : Test)
  /-- Remarks a text, then tests. -/
  | seen (text : String) (test : Test)

namespace Test

def holds : Test → Registers → Bool
  | const value, _ => value
  | eq i n, vars => vars.read i == n
  | lt i n, vars => vars.read i < n
  | gt i n, vars => vars.read i > n
  | not test, vars => !test.holds vars
  | seen _ test, vars => test.holds vars

def remarks : Test → List String
  | not test => test.remarks
  | seen text test => text :: test.remarks
  | _ => []

def guard (test : Test) : Guard Registers where
  test := test.holds
  remarks _ := test.remarks

end Test

inductive Statement where
  | log (text : String)
  | add (register : Nat) (value : Int64)
  | set (register : Nat) (value : Int64)

namespace Statement

def run (vars : Registers) : Statement → Registers
  | log _ => vars
  | add i n => vars.write i (vars.read i + n)
  | set i n => vars.write i n

def remarks : Statement → Option String
  | log text => some text
  | _ => none

/-- Runs statements in order. -/
def action (statements : List Statement) : Action Registers where
  run vars := statements.foldl run vars
  remarks _ := statements.filterMap remarks

end Statement

end Statechart
