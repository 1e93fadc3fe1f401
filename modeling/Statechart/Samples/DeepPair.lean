import Statechart.Program.Compile

/-
  Two chains of nested states under the root, and an event that jumps between their innermost
  states: every flip leaves one whole chain and enters the other.
-/

namespace Statechart.Samples

/-- How many states were entered and left. A chain that can be built has at most 31 states, so each
flip adds at most 31 to a count: 64 bits would hold them for the first 2 ^ 59 flips. -/
structure Counters where
  enters : Nat := 0
  exits : Nat := 0
deriving DecidableEq

structure DeepPair where
  program : Program Counters
  flip : EventId
  leftLeaf : StateId
  rightLeaf : StateId

namespace DeepPair

def countEnter : Action Counters where
  run c := { c with enters := c.enters + 1 }

def countExit : Action Counters where
  run c := { c with exits := c.exits + 1 }

/-- Adds one level below the innermost state so far. -/
def addLevel (side : String) (acc : StateId × Draft Counters) (level : Nat) :
    StateId × Draft Counters :=
  let (s, d) := acc.2.state (side ++ Text.decimal level) acc.1
  (s, (d.onEnter s [.action countEnter]).onExit s [.action countExit])

/-- A chain under the root; its levels are numbered from 1. -/
def addChain (side : String) (depth : Nat) (d : Draft Counters) : StateId × Draft Counters :=
  ((List.range depth).map (· + 1)).foldl (addLevel side) (rootState, d)

end DeepPair

open DeepPair in
def deepPair (depth : Nat) : Except ModelError DeepPair := do
  let (jump, d) := (Draft.new "deep_pair").event "FLIP"
  let (leftLeaf, d) := addChain "L" depth d
  let (rightLeaf, d) := addChain "R" depth d
  let (start, d) := d.initial rootState
  let d := d.branch start [.to (.state leftLeaf)]
  let d := d.on leftLeaf jump [.to (.state rightLeaf)]
  let d := d.on rightLeaf jump [.to (.state leftLeaf)]
  return { program := ← d.compile, flip := jump, leftLeaf, rightLeaf }

end Statechart.Samples
