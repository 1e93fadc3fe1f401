/-
  The vocabulary of a statechart: what its nodes are called, what a transition may lead to, what
  makes a behavior run, and the sizes a chart may not exceed.
-/

namespace Statechart

/-- A state is named by its position among the declared states. -/
abbrev StateId := Nat

abbrev EventId := Nat

abbrev PseudoId := Nat

abbrev PlanId := Nat

abbrev HistoryId := Nat

/-- The state that holds all others. -/
def rootState : StateId := 0

/-- The event that every chart has: time passes, states do their work. -/
def doEvent : EventId := 0

/-- At most this many events, states, pseudostates and plans. -/
def maxNodes : Nat := 65535

/-- The greatest number that a span of the behavior table can hold. -/
def maxSpan : Nat := 4294967295

/-- Deepest nesting, the root included. -/
def maxDepth : Nat := 32

/-- Longest dotted priority. -/
def maxSegments : Nat := 8

/-- An end of a transition. -/
inductive Vertex where
  | state (s : StateId)
  | pseudo (p : PseudoId)
deriving DecidableEq

/-- A shallow history remembers the last active child of its container, a deep one the last active
descendant. -/
inductive HistoryDepth where
  | shallow
  | deep
deriving DecidableEq

inductive PseudoKind where
  | initial
  | choice
  | history (depth : HistoryDepth)
  /-- Extends the shallow history of an enclosing container into the owner. -/
  | historyContinue
  | entryPoint
  | exitPoint
deriving DecidableEq

namespace PseudoKind

def label : PseudoKind → String
  | initial => "initial"
  | choice => "choice"
  | history .shallow => "history"
  | history .deep => "deep history"
  | historyContinue => "history continue"
  | entryPoint => "entry point"
  | exitPoint => "exit point"

def isHistory : PseudoKind → Bool
  | history _ => true
  | _ => false

end PseudoKind

/-- The two ways of crossing the edge of a state. -/
inductive Boundary where
  | enter
  | exit
deriving DecidableEq

def Boundary.word : Boundary → String
  | enter => "enter"
  | exit => "exit"

/-- What makes a behavior run. -/
inductive Trigger where
  | boundary (b : Boundary)
  | event (e : EventId)
deriving DecidableEq

namespace Trigger

/-- A behavior without a trigger listens to `doEvent`. -/
def byDefault : Trigger := event doEvent

def event? : Trigger → Option EventId
  | event e => some e
  | boundary _ => none

end Trigger

end Statechart
