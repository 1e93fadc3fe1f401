import Statechart.Hierarchy
import Statechart.Host
import Statechart.Priority
import Statechart.Sort

/-
  A chart as it is declared: events, nested states with their behaviors, pseudostates with their
  branches. Nodes name each other by number; nothing here says that the numbers are in range.
-/

namespace Statechart

/-- One way out of a pseudostate. -/
structure Branch (V : Type) where
  priority : Priority := .unordered
  guard : Option (Guard V) := none
  action : Option (Action V) := none
  target : Option Vertex := none

/-- One rule of a state. -/
structure Behavior (V : Type) extends Branch V where
  trigger : Trigger
  consume : Consume V := .byDefault

/-- A branch without a guard is always open. -/
def Branch.isElse {V : Type} (b : Branch V) : Bool := b.guard.isNone

structure StateNode (V : Type) where
  name : String
  parent : Option StateId
  /-- In the order of declaration, like the pseudostates and the behaviors. -/
  children : Array StateId := #[]
  pseudostates : Array PseudoId := #[]
  behaviors : Array (Behavior V) := #[]

structure PseudoNode (V : Type) where
  kind : PseudoKind
  container : StateId
  /-- Only entry and exit points have a name. -/
  name : Option String := none
  branches : Array (Branch V) := #[]

structure Chart (V : Type) where
  name : String
  events : Array String
  states : Array (StateNode V)
  pseudostates : Array (PseudoNode V)

namespace Chart

variable {V : Type} (c : Chart V)

def stateIds : List StateId := List.range c.states.size

def eventIds : List EventId := List.range c.events.size

def pseudoIds : List PseudoId := List.range c.pseudostates.size

/-- The name of a state in messages. -/
def label (s : StateId) : String :=
  match c.states[s]? with
  | some node => node.name
  | none => "?"

def hierarchy : Hierarchy where
  parent := backward fun s => c.states[s]?.bind (·.parent)
  parent_lt := backward_lt
  label := c.label

def stateNamed? (name : String) : Option StateId := c.states.findIdx? (·.name == name)

def eventNamed? (name : String) : Option EventId := c.events.findIdx? (· == name)

def kind? (p : PseudoId) : Option PseudoKind := (c.pseudostates[p]?).map (·.kind)

/-- The pseudostates of `s`, in the order of declaration. -/
def owned (s : StateId) : List PseudoId :=
  match c.states[s]? with
  | some node => node.pseudostates.toList
  | none => []

/-- The first pseudostate of `s` of such a kind. -/
def find? (s : StateId) (kind : PseudoKind → Bool) : Option PseudoId :=
  (c.states[s]?).bind fun node => node.pseudostates.find? fun p => (c.kind? p).any kind

def initialOf (s : StateId) : Option PseudoId := c.find? s (· == .initial)

def historyOf (s : StateId) : Option PseudoId := c.find? s (·.isHistory)

def hasContinue (s : StateId) : Bool := (c.find? s (· == .historyContinue)).isSome

def hasShallowHistory (s : StateId) : Bool := (c.find? s (· == .history .shallow)).isSome

def children (s : StateId) : List StateId :=
  match c.states[s]? with
  | some node => node.children.toList
  | none => []

end Chart

/-- Behaviors and branches in the order in which they are tried: by priority, those of equal
priority as they were declared. -/
def StateNode.ordered {V : Type} (node : StateNode V) : StateNode V :=
  { node with
    behaviors :=
      (stableSort (fun a b => a.priority.le b.priority) node.behaviors.toList).toArray }

def PseudoNode.ordered {V : Type} (node : PseudoNode V) : PseudoNode V :=
  { node with
    branches := (stableSort (fun a b => a.priority.le b.priority) node.branches.toList).toArray }

def Chart.ordered {V : Type} (c : Chart V) : Chart V :=
  { c with
    states := c.states.map StateNode.ordered
    pseudostates := c.pseudostates.map PseudoNode.ordered }

end Statechart
