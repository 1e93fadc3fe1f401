import Statechart.History
import Statechart.Plan

/-
  A compiled chart: flat tables, each indexed by number. Per state the work of entering and leaving
  it and what entering stores; per state and event a span of the behavior table, the nearest state
  that handles the event, and the one to turn to next; plans; pseudostates as guarded branches and a
  fallback.
-/

namespace Statechart

/-- A behavior on a boundary. -/
structure GuardedAction (V : Type) where
  guard : Option (Guard V)
  action : Option (Action V)

structure StateRow (V : Type) where
  name : String
  parent : Option StateId
  children : List StateId
  depth : Nat
  initial : Option PseudoId
  history : Option PseudoId
  onEnter : List (GuardedAction V)
  onExit : List (GuardedAction V)
  writes : List HistoryWrite

inductive BranchGuard (V : Type) where
  | always
  | when (guard : Guard V)
  /-- Open when the history holds the value. -/
  | historyIs (history : HistoryId) (value : Nat)

structure BranchRow (V : Type) where
  guard : BranchGuard V
  plan : PlanId

/-- Branches in the order in which they are tried, and the plan for when none is open. -/
structure PseudoRow (V : Type) where
  kind : PseudoKind
  container : StateId
  name : Option String
  branches : List (BranchRow V)
  fallback : PlanId

inductive Effect (V : Type) where
  | transition (plan : PlanId)
  | internal (action : Option (Action V)) (consume : Consume V)

structure BehaviorRow (V : Type) where
  guard : Option (Guard V)
  effect : Effect V

def BehaviorRow.transition? {V : Type} (b : BehaviorRow V) : Option PlanId :=
  match b.effect with
  | .transition plan => some plan
  | .internal _ _ => none

/-- A part of the behavior table, told by two numbers of 32 bits. -/
structure Span where
  start : UInt32
  size : UInt32
deriving DecidableEq

/-- The first row after a part. -/
def Span.stop (span : Span) : Nat := span.start.toNat + span.size.toNat

structure Program (V : Type) where
  name : String
  events : Array String
  states : Array (StateRow V)
  pseudostates : Array (PseudoRow V)
  plans : Array (Plan V)
  histories : Array HistorySlot
  behaviors : Array (BehaviorRow V)
  /-- By cell, like the two tables that follow. -/
  spans : Array Span
  /-- The nearest state, at or above that of the cell, which handles the event. -/
  handlerRows : Array (Option StateId)
  /-- The nearest such state strictly above. -/
  nextAncestors : Array (Option StateId)
  rootInitial : PseudoId

namespace Program

variable {V : Type} (p : Program V)

def stateIds : List StateId := List.range p.states.size

def eventIds : List EventId := List.range p.events.size

def label (s : StateId) : String :=
  match p.states[s]? with
  | some row => row.name
  | none => "?"

def eventName (e : EventId) : String := p.events.getD e "?"

/-- The hierarchy of the states, with the depths that were counted when the chart was compiled. -/
def hierarchy : Hierarchy where
  parent := backward fun s => p.states[s]?.bind (·.parent)
  parent_lt := backward_lt
  label := p.label
  depth s :=
    match p.states[s]? with
    | some row => row.depth
    | none => 0

def stateNamed? (name : String) : Option StateId := p.states.findIdx? (·.name == name)

def eventNamed? (name : String) : Option EventId := p.events.findIdx? (· == name)

def initialOf (s : StateId) : Option PseudoId := (p.states[s]?).bind (·.initial)

def historyOf (s : StateId) : Option HistoryId :=
  ((p.states[s]?).bind (·.history)).bind fun q => p.histories.findIdx? (·.pseudo == q)

/-- The state that a stored value stands for. -/
def remembered (h : HistoryId) (value : Nat) : Option StateId :=
  ((p.histories[h]?).bind fun slot => slot.values[value]?).join

/-- The first pseudostate of this kind in a container. -/
def pseudostateOf (container : StateId) (kind : PseudoKind) : Option PseudoId :=
  p.pseudostates.findIdx? fun row => row.container == container && row.kind == kind

/-- Cells are in the order of states, those of a state in the order of events. -/
def cell (s : StateId) (e : EventId) : Nat := s * p.events.size + e

/-- The handlers in force while `s` is the innermost active state; none if there is no such row. -/
def handlerRow? (s : StateId) : Option (List (Option StateId)) :=
  let start := p.cell s doEvent
  if start + p.events.size ≤ p.handlerRows.size then
    some (p.handlerRows.extract start (start + p.events.size)).toList
  else none

def nextAncestor? (s : StateId) (e : EventId) : Option (Option StateId) :=
  p.nextAncestors[p.cell s e]?

/-- The behaviors of a cell, in the order in which they are tried. -/
def behaviors? (s : StateId) (e : EventId) : Option (List (BehaviorRow V)) :=
  (p.spans[p.cell s e]?).bind fun span =>
    if span.stop ≤ p.behaviors.size then
      some (p.behaviors.extract span.start.toNat span.stop).toList
    else none

/-- Whether a cell has any behavior. -/
def handles? (s : StateId) (e : EventId) : Option Bool :=
  (p.spans[p.cell s e]?).map fun span => 0 < span.size

/-- Where a transition into a state goes on. -/
def continuationInto (s : StateId) : Continuation :=
  match p.initialOf s with
  | some q => .pseudo q
  | none => .settle s

end Program

end Statechart
