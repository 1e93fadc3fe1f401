import Statechart.Describe
import Statechart.Json
import Statechart.Program

/-
  The structure of a program for drawing it: every state with what it handles, every pseudostate,
  every history. A plan is shown where it belongs, at its branch, fallback or behavior.
-/

namespace Statechart

structure PlanDiagram where
  id : PlanId
  exitTo : Option StateId
  hasAction : Bool
  enter : List StateId
  next : Continuation
deriving DecidableEq

inductive BehaviorDiagram where
  | transition (event : EventId) (guarded : Bool) (plan : PlanDiagram)
  | internal (event : EventId) (guarded hasAction : Bool)
deriving DecidableEq

structure StateDiagram where
  id : StateId
  name : String
  parent : Option StateId
  depth : Nat
  /-- The events on which the state has behaviors. -/
  handles : List EventId
  writes : List HistoryWrite
  behaviors : List BehaviorDiagram
deriving DecidableEq

inductive GuardDiagram where
  | always
  | guarded
  | historyIs (history : HistoryId) (value : Nat)
deriving DecidableEq

structure PseudoDiagram where
  id : PseudoId
  kind : PseudoKind
  container : StateId
  name : Option String
  branches : List (GuardDiagram × PlanDiagram)
  fallback : PlanDiagram
deriving DecidableEq

structure HistoryDiagram where
  id : HistoryId
  pseudo : PseudoId
  container : StateId
  depth : HistoryDepth
  /-- Each tracked state with its value. -/
  tracked : List (Nat × StateId)
deriving DecidableEq

structure Diagram where
  name : String
  events : List String
  states : List StateDiagram
  pseudostates : List PseudoDiagram
  histories : List HistoryDiagram
deriving DecidableEq

def BranchGuard.diagram {V : Type} : BranchGuard V → GuardDiagram
  | always => .always
  | when _ => .guarded
  | historyIs h value => .historyIs h value

namespace Program

variable {V : Type} (p : Program V)

/-- A plan that does not exist has no diagram. -/
def planDiagram? (q : PlanId) : Option PlanDiagram :=
  (p.plans[q]?).map fun plan => ⟨q, plan.exitTo, plan.action.isSome, plan.enter, plan.next⟩

def behaviorDiagram? (e : EventId) (b : BehaviorRow V) : Option BehaviorDiagram :=
  match b.effect with
  | .transition q => (p.planDiagram? q).map (.transition e b.guard.isSome)
  | .internal action _ => some (.internal e b.guard.isSome action.isSome)

def stateDiagram (s : StateId) (row : StateRow V) : StateDiagram where
  id := s
  name := row.name
  parent := row.parent
  depth := row.depth
  handles := p.eventIds.filter fun e => p.handles? s e == some true
  writes := row.writes
  behaviors := p.eventIds.flatMap fun e =>
    ((p.behaviors? s e).getD []).filterMap (p.behaviorDiagram? e)

def pseudoDiagram? (r : PseudoId) (row : PseudoRow V) : Option PseudoDiagram :=
  (p.planDiagram? row.fallback).map fun fallback =>
    { id := r
      kind := row.kind
      container := row.container
      name := row.name
      branches := row.branches.filterMap fun b =>
        (p.planDiagram? b.plan).map fun plan => (b.guard.diagram, plan)
      fallback }

def diagram : Diagram where
  name := p.name
  events := p.events.toList
  states := p.states.toList.zipIdx.map fun row => p.stateDiagram row.2 row.1
  pseudostates := p.pseudostates.toList.zipIdx.filterMap fun row => p.pseudoDiagram? row.2 row.1
  histories := p.histories.toList.zipIdx.map fun slot =>
    ⟨slot.2, slot.1.pseudo, slot.1.container, slot.1.depth, slot.1.tracked⟩

end Program

namespace Diagram

open Json

def nums (ns : List Nat) : Json := arr (ns.map num)

def continuationJson : Continuation → Json
  | .settle s => obj [("kind", str "settle"), ("state", num s)]
  | .pseudo p => obj [("kind", str "pseudostate"), ("pseudo", num p)]

def planJson (q : PlanDiagram) : Json :=
  obj [("id", num q.id), ("exit_to", optional num q.exitTo), ("has_action", bool q.hasAction),
    ("enter", nums q.enter), ("then", continuationJson q.next)]

def behaviorJson : BehaviorDiagram → Json
  | .transition e guarded plan =>
    obj [("kind", str "transition"), ("event", num e), ("guarded", bool guarded),
      ("plan", planJson plan)]
  | .internal e guarded hasAction =>
    obj [("kind", str "internal"), ("event", num e), ("guarded", bool guarded),
      ("has_action", bool hasAction)]

def writeJson (w : HistoryWrite) : Json := obj [("history", num w.history), ("value", num w.value)]

def stateJson (s : StateDiagram) : Json :=
  obj [("id", num s.id), ("name", str s.name), ("parent", optional num s.parent),
    ("depth", num s.depth), ("handles", nums s.handles),
    ("history_writes", arr (s.writes.map writeJson)),
    ("behaviors", arr (s.behaviors.map behaviorJson))]

def kindJson : PseudoKind → Json
  | .history d => obj [("History", str (Describe.depth d))]
  | kind => str (Describe.kind kind)

def guardJson : GuardDiagram → Json
  | .always => obj [("kind", str "always")]
  | .guarded => obj [("kind", str "guarded")]
  | .historyIs h value =>
    obj [("kind", str "history_is"), ("history", num h), ("value", num value)]

def branchJson (b : GuardDiagram × PlanDiagram) : Json :=
  obj [("guard", guardJson b.1), ("plan", planJson b.2)]

def pseudoJson (p : PseudoDiagram) : Json :=
  obj [("id", num p.id), ("kind", kindJson p.kind), ("container", num p.container),
    ("name", optional str p.name), ("branches", arr (p.branches.map branchJson)),
    ("fallback", planJson p.fallback)]

def historyJson (h : HistoryDiagram) : Json :=
  obj [("id", num h.id), ("pseudo", num h.pseudo), ("container", num h.container),
    ("depth", str (Describe.depth h.depth)),
    ("tracked", arr (h.tracked.map fun v => obj [("value", num v.1), ("state", num v.2)]))]

/-- The diagram as JSON; what tells variants apart comes first. -/
def json (d : Diagram) : Json :=
  obj [("name", str d.name), ("events", arr (d.events.map str)),
    ("states", arr (d.states.map stateJson)),
    ("pseudostates", arr (d.pseudostates.map pseudoJson)),
    ("histories", arr (d.histories.map historyJson))]

end Diagram

end Statechart
