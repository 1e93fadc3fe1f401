import Statechart.Priority.Dotted
import Statechart.Program

/-
  The long forms of charts, programs and their parts, for logs and for inspection. Guards and
  actions are host code and have no text; only whether they are there is shown.
-/

namespace Statechart

namespace Describe

open Text

def state (s : StateId) : String := "state#" ++ decimal s

def event (e : EventId) : String := "event#" ++ decimal e

def pseudo (p : PseudoId) : String := "pseudo#" ++ decimal p

def plan (q : PlanId) : String := "plan#" ++ decimal q

def history (h : HistoryId) : String := "history#" ++ decimal h

def states (ids : List StateId) : String := list (ids.map state)

def state? (s : Option StateId) : String := option (s.map state)

def ordering : Ordering → String
  | .lt => "Less"
  | .eq => "Equal"
  | .gt => "Greater"

def vertex : Vertex → String
  | .state s => wrap "State" (state s)
  | .pseudo p => wrap "Pseudo" (pseudo p)

def anchor : Anchor → String
  | .state s => wrap "State" (state s)
  | .inside s => wrap "Inside" (state s)

def depth : HistoryDepth → String
  | .shallow => "Shallow"
  | .deep => "Deep"

def kind : PseudoKind → String
  | .initial => "Initial"
  | .choice => "Choice"
  | .history d => wrap "History" (depth d)
  | .historyContinue => "HistoryContinue"
  | .entryPoint => "EntryPoint"
  | .exitPoint => "ExitPoint"

def trigger : Trigger → String
  | .boundary .enter => "Enter"
  | .boundary .exit => "Exit"
  | .event e => wrap "Event" (event e)

def continuation : Continuation → String
  | .settle s => wrap "Settle" (state s)
  | .pseudo p => wrap "Pseudo" (pseudo p)

variable {V : Type}

def consume : Consume V → String
  | .byDefault => "Default"
  | .always => "Always"
  | .never => "Never"
  | .when _ => "When(..)"

/-- The fields that behaviors and branches share. -/
def branchFields (b : Branch V) : List (String × String) :=
  [("priority", b.priority.text), ("guarded", bool b.guard.isSome),
   ("action", bool b.action.isSome), ("target", option (b.target.map vertex))]

def branch (b : Branch V) : String := record "Branch" (branchFields b)

def behavior (b : Behavior V) : String :=
  record "Behavior"
    (("trigger", trigger b.trigger) :: branchFields b.toBranch ++ [("consume", consume b.consume)])

def stateNode (node : StateNode V) : String :=
  record "StateNode"
    [("name", quote node.name), ("parent", state? node.parent),
     ("children", states node.children.toList), ("behaviors", decimal node.behaviors.size)]

def pseudoNode (node : PseudoNode V) : String :=
  record "PseudostateNode"
    [("kind", kind node.kind), ("container", state node.container),
     ("name", option (node.name.map quote)), ("branches", list (node.branches.toList.map branch))]

def chart (c : Chart V) : String :=
  record "MachineDefinition"
    [("name", quote c.name), ("events", list (c.events.toList.map quote)),
     ("states", list (c.states.toList.map stateNode)),
     ("pseudostates", list (c.pseudostates.toList.map pseudoNode))]

def transitionPlan (q : Plan V) : String :=
  record "TransitionPlan"
    [("exit_to", state? q.exitTo), ("action", bool q.action.isSome), ("enter", states q.enter),
     ("then", continuation q.next)]

def historySlot (slot : HistorySlot) : String :=
  record "HistorySlot"
    [("pseudo", pseudo slot.pseudo), ("container", state slot.container),
     ("depth", depth slot.depth), ("values", list (slot.values.toList.map state?))]

def program (p : Program V) : String :=
  record "Program"
    [("name", quote p.name), ("events", decimal p.events.size), ("states", decimal p.states.size),
     ("pseudostates", decimal p.pseudostates.size), ("plans", decimal p.plans.size),
     ("histories", decimal p.histories.size)]

end Describe

end Statechart
