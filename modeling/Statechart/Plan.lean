import Statechart.Chart.Check
import Statechart.Hierarchy.Path

/-
  Plans: the steps of a transition worked out in advance. Which states are left depends on where the
  machine is, so a plan only says where leaving stops; what is entered, and where the way goes on,
  is fixed.
-/

namespace Statechart

/-- What follows once the states of a plan have been entered. -/
inductive Continuation where
  /-- The transition is complete in this state. -/
  | settle (s : StateId)
  /-- The way goes on through this pseudostate. -/
  | pseudo (p : PseudoId)
deriving DecidableEq

structure Plan (V : Type) where
  /-- Active states are left until this one is innermost; none means that nothing is left. -/
  exitTo : Option StateId
  /-- Runs between leaving and entering. -/
  action : Option (Action V)
  enter : List StateId
  next : Continuation

/-- What a plan is wanted for. -/
inductive Request (V : Type) where
  /-- Nothing happens but settling. -/
  | settle (s : StateId)
  | move (source target : Vertex) (action : Option (Action V))
  /-- A pseudostate of this kind in this state lacks a branch, or one of its branches a target. -/
  | missing (kind : PseudoKind) (container : StateId)

namespace Chart

variable {V : Type} (c : Chart V)

/-- Where a transition starts, and whether it leaves anything. An exit point stands for its
container. A container has just been entered when the branches of its initial pseudostate or of an
entry point run, so these leave nothing. -/
def sourceAnchor : Vertex → Anchor × Bool
  | .state s => (.state s, true)
  | .pseudo p =>
    match c.kind? p with
    | some .exitPoint => (.state (c.containerOf p), true)
    | some .initial => (.inside (c.containerOf p), false)
    | some .entryPoint => (.inside (c.containerOf p), false)
    | _ => (.inside (c.containerOf p), true)

def targetAnchor : Vertex → Anchor
  | .state s => .state s
  | .pseudo p => .inside (c.containerOf p)

/-- A state with an initial pseudostate is not the end of the way. -/
def continuation : Vertex → Continuation
  | .state s =>
    match c.initialOf s with
    | some p => .pseudo p
    | none => .settle s
  | .pseudo p => .pseudo p

def pathBetween (source target : Vertex) : Except ModelError Path :=
  c.hierarchy.path (c.sourceAnchor source).1 (c.targetAnchor target)

/-- The plan for a request; one in error, which has no plan, leaves and enters nothing. -/
def plan : Request V → Plan V
  | .settle s => { exitTo := none, action := none, enter := [], next := .settle s }
  | .missing _ s => { exitTo := none, action := none, enter := [], next := .settle s }
  | .move source target action =>
    match c.pathBetween source target with
    | .ok path =>
      { exitTo := if (c.sourceAnchor source).2 then some path.turn else none
        action
        enter := path.enter
        next := c.continuation target }
    | .error _ => { exitTo := none, action, enter := [], next := c.continuation target }

def pathFault : Request V → Option ModelError
  | .settle _ => none
  | .missing kind s => some (.branchWithoutTarget kind (c.label s))
  | .move source target _ =>
    match c.pathBetween source target with
    | .ok _ => none
    | .error e => some e

/-- The request with this number has a path, and there is room for its plan. -/
def planFault (request : Request V) (number : PlanId) : Option ModelError :=
  c.pathFault request <|> faultIf (maxNodes ≤ number) (.tooMany .plan)

end Chart

end Statechart
