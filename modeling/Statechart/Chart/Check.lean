import Statechart.Chart
import Std.Data.TreeSet

/-
  What a chart must satisfy before it is compiled. Every check answers with the first thing it finds
  wrong, or with nothing, so a list of checks is tried from left to right. `structureFault` looks at
  names, nesting and references; `branchFault` at the branches of one pseudostate, which have to be
  in their order already.
-/

namespace Statechart

/-- The first text that has occurred before. -/
def firstRepeat (names : List String) : Option String :=
  go names ∅
where
  go : List String → Std.TreeSet String → Option String
    | [], _ => none
    | name :: names, seen => if seen.contains name then some name else go names (seen.insert name)

namespace Chart

variable {V : Type} (c : Chart V)

/-- An error, if a condition holds. -/
def faultIf (condition : Bool) (error : ModelError) : Option ModelError :=
  if condition then some error else none

/-- A target exists, and no history continue is one. -/
def targetFault : Vertex → Option ModelError
  | .state s => faultIf (c.states.size ≤ s) (.unknownId .state s)
  | .pseudo p =>
    match c.pseudostates[p]? with
    | none => some (.unknownId .pseudostate p)
    | some node =>
      faultIf (node.kind == .historyContinue) (.continueLinked (c.label node.container))

def behaviorFault (s : StateId) (b : Behavior V) : Option ModelError :=
  (match b.trigger with
    | .boundary boundary => faultIf b.target.isSome (.boundaryTarget (c.label s) boundary)
    | .event e => faultIf (c.events.size ≤ e) (.unknownId .event e)) <|>
  b.target.bind c.targetFault

/-- How many pseudostates of such a kind a state owns. -/
def countOwned (s : StateId) (kind : PseudoKind → Bool) : Nat :=
  (c.owned s).countP fun p => (c.kind? p).any kind

/-- A parent is declared before its children. -/
def parentFault (s : StateId) : Option ModelError :=
  ((c.states[s]?).bind (·.parent)).bind fun q => faultIf (s ≤ q) (.unknownId .state q)

def stateFault (s : StateId) : Option ModelError :=
  c.parentFault s <|>
  faultIf (maxDepth ≤ c.hierarchy.depth s) (.tooDeep (c.label s)) <|>
  faultIf (1 < c.countOwned s (· == .initial)) (.multipleInitials (c.label s)) <|>
  faultIf (1 < c.countOwned s (·.isHistory)) (.multipleHistories (c.label s)) <|>
  (c.states[s]?).bind fun node => node.behaviors.toList.findSome? (c.behaviorFault s)

/-- Names, nesting depth, and all that nodes refer to. -/
def structureFault : Option ModelError :=
  (firstRepeat (c.states.toList.map (·.name))).map .duplicateState <|>
  (firstRepeat c.events.toList).map .duplicateEvent <|>
  faultIf (c.initialOf rootState).isNone .missingRootInitial <|>
  c.stateIds.findSome? c.stateFault <|>
  c.pseudostates.toList.findSome? fun node =>
    node.branches.toList.findSome? fun b => b.target.bind c.targetFault

/-- The container of a pseudostate; a pseudostate that does not exist is taken to be the root's. -/
def containerOf (p : PseudoId) : StateId :=
  match c.pseudostates[p]? with
  | some node => node.container
  | none => rootState

/-- The state that a target lies in: a state lies in itself, a pseudostate in its container. -/
def landing : Vertex → StateId
  | .state s => s
  | .pseudo p => c.containerOf p

/-- A target is inside a state if it is a state below it or a pseudostate of it or below it. -/
def landsInside (container : StateId) : Vertex → Bool
  | .state s => c.hierarchy.isAbove container s
  | .pseudo p => c.hierarchy.isWithin (c.containerOf p) container

/-- A target in messages; a pseudostate is named after its container. -/
def targetName : Vertex → String
  | .state s => c.label s
  | .pseudo p =>
    match c.pseudostates[p]? with
    | some node => c.label node.container ++ "." ++ node.name.getD node.kind.label
    | none => "?"

/-- The rules of each kind of pseudostate, given that every branch has a target. -/
def kindFault (node : PseudoNode V) (targets : List Vertex) : Option ModelError :=
  let state := c.label node.container
  let point := node.name.getD ""
  let endsInElse := (node.branches.toList.getLast?).any Branch.isElse
  let soleElse := node.branches.size == 1 && endsInElse
  let outside := targets.find? fun t => !c.landsInside node.container t
  let inside := targets.find? fun t => c.hierarchy.isWithin (c.landing t) node.container
  match node.kind with
  | .initial =>
    faultIf (!soleElse) (.invalidInitial state) <|>
    outside.map fun t => .initialOutside state (c.targetName t)
  | .choice => faultIf (!endsInElse) (.choiceWithoutElse state)
  | .history _ =>
    faultIf (!soleElse) (.historyWithoutDefault state) <|>
    outside.map fun t => .historyOutside state (c.targetName t)
  | .entryPoint =>
    faultIf (!endsInElse) (.noFallback node.kind point state) <|>
    outside.map fun t => .entryOutside point state (c.targetName t)
  | .exitPoint =>
    faultIf (!endsInElse) (.noFallback node.kind point state) <|>
    inside.map fun t => .exitInside point state (c.targetName t)
  | .historyContinue => none

/-- The branches of one pseudostate: a history continue has none, the branches of any other lead
somewhere and keep the rules of its kind. -/
def branchFault (node : PseudoNode V) : Option ModelError :=
  let state := c.label node.container
  if node.kind = .historyContinue then
    faultIf (!node.branches.isEmpty) (.continueLinked state)
  else
    faultIf (node.branches.any (·.target.isNone)) (.branchWithoutTarget node.kind state) <|>
    c.kindFault node (node.branches.toList.filterMap (·.target))

end Chart

end Statechart
