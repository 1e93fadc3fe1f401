import Statechart.Basic
import Statechart.Text.Long

/-
  Why a chart is refused. Each cause has one wording (`message`), one name (`tag`) and a long form
  that shows its parts.
-/

namespace Statechart

/-- The tables a chart or a program keeps its nodes in. -/
inductive NodeTable where
  | state
  | event
  | pseudostate
  | plan
  /-- What one history remembers. -/
  | tracked
  | behavior
deriving DecidableEq

namespace NodeTable

def word : NodeTable → String
  | state => "state"
  | event => "event"
  | pseudostate => "pseudostate"
  | plan => "plan"
  | tracked => "tracked state"
  | behavior => "behavior"

/-- How many entries are called when there are too many of them. -/
def plural : NodeTable → String
  | state => "states"
  | event => "events"
  | pseudostate => "pseudostates"
  | plan => "transitions"
  | tracked => "states under one history"
  | behavior => "behaviors"

/-- How many entries there may be. -/
def limit : NodeTable → Nat
  | behavior => maxSpan
  | _ => maxNodes

end NodeTable

/-- Nodes are given by name wherever a reader has to find them. -/
inductive ModelError where
  | duplicateState (name : String)
  | duplicateEvent (name : String)
  | unknownId (table : NodeTable) (index : Nat)
  | tooMany (table : NodeTable)
  | missingRootInitial
  | multipleInitials (state : String)
  | multipleHistories (state : String)
  | tooDeep (state : String)
  | invalidPriority (text : String)
  | invalidInitial (state : String)
  | initialOutside (state target : String)
  | choiceWithoutElse (state : String)
  | historyWithoutDefault (state : String)
  | historyOutside (state target : String)
  | noFallback (kind : PseudoKind) (name state : String)
  | branchWithoutTarget (kind : PseudoKind) (state : String)
  | entryOutside (point state target : String)
  | exitInside (point state target : String)
  | boundaryTarget (state : String) (boundary : Boundary)
  | transitionToRoot (state : String)
  | pseudostateLoop (kind : PseudoKind) (state : String)
  | orphanContinue (state : String)
  | continueLinked (state : String)
deriving DecidableEq

namespace ModelError

open Text

/-- A name as it stands in a message. -/
def named (name : String) : String := "`" ++ name ++ "`"

def message : ModelError → String
  | duplicateState name => "state name " ++ named name ++ " is declared more than once"
  | duplicateEvent name => "event name " ++ named name ++ " is declared more than once"
  | unknownId table index => "unknown " ++ table.word ++ " id " ++ decimal index
  | tooMany table => "too many " ++ table.plural ++ " (limit is " ++ decimal table.limit ++ ")"
  | missingRootInitial => "the root state has no initial pseudostate"
  | multipleInitials state => "state " ++ named state ++ " has more than one initial pseudostate"
  | multipleHistories state => "state " ++ named state ++ " has more than one history pseudostate"
  | tooDeep state =>
    "state " ++ named state ++ " is nested deeper than " ++ decimal maxDepth ++ " levels"
  | invalidPriority text =>
    "invalid priority " ++ named text ++ "; expected dotted numbers such as `1.` or `2.1.`"
  | invalidInitial state =>
    "initial pseudostate of " ++ named state ++ " needs exactly one unguarded branch"
  | initialOutside state target =>
    "initial pseudostate of " ++ named state ++ " targets " ++ named target ++
      ", which is not inside it"
  | choiceWithoutElse state =>
    "choice pseudostate in " ++ named state ++ " has no unguarded else branch"
  | historyWithoutDefault state =>
    "history pseudostate of " ++ named state ++ " needs exactly one unguarded default branch"
  | historyOutside state target =>
    "history default of " ++ named state ++ " targets " ++ named target ++
      ", which is not inside it"
  | noFallback kind name state =>
    kind.label ++ " " ++ named name ++ " of " ++ named state ++
      " has no unguarded branch to fall back on"
  | branchWithoutTarget kind state =>
    "a branch of the " ++ kind.label ++ " in " ++ named state ++ " has no target"
  | entryOutside point state target =>
    "entry point " ++ named point ++ " of " ++ named state ++ " targets " ++ named target ++
      ", which is not inside it"
  | exitInside point state target =>
    "exit point " ++ named point ++ " of " ++ named state ++ " targets " ++ named target ++
      ", which is not outside it"
  | boundaryTarget state boundary =>
    boundary.word ++ " behavior of " ++ named state ++ " cannot have a target"
  | transitionToRoot state => "transition from " ++ named state ++ " would leave the root state"
  | pseudostateLoop kind state =>
    "pseudostates loop back on themselves through the " ++ kind.label ++ " in " ++ named state
  | orphanContinue state =>
    "history continue in " ++ named state ++ " is not below any shallow history"
  | continueLinked state =>
    "history continue in " ++ named state ++ " cannot have branches or be a transition target"

def tag : ModelError → String
  | duplicateState _ => "DuplicateStateName"
  | duplicateEvent _ => "DuplicateEventName"
  | unknownId _ _ => "UnknownId"
  | tooMany _ => "TooManyNodes"
  | missingRootInitial => "MissingRootInitial"
  | multipleInitials _ => "MultipleInitials"
  | multipleHistories _ => "MultipleHistories"
  | tooDeep _ => "HierarchyTooDeep"
  | invalidPriority _ => "InvalidPriority"
  | invalidInitial _ => "InvalidInitial"
  | initialOutside _ _ => "InitialTargetOutside"
  | choiceWithoutElse _ => "ChoiceWithoutElse"
  | historyWithoutDefault _ => "HistoryWithoutDefault"
  | historyOutside _ _ => "HistoryTargetOutside"
  | noFallback _ _ _ => "UnresolvablePseudostate"
  | branchWithoutTarget _ _ => "BranchWithoutTarget"
  | entryOutside _ _ _ => "EntryPointTargetOutside"
  | exitInside _ _ _ => "ExitPointTargetInside"
  | boundaryTarget _ _ => "EnterExitWithTarget"
  | transitionToRoot _ => "TransitionToRoot"
  | pseudostateLoop _ _ => "PseudostateLoop"
  | orphanContinue _ => "OrphanHistoryContinue"
  | continueLinked _ => "HistoryContinueTarget"

/-- The parts of a cause, each under its name. -/
def parts : ModelError → List (String × String)
  | duplicateState name => [("name", quote name)]
  | duplicateEvent name => [("name", quote name)]
  | unknownId table index => [("what", quote table.word), ("index", decimal index)]
  | tooMany table => [("what", quote table.plural), ("max", decimal table.limit)]
  | missingRootInitial => []
  | multipleInitials state => [("state", quote state)]
  | multipleHistories state => [("state", quote state)]
  | tooDeep state => [("state", quote state), ("max", decimal maxDepth)]
  | invalidPriority text => [("text", quote text)]
  | invalidInitial state => [("state", quote state)]
  | initialOutside state target => [("state", quote state), ("target", quote target)]
  | choiceWithoutElse state => [("state", quote state)]
  | historyWithoutDefault state => [("state", quote state)]
  | historyOutside state target => [("state", quote state), ("target", quote target)]
  | noFallback kind name state =>
    [("kind", quote kind.label), ("name", quote name), ("state", quote state)]
  | branchWithoutTarget kind state => [("kind", quote kind.label), ("state", quote state)]
  | entryOutside point state target =>
    [("point", quote point), ("state", quote state), ("target", quote target)]
  | exitInside point state target =>
    [("point", quote point), ("state", quote state), ("target", quote target)]
  | boundaryTarget state boundary => [("state", quote state), ("trigger", quote boundary.word)]
  | transitionToRoot state => [("state", quote state)]
  | pseudostateLoop kind state => [("kind", quote kind.label), ("state", quote state)]
  | orphanContinue state => [("state", quote state)]
  | continueLinked state => [("state", quote state)]

/-- The long form. -/
def long (error : ModelError) : String := record error.tag error.parts

end ModelError

end Statechart
