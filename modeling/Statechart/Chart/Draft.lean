import Statechart.Chart
import Statechart.Priority.Dotted

/-
  Drafting a chart. Declaring a node gives its number at once; behaviors and branches are attached
  later and name nodes by number only. A draft goes on after a mistake and keeps the first one,
  which `finish` reports.
-/

namespace Statechart

structure Draft (V : Type) where
  chart : Chart V
  /-- The first mistake. -/
  fault : Option ModelError := none

/-- What can be said about a behavior or a branch. -/
inductive Clause (V : Type) where
  | when (guard : Guard V)
  | action (action : Action V)
  | to (target : Vertex)
  /-- The dotted text of an explicit priority. -/
  | order (text : String)
  | otherwise
  /-- Speaks of behaviors only; a branch is not changed by it. -/
  | consume (consume : Consume V)

section Clauses

variable {V : Type}

/-- A clause is at fault if its text cannot be read. -/
def Clause.fault : Clause V → Option ModelError
  | order text =>
    match Priority.parse text with
    | .ok _ => none
    | .error e => some e
  | _ => none

def Branch.amend (b : Branch V) : Clause V → Branch V
  | .when guard => { b with guard := some guard }
  | .action action => { b with action := some action }
  | .to target => { b with target := some target }
  | .order text =>
    match Priority.parse text with
    | .ok priority => { b with priority }
    | .error _ => b
  | .otherwise => { b with priority := .otherwise }
  | .consume _ => b

def Behavior.amend (b : Behavior V) : Clause V → Behavior V
  | .consume consume => { b with consume }
  | clause => { b with toBranch := b.toBranch.amend clause }

/-- The branch that a list of clauses describes. -/
def Branch.ofClauses (clauses : List (Clause V)) : Branch V := clauses.foldl Branch.amend {}

def Behavior.ofClauses (trigger : Trigger) (clauses : List (Clause V)) : Behavior V :=
  clauses.foldl Behavior.amend { trigger }

end Clauses

namespace Draft

variable {V : Type}

/-- A chart with nothing but its root and `doEvent`. -/
def new (name : String) : Draft V where
  chart :=
    { name
      events := #["DO"]
      states := #[{ name := "ROOT", parent := none }]
      pseudostates := #[] }

/-- Keeps a mistake unless there was one before. -/
def note (d : Draft V) (error : ModelError) : Draft V := { d with fault := d.fault <|> some error }

def noteAll (d : Draft V) (clauses : List (Clause V)) : Draft V :=
  { d with fault := d.fault <|> clauses.findSome? Clause.fault }

def event (d : Draft V) (name : String) : EventId × Draft V :=
  let e := d.chart.events.size
  if maxNodes ≤ e then (e, d.note (.tooMany .event))
  else (e, { d with chart.events := d.chart.events.push name })

/-- A state under a declared parent. -/
def state (d : Draft V) (name : String) (parent : StateId) : StateId × Draft V :=
  let s := d.chart.states.size
  if maxNodes ≤ s then (s, d.note (.tooMany .state))
  else if parent < s then
    (s, { d with
      chart.states := (d.chart.states.modify parent fun node =>
        { node with children := node.children.push s }).push { name, parent := some parent } })
  else (s, d.note (.unknownId .state parent))

/-- A pseudostate of a declared state; only entry and exit points are given a name. -/
def pseudostate (d : Draft V) (container : StateId) (kind : PseudoKind) (name : Option String) :
    PseudoId × Draft V :=
  let p := d.chart.pseudostates.size
  if maxNodes ≤ p then (p, d.note (.tooMany .pseudostate))
  else if container < d.chart.states.size then
    (p, { d with
      chart.states := d.chart.states.modify container fun node =>
        { node with pseudostates := node.pseudostates.push p }
      chart.pseudostates := d.chart.pseudostates.push { kind, container, name } })
  else (p, d.note (.unknownId .state container))

/-- One more branch of a pseudostate. -/
def branch (d : Draft V) (p : PseudoId) (clauses : List (Clause V)) : Draft V :=
  let d :=
    if p < d.chart.pseudostates.size then
      { d with
        chart.pseudostates := d.chart.pseudostates.modify p fun node =>
          { node with branches := node.branches.push (Branch.ofClauses clauses) } }
    else d.note (.unknownId .pseudostate p)
  d.noteAll clauses

/-- One more behavior of a state. -/
def behavior (d : Draft V) (s : StateId) (trigger : Trigger) (clauses : List (Clause V)) :
    Draft V :=
  let d :=
    if s < d.chart.states.size then
      { d with
        chart.states := d.chart.states.modify s fun node =>
          { node with behaviors := node.behaviors.push (Behavior.ofClauses trigger clauses) } }
    else d.note (.unknownId .state s)
  d.noteAll clauses

/-- A behavior on a declared event. An unknown event is a mistake, and the behavior is attached
nevertheless. -/
def on (d : Draft V) (s : StateId) (e : EventId) (clauses : List (Clause V)) : Draft V :=
  let d := if e < d.chart.events.size then d else d.note (.unknownId .event e)
  d.behavior s (.event e) clauses

def initial (d : Draft V) (container : StateId) : PseudoId × Draft V :=
  d.pseudostate container .initial none

def choice (d : Draft V) (container : StateId) : PseudoId × Draft V :=
  d.pseudostate container .choice none

def history (d : Draft V) (container : StateId) (depth : HistoryDepth) : PseudoId × Draft V :=
  d.pseudostate container (.history depth) none

/-- Lets the shallow history above `s` also remember the children of `s`. -/
def historyContinue (d : Draft V) (s : StateId) : PseudoId × Draft V :=
  d.pseudostate s .historyContinue none

def entryPoint (d : Draft V) (container : StateId) (name : String) : PseudoId × Draft V :=
  d.pseudostate container .entryPoint (some name)

def exitPoint (d : Draft V) (container : StateId) (name : String) : PseudoId × Draft V :=
  d.pseudostate container .exitPoint (some name)

def onDo (d : Draft V) (s : StateId) (clauses : List (Clause V)) : Draft V :=
  d.behavior s .byDefault clauses

def onEnter (d : Draft V) (s : StateId) (clauses : List (Clause V)) : Draft V :=
  d.behavior s (.boundary .enter) clauses

def onExit (d : Draft V) (s : StateId) (clauses : List (Clause V)) : Draft V :=
  d.behavior s (.boundary .exit) clauses

/-- The chart, or the first mistake made in drafting it. -/
def finish (d : Draft V) : Except ModelError (Chart V) :=
  match d.fault with
  | some error => .error error
  | none => .ok d.chart

end Draft

end Statechart
