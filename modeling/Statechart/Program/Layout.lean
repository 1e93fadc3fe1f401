import Statechart.Program

/-
  How the tables of a program are laid out. Plans are numbered in the order in which they are asked
  for: first those of the pseudostates, each with its branches before its fallback, then those of
  the behaviors that lead somewhere, in the order of their cells.
-/

namespace Statechart

/-- The position at which each of several parts starts when they are put one after the other. -/
def starts (sizes : List Nat) : Array Nat :=
  (sizes.foldl (fun acc size => (acc.1.push acc.2, acc.2 + size)) ((#[] : Array Nat), 0)).1

/-- What a branch of a pseudostate is compiled from. -/
structure Arm (V : Type) where
  guard : BranchGuard V
  request : Request V

namespace PseudoNode

variable {V : Type} (node : PseudoNode V)

/-- What a branch asks for. -/
def request (p : PseudoId) (b : Branch V) : Request V :=
  match b.target with
  | some target => .move (.pseudo p) target b.action
  | none => .missing node.kind node.container

/-- The branches that are tried before the fallback: those of a history are one for each value but
0, those of any other pseudostate are declared. -/
def arms (p : PseudoId) (slots : Array HistorySlot) : List (Arm V) :=
  match slots.findIdx? (·.pseudo == p) with
  | some h =>
    (((slots[h]?).map HistorySlot.tracked).getD []).filterMap fun v =>
      if v.1 = 0 then none
      else some ⟨.historyIs h v.1, .move (.pseudo p) (.state v.2) none⟩
  | none =>
    node.branches.toList.dropLast.map fun b =>
      { guard := match b.guard with
          | some g => .when g
          | none => .always
        request := node.request p b }

/-- The last branch; a history continue, which has none, stays where it is. -/
def fallback (p : PseudoId) : Request V :=
  if node.kind = .historyContinue then .settle node.container
  else
    match node.branches.back? with
    | some b => node.request p b
    | none => .missing node.kind node.container

/-- All that a pseudostate asks for, its fallback last. -/
def requests (p : PseudoId) (slots : Array HistorySlot) : List (Request V) :=
  (node.arms p slots).map (·.request) ++ [node.fallback p]

/-- A pseudostate whose plans are numbered from `first`. -/
def row (p : PseudoId) (slots : Array HistorySlot) (first : PlanId) : PseudoRow V :=
  let arms := node.arms p slots
  { kind := node.kind
    container := node.container
    name := node.name
    branches := arms.zipIdx.map fun arm => ⟨arm.1.guard, first + arm.2⟩
    fallback := first + arms.length }

end PseudoNode

/-- What a behavior of `s` asks for, if it leads somewhere. -/
def Behavior.request {V : Type} (b : Behavior V) (s : StateId) : Option (Request V) :=
  b.target.map fun target => .move (.state s) target b.action

/-- Adds a behavior to a table; one that leads somewhere takes the next plan. -/
def Behavior.addTo {V : Type} (b : Behavior V) (table : Array (BehaviorRow V) × PlanId) :
    Array (BehaviorRow V) × PlanId :=
  match b.target with
  | some _ => (table.1.push ⟨b.guard, .transition table.2⟩, table.2 + 1)
  | none => (table.1.push ⟨b.guard, .internal b.action b.consume⟩, table.2)

/-- The behaviors of a state on a boundary. -/
def StateNode.onBoundary {V : Type} (node : StateNode V) (b : Boundary) : List (GuardedAction V) :=
  (node.behaviors.toList.filter fun r => r.trigger == .boundary b).map fun r => ⟨r.guard, r.action⟩

/-- The behaviors of a state on an event. -/
def StateNode.onEvent {V : Type} (node : StateNode V) (e : EventId) : List (Behavior V) :=
  node.behaviors.toList.filter fun b => b.trigger == .event e

/-- Puts a behavior on an event before those of its cell. -/
def Behavior.intoRow {V : Type} (b : Behavior V) (row : Array (List (Behavior V))) :
    Array (List (Behavior V)) :=
  match b.trigger with
  | .event e => row.modify e (b :: ·)
  | .boundary _ => row

/-- The behaviors of a state on each event, put into a row of empty cells. -/
def StateNode.byEvent {V : Type} (node : StateNode V) (blank : Array (List (Behavior V))) :
    Array (List (Behavior V)) :=
  node.behaviors.toList.foldr Behavior.intoRow blank

theorem getElem?_foldr_intoRow {V : Type} {n : Nat} {e : EventId} (h : e < n)
    (bs : List (Behavior V)) :
    (bs.foldr Behavior.intoRow (Array.replicate n []))[e]? =
      some (bs.filter fun b => b.trigger == .event e) := by
  induction bs with
  | nil => simp [h]
  | cons b bs ih =>
    rw [List.foldr_cons, Behavior.intoRow, List.filter_cons]
    cases ht : b.trigger with
    | boundary => simpa using ih
    | event e' =>
      by_cases he : e' = e
      · simp [Array.getElem?_modify, he, ih]
      · simpa [Array.getElem?_modify, he] using ih

/-- A cell holds the behaviors of its state on its event, in their order. -/
theorem StateNode.getElem?_byEvent {V : Type} (node : StateNode V) {n : Nat} {e : EventId}
    (h : e < n) : (node.byEvent (Array.replicate n []))[e]? = some (node.onEvent e) :=
  getElem?_foldr_intoRow h _

/-- The cells of one state, one for each event. -/
structure CellRow (V : Type) where
  state : StateId
  cells : Array (List (Behavior V))

namespace CellRow

variable {V : Type} (row : CellRow V)

/-- The behaviors of all cells, each with its state. -/
def behaviors : List (StateId × Behavior V) :=
  (row.cells.foldr (fun cell rest => cell ++ rest) []).map fun b => (row.state, b)

/-- The handlers of a state: its own where it has behaviors, otherwise those it inherits. -/
def handlers (inherited : Array (Option StateId)) : Array (Option StateId) :=
  row.cells.zipWith (fun cell up => if cell.isEmpty then up else some row.state) inherited

end CellRow

/-- The span of so many rows, unless a number does not fit. -/
def Span.of (start size : Nat) : Except ModelError Span :=
  if start ≤ maxSpan ∧ size ≤ maxSpan then .ok ⟨.ofNat start, .ofNat size⟩
  else .error (.tooMany .behavior)

/-- Where a cell goes: its rows from `start` on, the plans that they ask for from `first` on. -/
structure Placement (V : Type) where
  start : Nat
  size : Nat
  first : PlanId
  requests : List (Request V)

namespace Placement

variable {V : Type}

def span (cell : Placement V) : Except ModelError Span := Span.of cell.start cell.size

def fault (cell : Placement V) : Option ModelError :=
  match cell.span with
  | .ok _ => none
  | .error error => some error

/-- Puts a cell of `s` after those that have their place. The two numbers are those of the next row
and of the next plan. -/
def addTo (s : StateId) (placed : Array (Placement V) × Nat × PlanId) (cell : List (Behavior V)) :
    Array (Placement V) × Nat × PlanId :=
  let requests := cell.filterMap fun b => b.request s
  (placed.1.push ⟨placed.2.1, cell.length, placed.2.2, requests⟩, placed.2.1 + cell.length,
    placed.2.2 + requests.length)

end Placement

/-- The cells of all states. -/
abbrev Cells (V : Type) := List (CellRow V)

namespace Cells

variable {V : Type} (cells : Cells V)

def behaviors : List (StateId × Behavior V) := cells.flatMap CellRow.behaviors

def requests : List (Request V) := cells.behaviors.filterMap fun b => b.2.request b.1

/-- The behavior table; the plans of behaviors are numbered from `first`. -/
def rows (first : PlanId) : Array (BehaviorRow V) :=
  (cells.behaviors.foldl (fun table b => b.2.addTo table) (#[], first)).1

/-- Where the cells go, one after the other; the plans of behaviors are numbered from `first`. -/
def placements (first : PlanId) : List (Placement V) :=
  (cells.foldl (fun placed row => row.cells.foldl (Placement.addTo row.state) placed)
    (#[], 0, first)).1.toList

def spans : Except ModelError (Array Span) :=
  ((cells.placements 0).mapM Placement.span).map List.toArray

end Cells

namespace Chart

variable {V : Type} (c : Chart V)

/-- The requests of each pseudostate. -/
def pseudoRequests (slots : Array HistorySlot) : List (List (Request V)) :=
  c.pseudostates.toList.zipIdx.map fun node => node.1.requests node.2 slots

def pseudoRows (slots : Array HistorySlot) : Array (PseudoRow V) :=
  let firsts := starts ((c.pseudoRequests slots).map List.length)
  c.pseudostates.mapIdx fun p node => node.row p slots (firsts.getD p 0)

def cells : Cells V :=
  let blank := Array.replicate c.events.size []
  c.states.toList.zipIdx.map fun node => ⟨node.2, node.1.byEvent blank⟩

/-- What a state inherits: the row of its parent, which is already there. -/
def inherited (handlers : Array (Option StateId)) (s : StateId) : Array (Option StateId) :=
  match c.hierarchy.parent s with
  | some q => handlers.extract (q * c.events.size) ((q + 1) * c.events.size)
  | none => Array.replicate c.events.size none

/-- The rows of all states, and what each state inherits. A parent comes before its children, so its
row is there when theirs are made. -/
def handlerTables (cells : Cells V) : Array (Option StateId) × Array (Option StateId) :=
  cells.foldl
    (fun tables row =>
      let up := c.inherited tables.1 row.state
      (tables.1 ++ row.handlers up, tables.2 ++ up))
    (#[], #[])

def stateRow (writes : Array (Array HistoryWrite)) (s : StateId) (node : StateNode V) :
    StateRow V where
  name := node.name
  parent := node.parent
  children := node.children.toList
  depth := c.hierarchy.depth s
  initial := c.initialOf s
  history := c.historyOf s
  onEnter := node.onBoundary .enter
  onExit := node.onBoundary .exit
  writes := (writes.getD s #[]).toList

/-- All tables of a chart whose behaviors and branches are in order and whose spans fit. -/
def program : Program V :=
  let slots := c.historySlots
  let pseudoPlans := (c.pseudoRequests slots).flatten.map c.plan
  let cells := c.cells
  let tables := c.handlerTables cells
  let writes := c.historyWrites slots
  { name := c.name
    events := c.events
    states := c.states.mapIdx (c.stateRow writes)
    pseudostates := c.pseudoRows slots
    plans := (pseudoPlans ++ cells.requests.map c.plan).toArray
    histories := slots
    behaviors := cells.rows pseudoPlans.length
    spans := cells.spans.toOption.getD #[]
    handlerRows := tables.1
    nextAncestors := tables.2
    rootInitial := (c.initialOf rootState).getD 0 }

end Chart

end Statechart
