import Statechart.Chart.Draft
import Statechart.Describe
import Statechart.Program.Layout
import Statechart.Program.Loop

/-
  Compiling a chart: a row of passes, each of which may find a fault, and the tables if none does.
  The passes also tell what they did, line by line; when one fails, its lines up to that point are
  the last ones.
-/

namespace Statechart

/-- What a pass found and what it has to tell. -/
structure Pass where
  fault : Option ModelError
  lines : Unit → List String

namespace Pass

/-- A pass with a single line. -/
def tell (line : String) : Pass := ⟨none, fun _ => [line]⟩

/-- A pass that only checks. -/
def check (fault : Option ModelError) : Pass := ⟨fault, fun _ => []⟩

/-- Goes through items up to the first fault; the item at fault still has its lines. -/
def each {α : Type} (items : List α) (fault : α → Option ModelError) (lines : α → List String) :
    Pass where
  fault := items.findSome? fault
  lines _ :=
    let good := items.takeWhile fun x => (fault x).isNone
    let bad := (items.dropWhile fun x => (fault x).isNone).take 1
    (good ++ bad).flatMap lines

/-- One pass, then the next unless the first found a fault. -/
def andThen (first : Pass) (second : Unit → Pass) : Pass :=
  match first.fault with
  | some _ => first
  | none =>
    let second := second ()
    ⟨second.fault, fun _ => first.lines () ++ second.lines ()⟩

theorem fault_andThen (first : Pass) (second : Unit → Pass) :
    (first.andThen second).fault = (first.fault <|> (second ()).fault) := by
  unfold andThen
  cases h : first.fault with
  | none => rfl
  | some e => simp [h]

end Pass

namespace Chart

variable {V : Type} (c : Chart V)

def historyLine (h : HistoryId) (slot : HistorySlot) : String :=
  Describe.history h ++ " in " ++ ModelError.named (c.label slot.container) ++ " tracks " ++
    Text.decimal slot.tracked.length ++ " states"

/-- The line of a request; settling on the spot and a request in error have none. -/
def planLine : Request V → Option String
  | .settle _ => none
  | .missing _ _ => none
  | .move source target _ =>
    match c.pathBetween source target with
    | .ok path =>
      some ("plan " ++ Describe.vertex source ++ " -> " ++ Describe.vertex target ++ ": lca " ++
        Describe.state path.turn ++ ", enter " ++ Text.list (path.enter.map Describe.state) ++
        ", then " ++ Describe.continuation (c.continuation target))
    | .error _ => none

def historyPass (slots : Array HistorySlot) : Pass :=
  Pass.each c.pseudoIds (c.historyFault slots) fun p =>
    match slots.findIdx? (·.pseudo == p) with
    | some h => (((slots[h]?).filter (·.fits)).map fun slot => c.historyLine h slot).toList
    | none => []

/-- Requests whose plans are numbered from `first`. -/
def planPass (requests : List (Request V)) (first : PlanId) : Pass :=
  Pass.each (requests.zipIdx first) (fun r => c.planFault r.1 r.2) fun r => (c.planLine r.1).toList

/-- One cell: its plans are numbered, then its span is noted. -/
def cellPass (cell : Placement V) : Pass :=
  (c.planPass cell.requests cell.first).andThen fun _ =>
  Pass.check cell.fault

def cellsPass (cells : List (Placement V)) : Pass :=
  Pass.each cells (fun cell => (c.cellPass cell).fault) fun cell => (c.cellPass cell).lines ()

def loopFault (rows : Array (PseudoRow V)) (plans : List (Plan V)) : Option ModelError :=
  (findLoop (successors rows plans.toArray)).map fun p =>
    match rows[p]? with
    | some row => .pseudostateLoop row.kind (c.label row.container)
    | none => .unknownId .pseudostate p

/-- What is checked once behaviors and branches are in order. -/
def orderedPass : Pass :=
  (Pass.check (c.pseudostates.toList.findSome? c.branchFault)).andThen fun _ =>
  let slots := c.historySlots
  (c.historyPass slots).andThen fun _ =>
  let requests := (c.pseudoRequests slots).flatten
  (c.planPass requests 0).andThen fun _ =>
  (Pass.check (c.loopFault (c.pseudoRows slots) (requests.map c.plan))).andThen fun _ =>
  let cells := c.cells
  (c.cellsPass (cells.placements requests.length)).andThen fun _ =>
  (Pass.check (faultIf (c.initialOf rootState).isNone .missingRootInitial)).andThen fun _ =>
  Pass.tell ("compiled " ++ ModelError.named c.name ++ ": " ++
    Text.decimal (requests.length + cells.requests.length) ++ " plans, " ++
    Text.decimal slots.size ++ " histories, " ++
    Text.decimal cells.behaviors.length ++ " behaviors")

/-- All passes, in order; the later ones look at the chart with its behaviors and branches
ordered. -/
def passes (ordered : Chart V) : Pass :=
  (Pass.tell ("compiling " ++ ModelError.named c.name ++ ": " ++ Text.decimal c.states.size ++
    " states, " ++ Text.decimal c.events.size ++ " events, " ++
    Text.decimal c.pseudostates.size ++ " pseudostates")).andThen fun _ =>
  (Pass.check c.structureFault).andThen fun _ =>
  ordered.orderedPass

/-- The tables of a chart, or the first thing that is wrong with it. -/
def compile : Except ModelError (Program V) :=
  let ordered := c.ordered
  match (c.passes ordered).fault with
  | some error => .error error
  | none => .ok ordered.program

/-- What compiling has to tell, also when it fails. -/
def compileLines : List String := (c.passes c.ordered).lines ()

end Chart

/-- Finishes a draft and compiles it. -/
def Draft.compile {V : Type} (d : Draft V) : Except ModelError (Program V) := do
  (← d.finish).compile

/-- What compiling a draft adds to a log; a draft with a mistake is not compiled and adds
nothing. -/
def Draft.compileLog {V : Type} (d : Draft V) : List String :=
  match d.finish with
  | .ok c => c.compileLines.map ("DEBUG strata::compiler: " ++ ·)
  | .error _ => []

end Statechart
