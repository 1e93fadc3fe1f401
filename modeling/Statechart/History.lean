import Statechart.Chart

/-
  What histories remember. A history has one stored value; each state that it tracks has a value of
  its own, and 0 stands for the default target if that is tracked, otherwise for nothing. A deep
  history tracks every state below its container, a shallow one the children, the children of those
  children that are marked by a history continue, and so on.
-/

namespace Statechart

namespace Chart

variable {V : Type} (c : Chart V)

/-- The states below `s`, each before those below it, going down only where `opens` allows it and at
most `n` levels. -/
def below (opens : StateId → Bool) : Nat → StateId → List StateId
  | 0, _ => []
  | n + 1, s => (c.children s).flatMap fun q => q :: if opens q then below opens n q else []

/-- The states that a history of this depth in this container remembers. -/
def tracked (container : StateId) : HistoryDepth → List StateId
  | .shallow => c.below c.hasContinue c.states.size container
  | .deep => c.below (fun _ => true) c.states.size container

/-- Going up through these states, a shallow history comes before a state that is not marked. -/
def reachesShallow : List StateId → Bool
  | [] => false
  | q :: qs => c.hasShallowHistory q || (c.hasContinue q && reachesShallow qs)

/-- A history continue extends a shallow history further up. -/
def continueFault (p : PseudoId) : Option ModelError :=
  (c.pseudostates[p]?).bind fun node =>
    if node.kind = .historyContinue ∧
        ¬ c.reachesShallow (c.hierarchy.ancestors node.container).tail then
      some (.orphanContinue (c.label node.container))
    else none

end Chart

/-- The stored value of one history. -/
structure HistorySlot where
  pseudo : PseudoId
  container : StateId
  depth : HistoryDepth
  /-- The state that each value stands for. -/
  values : Array (Option StateId)
deriving DecidableEq

/-- Each tracked state with its value. -/
def HistorySlot.tracked (slot : HistorySlot) : List (Nat × StateId) :=
  slot.values.toList.zipIdx.filterMap fun v => v.1.map fun s => (v.2, s)

/-- There are not more values than can be numbered. -/
def HistorySlot.fits (slot : HistorySlot) : Bool := slot.values.size ≤ maxNodes

/-- Entering a state stores its value in a history. -/
structure HistoryWrite where
  history : HistoryId
  value : Nat
deriving DecidableEq

/-- Adds to each tracked state the write into history `h`. -/
def HistorySlot.addWrites (slot : HistorySlot) (h : HistoryId)
    (writes : Array (Array HistoryWrite)) : Array (Array HistoryWrite) :=
  slot.tracked.foldl
    (fun writes v => writes.modify v.2 (·.push { history := h, value := v.1 })) writes

/-- The target of the default branch, if the history tracks it. -/
def PseudoNode.trackedDefault {V : Type} (node : PseudoNode V) (tracked : List StateId) :
    Option StateId :=
  match (node.branches[0]?).bind Branch.target with
  | some (.state s) => if tracked.contains s then some s else none
  | _ => none

namespace Chart

variable {V : Type} (c : Chart V)

def historySlot? (p : PseudoId) : Option HistorySlot :=
  match c.pseudostates[p]? with
  | some node =>
    match node.kind with
    | .history depth =>
      let tracked := c.tracked node.container depth
      let default := node.trackedDefault tracked
      let others := tracked.filter fun s => some s != default
      some { pseudo := p, container := node.container, depth,
             values := (default :: others.map some).toArray }
    | _ => none
  | none => none

/-- The histories of a chart, in the order of their pseudostates. -/
def historySlots : Array HistorySlot := (c.pseudoIds.filterMap c.historySlot?).toArray

/-- A history continue is in place, and the values of a history can be numbered. -/
def historyFault (slots : Array HistorySlot) (p : PseudoId) : Option ModelError :=
  c.continueFault p <|>
  (slots.find? (·.pseudo == p)).bind fun slot =>
    if slot.fits then none else some (.tooMany .tracked)

/-- For each state what entering it stores, by history. -/
def historyWrites (slots : Array HistorySlot) : Array (Array HistoryWrite) :=
  slots.toList.zipIdx.foldl (fun writes slot => slot.1.addWrites slot.2 writes)
    (Array.replicate c.states.size #[])

end Chart

end Statechart
