import Statechart.Hierarchy

/-
  The way of a transition through the hierarchy: up to a state that stays active, then down.
-/

namespace Statechart

/-- Where a transition starts or ends. -/
inductive Anchor where
  /-- The state itself: it can be left and entered again. -/
  | state (s : StateId)
  /-- A pseudostate of the state: it is reached while the state is active. -/
  | inside (s : StateId)
deriving DecidableEq

def Anchor.holder : Anchor → StateId
  | state s => s
  | inside s => s

structure Path where
  /-- States are left up to this one, which stays active. -/
  turn : StateId
  /-- The states entered below it, outermost first. -/
  enter : List StateId
deriving DecidableEq

namespace Hierarchy

/-- Where the way turns. A target state that is the source or holds it is left and entered again; a
pseudostate of a state that holds the source is reached without leaving that state; a source above
the target stays active; otherwise the way turns in the innermost state that holds both. -/
def turn (h : Hierarchy) (source target : Anchor) : Except ModelError StateId :=
  let start := source.holder
  let below := if h.isAbove start target.holder then start else h.lca start target.holder
  match target with
  | .state t =>
    if h.isWithin start t then
      match h.parent t with
      | some q => .ok q
      | none => .error (.transitionToRoot (h.label start))
    else .ok below
  | .inside c => .ok (if h.isWithin start c then c else below)

def path (h : Hierarchy) (source target : Anchor) : Except ModelError Path := do
  let turn ← h.turn source target
  let chain ← h.chainUpTo target.holder turn
  return { turn, enter := chain.reverse }

end Hierarchy

end Statechart
