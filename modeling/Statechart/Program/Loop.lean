import Statechart.Program

/-
  Pseudostates that lead back to themselves. A plan of a pseudostate may go on through another one;
  a machine can only come to rest if no such way is closed. The search goes depth first with a stack
  of its own and reports the pseudostate at which it meets its own way again.
-/

namespace Statechart

/-- The pseudostates that each pseudostate may go on to, its branches first, then its fallback. -/
def successors {V : Type} (pseudostates : Array (PseudoRow V)) (plans : Array (Plan V)) :
    Array (List PseudoId) :=
  pseudostates.map fun row =>
    (row.branches.map (·.plan) ++ [row.fallback]).filterMap fun q =>
      match plans[q]? with
      | some plan =>
        match plan.next with
        | .pseudo next => some next
        | .settle _ => none
      | none => none

inductive Mark where
  | unvisited
  | onPath
  | done
deriving DecidableEq

structure LoopSearch where
  marks : Array Mark
  /-- The way to the current pseudostate, innermost first, each with the successors still to
  visit. -/
  stack : List (PseudoId × List PseudoId)

namespace LoopSearch

/-- Goes on until the stack is empty, at most `n` steps; fails where the way meets itself. -/
def run (next : Array (List PseudoId)) : Nat → LoopSearch → Except PseudoId (Array Mark)
  | 0, search => .ok search.marks
  | n + 1, ⟨marks, stack⟩ =>
    match stack with
    | [] => .ok marks
    | (v, []) :: rest => run next n ⟨marks.setIfInBounds v .done, rest⟩
    | (v, w :: ws) :: rest =>
      match marks.getD w .done with
      | .onPath => .error w
      | .unvisited =>
        run next n ⟨marks.setIfInBounds w .onPath, (w, next.getD w []) :: (v, ws) :: rest⟩
      | .done => run next n ⟨marks, (v, ws) :: rest⟩

/-- Visits all that can be reached from `v`. Every step uses up a successor or takes a pseudostate
off the stack, which bounds their number. -/
def visit (next : Array (List PseudoId)) (steps : Nat) (marks : Array Mark) (v : PseudoId) :
    Except PseudoId (Array Mark) :=
  if marks.getD v .done = .unvisited then
    run next steps ⟨marks.setIfInBounds v .onPath, [(v, next.getD v [])]⟩
  else .ok marks

end LoopSearch

/-- A pseudostate on a closed way, if there is one. -/
def findLoop (next : Array (List PseudoId)) : Option PseudoId :=
  let steps := next.foldl (fun n ws => n + ws.length + 1) 1
  let search := (List.range next.size).foldlM (LoopSearch.visit next steps)
    (Array.replicate next.size Mark.unvisited)
  match search with
  | .ok _ => none
  | .error v => some v

end Statechart
