import Statechart.Basic

/-
  Priorities order the behaviors of a state and the branches of a pseudostate: explicit dotted
  orders first, segment by segment, then those without an order, then the `else` ones.
-/

namespace Statechart

inductive Priority where
  | explicit (segments : List Nat)
  | unordered
  | otherwise
deriving DecidableEq

namespace Priority

def rank : Priority → Nat
  | explicit _ => 0
  | unordered => 1
  | otherwise => 2

/-- Segment by segment; of two orders one of which begins the other, the shorter comes first. -/
def compareSegments : List Nat → List Nat → Ordering
  | [], [] => .eq
  | [], _ :: _ => .lt
  | _ :: _, [] => .gt
  | a :: as, b :: bs => (compare a b).then (compareSegments as bs)

def compare : Priority → Priority → Ordering
  | explicit a, explicit b => compareSegments a b
  | a, b => Ord.compare a.rank b.rank

/-- `a` does not come after `b`. -/
def le (a b : Priority) : Bool := compare a b != .gt

end Priority

end Statechart
