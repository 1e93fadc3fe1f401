import Statechart.Machine
import Statechart.Proofs.WellFormed

/-
  A chart run as it was declared, without tables. An event is offered to the innermost active state,
  then to its parent, and so on up to the root (`Chart.react`). A transition leaves states one by
  one up to the innermost state that holds both its source and its target, then enters states one
  by one, and goes on through pseudostates until it comes to rest (`Chart.follow`).
-/

namespace Statechart

/-- What can be watched of a run. -/
inductive Deed (V : Type) where
  | tested (guard : Guard V) (passed : Bool) (remarks : List String)
  | consulted (consumed : Bool) (remarks : List String)
  | acted (action : Action V) (remarks : List String)
  /-- A behavior of a state fired; `leads` says whether it has a target. -/
  | fired (s : StateId) (leads : Bool)
  | entered (s : StateId)
  | exited (s : StateId)
  | passed (r : PseudoId)
  | settled (s : StateId)

/-- Who walks the tree of a chart. -/
structure Walker (V : Type) where
  vars : V
  /-- The innermost active state. -/
  place : StateId
  /-- The state that each history saw last; other pseudostates remember nothing. -/
  memory : PseudoId → Option StateId
  /-- All that was done, in order. -/
  deeds : List (Deed V)

variable {V : Type}

namespace Walker

def log (w : Walker V) (deeds : List (Deed V)) : Walker V := { w with deeds := w.deeds ++ deeds }

/-- No guard is always open. -/
def opens (w : Walker V) (guard : Option (Guard V)) : Bool := guard.all (·.test w.vars)

/-- Takes down that a guard was tested. -/
def test (w : Walker V) (guard : Option (Guard V)) : Walker V :=
  match guard with
  | none => w
  | some g => w.log [.tested g (g.test w.vars) (g.remarks w.vars)]

def act (w : Walker V) (action : Option (Action V)) : Walker V :=
  match action with
  | none => w
  | some a => { w.log [.acted a (a.remarks w.vars)] with vars := a.run w.vars }

/-- A behavior on a boundary. -/
def obey (w : Walker V) (b : Behavior V) : Walker V :=
  if w.opens b.guard then (w.test b.guard).act b.action else w.test b.guard

/-- Whether a policy keeps an event from the states above. It is asked once the action has run. If
nothing was said, every event but `doEvent` is kept. -/
def keeps (w : Walker V) (e : EventId) : Consume V → Bool
  | .byDefault => e ≠ doEvent
  | .always => true
  | .never => false
  | .when guard => guard.test w.vars

/-- Takes down what a policy says. Only one that looks at the variables remarks on them. -/
def consult (w : Walker V) (e : EventId) (policy : Consume V) : Walker V :=
  match policy with
  | .when guard => w.log [.consulted (w.keeps e policy) (guard.remarks w.vars)]
  | _ => w.log [.consulted (w.keeps e policy) []]

/-- The first open branch. -/
def firstBranch : List (Branch V) → Walker V → Option (Branch V × Walker V)
  | [], _ => none
  | b :: bs, w =>
    if w.opens b.guard then some (b, w.test b.guard) else firstBranch bs (w.test b.guard)

end Walker

namespace Chart

variable (c : Chart V)

/-! ## Declared rules -/

/-- The behaviors of a state with a certain trigger, in the order in which they are tried. -/
def behaviorsOn (s : StateId) (trigger : Trigger) : List (Behavior V) :=
  match c.states[s]? with
  | some node => (byPriority (·.priority) node.behaviors.toList).filter (·.trigger == trigger)
  | none => []

/-- The branches of a pseudostate, in the order in which they are tried. -/
def branchesOf (r : PseudoId) : List (Branch V) :=
  match c.pseudostates[r]? with
  | some node => byPriority (·.priority) node.branches.toList
  | none => []

/-- Whether `r` is a history that tracks `s`. -/
def remembers (r : PseudoId) (s : StateId) : Bool :=
  match c.pseudostates[r]? with
  | some node =>
    match node.kind with
    | .history depth => c.Tracks node.container depth s
    | _ => false
  | none => false

/-- What is remembered once `s` has been entered. -/
def note (memory : PseudoId → Option StateId) (s : StateId) : PseudoId → Option StateId :=
  fun r => if c.remembers r s then some s else memory r

/-! ## Transitions -/

def leave (w : Walker V) (s : StateId) : Walker V :=
  (c.behaviorsOn s (.boundary .exit)).foldl Walker.obey (w.log [.exited s])

def enter (w : Walker V) (s : StateId) : Walker V :=
  let w := (c.behaviorsOn s (.boundary .enter)).foldl Walker.obey (w.log [.entered s])
  { w with memory := c.note w.memory s }

/-- The states that hold a target. A state is held by those above it, a pseudostate also by its
container. -/
def holders : Vertex → List StateId
  | .state s => (c.hierarchy.ancestors s).tail
  | .pseudo r => c.hierarchy.ancestors (c.containerOf r)

/-- The innermost state around the source that holds the target. It stays active. -/
def stays (source target : Vertex) : Option StateId :=
  (c.hierarchy.ancestors (c.landing source)).find? (c.holders target).contains

/-- From one node to another: up to the state that stays, then down. -/
def go (source target : Vertex) (action : Option (Action V)) (w : Walker V) :
    Option (Walker V) := do
  let stay ← c.stays source target
  let w := ((c.hierarchy.chain w.place stay).foldl c.leave w).act action
  let w := (c.hierarchy.chain (c.landing target) stay).reverse.foldl c.enter w
  return { w with place := c.landing target }

/-- Where a pseudostate leads and what is done on the way. A history leads back to the state that it
saw last, unless a branch of it leads there anyway; otherwise the first open branch is taken. -/
def wayOut (r : PseudoId) (w : Walker V) : Option (Vertex × Option (Action V) × Walker V) :=
  match (w.memory r).filter fun s => (c.branchesOf r).all (·.target != some (.state s)) with
  | some s => some (.state s, none, w.log [.passed r])
  | none => do
    let (b, w) ← Walker.firstBranch (c.branchesOf r) w
    let target ← b.target
    return (target, b.action, w.log [.passed r])

/-- The pseudostate through which the way goes on from a target, if it does. -/
def onward : Vertex → Option PseudoId
  | .state s => c.initialOf s
  | .pseudo r => some r

/-- A transition, followed to its end, with less than `n` pseudostates on the way. -/
def follow : Nat → Vertex → Vertex → Option (Action V) → Walker V → Option (Walker V)
  | 0, _, _, _, _ => none
  | n + 1, source, target, action, w => do
    let w ← c.go source target action w
    match c.onward target with
    | none => return w.log [.settled w.place]
    | some r =>
      let (target, action, w) ← c.wayOut r w
      follow n (.pseudo r) target action w

/-! ## Events -/

/-- Offers an event to one state, behavior by behavior. A behavior that leads somewhere ends it all;
the others run one after the other, and the state keeps the event if any of them wants so. -/
def offer (s : StateId) (e : EventId) :
    List (Behavior V) → Walker V → SendResult → Bool → Option (Walker V × SendResult × Bool)
  | [], w, result, kept => some (w, result, kept)
  | b :: bs, w, result, kept =>
    if w.opens b.guard then
      match b.target with
      | some target => do
        let w ← c.follow (c.pseudostates.size + 1) (.state s) target b.action
          ((w.test b.guard).log [.fired s true])
        return (w, .transitioned, true)
      | none =>
        let w := ((w.test b.guard).log [.fired s false]).act b.action
        offer s e bs (w.consult e b.consume) .handled (kept || w.keeps e b.consume)
    else offer s e bs (w.test b.guard) result kept

/-- Offers an event to one state after the other, until one keeps it. -/
def visit (e : EventId) : List StateId → Walker V → SendResult → Option (Walker V × SendResult)
  | [], w, result => some (w, result)
  | s :: ss, w, result => do
    let (w, result, kept) ← c.offer s e (c.behaviorsOn s (.event e)) w result false
    if kept then return (w, result) else visit e ss w result

/-- Offers an event to the innermost active state, its parent, and so on. -/
def react (e : EventId) (w : Walker V) : Option (Walker V × SendResult) :=
  c.visit e (c.hierarchy.ancestors w.place) w .noMatch

end Chart

end Statechart
