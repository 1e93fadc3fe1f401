import Statechart.Machine.Table
import Statechart.Program

/-
  Running a program. A machine takes one event at a time and works until it has settled again. All
  that happens on the way is put down in a journal: guards tested, actions run, states left and
  entered, pseudostates passed. Every function here answers `none` only if a table is read past its
  end or a transition never settles, which no compiled program brings about.
-/

namespace Statechart

structure Machine (V : Type) where
  vars : V
  table : DispatchTable
  history : HistoryStore

/-- Where a guard or an action belongs. -/
inductive Site where
  | behavior (s : StateId) (e : EventId)
  | boundary (s : StateId) (b : Boundary)
  | pseudo (p : PseudoId)
  | plan (q : PlanId)
deriving DecidableEq

/-- Something that happens in a machine. -/
inductive Occurrence (V : Type) where
  | started
  | dispatched (e : EventId)
  | tested (site : Site) (guard : Guard V) (passed : Bool) (remarks : List String)
  /-- A policy was asked whether an event is kept. -/
  | consulted (s : StateId) (e : EventId) (consumed : Bool) (remarks : List String)
  | acted (site : Site) (action : Action V) (remarks : List String)
  /-- A behavior fired; one that leads somewhere with its plan. -/
  | fired (s : StateId) (e : EventId) (plan : Option PlanId)
  | entered (s : StateId)
  | exited (s : StateId)
  /-- The branch taken, by number; none for the fallback. -/
  | passed (p : PseudoId) (branch : Option Nat)
  | settled (s : StateId)

abbrev Journal (V : Type) := List (Occurrence V)

/-- What became of an event. -/
inductive SendResult where
  | transitioned
  /-- At least one behavior ran, none of them a transition. -/
  | handled
  | noMatch
deriving DecidableEq

/-- What a state that handled an event wants done with it. -/
inductive Verdict where
  | consumed
  /-- The next state further up, if there is one, handles it too. -/
  | bubble (next : Option StateId)
deriving DecidableEq

section Host

variable {V : Type}

/-- No guard is always open. -/
def testGuard (site : Site) (guard : Option (Guard V)) (vars : V) : Bool × Journal V :=
  match guard with
  | none => (true, [])
  | some g => (g.test vars, [.tested site g (g.test vars) (g.remarks vars)])

def runAction (site : Site) (action : Option (Action V)) (vars : V) : V × Journal V :=
  match action with
  | none => (vars, [])
  | some a => (a.run vars, [.acted site a (a.remarks vars)])

/-- Runs the behaviors of a boundary, those whose guard is open. -/
def runBoundary (s : StateId) (b : Boundary) : List (GuardedAction V) → V → V × Journal V
  | [], vars => (vars, [])
  | r :: rs, vars =>
    let (passed, tested) := testGuard (.boundary s b) r.guard vars
    let (vars, acted) := if passed then runAction (.boundary s b) r.action vars else (vars, [])
    let (vars, rest) := runBoundary s b rs vars
    (vars, tested ++ acted ++ rest)

end Host

namespace Program

variable {V : Type} (p : Program V)

/-- A machine that has not been started. -/
def machine (vars : V) : Machine V where
  vars
  table := .new p.events.size
  history := .new p.histories.size

/-- Entering a state stores its values, runs its behaviors and puts its handlers in force. -/
def enter (m : Machine V) (s : StateId) : Option (Machine V × Journal V) := do
  let row ← p.states[s]?
  let handlers ← p.handlerRow? s
  let (vars, journal) := runBoundary s .enter row.onEnter m.vars
  let table ← m.table.install? handlers
  return ({ vars
            table := { table with active := some s }
            history := row.writes.foldl (fun store w => store.set w.history w.value) m.history },
          .entered s :: journal)

/-- Leaving a state runs its behaviors and puts the handlers of its parent in force. -/
def exit (m : Machine V) (s : StateId) : Option (Machine V × Journal V) := do
  let row ← p.states[s]?
  let (vars, journal) := runBoundary s .exit row.onExit m.vars
  let table ← match row.parent with
    | some q => (p.handlerRow? q).bind m.table.install?
    | none => some m.table.clear
  return ({ m with vars, table := { table with active := row.parent } }, .exited s :: journal)

def enterAll : Machine V → List StateId → Option (Machine V × Journal V)
  | m, [] => some (m, [])
  | m, s :: ss => do
    let (m, first) ← p.enter m s
    let (m, rest) ← enterAll m ss
    return (m, first ++ rest)

/-- Leaves the innermost active state until that is `turn` or nothing is active, looking at most
`n` times. -/
def exitWithin (turn : StateId) : Nat → Machine V → Option (Machine V × Journal V)
  | 0, _ => none
  | n + 1, m =>
    match m.table.active with
    | none => some (m, [])
    | some s =>
      if s = turn then some (m, [])
      else do
        let (m, first) ← p.exit m s
        let (m, rest) ← exitWithin turn n m
        return (m, first ++ rest)

/-- Leaves active states, innermost first, until `turn` is innermost. Each state is left at most
once. -/
def exitUpTo (m : Machine V) (turn : StateId) : Option (Machine V × Journal V) :=
  p.exitWithin turn (p.states.size + 1) m

/-- Whether a branch is open. -/
def branchOpen (r : PseudoId) (m : Machine V) : BranchGuard V → Bool × Journal V
  | .always => (true, [])
  | .when g => testGuard (.pseudo r) (some g) m.vars
  | .historyIs h value => (m.history.get h == value, [])

/-- The first open branch, by number and plan; branches are numbered from `i`. -/
def firstOpen (r : PseudoId) (m : Machine V) :
    List (BranchRow V) → Nat → Option (Nat × PlanId) × Journal V
  | [], _ => (none, [])
  | b :: bs, i =>
    let (isOpen, tested) := branchOpen r m b.guard
    if isOpen then (some (i, b.plan), tested)
    else
      let (found, rest) := firstOpen r m bs (i + 1)
      (found, tested ++ rest)

/-- The plan by which a pseudostate is left. -/
def select (m : Machine V) (r : PseudoId) : Option (PlanId × Journal V) := do
  let row ← p.pseudostates[r]?
  match firstOpen r m row.branches 0 with
  | (some (i, q), tested) => return (q, tested ++ [.passed r (some i)])
  | (none, tested) => return (row.fallback, tested ++ [.passed r none])

/-- One plan: leaving, its action, entering. -/
def runPlan (m : Machine V) (q : PlanId) : Option (Machine V × Journal V × Continuation) := do
  let plan ← p.plans[q]?
  let (m, exits) ← match plan.exitTo with
    | none => some (m, [])
    | some turn => p.exitUpTo m turn
  let (vars, acted) := runAction (.plan q) plan.action m.vars
  let (m, enters) ← p.enterAll { m with vars } plan.enter
  return (m, exits ++ acted ++ enters, plan.next)

/-- A plan and those it goes on with, until a state settles, at most `n` of them. -/
def executeWithin : Nat → Machine V → PlanId → Option (Machine V × Journal V)
  | 0, _, _ => none
  | n + 1, m, q => do
    let (m, journal, next) ← p.runPlan m q
    match next with
    | .settle s =>
      return ({ m with table := { m.table with settled := some s } }, journal ++ [.settled s])
    | .pseudo r =>
      let (q, selected) ← p.select m r
      let (m, rest) ← executeWithin n m q
      return (m, journal ++ selected ++ rest)

/-- Runs a plan to completion. Each pseudostate is passed at most once on the way. -/
def execute (m : Machine V) (q : PlanId) : Option (Machine V × Journal V) :=
  p.executeWithin (p.pseudostates.size + 1) m q

/-- Enters the root and goes on from its initial pseudostate. What was active is dropped, what is
remembered stays. -/
def start (m : Machine V) : Option (Machine V × Journal V) := do
  let (m, entered) ← p.enter { m with table := m.table.reset } rootState
  let (q, selected) ← p.select m p.rootInitial
  let (m, rest) ← p.execute m q
  return (m, .started :: entered ++ selected ++ rest)

/-- Asks a policy whether an event is kept. -/
def consult (s : StateId) (e : EventId) (consume : Consume V) (vars : V) : Bool × Journal V :=
  let consumed := consume.consumes vars e
  (consumed, [.consulted s e consumed (consume.remarks vars)])

/-- Tries the behaviors of one state in order. The first that leads somewhere ends the dispatch. The
others run one after the other, and the event is kept if any of them keeps it. -/
def runBehaviors (s : StateId) (e : EventId) :
    List (BehaviorRow V) → Machine V → SendResult → Bool →
      Option (Machine V × Journal V × SendResult × Bool)
  | [], m, result, consumed => some (m, [], result, consumed)
  | b :: bs, m, result, consumed =>
    match testGuard (.behavior s e) b.guard m.vars with
    | (false, tested) => do
      let (m, rest, result, consumed) ← runBehaviors s e bs m result consumed
      return (m, tested ++ rest, result, consumed)
    | (true, tested) =>
      match b.effect with
      | .transition q => do
        let (m, moved) ← p.execute m q
        return (m, tested ++ .fired s e (some q) :: moved, .transitioned, true)
      | .internal action consume => do
        let (vars, acted) := runAction (.behavior s e) action m.vars
        let (kept, consulted) := consult s e consume vars
        let (m, rest, result, consumed) ←
          runBehaviors s e bs { m with vars } .handled (consumed || kept)
        return (m, tested ++ .fired s e none :: acted ++ consulted ++ rest, result, consumed)

/-- Lets one state handle an event. -/
def handle (s : StateId) (e : EventId) (m : Machine V) (result : SendResult) :
    Option (Machine V × Journal V × SendResult × Verdict) := do
  let next ← p.nextAncestor? s e
  let behaviors ← p.behaviors? s e
  let (m, journal, result, consumed) ← p.runBehaviors s e behaviors m result false
  return (m, journal, result, if consumed then .consumed else .bubble next)

/-- Lets one state after the other handle an event, going up, until it is kept; at most `n`
states. -/
def bubble (e : EventId) :
    Nat → Option StateId → Machine V → SendResult → Option (Machine V × Journal V × SendResult)
  | _, none, m, result => some (m, [], result)
  | 0, some _, _, _ => none
  | n + 1, some s, m, result => do
    match ← p.handle s e m result with
    | (m, journal, result, .consumed) => return (m, journal, result)
    | (m, journal, result, .bubble next) =>
      let (m, rest, result) ← bubble e n next m result
      return (m, journal ++ rest, result)

/-- Runs an event to completion. -/
def dispatch (m : Machine V) (e : EventId) : Option (Machine V × Journal V × SendResult) := do
  let (m, journal, result) ← p.bubble e p.states.size (m.table.handler e) m .noMatch
  return (m, .dispatched e :: journal, result)

/-- Whether `s` is the settled state or holds it. -/
def isIn (m : Machine V) (s : StateId) : Bool :=
  m.table.settled.any fun leaf => p.hierarchy.isWithin leaf s

/-- The state that a history would restore. -/
def restores (m : Machine V) (h : HistoryId) : Option StateId := p.remembered h (m.history.get h)

end Program

/-- What is done to a machine from outside. -/
inductive Command (V : Type) where
  | start
  | dispatch (e : EventId)
  | clearHistory
  | assign (change : V → V)

/-- One command; only dispatching has a result. -/
def Program.perform {V : Type} (p : Program V) (m : Machine V) :
    Command V → Option (Machine V × Journal V × Option SendResult)
  | .start => do
    let (m, journal) ← p.start m
    return (m, journal, none)
  | .dispatch e => do
    let (m, journal, result) ← p.dispatch m e
    return (m, journal, some result)
  | .clearHistory => some ({ m with history := m.history.clear }, [], none)
  | .assign change => some ({ m with vars := change m.vars }, [], none)

namespace Describe

def verdict : Verdict → String
  | .consumed => "Consumed"
  | .bubble next => Text.wrap "Bubble" (state? next)

def sendResult : SendResult → String
  | .transitioned => "Transitioned"
  | .handled => "Handled"
  | .noMatch => "NoMatch"

end Describe

end Statechart
