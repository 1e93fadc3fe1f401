import Statechart.Machine.Tracer

/-
  A machine and its watcher. The machine tells the watcher what happens, and the outcome of every
  guard passes through its hands: the machine goes on with what it is handed back. A watcher keeps a
  state of its own and writes lines into the log, between the remarks of the host. Nothing here
  keeps it from meddling; those that are provided hand on what they are given.
-/

namespace Statechart

/-- Watches a machine, with a state of its own. On every message it may write lines. -/
structure Watcher (T : Type) where
  trace : T → String → T × List String
  /-- Is told the outcome of a guard and hands one back. -/
  traceGuard : T → String → Bool → T × List String × Bool := fun t text passed =>
    let told := trace t text
    (told.1, told.2, passed)

/-- A machine that is watched. -/
structure Watched (V T : Type) where
  machine : Machine V
  watcher : T
  /-- All that has happened. -/
  journal : Journal V := []
  log : List LogLine := []

/-- A watched machine that has not been started. -/
def Program.watched {V T : Type} (p : Program V) (watcher : T) (vars : V) : Watched V T where
  machine := p.machine vars
  watcher

/-- Writes the lines of a tracer, and remembers nothing. -/
def Tracer.watcher (tracer : Tracer) : Watcher Unit where
  trace _ text := ((), (tracer.line (.plain text)).toList)
  traceGuard _ text passed := ((), (tracer.line (.guard text passed)).toList, passed)

namespace Recorder

/-- Keeps the line that the recording tracer makes of a message. -/
def keep (r : Recorder) (message : Message) : Recorder :=
  ⟨r.lines ++ (Tracer.recording.line message).toList⟩

/-- Keeps its lines to itself. -/
def watcher : Watcher Recorder where
  trace r text := (r.keep (.plain text), [])
  traceGuard r text passed := (r.keep (.guard text passed), [], passed)

end Recorder

namespace Watcher

variable {V T : Type}

/-- Knows of guards only what it is told of anything. -/
def ofTrace (trace : T → String → T × List String) : Watcher T where
  trace

/-- Tells the watcher, which writes lines and hands back an outcome. -/
def hear (w : Watcher T) (t : T) : Option Message → T × List String × Bool
  | none => (t, [], true)
  | some (.plain text) =>
    let told := w.trace t text
    (told.1, told.2, true)
  | some (.guard text passed) => w.traceGuard t text passed

variable (w : Watcher T) (p : Program V)

/-- Something happens: first the host speaks, then the watcher is told. Gives what it hands back. -/
def note (s : Watched V T) (o : Occurrence V) : Watched V T × Bool :=
  let heard := w.hear s.watcher (p.report o)
  ({ s with
      watcher := heard.1
      journal := s.journal ++ [o]
      log := s.log ++ (o.remarks.map .host ++ heard.2.1.map .tracer) }, heard.2.2)

/-- Something happens, and nothing hangs on what is handed back. -/
def tell (s : Watched V T) (o : Occurrence V) : Watched V T := (w.note p s o).1

def testGuard (site : Site) (guard : Option (Guard V)) (s : Watched V T) : Watched V T × Bool :=
  match guard with
  | none => (s, true)
  | some g =>
    w.note p s (.tested site g (g.test s.machine.vars) (g.remarks s.machine.vars))

def runAction (site : Site) (action : Option (Action V)) (s : Watched V T) : Watched V T :=
  match action with
  | none => s
  | some a =>
    w.tell p { s with machine.vars := a.run s.machine.vars }
      (.acted site a (a.remarks s.machine.vars))

/-- Runs the behaviors of a boundary, those whose guard is open. -/
def runBoundary (x : StateId) (b : Boundary) :
    List (GuardedAction V) → Watched V T → Watched V T
  | [], s => s
  | r :: rs, s =>
    let tested := w.testGuard p (.boundary x b) r.guard s
    runBoundary x b rs
      (if tested.2 then w.runAction p (.boundary x b) r.action tested.1 else tested.1)

def enter (s : Watched V T) (x : StateId) : Option (Watched V T) := do
  let row ← p.states[x]?
  let handlers ← p.handlerRow? x
  let s := w.tell p s (.entered x)
  let s := { s with
    machine.history :=
      row.writes.foldl (fun store v => store.set v.history v.value) s.machine.history }
  let s := w.runBoundary p x .enter row.onEnter s
  let table ← s.machine.table.install? handlers
  return { s with machine.table := { table with active := some x } }

def exit (s : Watched V T) (x : StateId) : Option (Watched V T) := do
  let row ← p.states[x]?
  let s := w.runBoundary p x .exit row.onExit (w.tell p s (.exited x))
  let table ← match row.parent with
    | some q => (p.handlerRow? q).bind s.machine.table.install?
    | none => some s.machine.table.clear
  return { s with machine.table := { table with active := row.parent } }

def enterAll : Watched V T → List StateId → Option (Watched V T)
  | s, [] => some s
  | s, x :: xs => do enterAll (← w.enter p s x) xs

/-- Leaves the innermost active state until that is `turn` or nothing is active, looking at most
`n` times. -/
def exitWithin (turn : StateId) : Nat → Watched V T → Option (Watched V T)
  | 0, _ => none
  | n + 1, s =>
    match s.machine.table.active with
    | none => some s
    | some x => if x = turn then some s else do exitWithin turn n (← w.exit p s x)

def exitUpTo (s : Watched V T) (turn : StateId) : Option (Watched V T) :=
  w.exitWithin p turn (p.states.size + 1) s

def branchOpen (r : PseudoId) (s : Watched V T) : BranchGuard V → Watched V T × Bool
  | .always => (s, true)
  | .when g => w.testGuard p (.pseudo r) (some g) s
  | .historyIs h value => (s, s.machine.history.get h == value)

/-- The first open branch, by number and plan; branches are numbered from `i`. -/
def firstOpen (r : PseudoId) :
    List (BranchRow V) → Nat → Watched V T → Watched V T × Option (Nat × PlanId)
  | [], _, s => (s, none)
  | b :: bs, i, s =>
    let tested := w.branchOpen p r s b.guard
    if tested.2 then (tested.1, some (i, b.plan)) else firstOpen r bs (i + 1) tested.1

/-- The plan by which a pseudostate is left. -/
def select (s : Watched V T) (r : PseudoId) : Option (Watched V T × PlanId) := do
  let row ← p.pseudostates[r]?
  let (s, found) := w.firstOpen p r row.branches 0 s
  match found with
  | some (i, q) => return (w.tell p s (.passed r (some i)), q)
  | none => return (w.tell p s (.passed r none), row.fallback)

/-- One plan: leaving, its action, entering. -/
def runPlan (s : Watched V T) (q : PlanId) : Option (Watched V T × Continuation) := do
  let plan ← p.plans[q]?
  let s ← match plan.exitTo with
    | none => some s
    | some turn => w.exitUpTo p s turn
  let s ← w.enterAll p (w.runAction p (.plan q) plan.action s) plan.enter
  return (s, plan.next)

/-- A plan and those it goes on with, until a state settles, at most `n` of them. -/
def executeWithin : Nat → Watched V T → PlanId → Option (Watched V T)
  | 0, _, _ => none
  | n + 1, s, q => do
    let (s, next) ← w.runPlan p s q
    match next with
    | .settle x =>
      let s := w.tell p s (.settled x)
      return { s with machine.table.settled := some x }
    | .pseudo r =>
      let (s, q) ← w.select p s r
      executeWithin n s q

def execute (s : Watched V T) (q : PlanId) : Option (Watched V T) :=
  w.executeWithin p (p.pseudostates.size + 1) s q

def start (s : Watched V T) : Option (Watched V T) := do
  let s := w.tell p s .started
  let s ← w.enter p { s with machine.table := s.machine.table.reset } rootState
  let (s, q) ← w.select p s p.rootInitial
  w.execute p s q

/-- Asks a policy whether an event is kept. -/
def consult (x : StateId) (e : EventId) (consume : Consume V) (s : Watched V T) :
    Watched V T × Bool :=
  let consumed := consume.consumes s.machine.vars e
  (w.tell p s (.consulted x e consumed (consume.remarks s.machine.vars)), consumed)

/-- Tries the behaviors of one state in order. The first that leads somewhere ends the dispatch. The
others run one after the other, and the event is kept if any of them keeps it. -/
def runBehaviors (x : StateId) (e : EventId) :
    List (BehaviorRow V) → Watched V T → SendResult → Bool →
      Option (Watched V T × SendResult × Bool)
  | [], s, result, consumed => some (s, result, consumed)
  | b :: bs, s, result, consumed =>
    match w.testGuard p (.behavior x e) b.guard s with
    | (s, false) => runBehaviors x e bs s result consumed
    | (s, true) =>
      match b.effect with
      | .transition q => do
        let s ← w.execute p (w.tell p s (.fired x e (some q))) q
        return (s, .transitioned, true)
      | .internal action consume =>
        let s := w.runAction p (.behavior x e) action (w.tell p s (.fired x e none))
        let (s, kept) := w.consult p x e consume s
        runBehaviors x e bs s .handled (consumed || kept)

/-- Lets one state handle an event. -/
def handle (x : StateId) (e : EventId) (s : Watched V T) (result : SendResult) :
    Option (Watched V T × SendResult × Verdict) := do
  let next ← p.nextAncestor? x e
  let behaviors ← p.behaviors? x e
  let (s, result, consumed) ← w.runBehaviors p x e behaviors s result false
  return (s, result, if consumed then .consumed else .bubble next)

/-- Lets one state after the other handle an event, going up, until it is kept; at most `n`
states. -/
def bubble (e : EventId) :
    Nat → Option StateId → Watched V T → SendResult → Option (Watched V T × SendResult)
  | _, none, s, result => some (s, result)
  | 0, some _, _, _ => none
  | n + 1, some x, s, result => do
    match ← w.handle p x e s result with
    | (s, result, .consumed) => return (s, result)
    | (s, result, .bubble next) => bubble e n next s result

def dispatch (s : Watched V T) (e : EventId) : Option (Watched V T × SendResult) :=
  w.bubble p e p.states.size (s.machine.table.handler e) (w.tell p s (.dispatched e)) .noMatch

/-- One command; only dispatching has a result. -/
def perform (s : Watched V T) : Command V → Option (Watched V T × Option SendResult)
  | .start => do return (← w.start p s, none)
  | .dispatch e => do
    let (s, result) ← w.dispatch p s e
    return (s, some result)
  | .clearHistory => some ({ s with machine.history := s.machine.history.clear }, none)
  | .assign change => some ({ s with machine.vars := change s.machine.vars }, none)

end Watcher

end Statechart
