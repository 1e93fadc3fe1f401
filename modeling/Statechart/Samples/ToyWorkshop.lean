import Statechart.Program.Compile

/-
  Two toyboxes, one behind a deep history and one behind a shallow history that is continued into
  its tools; a choice, an entry point and an exit point between them.

  ROOT DECIDE (initial) TEST7_INITIAL_OR_HISTORY TEST7 (initial) TEST7_DECIDE (initial)
  T7__DEEP_HISTORY1: deep history, entry point "tools", a toybox T7__HISTORY1: shallow history, exit
  point "done", a toybox with continued tools

  A toybox is a toy (a race car, or a robot: battlebot or wall-e) or a tool (a drill or a hammer).
-/

namespace Statechart.Samples

structure ToyVars where
  rootDoCount : Nat := 0
  test7DoCount : Nat := 0
  wallEDoCount : Nat := 0
  /-- Wall-e keeps `doEvent` to itself. -/
  consumeDo : Bool := false
  /-- 1 picks the robot, 2 the tools behind the shallow history, any other number leaves. -/
  choice : Nat := 0
  /-- The entry point leads straight to the hammer. -/
  preferHammer : Bool := false
  /-- The exit point leads out of the test. -/
  exitToDecide : Bool := false
  decideEntries : Nat := 0
  test7Entries : Nat := 0
  test7Exits : Nat := 0
  hammerEntries : Nat := 0
  exitPointActions : Nat := 0
deriving DecidableEq

namespace ToyWorkshop

/-- An action without remarks. -/
def act (run : ToyVars → ToyVars) : Clause ToyVars := .action { run }

/-- A guard without remarks. -/
def whenever (test : ToyVars → Bool) : Clause ToyVars := .when { test }

/-- The parts of a toybox that the rest of the workshop leads to. -/
structure Toybox where
  history : PseudoId
  robot : StateId
  tool : StateId
  hammer : StateId

/-- Adds a pseudostate with one branch. -/
def single (pseudostate : Draft ToyVars → PseudoId × Draft ToyVars) (target : StateId) :
    StateM (Draft ToyVars) PseudoId := do
  let p ← modifyGet pseudostate
  modify (·.branch p [.to (.state target)])
  return p

/-- Fills a container; the names of its states begin with `label`. -/
def toybox (container : StateId) (label : String) (depth : HistoryDepth) (ev1 ev2 : EventId) :
    StateM (Draft ToyVars) Toybox := do
  let toy ← modifyGet (·.state (label ++ "__TOY") container)
  let raceCar ← modifyGet (·.state (label ++ "__RACE_CAR") toy)
  let robot ← modifyGet (·.state (label ++ "__ROBOT") toy)
  let battlebot ← modifyGet (·.state (label ++ "__BATTLEBOT") robot)
  let wallE ← modifyGet (·.state (label ++ "__WALL_E") robot)
  let tool ← modifyGet (·.state (label ++ "__TOOL") container)
  let drill ← modifyGet (·.state (label ++ "__DRILL") tool)
  let hammer ← modifyGet (·.state (label ++ "__HAMMER") tool)
  let _ ← single (·.initial container) toy
  let _ ← single (·.initial toy) raceCar
  let _ ← single (·.initial robot) battlebot
  let _ ← single (·.initial tool) drill
  let history ← single (·.history container depth) toy
  modify (·.on raceCar ev1 [.to (.state robot)])
  modify (·.on battlebot ev1 [.to (.state wallE)])
  modify (·.on drill ev1 [.to (.state hammer)])
  modify (·.on toy ev2 [.to (.state tool)])
  modify (·.onDo wallE
    [act fun v => { v with wallEDoCount := v.wallEDoCount + 1 },
     .consume (.when { test := fun v => v.consumeDo })])
  modify (·.onEnter hammer [act fun v => { v with hammerEntries := v.hammerEntries + 1 }])
  return { history, robot, tool, hammer }

def draft : StateM (Draft ToyVars) Unit := do
  let ev1 ← modifyGet (·.event "EV1")
  let ev2 ← modifyGet (·.event "EV2")
  let ev3 ← modifyGet (·.event "EV3")
  let ev4 ← modifyGet (·.event "EV4")
  let ev5 ← modifyGet (·.event "EV5")
  let ev6 ← modifyGet (·.event "EV6")
  let ev7 ← modifyGet (·.event "EV7")
  let ev8 ← modifyGet (·.event "EV8")
  let ev9 ← modifyGet (·.event "EV9")
  let ev10 ← modifyGet (·.event "EV10")
  let decide ← modifyGet (·.state "DECIDE" rootState)
  let outer ← modifyGet (·.state "TEST7_INITIAL_OR_HISTORY" rootState)
  let test7 ← modifyGet (·.state "TEST7" outer)
  let test7Decide ← modifyGet (·.state "TEST7_DECIDE" test7)
  let deepBox ← modifyGet (·.state "T7__DEEP_HISTORY1" test7)
  let deep ← toybox deepBox "T7__DH1" .deep ev1 ev2
  let shallowBox ← modifyGet (·.state "T7__HISTORY1" test7)
  let shallow ← toybox shallowBox "T7__H1" .shallow ev1 ev2
  let _ ← modifyGet (·.historyContinue shallow.tool)
  let _ ← single (·.initial rootState) decide
  let _ ← single (·.initial outer) test7
  let _ ← single (·.initial test7) test7Decide
  modify (·.onDo rootState [act fun v => { v with rootDoCount := v.rootDoCount + 1 }])
  modify (·.onDo test7 [act fun v => { v with test7DoCount := v.test7DoCount + 1 }])
  modify (·.onEnter decide [act fun v => { v with decideEntries := v.decideEntries + 1 }])
  modify (·.onEnter test7 [act fun v => { v with test7Entries := v.test7Entries + 1 }])
  modify (·.onExit test7 [act fun v => { v with test7Exits := v.test7Exits + 1 }])
  modify (·.on decide ev7 [.to (.state outer)])
  let tools ← modifyGet (·.entryPoint deepBox "tools")
  modify (·.branch tools [whenever (·.preferHammer), .to (.state deep.hammer)])
  modify (·.branch tools [.to (.state deep.tool)])
  modify (·.on decide ev10 [.to (.pseudo tools)])
  modify (·.on test7 ev8 [.to (.state test7Decide)])
  modify (·.on test7 ev9 [.to (.state decide)])
  modify (·.on test7Decide ev3 [.to (.pseudo deep.history)])
  modify (·.on test7Decide ev4 [.to (.pseudo shallow.history)])
  let choice ← modifyGet (·.choice test7)
  modify (·.branch choice [whenever (·.choice == 1), .to (.state deep.robot)])
  modify (·.branch choice [whenever (·.choice == 2), .to (.state shallow.tool)])
  modify (·.branch choice [.to (.state decide)])
  modify (·.on test7Decide ev5 [.to (.pseudo choice)])
  let done ← modifyGet (·.exitPoint shallowBox "done")
  modify (·.branch done
    [whenever (·.exitToDecide),
     act fun v => { v with exitPointActions := v.exitPointActions + 1 },
     .to (.state decide)])
  modify (·.branch done
    [act fun v => { v with exitPointActions := v.exitPointActions + 1 }, .to (.state test7Decide)])
  modify (·.on shallowBox ev6 [.to (.pseudo done)])

end ToyWorkshop

def toyWorkshop : Except ModelError (Program ToyVars) :=
  (ToyWorkshop.draft.run (.new "toy_workshop")).2.compile

end Statechart.Samples
