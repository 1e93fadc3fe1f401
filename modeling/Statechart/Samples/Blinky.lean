import Statechart.Program.Compile

/-
  A light that changes every half second: two states, one guard.
-/

namespace Statechart.Samples

structure BlinkyVars where
  nowMs : Nat := 0
  enteredAtMs : Nat := 0
  ledOn : Bool := false
  toggles : Nat := 0
deriving DecidableEq

namespace Blinky

/-- The time between two changes. -/
def blinkMs : Nat := 500

/-- Enough time has passed since the state was entered; a clock that went back counts as none. -/
def elapsed : Guard BlinkyVars where
  test v := blinkMs ≤ v.nowMs - v.enteredAtMs

def switchOff : Action BlinkyVars where
  run v := { v with enteredAtMs := v.nowMs, ledOn := false }

def switchOn : Action BlinkyVars where
  run v := { v with enteredAtMs := v.nowMs, ledOn := true, toggles := v.toggles + 1 }

def draft : StateM (Draft BlinkyVars) Unit := do
  let off ← modifyGet (·.state "LED_OFF" rootState)
  let on ← modifyGet (·.state "LED_ON" rootState)
  let start ← modifyGet (·.initial rootState)
  modify (·.branch start [.to (.state off)])
  modify (·.onEnter off [.action switchOff])
  modify (·.onEnter on [.action switchOn])
  modify (·.onDo off [.when elapsed, .to (.state on)])
  modify (·.onDo on [.when elapsed, .to (.state off)])

end Blinky

def blinky : Except ModelError (Program BlinkyVars) := (Blinky.draft.run (.new "blinky")).2.compile

end Statechart.Samples
