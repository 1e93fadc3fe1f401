import Statechart.Program

/-
  Event sequences for measuring, and how much is measured.
-/

namespace Statechart.Samples

/-- An event that a workload needs is not there. -/
structure MissingEvent where
  name : String
deriving DecidableEq

def MissingEvent.message (error : MissingEvent) : String :=
  "workload event `" ++ error.name ++ "` is not declared"

/-- The first `count` events of a pattern repeated for ever; nothing repeated is nothing. -/
def cycle (pattern : Array EventId) (count : Nat) : List EventId :=
  if pattern.isEmpty then []
  else (List.range count).filterMap fun i => pattern[i % pattern.size]?

/-- A tour of the toy workshop that passes through both histories, the choice and both points. -/
def tour : List String :=
  ["EV7", "EV3", "EV1", "DO", "EV1", "DO", "EV8", "EV4", "EV2", "EV1", "EV6", "EV5", "EV9", "EV10",
   "EV9"]

/-- The number of an event, by name. -/
def eventOf {V : Type} (p : Program V) (name : String) : Except MissingEvent EventId :=
  match p.eventNamed? name with
  | some e => .ok e
  | none => .error ⟨name⟩

/-- So many events of the tour. -/
def workload {V : Type} (p : Program V) (count : Nat) : Except MissingEvent (List EventId) := do
  let pattern ← tour.mapM (eventOf p)
  return cycle pattern.toArray count

/-- How much is measured. -/
structure Sizing where
  sampleSize : Nat
  eventsPerIteration : Nat
  depths : List Nat
deriving DecidableEq

namespace Sizing

def full : Sizing := ⟨100, 1000, [2, 8, 16, 30]⟩

/-- Just enough to see that everything runs. -/
def smoke : Sizing := ⟨10, 100, [2, 8]⟩

/-- The setting that asks for a smoke run counts as soon as it is there, whatever its value. -/
def ofSetting (setting : Option String) : Sizing := if setting.isSome then smoke else full

end Sizing

end Statechart.Samples
