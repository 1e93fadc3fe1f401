import Statechart.Basic

/-
  What a chart borrows from the program around it: guards that read its variables, actions that
  change them, and policies on who else may see an event. Both guards and actions may say something,
  a text for the log of the machine that runs them.
-/

namespace Statechart

structure Guard (V : Type) where
  test : V → Bool
  /-- What is remarked while the variables are tested. -/
  remarks : V → List String := fun _ => []

structure Action (V : Type) where
  run : V → V
  /-- What is remarked while the variables are changed. -/
  remarks : V → List String := fun _ => []

/-- Whether an event handled without a transition is kept from the states above. -/
inductive Consume (V : Type) where
  /-- Every event but `doEvent` is kept. -/
  | byDefault
  | always
  | never
  /-- The host is asked after the action has run. -/
  | when (guard : Guard V)

namespace Consume

variable {V : Type}

def consumes : Consume V → V → EventId → Bool
  | byDefault, _, e => e != doEvent
  | always, _, _ => true
  | never, _, _ => false
  | when guard, vars, _ => guard.test vars

def remarks : Consume V → V → List String
  | when guard, vars => guard.remarks vars
  | _, _ => []

end Consume

end Statechart
