import Statechart.Basic
import Statechart.Describe

/-
  What a running machine keeps besides its variables: which state handles each event, which state is
  innermost, which one has settled, and one value per history.
-/

namespace Statechart

structure DispatchTable where
  /-- For each event the state that handles it. -/
  handlers : List (Option StateId)
  /-- The innermost state entered; the next one to leave. -/
  active : Option StateId
  /-- The state in which the last transition was complete. -/
  settled : Option StateId
deriving DecidableEq

namespace DispatchTable

/-- Nothing is active. -/
def new (events : Nat) : DispatchTable := ⟨List.replicate events none, none, none⟩

def clear (t : DispatchTable) : DispatchTable :=
  { t with handlers := List.replicate t.handlers.length none }

def reset (t : DispatchTable) : DispatchTable := new t.handlers.length

/-- Replaces all handlers; a row of another length does not fit. -/
def install? (t : DispatchTable) (row : List (Option StateId)) : Option DispatchTable :=
  if row.length = t.handlers.length then some { t with handlers := row } else none

def handler (t : DispatchTable) (e : EventId) : Option StateId := (t.handlers[e]?).join

end DispatchTable

/-- One value per history; 0 selects the default. -/
structure HistoryStore where
  values : Array Nat
deriving DecidableEq

namespace HistoryStore

def new (count : Nat) : HistoryStore := ⟨Array.replicate count 0⟩

/-- A history that does not exist holds 0. -/
def get (store : HistoryStore) (h : HistoryId) : Nat := store.values.getD h 0

/-- Storing into a history that does not exist changes nothing. -/
def set (store : HistoryStore) (h : HistoryId) (value : Nat) : HistoryStore :=
  ⟨store.values.setIfInBounds h value⟩

/-- Forgets everything. -/
def clear (store : HistoryStore) : HistoryStore := new store.values.size

end HistoryStore

namespace Describe

open Text

def table (t : DispatchTable) : String :=
  record "DispatchTable"
    [("handlers", list (t.handlers.map state?)), ("active_exit", state? t.active),
     ("state_id", state? t.settled)]

def store (s : HistoryStore) : String :=
  record "HistoryStore" [("values", list (s.values.toList.map decimal))]

end Describe

end Statechart
