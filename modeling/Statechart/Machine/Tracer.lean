import Statechart.Machine

/-
  Tracing. A tracer turns what happens in a machine into lines; the machine does not know which one
  watches it. The log of a machine holds the lines of its tracer and the remarks of the host, in the
  order in which they came up.
-/

namespace Statechart

/-- Something a machine reports to its tracer. -/
inductive Message where
  | plain (text : String)
  | guard (text : String) (passed : Bool)
deriving DecidableEq

/-- Which line each message becomes, if any. -/
structure Tracer where
  line : Message → Option String

namespace Tracer

/-- Drops everything. -/
def silent : Tracer where
  line _ := none

/-- Guards with their outcome after an equals sign. -/
def recording : Tracer where
  line
    | .plain text => some text
    | .guard text passed => some (text ++ " = " ++ Text.bool passed)

/-- Guards without their outcome. -/
def plain : Tracer where
  line
    | .plain text => some text
    | .guard text _ => some text

/-- Each line under the heading of a log. -/
def headed : Tracer where
  line
    | .plain text => some ("TRACE strata::machine: " ++ text)
    | .guard text passed =>
      some ("TRACE strata::machine: " ++ text ++ " guard=" ++ Text.bool passed)

end Tracer

/-- A line of a machine's log. -/
inductive LogLine where
  | tracer (text : String)
  | host (text : String)
deriving DecidableEq

def LogLine.text : LogLine → String
  | tracer text => text
  | host text => text

namespace Program

variable {V : Type} (p : Program V)

/-- What is being tested, in words. -/
def guardText : Site → String
  | .behavior s e => p.label s ++ ": " ++ p.eventName e ++ " guard"
  | .boundary s b => p.label s ++ " " ++ b.word ++ " guard"
  | .pseudo r =>
    match p.pseudostates[r]? with
    | some row => p.label row.container ++ " " ++ row.kind.label ++ " guard"
    | none => "? guard"
  | .plan _ => "? guard"

/-- What is reported of an occurrence. -/
def report : Occurrence V → Option Message
  | .started => some (.plain ("start " ++ p.name))
  | .dispatched e => some (.plain ("dispatch " ++ p.eventName e))
  | .tested site _ passed _ => some (.guard (p.guardText site) passed)
  | .entered s => some (.plain ("enter " ++ p.label s))
  | .exited s => some (.plain ("exit " ++ p.label s))
  | .settled s => some (.plain ("settle " ++ p.label s))
  | .consulted _ _ _ _ => none
  | .acted _ _ _ => none
  | .fired _ _ _ => none
  | .passed _ _ => none

end Program

/-- What the host remarked. -/
def Occurrence.remarks {V : Type} : Occurrence V → List String
  | .tested _ _ _ remarks => remarks
  | .consulted _ _ _ remarks => remarks
  | .acted _ _ remarks => remarks
  | _ => []

namespace Program

variable {V : Type} (p : Program V)

/-- The line a tracer makes of an occurrence. -/
def traceLine (tracer : Tracer) (o : Occurrence V) : Option String := (p.report o).bind tracer.line

/-- The part of the log that an occurrence gives: a guard speaks before its outcome is reported. -/
def logOf (tracer : Tracer) (o : Occurrence V) : List LogLine :=
  o.remarks.map .host ++ ((p.traceLine tracer o).map .tracer).toList

def log (tracer : Tracer) (journal : Journal V) : List LogLine := journal.flatMap (p.logOf tracer)

end Program

/-- Keeps every line of the recording tracer. -/
structure Recorder where
  lines : Array String := #[]
deriving DecidableEq

namespace Recorder

def messages (r : Recorder) : List String := r.lines.toList

def record {V : Type} (r : Recorder) (p : Program V) (journal : Journal V) : Recorder :=
  ⟨r.lines ++ journal.filterMap (p.traceLine .recording)⟩

theorem messages_record {V : Type} (r : Recorder) (p : Program V) (journal : Journal V) :
    (r.record p journal).messages =
      r.messages ++ journal.filterMap (p.traceLine .recording) := by
  simp [messages, record]

/-- The lines of states entered, left and settled in, told by their first word. -/
def transitions (r : Recorder) : List String :=
  r.messages.filter fun m =>
    "enter ".toList.isPrefixOf m.toList || "exit ".toList.isPrefixOf m.toList ||
      "settle ".toList.isPrefixOf m.toList

end Recorder

def Describe.recorder (r : Recorder) : String :=
  Text.record "RecordingTracer" [("messages", Text.list (r.messages.map Text.quote))]

end Statechart
