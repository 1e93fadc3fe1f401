import Statechart.Basic
import Statechart.Chart
import Statechart.Chart.Check
import Statechart.Chart.Draft
import Statechart.Describe
import Statechart.Hierarchy
import Statechart.Hierarchy.Path
import Statechart.History
import Statechart.Host
import Statechart.Host.Registers
import Statechart.Json
import Statechart.Machine
import Statechart.Machine.Table
import Statechart.Machine.Tracer
import Statechart.Main
import Statechart.ModelError
import Statechart.Plan
import Statechart.Priority
import Statechart.Priority.Dotted
import Statechart.Program
import Statechart.Program.Compile
import Statechart.Program.Diagram
import Statechart.Program.Layout
import Statechart.Program.Loop
import Statechart.Program.Resolve
import Statechart.Proofs.Acceptance
import Statechart.Proofs.Commands
import Statechart.Proofs.Completion
import Statechart.Proofs.Dispatch
import Statechart.Proofs.Engine
import Statechart.Proofs.Hierarchy
import Statechart.Proofs.InRange
import Statechart.Proofs.Layout
import Statechart.Proofs.Linked
import Statechart.Proofs.Loop
import Statechart.Proofs.Memory
import Statechart.Proofs.Recording
import Statechart.Proofs.Refinement
import Statechart.Proofs.Requests
import Statechart.Proofs.Resolution
import Statechart.Proofs.Restoring
import Statechart.Proofs.Settling
import Statechart.Proofs.Sound
import Statechart.Proofs.Strict.Checks
import Statechart.Proofs.Strict.Tables
import Statechart.Proofs.Tracking
import Statechart.Proofs.TreeWalk
import Statechart.Proofs.WellFormed
import Statechart.Samples.Blinky
import Statechart.Samples.DeepPair
import Statechart.Samples.ToyWorkshop
import Statechart.Samples.Workload
import Statechart.Sort
import Statechart.Tasks
import Statechart.Tasks.CommandLine
import Statechart.Text.Blank
import Statechart.Text.Clinging
import Statechart.Text.Hidden
import Statechart.Text.Long
import Statechart.Text.Visible
import Statechart.Proofs.Paths
import Statechart.Proofs.Walks
import Statechart.Proofs.Balance
import Statechart.Proofs.Agreement
import Statechart.Proofs.Boundaries
import Statechart.Proofs.HistoryLayout
import Statechart.Proofs.PriorityOrder
import Statechart.Proofs.Selection
import Statechart.Machine.Watched
import Statechart.Proofs.Watching
import Statechart.Proofs.PriorityText
import Statechart.Proofs.Mistakes
import Statechart.Proofs.BehaviorTable
import Statechart.Proofs.Reactions
import Statechart.Proofs.ClosedWays
import Statechart.Proofs.Diagrams
import Statechart.Proofs.RecorderLines
import Statechart.Proofs.TreeRuns
import Statechart.Proofs.DeepPair
import Statechart.Proofs.Flips
import Statechart.Proofs.CommonAncestors
import Statechart.Proofs.HandlerRows
import Statechart.Proofs.HistoryContinues
