import Statechart.Program

/-
  Following a transition on the tables alone, without a machine: which states would be left and
  entered, which actions would run, which pseudostates would be passed. Whatever depends on guards
  is answered from outside, one question per pseudostate.
-/

namespace Statechart

/-- One step of a transition. -/
inductive Step where
  | exit (s : StateId)
  /-- The action of this plan runs. -/
  | action (q : PlanId)
  | enter (s : StateId)
  | pseudo (p : PseudoId)
deriving DecidableEq

/-- Which of so many branches of a pseudostate is taken? -/
structure Question where
  pseudo : PseudoId
  branches : Nat
deriving DecidableEq

/-- Answers a question, knowing how many were asked before. A number that is no branch, or none,
means the fallback. -/
abbrev Decider := Nat → Question → Option Nat

structure Resolution where
  steps : List Step
  /-- The state in which the transition is complete. -/
  finalLeaf : StateId
  asked : List Question
deriving DecidableEq

namespace Resolution

/-- The states left, innermost first. -/
def exitChain (r : Resolution) : List StateId :=
  r.steps.filterMap fun
    | .exit s => some s
    | _ => none

/-- The states entered, outermost first. -/
def entryChain (r : Resolution) : List StateId :=
  r.steps.filterMap fun
    | .enter s => some s
    | _ => none

/-- The pseudostates passed, in order. -/
def pseudostates (r : Resolution) : List PseudoId :=
  r.steps.filterMap fun
    | .pseudo p => some p
    | _ => none

end Resolution

namespace Program

variable {V : Type} (p : Program V)

/-- Leaves active states, `active` first, until `turn` is innermost. -/
def stepsOut (active turn : StateId) : Except ModelError (List Step) := do
  return (← p.hierarchy.chainUpTo active turn).map .exit

/-- The steps of one plan, the innermost active state after them, and how it goes on. -/
def planSteps (active : StateId) (q : PlanId) :
    Except ModelError (List Step × StateId × Continuation) :=
  match p.plans[q]? with
  | none => .error (.unknownId .plan q)
  | some plan => do
    let out ← match plan.exitTo with
      | none => pure []
      | some turn => p.stepsOut active turn
    let action := if plan.action.isSome then [.action q] else []
    return (out ++ action ++ plan.enter.map .enter,
      plan.enter.getLastD (plan.exitTo.getD active), plan.next)

/-- Goes on until a state settles, where `i` questions were asked before. Pseudostates do not lead
back to themselves, so there are at most `n` of them on the way if `n` is their number. -/
def follow (decide : Decider) :
    Nat → StateId → Nat → Continuation → Except ModelError Resolution
  | _, _, _, .settle s => .ok ⟨[], s, []⟩
  | 0, _, _, .pseudo r => .error (.unknownId .pseudostate r)
  | n + 1, active, i, .pseudo r =>
    match p.pseudostates[r]? with
    | none => .error (.unknownId .pseudostate r)
    | some row => do
      let question := ⟨r, row.branches.length⟩
      let choice := (decide i question).bind fun b => row.branches[b]?
      let q := match choice with
        | some branch => branch.plan
        | none => row.fallback
      let (steps, active, next) ← p.planSteps active q
      let rest ← follow decide n active (i + 1) next
      return ⟨.pseudo r :: steps ++ rest.steps, rest.finalLeaf, question :: rest.asked⟩

/-- Where a target is, and where the way goes on from there. -/
def targetAnchor : Vertex → Except ModelError (Anchor × Continuation)
  | .state s =>
    if s < p.states.size then .ok (.state s, p.continuationInto s)
    else .error (.unknownId .state s)
  | .pseudo r =>
    match p.pseudostates[r]? with
    | some row => .ok (.inside row.container, .pseudo r)
    | none => .error (.unknownId .pseudostate r)

/-- The transition from the settled state `leaf` to a target. The first steps carry no action. -/
def resolve (leaf : StateId) (target : Vertex) (decide : Decider) : Except ModelError Resolution :=
  if leaf < p.states.size then do
    let (anchor, next) ← p.targetAnchor target
    let path ← p.hierarchy.path (.state leaf) anchor
    let out ← p.stepsOut leaf path.turn
    let active := path.enter.getLastD path.turn
    let rest ← p.follow decide p.pseudostates.size active 0 next
    return { rest with steps := out ++ path.enter.map .enter ++ rest.steps }
  else .error (.unknownId .state leaf)

/-- The transition of a plan taken while `leaf` is settled. -/
def resolvePlan (leaf : StateId) (q : PlanId) (decide : Decider) : Except ModelError Resolution :=
  if leaf < p.states.size then do
    let (steps, active, next) ← p.planSteps leaf q
    let rest ← p.follow decide p.pseudostates.size active 0 next
    return { rest with steps := steps ++ rest.steps }
  else .error (.unknownId .state leaf)

end Program

end Statechart
