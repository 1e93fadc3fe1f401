import Statechart.Proofs.Strict.Checks

/-
  Making the tables of a chart once more, with nothing to fall back on. A look-up by number that
  finds nothing ends everything (`none`): of an end of a transition, of the plans of a pseudostate,
  of the marks of the search for closed ways, of the row that a state inherits. `compile_eq`: for a
  linked chart this never happens, and the outcome is that of `Chart.compile`. So whatever was asked
  of a draft, with whatever numbers, compiling it looks up only what is there (`compileDraft_eq`).
  Each pass relies on what the ones before it found in order.
-/

namespace Statechart

namespace Strict

variable {V : Type} {c : Chart V} {s : StateId} {t : Vertex}

variable (c)

/-! ## Plans -/

def sourceAnchor : Vertex → Option (Anchor × Bool)
  | .state s => some (.state s, true)
  | .pseudo p => do
    let node ← c.pseudostates[p]?
    match node.kind with
    | .exitPoint => return (.state node.container, true)
    | .initial => return (.inside node.container, false)
    | .entryPoint => return (.inside node.container, false)
    | _ => return (.inside node.container, true)

def targetAnchor : Vertex → Option Anchor
  | .state s => some (.state s)
  | .pseudo p => (container c p).map .inside

def continuation : Vertex → Option Continuation
  | .state s => do
    match ← find c s (· == .initial) with
    | some p => return .pseudo p
    | none => return .settle s
  | .pseudo p => some (.pseudo p)

def plan : Request V → Option (Except ModelError (Plan V))
  | .settle s => some (.ok { exitTo := none, action := none, enter := [], next := .settle s })
  | .missing kind s => some (.error (.branchWithoutTarget kind (c.label s)))
  | .move source target action => do
    let start ← sourceAnchor c source
    let goal ← targetAnchor c target
    let next ← continuation c target
    return (c.hierarchy.path start.1 goal).map fun way =>
      { exitTo := if start.2 then some way.turn else none, action, enter := way.enter, next }

/-- The plans for requests that are numbered from `first`. -/
def plans (first : PlanId) : List (Request V) → Option (Except ModelError (List (Plan V)))
  | [] => some (.ok [])
  | request :: requests => do
    match ← plan c request with
    | .error e => return .error e
    | .ok plan =>
      if maxNodes ≤ first then return .error (.tooMany .plan)
      else return (← plans (first + 1) requests).map (plan :: ·)

/-- The plans of pseudostates are asked for with the slots at hand. -/
def arms (node : PseudoNode V) (p : PseudoId) (slots : Array HistorySlot) : Option (List (Arm V)) :=
  match slots.findIdx? (·.pseudo == p) with
  | some h => (slots[h]?).map fun slot => slot.tracked.filterMap fun v =>
      if v.1 = 0 then none
      else some ⟨.historyIs h v.1, .move (.pseudo p) (.state v.2) none⟩
  | none => some (node.arms p slots)

def requests (slots : Array HistorySlot) : Option (List (List (Request V))) :=
  c.pseudostates.toList.zipIdx.mapM fun node => do
    let arms ← arms node.1 node.2 slots
    return arms.map (·.request) ++ [node.1.fallback node.2]

/-- A pseudostate, given the number of the first plan of each. -/
def row (node : PseudoNode V) (p : PseudoId) (slots : Array HistorySlot) (firsts : Array PlanId) :
    Option (PseudoRow V) := do
  let arms ← arms node p slots
  let first ← firsts[p]?
  return { kind := node.kind
           container := node.container
           name := node.name
           branches := arms.zipIdx.map fun arm => ⟨arm.1.guard, first + arm.2⟩
           fallback := first + arms.length }

def pseudoRows (slots : Array HistorySlot) (parts : List (List (Request V))) :
    Option (Array (PseudoRow V)) := do
  let firsts := starts (parts.map List.length)
  let rows ← c.pseudostates.toList.zipIdx.mapM fun node => row node.1 node.2 slots firsts
  return rows.toArray

variable {c}

theorem sourceAnchor_eq (ht : Found c t) : sourceAnchor c t = some (c.sourceAnchor t) := by
  cases t with
  | state s => rfl
  | pseudo p =>
    have hnode := Array.getElem?_eq_getElem (show p < c.pseudostates.size from ht)
    simp only [sourceAnchor, Chart.sourceAnchor, Chart.kind?, hnode,
      Chart.containerOf_eq_of_getElem? hnode, Option.bind_eq_bind, Option.bind_some,
      Option.map_some]
    cases c.pseudostates[p].kind <;> rfl

theorem targetAnchor_eq (ht : Found c t) : targetAnchor c t = some (c.targetAnchor t) := by
  cases t with
  | state s => rfl
  | pseudo p =>
    rw [targetAnchor, container_eq ht]
    rfl

theorem continuation_eq (hc : c.Linked) (ht : c.IsTarget t) :
    continuation c t = some (c.continuation t) := by
  cases t with
  | pseudo p => rfl
  | state s =>
    rw [continuation, find_eq hc ht, Chart.continuation, Chart.initialOf]
    cases c.find? s (· == .initial) <;> rfl

/-- The ends of a request, if it has ends, are there. -/
def Answerable (c : Chart V) : Request V → Prop
  | .move source target _ => Found c source ∧ c.IsTarget target
  | _ => True

theorem plan_eq (hc : c.Linked) {request : Request V} (h : Answerable c request) :
    plan c request = some (barring (c.pathFault request) (c.plan request)) := by
  cases request with
  | settle s => rfl
  | missing kind s => rfl
  | move source target action =>
    simp only [plan, sourceAnchor_eq h.1, targetAnchor_eq (found_of_isTarget h.2),
      continuation_eq hc h.2, Option.bind_eq_bind, Option.bind_some, Chart.pathFault, Chart.plan,
      Chart.pathBetween, Option.pure_def]
    cases c.hierarchy.path (c.sourceAnchor source).1 (c.targetAnchor target) <;> rfl

theorem plans_eq (hc : c.Linked) {requests : List (Request V)}
    (h : ∀ request ∈ requests, Answerable c request) (first : PlanId) :
    plans c first requests =
      some (barring (c.planPass requests first).fault (requests.map c.plan)) := by
  induction requests generalizing first with
  | nil => rfl
  | cons request requests ih =>
    have hfault : (c.planPass (request :: requests) first).fault =
        (c.planFault request first <|> (c.planPass requests (first + 1)).fault) := by
      simp only [Chart.planPass, Pass.each, List.zipIdx_cons, List.findSome?_cons]
      cases c.planFault request first <;> rfl
    rw [plans, plan_eq hc (h request List.mem_cons_self),
      ih (fun x hx => h x (List.mem_cons_of_mem _ hx)), hfault, Chart.planFault]
    cases c.pathFault request with
    | some e => rfl
    | none =>
      by_cases hroom : maxNodes ≤ first
      · simp [hroom, Chart.faultIf, barring]
      · simp only [hroom, Chart.faultIf, decide_false, Bool.false_eq_true, if_false,
          Option.bind_eq_bind, Option.bind_some]
        cases (c.planPass requests (first + 1)).fault <;> rfl

theorem arms_eq (node : PseudoNode V) (p : PseudoId) (slots : Array HistorySlot) :
    arms node p slots = some (node.arms p slots) := by
  unfold arms
  cases hfind : slots.findIdx? (·.pseudo == p) with
  | none => rfl
  | some h =>
    obtain ⟨hlt, -⟩ := Array.findIdx?_eq_some_iff_getElem.1 hfind
    simp only [PseudoNode.arms, hfind, Array.getElem?_eq_getElem hlt, Option.map_some,
      Option.getD_some]

theorem requests_eq (c : Chart V) (slots : Array HistorySlot) :
    requests c slots = some (c.pseudoRequests slots) := by
  refine mapM_eq fun node _ => ?_
  rw [arms_eq]
  rfl

theorem row_eq (node : PseudoNode V) {p : PseudoId} (slots : Array HistorySlot)
    {firsts : Array PlanId} (hp : p < firsts.size) :
    row node p slots firsts = some (node.row p slots (firsts.getD p 0)) := by
  simp only [row, arms_eq, Array.getElem?_eq_getElem hp, Option.bind_eq_bind, Option.bind_some,
    Option.pure_def, PseudoNode.row, Array.getD_eq_getD_getElem?, Option.getD_some]

theorem pseudoRows_eq (c : Chart V) (slots : Array HistorySlot) :
    pseudoRows c slots (c.pseudoRequests slots) = some (c.pseudoRows slots) := by
  have hsize : (starts ((c.pseudoRequests slots).map List.length)).size = c.pseudostates.size := by
    rw [← Array.length_toList, starts, foldl_starts]
    simp [Chart.pseudoRequests]
  have hread : (c.pseudostates.toList.zipIdx.mapM fun node =>
      row node.1 node.2 slots (starts ((c.pseudoRequests slots).map List.length))) =
        some (c.pseudostates.toList.zipIdx.map fun node => node.1.row node.2 slots
          ((starts ((c.pseudoRequests slots).map List.length)).getD node.2 0)) := by
    refine mapM_eq fun node hnode => row_eq _ _ ?_
    rw [hsize]
    simpa using (List.getElem?_eq_some_iff.1 (List.mem_zipIdx_iff_getElem?.1 hnode)).1
  rw [pseudoRows, hread]
  refine congrArg some (Array.toList_inj.1 ?_)
  rw [List.toList_toArray, Chart.pseudoRows, Array.toList_mapIdx, List.mapIdx_eq_zipIdx_map]

/-! ## Closed ways -/

def successors (rows : Array (PseudoRow V)) (plans : Array (Plan V)) :
    Option (Array (List PseudoId)) := do
  let next ← rows.toList.mapM fun row => do
    let plans ← row.planIds.mapM fun q => plans[q]?
    return plans.filterMap (·.next.pseudo?)
  return next.toArray

/-- The search, at most `n` steps. -/
def search (next : Array (List PseudoId)) :
    Nat → LoopSearch → Option (Except PseudoId (Array Mark))
  | 0, state => some (.ok state.marks)
  | n + 1, ⟨marks, stack⟩ =>
    match stack with
    | [] => some (.ok marks)
    | (v, []) :: rest => (marks[v]?).bind fun _ => search next n ⟨marks.setIfInBounds v .done, rest⟩
    | (v, w :: ws) :: rest =>
      (marks[w]?).bind fun
        | .onPath => some (.error w)
        | .unvisited => (next[w]?).bind fun ahead =>
          search next n ⟨marks.setIfInBounds w .onPath, (w, ahead) :: (v, ws) :: rest⟩
        | .done => search next n ⟨marks, (v, ws) :: rest⟩

def visit (next : Array (List PseudoId)) (steps : Nat) (marks : Array Mark) (v : PseudoId) :
    Option (Except PseudoId (Array Mark)) := do
  let mark ← marks[v]?
  if mark = .unvisited then
    let ahead ← next[v]?
    search next steps ⟨marks.setIfInBounds v .onPath, [(v, ahead)]⟩
  else return .ok marks

def visitAll (next : Array (List PseudoId)) (steps : Nat) :
    List PseudoId → Array Mark → Option (Except PseudoId (Array Mark))
  | [], marks => some (.ok marks)
  | v :: vs, marks =>
    (visit next steps marks v).bind fun
      | .ok marks => visitAll next steps vs marks
      | .error w => some (.error w)

def loopFault (c : Chart V) (rows : Array (PseudoRow V)) (plans : List (Plan V)) : Finding := do
  let next ← successors rows plans.toArray
  let steps := next.foldl (fun n ws => n + ws.length + 1) 1
  match ← visitAll next steps (List.range next.size) (Array.replicate next.size .unvisited) with
  | .ok _ => return none
  | .error v =>
    let row ← rows[v]?
    return some (.pseudostateLoop row.kind (c.label row.container))

/-- The search knows of no number beyond the table. -/
structure Bounded (next : Array (List PseudoId)) (state : LoopSearch) : Prop where
  marks : state.marks.size = next.size
  stack : ∀ x ∈ state.stack, x.1 < next.size ∧ ∀ w ∈ x.2, w < next.size

/-- Nor does its answer. -/
def Within (next : Array (List PseudoId)) : Except PseudoId (Array Mark) → Prop
  | .ok marks => marks.size = next.size
  | .error w => w < next.size

section Search

variable {next : Array (List PseudoId)} (hnext : ∀ v w, Leads next v w → w < next.size)

include hnext

theorem lt_of_mem_ahead {w : PseudoId} (hw : w < next.size) {x : PseudoId} (hx : x ∈ next[w]) :
    x < next.size :=
  hnext w x (by rw [Leads, Array.getD_eq_getD_getElem?, Array.getElem?_eq_getElem hw]; exact hx)

theorem search_eq {n : Nat} {state : LoopSearch} (h : Bounded next state) :
    search next n state = some (LoopSearch.run next n state) ∧
      Within next (LoopSearch.run next n state) := by
  induction n generalizing state with
  | zero => exact ⟨rfl, h.marks⟩
  | succ n ih =>
    obtain ⟨marks, stack⟩ := state
    have hmarks : marks.size = next.size := h.marks
    cases stack with
    | nil => exact ⟨rfl, hmarks⟩
    | cons top rest =>
      obtain ⟨v, ws⟩ := top
      have hrest := fun x hx => h.stack x (List.mem_cons_of_mem _ hx)
      have htop := h.stack (v, ws) List.mem_cons_self
      cases ws with
      | nil =>
        rw [search, LoopSearch.run, Array.getElem?_eq_getElem (hmarks ▸ htop.1), Option.bind_some]
        exact ih ⟨by simpa using hmarks, hrest⟩
      | cons w ws =>
        have hw : w < next.size := htop.2 w List.mem_cons_self
        have hback : ∀ x ∈ (v, ws) :: rest, x.1 < next.size ∧ ∀ w ∈ x.2, w < next.size := by
          intro x hx
          rcases List.mem_cons.1 hx with rfl | hx
          · exact ⟨htop.1, fun y hy => htop.2 y (List.mem_cons_of_mem _ hy)⟩
          · exact hrest x hx
        have hwm : w < marks.size := hmarks ▸ hw
        have hget := Array.getElem?_eq_getElem hwm
        rw [search, LoopSearch.run, hget, Option.bind_some, Array.getD_eq_getD_getElem?, hget,
          Option.getD_some]
        cases marks[w] with
        | onPath => exact ⟨rfl, hw⟩
        | done => exact ih ⟨hmarks, hback⟩
        | unvisited =>
          rw [Array.getElem?_eq_getElem hw, Option.bind_some, Array.getD_eq_getD_getElem?,
            Array.getElem?_eq_getElem hw, Option.getD_some]
          refine ih ⟨by simpa using hmarks, fun x hx => ?_⟩
          rcases List.mem_cons.1 hx with rfl | hx
          · exact ⟨hw, fun y hy => lt_of_mem_ahead hnext hw hy⟩
          · exact hback x hx

theorem visit_eq (steps : Nat) {marks : Array Mark} (hmarks : marks.size = next.size)
    {v : PseudoId} (hv : v < next.size) :
    visit next steps marks v = some (LoopSearch.visit next steps marks v) ∧
      Within next (LoopSearch.visit next steps marks v) := by
  have hvm : v < marks.size := hmarks ▸ hv
  have hget := Array.getElem?_eq_getElem hvm
  have hahead := Array.getElem?_eq_getElem hv
  simp only [visit, LoopSearch.visit, Array.getD_eq_getD_getElem?, hget, hahead, Option.getD_some,
    Option.bind_eq_bind, Option.bind_some]
  split
  · refine search_eq hnext ⟨by simpa using hmarks, fun x hx => ?_⟩
    obtain rfl := List.mem_singleton.1 hx
    exact ⟨hv, fun y hy => lt_of_mem_ahead hnext hv hy⟩
  · exact ⟨rfl, hmarks⟩

theorem visitAll_eq (steps : Nat) {vs : List PseudoId} (hvs : ∀ v ∈ vs, v < next.size)
    {marks : Array Mark} (hmarks : marks.size = next.size) :
    visitAll next steps vs marks = some (vs.foldlM (LoopSearch.visit next steps) marks) ∧
      Within next (vs.foldlM (LoopSearch.visit next steps) marks) := by
  induction vs generalizing marks with
  | nil => exact ⟨rfl, hmarks⟩
  | cons v vs ih =>
    obtain ⟨hvisit, hwithin⟩ := visit_eq hnext steps hmarks (hvs v List.mem_cons_self)
    rw [visitAll, hvisit, List.foldlM_cons]
    cases hanswer : LoopSearch.visit next steps marks v with
    | error w =>
      rw [hanswer] at hwithin
      exact ⟨rfl, hwithin⟩
    | ok marks' =>
      rw [hanswer] at hwithin
      exact ih (fun x hx => hvs x (List.mem_cons_of_mem _ hx)) hwithin

end Search

/-- The plans of a row are there once the pseudostates have theirs. -/
theorem successors_eq (c : Chart V) :
    successors c.program.pseudostates c.pseudoPlans.toArray =
      some (Statechart.successors c.program.pseudostates c.pseudoPlans.toArray) := by
  have hrow : ∀ row ∈ c.program.pseudostates.toList, (do
      let plans ← row.planIds.mapM fun q => c.pseudoPlans.toArray[q]?
      return plans.filterMap (·.next.pseudo?) : Option (List PseudoId)) =
        some (row.planIds.filterMap fun q =>
          (c.pseudoPlans.toArray[q]?).bind (·.next.pseudo?)) := by
    intro row hrow
    obtain ⟨r, hr⟩ := Array.getElem?_of_mem (Array.mem_toList_iff.1 hrow)
    have hlt : r < c.pseudostates.size := by
      simpa using (Array.getElem?_eq_some_iff.1 hr).1
    obtain ⟨row', hr', hcompiled⟩ : ∃ row', c.program.pseudostates[r]? = some row' ∧
        c.pseudostates[r].CompiledTo c c.pseudoPlans.toArray r row' :=
      Chart.exists_pseudoRow (Array.getElem?_eq_getElem hlt) (by simp)
    obtain rfl : row' = row := Option.some.inj (hr'.symm.trans hr)
    obtain ⟨plans, hplans, hall⟩ := exists_mapM (R := fun q plan =>
      c.pseudoPlans.toArray[q]? = some plan) fun q (hq : q ∈ row'.planIds) => by
        obtain ⟨request, -, hplan⟩ := Chart.exists_request_of_mem_planIds hcompiled hq
        exact ⟨_, hplan, hplan⟩
    rw [hplans]
    refine congrArg some ?_
    clear hplans
    generalize row'.planIds = ids at hall
    induction hall with
    | nil => rfl
    | cons hq _ ih => simp only [List.filterMap_cons, hq, ih, Option.bind_some]
  rw [successors, mapM_eq hrow, Statechart.successors_eq]
  refine congrArg some (Array.toList_inj.1 ?_)
  rw [List.toList_toArray, Array.toList_map]
  rfl

theorem loopFault_eq (h : c.Prepared) :
    loopFault c c.program.pseudostates c.pseudoPlans =
      some (c.loopFault c.program.pseudostates c.pseudoPlans) := by
  have hnext : ∀ v w, Leads (Statechart.successors c.program.pseudostates
      c.pseudoPlans.toArray) v w → w < (Statechart.successors c.program.pseudostates
        c.pseudoPlans.toArray).size := by
    intro v w hvw
    rw [h.linked.leads_iff_follows h.initials h.rules (by simp)] at hvw
    rw [Statechart.successors_eq, Array.size_map, Chart.size_pseudostates_program]
    exact h.lt_of_follows hvw
  have hsize : (Statechart.successors c.program.pseudostates c.pseudoPlans.toArray).size =
      c.program.pseudostates.size := by
    rw [Statechart.successors_eq, Array.size_map]
  rw [loopFault, successors_eq, Chart.loopFault, findLoop]
  generalize Statechart.successors c.program.pseudostates c.pseudoPlans.toArray = next
    at hnext hsize
  obtain ⟨hsearch, hwithin⟩ := visitAll_eq hnext (next.foldl (fun n ws => n + ws.length + 1) 1)
    (fun v (hv : v ∈ List.range next.size) => List.mem_range.1 hv)
    (show (Array.replicate next.size Mark.unvisited).size = next.size by simp)
  simp only [Option.bind_eq_bind, Option.bind_some, hsearch]
  cases hanswer : (List.range next.size).foldlM
      (LoopSearch.visit next (next.foldl (fun n ws => n + ws.length + 1) 1))
      (Array.replicate next.size Mark.unvisited) with
  | ok marks => rfl
  | error v =>
    rw [hanswer] at hwithin
    have hget := Array.getElem?_eq_getElem (hsize ▸ hwithin : v < c.program.pseudostates.size)
    simp only [hget, Option.bind_some, Option.map_some, Option.pure_def]

section Passes

variable {α β : Type} {fault fault' : Option ModelError} {x : β} {y : α}
  {f : α → ExceptT ModelError Option β}

theorem lift_bind (y : α) : (liftM (some y) : ExceptT ModelError Option α) >>= f = f y := rfl

/-- A pass may rely on what the ones before it found in order. -/
theorem run_bind (h : fault = none → (f y).run = some (barring fault' x)) :
    (ExceptT.mk (some (barring fault y)) >>= f).run = some (barring (fault <|> fault') x) := by
  cases fault with
  | some e => rfl
  | none => exact h rfl

end Passes

/-! ## Cells -/

variable (c) in
/-- The plans of the cells and their spans, cell by cell. -/
def fill : List (Placement V) → ExceptT ModelError Option (List (Plan V) × List Span)
  | [] => return ([], [])
  | cell :: cells => do
    let plans ← ExceptT.mk (plans c cell.first cell.requests)
    let span ← ExceptT.mk (some cell.span)
    let rest ← fill cells
    return (plans ++ rest.1, span :: rest.2)

/-- Filling the cells finds what going through them does. -/
theorem fill_eq (hc : c.Linked) {cells : List (Placement V)}
    (h : ∀ cell ∈ cells, ∀ request ∈ cell.requests, Answerable c request) :
    (fill c cells).run = some (barring (c.cellsPass cells).fault
      ((cells.flatMap (·.requests)).map c.plan,
        (cells.mapM Placement.span).toOption.getD [])) := by
  induction cells with
  | nil => rfl
  | cons cell cells ih =>
    have hrest := ih fun cell' hcell => h cell' (List.mem_cons_of_mem _ hcell)
    rw [fill, Chart.fault_cellsPass_cons, plans_eq hc (h cell List.mem_cons_self)]
    refine run_bind fun _ => ?_
    cases hspan : cell.span with
    | error e =>
      rw [Placement.fault, hspan]
      rfl
    | ok span =>
      have hcell : cell.fault = none := by rw [Placement.fault, hspan]
      rw [hcell]
      change (ExceptT.mk (fill c cells).run >>= _).run = _
      rw [hrest]
      cases hfault : (c.cellsPass cells).fault with
      | some e => rfl
      | none =>
        obtain ⟨spans, hspans⟩ := exists_mapM_iff.2 fun cell' hcell' =>
          (Chart.cellPass_eq_none_iff.1 (List.findSome?_eq_none_iff.1 hfault cell' hcell')).2
        have hcons : (cell :: cells).mapM Placement.span = .ok (span :: spans) := by
          rw [List.mapM_cons, hspan, hspans]
          rfl
        rw [List.flatMap_cons, List.map_append, hspans, hcons]
        rfl

/-! ## Who handles an event -/

variable (c) in
/-- What a state inherits, given the rows of the states before it. -/
def inherited (handlers : Array (Option StateId)) (s : StateId) :
    Option (Array (Option StateId)) := do
  let node ← c.states[s]?
  match node.parent with
  | none => return Array.replicate c.events.size none
  | some q =>
    if (q + 1) * c.events.size ≤ handlers.size then
      return handlers.extract (q * c.events.size) ((q + 1) * c.events.size)
    else none

variable (c) in
def handlerTables (cells : Cells V) :
    Option (Array (Option StateId) × Array (Option StateId)) :=
  cells.foldlM (fun tables row => do
    let up ← inherited c tables.1 row.state
    if row.cells.size = up.size then return (tables.1 ++ row.handlers up, tables.2 ++ up)
    else none) (#[], #[])

theorem length_flatMap_handlersOn (c : Chart V) (n : Nat) (f : StateId → List StateId) :
    ((List.range n).flatMap fun s => c.handlersOn (f s)).length = n * c.events.size := by
  rw [List.length_flatMap]
  simp [Chart.length_handlersOn, List.map_const']

theorem inherited_eq (hc : c.Linked) (hs : s < c.states.size) :
    inherited c
        ((List.range s).flatMap fun q => c.handlersOn (c.hierarchy.ancestors q)).toArray s =
      some (c.handlersOn (c.hierarchy.ancestors s).tail).toArray := by
  have hnode := Array.getElem?_eq_getElem hs
  have hparent : c.states[s].parent = c.hierarchy.parent s := by
    rw [hc.parent_eq, Chart.parentOf, hnode]
    rfl
  rw [← Chart.inherited_eq]
  simp only [inherited, Chart.inherited, hnode, hparent, Option.bind_eq_bind, Option.bind_some]
  cases hp : c.hierarchy.parent s with
  | none => rfl
  | some q =>
    have hfit : (q + 1) * c.events.size ≤ s * c.events.size :=
      Nat.mul_le_mul_right _ (c.hierarchy.parent_lt hp)
    simp only [List.size_toArray, length_flatMap_handlersOn, hfit, if_true, Option.pure_def]

theorem handlerTables_eq (hc : c.Linked) :
    handlerTables c c.cells = some (c.handlerTables c.cells) := by
  have htake : ∀ n ≤ c.states.size,
      handlerTables c (c.cells.take n) = some (c.handlerTables (c.cells.take n)) := by
    intro n hn
    induction n with
    | zero => rfl
    | succ n ih =>
      have hlt : n < c.states.size := hn
      have hnode := Array.getElem?_eq_getElem hlt
      have hcells : c.cells.take (n + 1) = c.cells.take n ++
          [⟨n, ((List.range c.events.size).map c.states[n].onEvent).toArray⟩] := by
        rw [List.take_add_one, Chart.cells_getElem? hnode]
        rfl
      have htables := Chart.foldl_handlerTables c (Nat.le_of_succ_le hn)
      have hstep (row : CellRow V) : c.handlerTables (c.cells.take n ++ [row]) =
          [row].foldl (fun tables row =>
            (tables.1 ++ row.handlers (c.inherited tables.1 row.state),
              tables.2 ++ c.inherited tables.1 row.state)) (c.handlerTables (c.cells.take n)) :=
        List.foldl_append
      rw [hcells, handlerTables, List.foldlM_append, ← handlerTables,
        ih (Nat.le_of_succ_le hn), hstep, htables]
      simp [inherited_eq hc hlt, Chart.inherited_eq, Chart.length_handlersOn]
  have hlen : c.cells.length = c.states.size := by simp [Chart.cells]
  have h := htake c.states.size (Nat.le_refl _)
  rwa [← hlen, List.take_length] at h

/-! ## All passes -/

variable (c) in
def stateRow (writes : Array (Array HistoryWrite)) (s : StateId) (node : StateNode V) :
    Option (StateRow V) := do
  let initial ← find c s (· == .initial)
  let history ← find c s (·.isHistory)
  let writes ← writes[s]?
  return { name := node.name
           parent := node.parent
           children := node.children.toList
           depth := c.hierarchy.depth s
           initial
           history
           onEnter := node.onBoundary .enter
           onExit := node.onBoundary .exit
           writes := writes.toList }

variable (c) in
def stateRows (writes : Array (Array HistoryWrite)) : Option (Array (StateRow V)) := do
  let rows ← c.states.toList.zipIdx.mapM fun node => stateRow c writes node.2 node.1
  return rows.toArray

theorem stateRow_eq (hc : c.Linked) {w : Array (Array HistoryWrite)}
    (hw : w.size = c.states.size) (hs : s < c.states.size) (node : StateNode V) :
    stateRow c w s node = some (c.stateRow w s node) := by
  have hget := Array.getElem?_eq_getElem (hw ▸ hs : s < w.size)
  simp only [stateRow, find_eq hc hs, hget, Option.bind_eq_bind, Option.bind_some, Option.pure_def,
    Chart.stateRow, Chart.initialOf, Chart.historyOf, Array.getD_eq_getD_getElem?,
    Option.getD_some]

theorem stateRows_eq (hc : c.Linked) {w : Array (Array HistoryWrite)}
    (hw : w.size = c.states.size) :
    stateRows c w = some (c.states.mapIdx (c.stateRow w)) := by
  have hread : (c.states.toList.zipIdx.mapM fun node => stateRow c w node.2 node.1) =
      some (c.states.toList.zipIdx.map fun node => c.stateRow w node.2 node.1) := by
    refine mapM_eq fun node hnode => stateRow_eq hc hw ?_ _
    simpa using (List.getElem?_eq_some_iff.1 (List.mem_zipIdx_iff_getElem?.1 hnode)).1
  rw [stateRows, hread]
  refine congrArg some (Array.toList_inj.1 ?_)
  rw [List.toList_toArray, Array.toList_mapIdx, List.mapIdx_eq_zipIdx_map]

/-- Ends with the fault that a check finds. -/
def report (finding : Finding) : ExceptT ModelError Option Unit :=
  ExceptT.mk (finding.map fun fault => barring fault ())

variable (c) in
/-- All passes over a chart in order, and its tables. -/
def orderedProgram : ExceptT ModelError Option (Program V) := do
  report (c.pseudostates.toList.findSomeM? (branchFault c))
  let slots ← historySlots c
  let writes ← historyWrites c slots
  report (c.pseudoIds.findSomeM? (historyFault c slots))
  let parts ← requests c slots
  let pseudoPlans ← ExceptT.mk (plans c 0 parts.flatten)
  let pseudostates ← pseudoRows c slots parts
  report (loopFault c pseudostates pseudoPlans)
  let filled ← fill c (c.cells.placements parts.flatten.length)
  let tables ← handlerTables c c.cells
  let some rootInitial ← find c rootState (· == .initial) | throw .missingRootInitial
  let states ← stateRows c writes
  return { name := c.name
           events := c.events
           states
           pseudostates
           plans := (pseudoPlans ++ filled.1).toArray
           histories := slots
           behaviors := c.cells.rows pseudoPlans.length
           spans := filled.2.toArray
           handlerRows := tables.1
           nextAncestors := tables.2
           rootInitial }

variable (c) in
def compile : ExceptT ModelError Option (Program V) := do
  report (structureFault c)
  orderedProgram c.ordered

/-- A draft with a mistake is not compiled. -/
def compileDraft (d : Draft V) : Option (Except ModelError (Program V)) :=
  match d.finish with
  | .ok c => (compile c).run
  | .error e => some (.error e)

/-- Whatever a node asks for, the ends of it are there. -/
theorem answerable_of_mem (h : c.Prepared) {request : Request V}
    (hmem : request ∈ c.pseudoParts.flatten ++ c.cells.requests) : Answerable c request := by
  rcases List.mem_append.1 hmem with hmem | hmem
  · obtain ⟨r, node, hr, hmem⟩ := Chart.Prepared.mem_pseudoParts.1 hmem
    have hnode : node ∈ c.pseudostates.toList := Array.mem_toList_iff.2 (Array.mem_of_getElem? hr)
    by_cases hk : node.kind = .historyContinue
    · rw [PseudoNode.requests_of_continue hr hk ((h.rules node hnode).blank hk),
        List.mem_singleton] at hmem
      rw [hmem]
      trivial
    · obtain ⟨t, a, ht, rfl⟩ := h.linked.mayLeadTo_of_mem_requests hr hk (h.rules node hnode) hmem
      exact ⟨(Array.getElem?_eq_some_iff.1 hr).1, (h.isTarget_of_mayLeadTo hnode ht).1⟩
  · obtain ⟨s, node, b, t, hs, hb, -, hbt, rfl⟩ := Chart.mem_cells_requests.1 hmem
    have hnode : node ∈ c.states.toList := Array.mem_toList_iff.2 (Array.mem_of_getElem? hs)
    exact ⟨trivial, (h.behaviors node hnode b hb t hbt).1⟩

theorem orderedProgram_eq (hc : c.Linked)
    (htargets : ∀ node ∈ c.pseudostates.toList, ∀ b ∈ node.branches.toList,
      ∀ t, b.target = some t → c.IsTarget t)
    (hprepared : (∀ node ∈ c.pseudostates.toList, c.branchFault node = none) → c.Prepared) :
    (orderedProgram c).run = some (barring c.orderedPass.fault c.program) := by
  have hbranches : c.pseudostates.toList.findSomeM? (branchFault c) =
      some (c.pseudostates.toList.findSome? c.branchFault) :=
    findSomeM?_eq fun node hnode => branchFault_eq (htargets node hnode)
  have hhistories : c.pseudoIds.findSomeM? (historyFault c c.historySlots) =
      some (c.pseudoIds.findSome? (c.historyFault c.historySlots)) :=
    findSomeM?_eq fun p hp => historyFault_eq hc _ (List.mem_range.1 hp)
  rw [Chart.fault_orderedPass, orderedProgram, hbranches]
  refine run_bind fun hbranch => ?_
  have hp := hprepared (List.findSome?_eq_none_iff.1 hbranch)
  have hpseudo : ∀ request ∈ (c.pseudoRequests c.historySlots).flatten, Answerable c request :=
    fun request hmem => answerable_of_mem hp (List.mem_append_left _ hmem)
  have hrequests : (c.cells.placements c.pseudoParts.flatten.length).flatMap (·.requests) =
      c.cells.requests := by
    rw [Cells.placements_eq, flatMap_requests_placementsFrom, Cells.requests,
      Cells.behaviors_eq_flatten]
  have hcells : ∀ cell ∈ c.cells.placements c.pseudoParts.flatten.length,
      ∀ request ∈ cell.requests, Answerable c request := by
    intro cell hcell request hmem
    refine answerable_of_mem hp (List.mem_append_right _ ?_)
    rw [← hrequests]
    exact List.mem_flatMap_of_mem hcell hmem
  rw [historySlots_eq hc, lift_bind, (historyWrites_eq hc).1, lift_bind, hhistories]
  refine run_bind fun _ => ?_
  rw [requests_eq, lift_bind, plans_eq hc hpseudo]
  refine run_bind fun _ => ?_
  rw [pseudoRows_eq, lift_bind]
  change (report (loopFault c c.program.pseudostates c.pseudoPlans) >>= _).run = _
  rw [loopFault_eq hp]
  refine run_bind fun _ => ?_
  change (ExceptT.mk (fill c (c.cells.placements c.pseudoParts.flatten.length)).run >>= _).run = _
  rw [fill_eq hc hcells, hrequests]
  refine run_bind fun _ => ?_
  rw [handlerTables_eq hc, lift_bind, find_eq (s := rootState) hc hc.nonempty, lift_bind]
  change _ = some (barring (Chart.faultIf (c.find? rootState _).isNone _) _)
  cases hroot : c.find? rootState (· == .initial) with
  | none => rfl
  | some r =>
    have hinitial : c.program.rootInitial = r := congrArg (Option.getD · 0) hroot
    simp only [stateRows_eq hc (historyWrites_eq hc).2, lift_bind, ← Chart.spans_program]
    subst hinitial
    rfl

/-- Compiling looks up only what is there. -/
theorem compile_eq (hc : c.Linked) : (compile c).run = some c.compile := by
  have hcompile : c.compile = barring (c.structureFault <|> c.ordered.orderedPass.fault)
      c.ordered.program := by
    have hfault : (c.passes c.ordered).fault =
        (c.structureFault <|> c.ordered.orderedPass.fault) := by
      simp [Chart.passes, Pass.fault_andThen, Pass.check, Pass.tell]
    rw [Chart.compile, hfault]
    cases (c.structureFault <|> c.ordered.orderedPass.fault) <;> rfl
  rw [hcompile, compile, structureFault_eq hc]
  refine run_bind fun hstructure => ?_
  obtain ⟨-, -, -, hinitials, -, hnesting, hbehaviors, htargets⟩ :=
    hc.structureFault_eq_none_iff.1 hstructure
  refine orderedProgram_eq hc.ordered ?_ fun hbranches => ?_
  · simp only [Chart.isTarget_ordered]
    exact Chart.forall_branches_ordered.2 htargets
  · refine hc.prepared_ordered hinitials hnesting hbehaviors htargets fun node hnode => ?_
    simpa using Chart.branchFault_eq_none_iff.1
      (Chart.forall_pseudostates_ordered.1 hbranches node hnode)

/-- Whatever was asked of a draft, compiling it looks up only what is there. -/
theorem compileDraft_eq (name : String) (calls : List (Draft.Call V)) :
    compileDraft (Draft.ofCalls name calls) = some (Draft.ofCalls name calls).compile := by
  have hc : (Draft.ofCalls name calls).chart.Linked :=
    Draft.linked_foldl_call (Draft.linked_new name) calls
  unfold compileDraft Draft.compile Draft.finish
  cases (Draft.ofCalls name calls).fault with
  | some e => rfl
  | none => exact compile_eq hc

end Strict

end Statechart
