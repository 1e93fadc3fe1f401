import Statechart.Proofs.Requests

/-
  Compiling succeeds on well-formed charts whose spans fit and on no others
  (`exists_compile_iff_wellFormed`). The passes look at the chart in which behaviors and branches
  are in order, so what is said about that chart is first carried back to the declared one. Then
  each pass is opened once, and the search for closed ways is read as a statement about
  `Chart.Follows`. That a chart is well formed is not enough: `crowd` has more behaviors than a span
  can count.
-/

namespace Statechart

variable {V : Type}

/-! ## Charts in order -/

@[simp] theorem StateNode.toList_behaviors_ordered (node : StateNode V) :
    node.ordered.behaviors.toList = byPriority (·.priority) node.behaviors.toList := by
  rw [ordered, List.toList_toArray, byPriority_eq_stableSort]

@[simp] theorem PseudoNode.toList_branches_ordered (node : PseudoNode V) :
    node.ordered.branches.toList = byPriority (·.priority) node.branches.toList := by
  rw [ordered, List.toList_toArray, byPriority_eq_stableSort]

@[simp] theorem PseudoNode.kind_ordered (node : PseudoNode V) : node.ordered.kind = node.kind := rfl

@[simp] theorem PseudoNode.container_ordered (node : PseudoNode V) :
    node.ordered.container = node.container := rfl

@[simp] theorem PseudoNode.size_branches_ordered (node : PseudoNode V) :
    node.ordered.branches.size = node.branches.size := by
  rw [← Array.length_toList, toList_branches_ordered, (byPriority_perm _ _).length_eq,
    Array.length_toList]

/-- The pseudostate through which the way goes on. -/
def Continuation.pseudo? : Continuation → Option PseudoId
  | .pseudo p => some p
  | .settle _ => none

theorem successors_eq (rows : Array (PseudoRow V)) (plans : Array (Plan V)) :
    successors rows plans = rows.map fun row =>
      (row.branches.map (·.plan) ++ [row.fallback]).filterMap fun q =>
        (plans[q]?).bind (·.next.pseudo?) := by
  unfold successors
  congr 1
  funext row
  congr 1
  funext q
  cases plans[q]? with
  | none => rfl
  | some plan => cases hnext : plan.next <;> simp [hnext, Continuation.pseudo?]

namespace Chart

section Ordered

variable (c : Chart V)

theorem toList_states_ordered :
    c.ordered.states.toList = c.states.toList.map StateNode.ordered := by
  simp [ordered]

theorem toList_pseudostates_ordered :
    c.ordered.pseudostates.toList = c.pseudostates.toList.map PseudoNode.ordered := by
  simp [ordered]

@[simp] theorem landing_ordered (t : Vertex) : c.ordered.landing t = c.landing t := by
  cases t <;> simp [landing]

@[simp] theorem isTarget_ordered (t : Vertex) : c.ordered.IsTarget t ↔ c.IsTarget t := by
  cases t with
  | state s => simp [IsTarget]
  | pseudo p => simp [IsTarget, getElem?_pseudostates_ordered]

@[simp] theorem inside_ordered (q : StateId) (t : Vertex) :
    c.ordered.Inside q t ↔ c.Inside q t := by
  cases t <;> simp [Inside]

@[simp] theorem owns_ordered (s : StateId) (kind : PseudoKind) :
    c.ordered.Owns s kind ↔ c.Owns s kind := by
  simp [Owns, ordered]

@[simp] theorem tracks_ordered (q : StateId) (depth : HistoryDepth) (s : StateId) :
    c.ordered.Tracks q depth s ↔ c.Tracks q depth s := by
  simp [Tracks]

@[simp] theorem continued_ordered (s : StateId) : c.ordered.Continued s ↔ c.Continued s := by
  simp [Continued]

@[simp] theorem atMostOne_ordered (k : PseudoKind → Bool) :
    c.ordered.AtMostOne k ↔ c.AtMostOne k := by
  constructor
  · intro h p r a b ha hb
    exact h p r a.ordered b.ordered (by simp [getElem?_pseudostates_ordered, ha])
      (by simp [getElem?_pseudostates_ordered, hb])
  · intro h p r a b ha hb
    rw [getElem?_pseudostates_ordered, Option.map_eq_some_iff] at ha hb
    obtain ⟨a, ha, rfl⟩ := ha
    obtain ⟨b, hb, rfl⟩ := hb
    exact h p r a b ha hb

@[simp] theorem branchRules_ordered (kind : PseudoKind) (q : StateId) (bs : List (Branch V)) :
    c.ordered.BranchRules kind q bs ↔ c.BranchRules kind q bs := by
  constructor
  · intro h
    exact ⟨h.blank, h.lead, h.last, h.sole, by simpa using h.inside, by simpa using h.outside⟩
  · intro h
    exact ⟨h.blank, h.lead, h.last, h.sole, by simpa using h.inside, by simpa using h.outside⟩

@[simp] theorem mayLeadTo_ordered (node : PseudoNode V) (t : Vertex) :
    c.ordered.MayLeadTo node.ordered t ↔ c.MayLeadTo node t := by
  simp [MayLeadTo]

@[simp] theorem goesOn_ordered (t : Vertex) (r : PseudoId) :
    c.ordered.GoesOn t r ↔ c.GoesOn t r := by
  cases t with
  | state s => simp [GoesOn, getElem?_pseudostates_ordered]
  | pseudo p => simp [GoesOn]

theorem follows_ordered : c.ordered.Follows = c.Follows := by
  funext p r
  simp [Follows, getElem?_pseudostates_ordered]

theorem plansOf_ordered (node : PseudoNode V) :
    c.ordered.plansOf node.ordered = c.plansOf node := by
  unfold plansOf
  simp

theorem planCount_ordered : c.ordered.planCount = c.planCount := by
  have hbehaviors : ∀ node : StateNode V,
      node.ordered.behaviors.toList.countP (fun b => b.target.isSome) =
        node.behaviors.toList.countP fun b => b.target.isSome := by
    intro node
    rw [StateNode.toList_behaviors_ordered, (byPriority_perm _ _).countP_eq]
  simp only [planCount, toList_states_ordered, toList_pseudostates_ordered, List.map_map,
    Function.comp_def, hbehaviors, plansOf_ordered]

theorem perm_declaredOn_ordered (s : StateId) (trigger : Trigger) :
    (c.ordered.declaredOn s trigger).Perm (c.declaredOn s trigger) := by
  simp only [declaredOn, ordered, Array.getElem?_map]
  cases c.states[s]? with
  | none => exact .nil
  | some node =>
    simp only [Option.map_some, StateNode.toList_behaviors_ordered]
    exact (byPriority_perm _ _).filter _

@[simp] theorem spansFit_ordered : c.ordered.SpansFit ↔ c.SpansFit := by
  simp only [SpansFit, rowsBefore, rowsUpTo, (c.perm_declaredOn_ordered _ _).length_eq,
    size_states_ordered, events_ordered]

end Ordered

/-! ## Ways through pseudostates -/

section Ways

variable {c : Chart V} {p r : PseudoId} {t : Vertex}

/-- The pseudostate at which the plan for a request goes on. -/
def nextOf (c : Chart V) (request : Request V) : Option PseudoId := (c.plan request).next.pseudo?

/-- The pseudostates that may follow are those at which the plans of a pseudostate go on. -/
theorem getD_successors {node : PseudoNode V} (hp : c.pseudostates[p]? = some node)
    {plans : Array (Plan V)}
    (hplans : ∀ {q : PlanId} {plan}, c.pseudoPlans[q]? = some plan → plans[q]? = some plan) :
    (successors c.program.pseudostates plans).getD p [] =
      (node.requests p c.historySlots).filterMap c.nextOf := by
  obtain ⟨row, hrow, hcompiled⟩ := exists_pseudoRow hp hplans
  rw [Array.getD_eq_getD_getElem?, successors_eq, Array.getElem?_map, hrow, Option.map_some,
    Option.getD_some, PseudoNode.requests, List.filterMap_append, List.filterMap_append]
  congr 1
  · -- Row by row, a branch has the plan of its arm.
    have hbranches := hcompiled.branches
    generalize node.arms p c.historySlots = arms, row.branches = branches at hbranches
    induction hbranches with
    | nil => rfl
    | cons h _ ih =>
      simp only [List.map_cons, List.filterMap_cons, h.2, ih, nextOf, Option.bind_some]
  · simp only [List.filterMap_cons, List.filterMap_nil, hcompiled.fallback, nextOf,
      Option.bind_some]

theorem nextOf_move (c : Chart V) (source target : Vertex) (action : Option (Action V)) :
    c.nextOf (.move source target action) = some r ↔ c.continuation target = .pseudo r := by
  have hnext : (c.plan (.move source target action)).next = c.continuation target := by
    simp only [plan]
    split <;> rfl
  rw [nextOf, hnext]
  cases c.continuation target <;> simp [Continuation.pseudo?]

theorem Linked.continuation_eq_pseudo_iff (hc : c.Linked) (hone : c.AtMostOne (· == .initial)) :
    c.continuation t = .pseudo r ↔ c.GoesOn t r := by
  cases t with
  | pseudo p => simp [continuation, GoesOn]
  | state s =>
    unfold continuation GoesOn
    constructor
    · intro h
      cases hi : c.initialOf s with
      | none => simp [hi] at h
      | some p =>
        obtain rfl : p = r := by simpa [hi] using h
        obtain ⟨node, hnode, hcont, hkind⟩ := hc.find?_some hi
        exact ⟨node, hnode, hcont, by simpa using hkind⟩
    · rintro ⟨node, hnode, hcont, hkind⟩
      have hsome : (c.initialOf s).isSome := by
        rw [hc.initialOf_isSome_iff]
        exact ⟨node, Array.mem_toList_iff.2 (Array.mem_of_getElem? hnode), hcont, hkind⟩
      obtain ⟨p, hp⟩ := Option.isSome_iff_exists.1 hsome
      obtain ⟨node', hnode', hcont', hkind'⟩ := hc.find?_some hp
      obtain rfl : p = r := hone p r node' node hnode' hnode (hcont'.trans hcont.symm) hkind'
        (by simpa using hkind)
      simp [hp]

/-- Of two pseudostates one may lead on to the other in the tables exactly if it may in the
chart. -/
theorem Linked.leads_iff_follows (hc : c.Linked) (hone : c.AtMostOne (· == .initial))
    (hrules : ∀ node ∈ c.pseudostates.toList,
      c.BranchRules node.kind node.container node.branches.toList)
    {plans : Array (Plan V)}
    (hplans : ∀ {q : PlanId} {plan}, c.pseudoPlans[q]? = some plan → plans[q]? = some plan) :
    Leads (successors c.program.pseudostates plans) p r ↔ c.Follows p r := by
  unfold Leads Follows
  cases hp : c.pseudostates[p]? with
  | none =>
    have hrow : c.program.pseudostates[p]? = none := by
      rw [Array.getElem?_eq_none_iff] at hp ⊢
      exact (c.size_pseudostates_program).symm ▸ hp
    rw [Array.getD_eq_getD_getElem?, successors_eq, Array.getElem?_map, hrow]
    simp
  | some node =>
    have hmem : node ∈ c.pseudostates.toList :=
      Array.mem_toList_iff.2 (Array.mem_of_getElem? hp)
    rw [getD_successors hp hplans, List.mem_filterMap]
    constructor
    · rintro ⟨request, hrequest, hnext⟩
      by_cases hk : node.kind = .historyContinue
      · rw [PseudoNode.requests_of_continue hp hk ((hrules node hmem).blank hk),
          List.mem_singleton] at hrequest
        subst hrequest
        cases hnext
      · obtain ⟨t, a, ht, rfl⟩ :=
          hc.mayLeadTo_of_mem_requests hp hk (hrules node hmem) hrequest
        rw [nextOf_move, hc.continuation_eq_pseudo_iff hone] at hnext
        exact ⟨node, t, rfl, ht, hnext⟩
    · rintro ⟨node', t, hnode', ht, hnext⟩
      obtain rfl : node = node' := Option.some.inj hnode'
      have hk : node.kind ≠ .historyContinue := by
        intro hk
        rcases ht with ⟨b, hb, -⟩ | ⟨depth, s, hdepth, -⟩
        · simp [(hrules node hmem).blank hk] at hb
        · simp [hk] at hdepth
      obtain ⟨a, ha⟩ := hc.exists_mem_requests hp hk (hrules node hmem) ht
      exact ⟨_, ha, (nextOf_move ..).2 ((hc.continuation_eq_pseudo_iff hone).2 hnext)⟩

end Ways

/-! ## The passes -/

section Passes

variable {c : Chart V}

/-- Numbering finds nothing wrong if every request has a path and there are numbers enough. -/
theorem planPass_eq_none_iff {requests : List (Request V)} {first : PlanId} :
    (c.planPass requests first).fault = none ↔
      (∀ request ∈ requests, c.pathFault request = none) ∧
        (requests = [] ∨ first + requests.length ≤ maxNodes) := by
  have hfault : (c.planPass requests first).fault = none ↔
      ∀ (i : Nat) (request : Request V), requests[i]? = some request →
        c.pathFault request = none ∧ first + i < maxNodes := by
    simp only [planPass, Pass.each, List.findSome?_eq_none_iff, planFault, Option.orElse_eq_orElse,
      Option.orElse_eq_or, Option.or_eq_none_iff, faultIf_eq_none_iff, decide_eq_false_iff_not,
      Nat.not_le]
    constructor
    · intro h i request hi
      exact h (request, first + i) (List.mk_add_mem_zipIdx_iff_getElem?.2 hi)
    · rintro h ⟨request, i⟩ hi
      obtain ⟨hle, hget⟩ := List.mk_mem_zipIdx_iff_le_and_getElem?_sub.1 hi
      have := h (i - first) request hget
      rwa [Nat.add_sub_cancel' hle] at this
  rw [hfault]
  constructor
  · intro h
    refine ⟨fun request hmem => ?_, ?_⟩
    · obtain ⟨i, hi⟩ := List.getElem?_of_mem hmem
      exact (h i request hi).1
    · -- The last request has the greatest number.
      rcases List.eq_nil_or_concat requests with hnil | ⟨front, last, hlast⟩
      · exact .inl hnil
      · have := (h front.length last (by simp [hlast])).2
        exact .inr (by rw [hlast, List.length_concat]; lia)
  · rintro ⟨hpath, hroom⟩ i request hi
    have hlt := (List.getElem?_eq_some_iff.1 hi).1
    refine ⟨hpath request (List.mem_of_getElem? hi), ?_⟩
    rcases hroom with rfl | hroom
    · simp at hlt
    · lia

/-- A cell is in order if its plans are and its span can be noted. -/
theorem cellPass_eq_none_iff {cell : Placement V} :
    (c.cellPass cell).fault = none ↔
      (c.planPass cell.requests cell.first).fault = none ∧ ∃ span, cell.span = .ok span := by
  rw [cellPass, Pass.fault_andThen, Option.orElse_eq_orElse, Option.orElse_eq_or,
    Option.or_eq_none_iff, Pass.check, Placement.fault]
  cases cell.span <;> simp

theorem fault_cellsPass_cons (c : Chart V) (cell : Placement V) (cells : List (Placement V)) :
    (c.cellsPass (cell :: cells)).fault = ((c.planPass cell.requests cell.first).fault <|>
      cell.fault <|> (c.cellsPass cells).fault) := by
  rw [cellsPass, Pass.each, List.findSome?_cons, cellPass, Pass.fault_andThen, Pass.check]
  cases (c.planPass cell.requests cell.first).fault with
  | some error => rfl
  | none => cases cell.fault <;> rfl

/-- Numbering cell by cell finds nothing wrong if numbering all at once does not. -/
theorem planPasses_eq_none_iff {parts : List (List (StateId × Behavior V))} (start : Nat)
    {first : PlanId} :
    (∀ place ∈ placementsFrom start first parts,
        (c.planPass place.requests place.first).fault = none) ↔
      (c.planPass (parts.flatten.filterMap fun b => b.2.request b.1) first).fault = none := by
  induction parts generalizing start first with
  | nil => simp [placementsFrom, planPass, Pass.each]
  | cons part parts ih =>
    rw [placementsFrom, List.forall_mem_cons, ih, List.flatten_cons, List.filterMap_append,
      planPass, planPass, planPass, List.zipIdx_append]
    simp only [Pass.each, List.findSome?_eq_none_iff, List.forall_mem_append]

/-- What goes through the cells finds nothing wrong if their plans can be numbered and their spans
fit. -/
theorem cellsPass_eq_none_iff {first : PlanId} :
    (c.cellsPass (c.cells.placements first)).fault = none ↔
      (c.planPass c.cells.requests first).fault = none ∧ c.SpansFit := by
  rw [← forall_span_iff first, cellsPass, Pass.each, List.findSome?_eq_none_iff]
  simp only [cellPass_eq_none_iff, forall_and]
  rw [Cells.placements_eq, planPasses_eq_none_iff, Cells.requests, Cells.behaviors_eq_flatten]

theorem loopFault_eq_none_iff {rows : Array (PseudoRow V)} {plans : List (Plan V)} :
    c.loopFault rows plans = none ↔ findLoop (successors rows plans.toArray) = none := by
  rw [loopFault, Option.map_eq_none_iff]

/-- What the passes over a chart in order find, one after the other. -/
theorem fault_orderedPass (c : Chart V) : c.orderedPass.fault =
    (c.pseudostates.toList.findSome? c.branchFault <|>
      c.pseudoIds.findSome? (c.historyFault c.historySlots) <|>
      (c.planPass c.pseudoParts.flatten 0).fault <|>
      c.loopFault c.program.pseudostates c.pseudoPlans <|>
      (c.cellsPass (c.cells.placements c.pseudoParts.flatten.length)).fault <|>
      faultIf (c.initialOf rootState).isNone .missingRootInitial) := by
  have hlast : ∀ fault : Option ModelError, (fault <|> none) = fault := by
    intro fault
    cases fault <;> rfl
  simp only [orderedPass, Pass.fault_andThen, Pass.check, Pass.tell, historyPass, Pass.each, hlast]
  rfl

/-- What is found to be in order before the cells are gone through. -/
structure Numberable (c : Chart V) : Prop where
  branches : ∀ node ∈ c.pseudostates.toList, c.branchFault node = none
  histories : ∀ p ∈ c.pseudoIds, c.historyFault c.historySlots p = none
  paths : ∀ request ∈ c.pseudoParts.flatten ++ c.cells.requests, c.pathFault request = none
  loops : findLoop (successors c.program.pseudostates c.pseudoPlans.toArray) = none
  room : c.pseudoParts.flatten.length + c.cells.requests.length ≤ maxNodes

theorem Numberable.fault_planPass (h : c.Numberable) :
    (c.planPass c.pseudoParts.flatten 0).fault = none ∧
      (c.planPass c.cells.requests c.pseudoParts.flatten.length).fault = none := by
  have hroom := h.room
  obtain ⟨hpath, hpath'⟩ := List.forall_mem_append.1 h.paths
  exact ⟨planPass_eq_none_iff.2 ⟨hpath, .inr (by lia)⟩,
    planPass_eq_none_iff.2 ⟨hpath', .inr hroom⟩⟩

theorem orderedPass_eq_none_iff :
    c.orderedPass.fault = none ↔ c.Numberable ∧ c.SpansFit ∧ (c.initialOf rootState).isSome := by
  simp only [fault_orderedPass, Option.orElse_eq_orElse, Option.orElse_eq_or,
    Option.or_eq_none_iff, List.findSome?_eq_none_iff, planPass_eq_none_iff, cellsPass_eq_none_iff,
    loopFault_eq_none_iff, faultIf_eq_none_iff, Option.isNone_eq_false_iff]
  constructor
  · rintro ⟨hbranch, hhistory, ⟨hpath, hroom⟩, hloop, ⟨⟨hpath', hroom'⟩, hfit⟩, hinitial⟩
    refine ⟨⟨hbranch, hhistory, List.forall_mem_append.2 ⟨hpath, hpath'⟩, hloop, ?_⟩, hfit,
      hinitial⟩
    rcases hroom' with hnil | hroom'
    · rcases hroom with hnil' | hroom
      · simp [hnil, hnil']
      · rw [hnil, List.length_nil]
        lia
    · exact hroom'
  · rintro ⟨h, hfit, hinitial⟩
    obtain ⟨hpseudo, hcells⟩ := h.fault_planPass
    exact ⟨h.branches, h.histories, planPass_eq_none_iff.1 hpseudo, h.loops,
      ⟨planPass_eq_none_iff.1 hcells, hfit⟩, hinitial⟩

/-- Where the plans can be numbered, all that can be wrong with a cell is its span. -/
theorem Numberable.fault_cellsPass (h : c.Numberable) (hfit : ¬ c.SpansFit) :
    (c.cellsPass (c.cells.placements c.pseudoParts.flatten.length)).fault =
      some (.tooMany .behavior) := by
  have hplans := h.fault_planPass.2
  cases hfault : (c.cellsPass (c.cells.placements c.pseudoParts.flatten.length)).fault with
  | none => exact absurd (cellsPass_eq_none_iff.1 hfault).2 hfit
  | some error =>
    obtain ⟨place, hplace, herror⟩ := List.exists_of_findSome?_eq_some hfault
    rw [Cells.requests, Cells.behaviors_eq_flatten, ← planPasses_eq_none_iff 0,
      ← Cells.placements_eq] at hplans
    rw [cellPass, Pass.fault_andThen, hplans place hplace, Pass.check, Placement.fault] at herror
    cases hspan : place.span with
    | ok span =>
      rw [hspan] at herror
      cases herror
    | error e =>
      rw [hspan] at herror
      obtain rfl := Span.of_eq_error hspan
      exact herror.symm

theorem Numberable.fault_orderedPass (h : c.Numberable) (hfit : ¬ c.SpansFit) :
    c.orderedPass.fault = some (.tooMany .behavior) := by
  rw [Chart.fault_orderedPass, List.findSome?_eq_none_iff.2 h.branches,
    List.findSome?_eq_none_iff.2 h.histories, h.fault_planPass.1, loopFault_eq_none_iff.2 h.loops,
    h.fault_cellsPass hfit]
  rfl

/-- What compiling makes of a chart, and when. -/
theorem compile_eq_ok_iff {p : Program V} :
    c.compile = .ok p ↔
      c.structureFault = none ∧ c.ordered.orderedPass.fault = none ∧ p = c.ordered.program := by
  have hfault : (c.passes c.ordered).fault = none ↔
      c.structureFault = none ∧ c.ordered.orderedPass.fault = none := by
    simp only [passes, Pass.fault_andThen, Pass.check, Pass.tell, Option.orElse_eq_orElse,
      Option.orElse_eq_or, Option.or_eq_none_iff, true_and]
  rw [compile, ← and_assoc, ← hfault]
  cases (c.passes c.ordered).fault <;> simp [eq_comm]

end Passes

/-! ## Charts whose plans can be numbered -/

/-- What is known of a chart in order before its plans are numbered: all references lead to nodes,
and the branches of every pseudostate keep its rules. -/
structure Prepared (c : Chart V) : Prop where
  linked : c.Linked
  initials : c.AtMostOne (· == .initial)
  nesting : ∀ s < c.states.size, (c.hierarchy.ancestors s).tail.length < maxDepth
  behaviors : ∀ node ∈ c.states.toList, ∀ b ∈ node.behaviors.toList,
    ∀ t, b.target = some t → c.IsTarget t ∧ ∃ e < c.events.size, b.trigger = .event e
  targets : ∀ node ∈ c.pseudostates.toList, ∀ b ∈ node.branches.toList,
    ∀ t, b.target = some t → c.IsTarget t
  rules : ∀ node ∈ c.pseudostates.toList,
    c.BranchRules node.kind node.container node.branches.toList

namespace Prepared

variable {c : Chart V}

theorem mem_pseudoParts {request : Request V} :
    request ∈ c.pseudoParts.flatten ↔
      ∃ (r : PseudoId) (node : PseudoNode V), c.pseudostates[r]? = some node ∧
        request ∈ node.requests r c.historySlots := by
  simp only [pseudoParts, pseudoRequests, List.mem_flatten, List.mem_map]
  constructor
  · rintro ⟨_, ⟨⟨node, r⟩, hnode, rfl⟩, hmem⟩
    exact ⟨r, node, by simpa using List.mem_zipIdx_iff_getElem?.1 hnode, hmem⟩
  · rintro ⟨r, node, hnode, hmem⟩
    exact ⟨_, ⟨(node, r), List.mem_zipIdx_iff_getElem?.2 (by simpa using hnode), rfl⟩, hmem⟩

/-- What a pseudostate may lead to is a target, and only a branch leads to the root. -/
theorem isTarget_of_mayLeadTo (h : c.Prepared) {node : PseudoNode V}
    (hnode : node ∈ c.pseudostates.toList) {t : Vertex} (ht : c.MayLeadTo node t) :
    c.IsTarget t ∧ (t = .state rootState → ∃ b ∈ node.branches.toList, b.target = some t) := by
  rcases ht with ⟨b, hb, hbt⟩ | ⟨depth, s, -, htracks, rfl⟩
  · exact ⟨h.targets node hnode b hb t hbt, fun _ => ⟨b, hb, hbt⟩⟩
  · obtain ⟨hs, hne⟩ := h.linked.lt_of_mem_tail htracks.1
    exact ⟨hs, fun hroot => absurd (Vertex.state.inj hroot) hne⟩

/-- Every request has a path exactly if nothing leads to the root. -/
theorem forall_pathFault_iff (h : c.Prepared) :
    (∀ request ∈ c.pseudoParts.flatten ++ c.cells.requests, c.pathFault request = none) ↔
      c.RootUntargeted := by
  constructor
  · intro hpath
    constructor
    · intro node hnode b hb hbt
      obtain ⟨r, hr⟩ := List.getElem?_of_mem hnode
      rw [Array.getElem?_toList] at hr
      have hk : node.kind ≠ .historyContinue := by
        intro hk
        simp [(h.rules node hnode).blank hk] at hb
      obtain ⟨a, ha⟩ := h.linked.exists_mem_requests hr hk (h.rules node hnode) (.inl ⟨b, hb, hbt⟩)
      exact (h.linked.pathFault_eq_none_iff h.nesting (h.linked.landing_pseudo_lt hr)
        (h.targets node hnode b hb _ hbt)).1
        (hpath _ (List.mem_append_left _ (mem_pseudoParts.2 ⟨r, node, hr, ha⟩))) rfl
    · intro node hnode b hb hbt
      obtain ⟨s, hs⟩ := List.getElem?_of_mem hnode
      rw [Array.getElem?_toList] at hs
      obtain ⟨htarget, htrigger⟩ := h.behaviors node hnode b hb _ hbt
      have hrequest : .move (.state s) (.state rootState) b.action ∈ c.cells.requests :=
        mem_cells_requests.2 ⟨s, node, b, _, hs, hb, htrigger, hbt, rfl⟩
      have hland : c.landing (.state s) < c.states.size := (Array.getElem?_eq_some_iff.1 hs).1
      exact (h.linked.pathFault_eq_none_iff h.nesting hland htarget).1
        (hpath _ (List.mem_append_right _ hrequest)) rfl
  · rintro ⟨hbranch, hbehavior⟩ request hrequest
    rcases List.mem_append.1 hrequest with hmem | hmem
    · obtain ⟨r, node, hr, hmem⟩ := mem_pseudoParts.1 hmem
      have hnode : node ∈ c.pseudostates.toList :=
        Array.mem_toList_iff.2 (Array.mem_of_getElem? hr)
      by_cases hk : node.kind = .historyContinue
      · rw [PseudoNode.requests_of_continue hr hk ((h.rules node hnode).blank hk),
          List.mem_singleton] at hmem
        rw [hmem, pathFault]
      · obtain ⟨t, a, ht, rfl⟩ :=
          h.linked.mayLeadTo_of_mem_requests hr hk (h.rules node hnode) hmem
        obtain ⟨htarget, hroot⟩ := h.isTarget_of_mayLeadTo hnode ht
        refine (h.linked.pathFault_eq_none_iff h.nesting (h.linked.landing_pseudo_lt hr)
          htarget).2 fun heq => ?_
        obtain ⟨b, hb, hbt⟩ := hroot heq
        exact hbranch node hnode b hb (heq ▸ hbt)
    · obtain ⟨s, node, b, t, hs, hb, -, hbt, rfl⟩ := mem_cells_requests.1 hmem
      have hnode : node ∈ c.states.toList := Array.mem_toList_iff.2 (Array.mem_of_getElem? hs)
      have hland : c.landing (.state s) < c.states.size := (Array.getElem?_eq_some_iff.1 hs).1
      exact (h.linked.pathFault_eq_none_iff h.nesting hland
        (h.behaviors node hnode b hb t hbt).1).2
        fun heq => hbehavior node hnode b hb (heq ▸ hbt)

/-- As many plans are numbered as the chart needs. -/
theorem length_requests (h : c.Prepared) :
    c.pseudoParts.flatten.length + c.cells.requests.length = c.planCount := by
  rw [length_cells_requests fun node hnode b hb ht => ?_, planCount]
  · congr 1
    rw [List.length_flatten, pseudoParts, pseudoRequests, List.map_map,
      ← List.zipIdx_map_fst 0 c.pseudostates.toList, List.map_map, List.zipIdx_map_fst]
    congr 1
    apply List.map_congr_left
    rintro ⟨node, r⟩ hnode
    have hr : c.pseudostates[r]? = some node := by
      simpa using List.mem_zipIdx_iff_getElem?.1 hnode
    exact h.linked.length_requests hr
      (h.rules node (Array.mem_toList_iff.2 (Array.mem_of_getElem? hr)))
  · obtain ⟨t, hbt⟩ := Option.isSome_iff_exists.1 ht
    exact (h.behaviors node hnode b hb t hbt).2

/-- The search for closed ways finds none exactly if there is none in the chart. -/
theorem findLoop_eq_none_iff_follows (h : c.Prepared) :
    findLoop (successors c.program.pseudostates c.pseudoPlans.toArray) = none ↔
      ∀ p, ¬ Relation.TransGen c.Follows p p := by
  have hfollows : Leads (successors c.program.pseudostates c.pseudoPlans.toArray) = c.Follows := by
    funext p r
    exact propext (h.linked.leads_iff_follows h.initials h.rules (by simp))
  rw [findLoop_eq_none_iff, hfollows]

end Prepared

/-! ## Well-formed charts compile, and no others -/

section WellFormed

variable {c : Chart V}

theorem forall_behaviors_ordered {P : Behavior V → Prop} :
    (∀ node ∈ c.ordered.states.toList, ∀ b ∈ node.behaviors.toList, P b) ↔
      ∀ node ∈ c.states.toList, ∀ b ∈ node.behaviors.toList, P b := by
  simp only [toList_states_ordered, List.forall_mem_map, StateNode.toList_behaviors_ordered,
    mem_byPriority]

theorem forall_branches_ordered {P : Branch V → Prop} :
    (∀ node ∈ c.ordered.pseudostates.toList, ∀ b ∈ node.branches.toList, P b) ↔
      ∀ node ∈ c.pseudostates.toList, ∀ b ∈ node.branches.toList, P b := by
  simp only [toList_pseudostates_ordered, List.forall_mem_map, PseudoNode.toList_branches_ordered,
    mem_byPriority]

theorem forall_pseudostates_ordered {P : PseudoNode V → Prop} :
    (∀ node ∈ c.ordered.pseudostates.toList, P node) ↔
      ∀ node ∈ c.pseudostates.toList, P node.ordered := by
  rw [toList_pseudostates_ordered, List.forall_mem_map]

theorem Linked.prepared_ordered (hc : c.Linked) (hinitials : c.AtMostOne (· == .initial))
    (hnesting : ∀ s < c.states.size, (c.hierarchy.ancestors s).tail.length < maxDepth)
    (hbehaviors : ∀ node ∈ c.states.toList, ∀ b ∈ node.behaviors.toList, c.BehaviorRules b)
    (htargets : ∀ node ∈ c.pseudostates.toList, ∀ b ∈ node.branches.toList,
      ∀ t, b.target = some t → c.IsTarget t)
    (hrules : ∀ node ∈ c.pseudostates.toList, c.BranchRules node.kind node.container
      (byPriority (·.priority) node.branches.toList)) : c.ordered.Prepared where
  linked := hc.ordered
  initials := (c.atMostOne_ordered _).2 hinitials
  nesting := by simpa using hnesting
  behaviors := by
    simp only [isTarget_ordered, events_ordered]
    refine forall_behaviors_ordered.2 fun node hnode b hb t ht => ?_
    have hb := hbehaviors node hnode b hb
    refine ⟨hb.target t ht, ?_⟩
    cases htrigger : b.trigger with
    | boundary x => simp [hb.boundary x htrigger] at ht
    | event e => exact ⟨e, hb.event e htrigger, rfl⟩
  targets := by
    simp only [isTarget_ordered]
    exact forall_branches_ordered.2 htargets
  rules := by
    simp only [branchRules_ordered]
    exact forall_pseudostates_ordered.2 (by simpa using hrules)

theorem WellFormed.prepared (hw : c.WellFormed) (hc : c.Linked) : c.ordered.Prepared :=
  hc.prepared_ordered hw.initials hw.nesting hw.behaviors hw.targets hw.branches

theorem rootUntargeted_ordered : c.ordered.RootUntargeted ↔ c.RootUntargeted := by
  rw [RootUntargeted, forall_branches_ordered, forall_behaviors_ordered, RootUntargeted]

theorem Linked.historyFaults_iff (hc : c.Linked) :
    (∀ p ∈ c.pseudoIds, c.historyFault c.historySlots p = none) ↔
      ∀ node ∈ c.pseudostates.toList, node.kind = .historyContinue →
        c.Continued node.container := by
  constructor
  · intro h node hnode
    obtain ⟨p, hp⟩ := List.getElem?_of_mem hnode
    rw [Array.getElem?_toList] at hp
    have hlt := (Array.getElem?_eq_some_iff.1 hp).1
    exact (hc.historyFault_eq_none_iff hp).1 (h p (by simpa [pseudoIds] using hlt))
  · intro h p hp
    have hlt : p < c.pseudostates.size := by simpa [pseudoIds] using hp
    exact (hc.historyFault_eq_none_iff (Array.getElem?_eq_getElem hlt)).2
      (h _ (by simp))

theorem continues_ordered :
    (∀ node ∈ c.ordered.pseudostates.toList, node.kind = .historyContinue →
      c.ordered.Continued node.container) ↔
    ∀ node ∈ c.pseudostates.toList, node.kind = .historyContinue → c.Continued node.container := by
  simp only [forall_pseudostates_ordered, PseudoNode.kind_ordered, PseudoNode.container_ordered,
    continued_ordered]

/-- What the passes over a chart in order amount to, once it is prepared. -/
theorem Prepared.numberable_iff (h : c.ordered.Prepared) :
    c.ordered.Numberable ↔
      (∀ node ∈ c.pseudostates.toList, node.kind = .historyContinue →
        c.Continued node.container) ∧
      c.RootUntargeted ∧ (∀ p, ¬ Relation.TransGen c.Follows p p) ∧ c.planCount ≤ maxNodes := by
  have hrules : ∀ node ∈ c.ordered.pseudostates.toList, c.ordered.branchFault node = none :=
    fun node hnode => branchFault_eq_none_iff.2 (h.rules node hnode)
  rw [← continues_ordered, ← rootUntargeted_ordered, ← follows_ordered, ← planCount_ordered,
    ← h.linked.historyFaults_iff, ← h.forall_pathFault_iff, ← h.findLoop_eq_none_iff_follows,
    ← h.length_requests]
  exact ⟨fun hn => ⟨hn.histories, hn.paths, hn.loops, hn.room⟩,
    fun ⟨hhistories, hpaths, hloops, hroom⟩ => ⟨hrules, hhistories, hpaths, hloops, hroom⟩⟩

theorem WellFormed.numberable (hw : c.WellFormed) (hc : c.Linked) : c.ordered.Numberable :=
  (hw.prepared hc).numberable_iff.2 ⟨hw.continues, hw.root, hw.loops, hw.plans⟩

theorem WellFormed.structureFault_eq (hw : c.WellFormed) (hc : c.Linked) :
    c.structureFault = none :=
  hc.structureFault_eq_none_iff.2 ⟨hw.stateNames, hw.eventNames, hw.rootInitial, hw.initials,
    hw.histories, hw.nesting, hw.behaviors, hw.targets⟩

theorem WellFormed.compile_eq (hw : c.WellFormed) (hc : c.Linked) (hfit : c.SpansFit) :
    c.compile = .ok c.ordered.program := by
  refine compile_eq_ok_iff.2 ⟨hw.structureFault_eq hc, ?_, rfl⟩
  refine orderedPass_eq_none_iff.2 ⟨hw.numberable hc, c.spansFit_ordered.2 hfit, ?_⟩
  rw [hc.ordered.initialOf_isSome_iff, owns_ordered]
  exact hw.rootInitial

/-- What is well-formed and does not compile has too many behaviors. -/
theorem WellFormed.compile_eq_error (hw : c.WellFormed) (hc : c.Linked) (hfit : ¬ c.SpansFit) :
    c.compile = .error (.tooMany .behavior) := by
  have hordered := (hw.numberable hc).fault_orderedPass (c.spansFit_ordered.not.2 hfit)
  have hfault : (c.passes c.ordered).fault = some (.tooMany .behavior) := by
    simp only [passes, Pass.fault_andThen, Pass.check, Pass.tell, hw.structureFault_eq hc, hordered]
    rfl
  rw [compile, hfault]

theorem Linked.wellFormed_of_compile (hc : c.Linked) {p : Program V} (h : c.compile = .ok p) :
    c.WellFormed := by
  obtain ⟨hstructure, hpasses, -⟩ := compile_eq_ok_iff.1 h
  obtain ⟨hstates, hevents, hinitial, hinitials, hhistories, hnesting, hbehaviors, htargets⟩ :=
    hc.structureFault_eq_none_iff.1 hstructure
  obtain ⟨hnumberable, -, -⟩ := orderedPass_eq_none_iff.1 hpasses
  have hbranches : ∀ node ∈ c.pseudostates.toList, c.BranchRules node.kind node.container
      (byPriority (·.priority) node.branches.toList) := by
    intro node hnode
    simpa using
      branchFault_eq_none_iff.1 (forall_pseudostates_ordered.1 hnumberable.branches node hnode)
  have hprepared := hc.prepared_ordered hinitials hnesting hbehaviors htargets hbranches
  obtain ⟨hcontinues, hroot, hloops, hplans⟩ := hprepared.numberable_iff.1 hnumberable
  exact ⟨hstates, hevents, hinitial, hinitials, hhistories, hnesting, hbehaviors, htargets, hroot,
    hbranches, hcontinues, hloops, hplans⟩

/-- The spans of what was compiled fit. -/
theorem spansFit_of_compile {p : Program V} (h : c.compile = .ok p) : c.ordered.SpansFit := by
  obtain ⟨-, hpasses, -⟩ := compile_eq_ok_iff.1 h
  exact (orderedPass_eq_none_iff.1 hpasses).2.1

end WellFormed

/-- Compiling a drafted chart succeeds exactly if the chart is well-formed and its spans fit. A
well-formed chart whose spans do not fit has too many behaviors. -/
theorem exists_compile_iff_wellFormed {c : Chart V} (hc : c.Drafted) :
    ((∃ p, c.compile = .ok p) ↔ c.WellFormed ∧ c.SpansFit) ∧
      (c.WellFormed → ¬ c.SpansFit → c.compile = .error (.tooMany .behavior)) := by
  refine ⟨⟨?_, ?_⟩, fun hw hfit => hw.compile_eq_error hc.linked hfit⟩
  · rintro ⟨p, h⟩
    exact ⟨hc.linked.wellFormed_of_compile h, c.spansFit_ordered.1 (spansFit_of_compile h)⟩
  · rintro ⟨hw, hfit⟩
    exact ⟨_, hw.compile_eq hc.linked hfit⟩

def relayCalls : List (Draft.Call Nat) :=
  [.event "go", .state "Idle" rootState, .state "Work" rootState, .state "Slow" 2,
    .state "Fast" 2, .pseudostate rootState .initial none, .pseudostate 2 .initial none,
    .pseudostate 2 (.history .shallow) none, .pseudostate rootState .choice none,
    .branch 0 [.to (.state 1)], .branch 1 [.to (.state 3)], .branch 2 [.to (.state 3)],
    .branch 3 [.to (.state 4), .otherwise],
    .branch 3 [.when ⟨(· == 2), fun _ => []⟩, .to (.pseudo 2)],
    .on 1 1 [.to (.pseudo 3), .action ⟨(· + 1), fun _ => []⟩], .on 2 1 [.to (.state 1)]]

theorem exists_ok_of_isOk {ε α : Type} {x : Except ε α} (h : x.isOk) : ∃ a, x = .ok a := by
  cases x with
  | ok a => exact ⟨a, rfl⟩
  | error e => simp [Except.isOk, Except.toBool] at h

theorem eq_ok_of_toOption {ε α : Type} {x : Except ε α} {a : α} (h : x.toOption = some a) :
    x = .ok a := by
  cases x with
  | ok b => exact congrArg Except.ok (Option.some.inj h)
  | error e => simp [Except.toOption] at h

/-- A small chart with a nested state that is left and found again by its history. -/
def relay : Chart Nat := (Draft.ofCalls "relay" relayCalls).chart

theorem relay_drafted : relay.Drafted := ⟨"relay", relayCalls, rfl⟩

theorem relay_compile_isOk : relay.compile.isOk := by decide +kernel

theorem relay_wellFormed :
    relay.Drafted ∧ (∃ p, relay.compile = .ok p) ∧ relay.WellFormed ∧ relay.SpansFit := by
  obtain ⟨p, hp⟩ := exists_ok_of_isOk relay_compile_isOk
  exact ⟨relay_drafted, ⟨p, hp⟩, (exists_compile_iff_wellFormed relay_drafted).1.1 ⟨p, hp⟩⟩

/-! ## One way in -/

section WayIn

/-- The way from the root to the state `t`. -/
def wayIn (t : StateId) : PseudoNode V where
  kind := .initial
  container := rootState
  branches := #[{ target := some (.state t) }]

variable {c : Chart V} {t : StateId} (h : c.pseudostates = #[wayIn t])

include h

theorem eq_wayIn_of_mem {node : PseudoNode V} (hnode : node ∈ c.pseudostates.toList) :
    node = wayIn t := by
  simpa [h] using hnode

theorem eq_wayIn_of_getElem? {r : PseudoId} {node : PseudoNode V}
    (hr : c.pseudostates[r]? = some node) : r = 0 ∧ node = wayIn t := by
  have hlt := (Array.getElem?_eq_some_iff.1 hr).1
  rw [h] at hlt
  exact ⟨Nat.lt_one_iff.1 hlt,
    eq_wayIn_of_mem h (Array.mem_toList_iff.2 (Array.mem_of_getElem? hr))⟩

/-- Below the root no way goes on. -/
theorem not_follows_of_wayIn (ht : t ≠ rootState) (p r : PseudoId) : ¬ c.Follows p r := by
  rintro ⟨node, target, hp, hlead, hgoes⟩
  obtain ⟨-, rfl⟩ := eq_wayIn_of_getElem? h hp
  rcases hlead with ⟨b, hb, htarget⟩ | ⟨_, _, hkind, _⟩
  · obtain rfl : b = { target := some (.state t) } := by simpa [wayIn] using hb
    cases htarget
    obtain ⟨node, hr, hcontainer, -⟩ := hgoes
    obtain ⟨-, rfl⟩ := eq_wayIn_of_getElem? h hr
    exact ht hcontainer.symm
  · cases hkind

/-- With one way in, a chart is well-formed if its states are. -/
theorem wellFormed_of_wayIn (hstates : (c.states.toList.map (·.name)).Nodup)
    (hevents : c.events.toList.Nodup)
    (hnesting : ∀ s < c.states.size, (c.hierarchy.ancestors s).tail.length < maxDepth)
    (hbehaviors : ∀ node ∈ c.states.toList, ∀ b ∈ node.behaviors.toList,
      c.BehaviorRules b ∧ b.target ≠ some (.state rootState))
    (ht : t < c.states.size) (hin : c.Inside rootState (.state t))
    (hplans : c.planCount ≤ maxNodes) : c.WellFormed := by
  have hne : t ≠ rootState := Ne.symm (Hierarchy.mem_tail_ancestors.1 hin).2
  have hbranch : ∀ node ∈ c.pseudostates.toList, ∀ b ∈ node.branches.toList,
      b = { target := some (.state t) } := by
    intro node hnode b hb
    rw [eq_wayIn_of_mem h hnode] at hb
    simpa [wayIn] using hb
  have hone : ∀ kind, c.AtMostOne kind := fun kind p r a b hp hr _ _ _ =>
    (eq_wayIn_of_getElem? h hp).1.trans (eq_wayIn_of_getElem? h hr).1.symm
  refine {
    stateNames := hstates
    eventNames := hevents
    rootInitial := ⟨wayIn t, by rw [h]; exact List.mem_singleton_self _, rfl, rfl⟩
    initials := hone _
    histories := hone _
    nesting := hnesting
    behaviors := fun node hnode b hb => (hbehaviors node hnode b hb).1
    targets := fun node hnode b hb target htarget => ?_
    root := ⟨fun node hnode b hb => ?_, fun node hnode b hb => (hbehaviors node hnode b hb).2⟩
    branches := fun node hnode => ?_
    continues := fun node hnode hkind => ?_
    loops := fun p hloop => ?_
    plans := hplans }
  · rw [hbranch node hnode b hb] at htarget
    cases htarget
    exact ht
  · rw [hbranch node hnode b hb]
    simpa using hne
  · have hsole : byPriority (·.priority) node.branches.toList =
        [{ target := some (.state t) }] := by
      rw [eq_wayIn_of_mem h hnode]
      exact List.mergeSort_singleton _
    rw [hsole, eq_wayIn_of_mem h hnode]
    refine ⟨nofun, by simp, fun _ => ⟨_, rfl, rfl⟩, fun _ => rfl, fun _ b hb target htarget => ?_,
      nofun⟩
    rw [List.mem_singleton.1 hb] at htarget
    cases htarget
    exact hin
  · rw [eq_wayIn_of_mem h hnode] at hkind
    cases hkind
  · obtain ⟨r, hfollows, -⟩ := Relation.TransGen.head'_iff.1 hloop
    exact not_follows_of_wayIn h hne p r hfollows

end WayIn

/-! ## More behaviors than a span can count -/

def crowdCalls (n : Nat) : List (Draft.Call Nat) :=
  [.state "Hall" rootState, .pseudostate rootState .initial none, .branch 0 [.to (.state 1)]] ++
    List.replicate n (.behavior rootState .byDefault [])

/-- A chart whose root has `n` behaviors on `doEvent`, all of which do nothing. -/
def crowd (n : Nat) : Chart Nat where
  name := "crowd"
  events := #["DO"]
  states := #[
    { name := "ROOT", parent := none, children := #[1], pseudostates := #[0],
      behaviors := Array.replicate n { trigger := .byDefault } },
    { name := "Hall", parent := some rootState }]
  pseudostates := #[wayIn 1]

theorem crowd_ofCalls (n : Nat) :
    Draft.ofCalls "crowd" (crowdCalls n) = { chart := crowd n } := by
  induction n with
  | zero => rfl
  | succ n ih =>
    rw [Draft.ofCalls, crowdCalls, List.replicate_succ', ← List.append_assoc, List.foldl_append,
      ← crowdCalls, ← Draft.ofCalls, ih, crowd, crowd, Array.replicate_succ]
    rfl

theorem crowd_drafted (n : Nat) : (crowd n).Drafted :=
  ⟨"crowd", crowdCalls n, by rw [crowd_ofCalls]; rfl⟩

theorem crowd_behavior {n : Nat} {node : StateNode Nat} (hnode : node ∈ (crowd n).states.toList)
    {b : Behavior Nat} (hb : b ∈ node.behaviors.toList) : b = { trigger := .byDefault } := by
  simp only [crowd, List.mem_cons, List.not_mem_nil, or_false] at hnode
  rcases hnode with rfl | rfl
  · simp only [Array.toList_replicate, List.mem_replicate] at hb
    exact hb.2
  · simp at hb

theorem crowd_ancestors (n : Nat) : (crowd n).hierarchy.ancestors 1 = [1, rootState] := by
  have hl := (crowd_drafted n).linked
  rw [Hierarchy.ancestors_of_parent (hl.parent_eq 1),
    Hierarchy.ancestors_of_root (hl.parent_eq rootState)]

theorem crowd_planCount (n : Nat) : (crowd n).planCount = 1 := by
  have hnone : ∀ node ∈ (crowd n).states.toList,
      node.behaviors.toList.countP (fun b => b.target.isSome) = 0 := by
    intro node hnode
    rw [List.countP_eq_zero]
    intro b hb
    rw [crowd_behavior hnode hb]
    decide
  rw [planCount, List.map_congr_left hnone]
  rfl

/-- However many there are, nothing is wrong with them but their number. -/
theorem crowd_wellFormed (n : Nat) : (crowd n).WellFormed := by
  have hstates : ["ROOT", "Hall"].Nodup := by decide
  have hevents : ["DO"].Nodup := by decide
  refine wellFormed_of_wayIn rfl hstates hevents (fun s hs => ?_) (fun node hnode b hb => ?_)
    Nat.one_lt_two ?_ ?_
  · have hl := (crowd_drafted n).linked
    rcases Nat.le_one_iff_eq_zero_or_eq_one.1 (Nat.le_of_lt_succ hs) with rfl | rfl
    · rw [Hierarchy.ancestors_of_root (hl.parent_eq 0)]
      decide
    · rw [crowd_ancestors]
      decide
  · rw [crowd_behavior hnode hb]
    refine ⟨⟨nofun, fun e he => ?_, nofun⟩, nofun⟩
    cases he
    exact Nat.one_pos
  · rw [Inside, crowd_ancestors]
    exact List.mem_singleton_self _
  · rw [crowd_planCount]
    decide

theorem crowd_declaredOn (n : Nat) :
    (crowd n).declaredOn rootState .byDefault = List.replicate n { trigger := .byDefault } := by
  change (Array.replicate n _).toList.filter _ = _
  rw [Array.toList_replicate, List.filter_replicate]
  rfl

/-- More behaviors than a span can count. -/
theorem crowd_not_spansFit {n : Nat} (h : maxSpan < n) : ¬ (crowd n).SpansFit := by
  intro hfit
  have hsize := (hfit rootState Nat.two_pos doEvent Nat.one_pos).2
  change ((crowd n).declaredOn rootState .byDefault).length ≤ maxSpan at hsize
  rw [crowd_declaredOn, List.length_replicate] at hsize
  exact Nat.not_lt.2 hsize h

/-- With one behavior more than a span can count, a well-formed chart does not compile. -/
theorem crowd_wellFormed_not_compile :
    (crowd 4294967296).Drafted ∧ (crowd 4294967296).WellFormed ∧
      (crowd 4294967296).compile = .error (.tooMany .behavior) ∧
      ¬ ((∃ p, (crowd 4294967296).compile = .ok p) ↔ (crowd 4294967296).WellFormed) := by
  have hw := crowd_wellFormed 4294967296
  have herror := hw.compile_eq_error (crowd_drafted _).linked
    (crowd_not_spansFit (Nat.lt_succ_self maxSpan))
  refine ⟨crowd_drafted _, hw, herror, fun hiff => ?_⟩
  obtain ⟨p, hp⟩ := hiff.2 hw
  cases herror.symm.trans hp

end Chart

end Statechart
