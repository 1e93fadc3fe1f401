import Statechart.Program.Diagram
import Statechart.Proofs.Agreement
import Statechart.Proofs.BehaviorTable
import Statechart.Proofs.HistoryLayout

/-
  Who owns a plan, and where a diagram shows it. Plans are numbered by two passes, and each number
  stands in one place only: in order, the plans of pseudostates and those of behaviors are all the
  numbers there are (`planRefs_eq_range`). A diagram goes through the same places in the same order,
  so its plans are those of the program (`plans_diagram`). The behaviors of a state are shown cell
  by cell (`exists_depicts`).
-/

namespace Statechart

variable {V : Type}

/-! ## Spans end to end -/

/-- What parts hold, counted part by part, is counted one after the other. -/
theorem flatMap_range'_offset {α : Type} (parts : List (List α)) (start : Nat) :
    ((List.range parts.length).flatMap fun r =>
        List.range' (start + offset parts r) (parts.getD r []).length) =
      List.range' start parts.flatten.length := by
  induction parts generalizing start with
  | nil => rfl
  | cons part parts ih =>
    have hrest := ih (start + part.length)
    rw [List.length_cons, List.range_succ_eq_map, List.flatMap_cons, List.flatMap_map,
      List.flatten_cons, List.length_append, ← List.range'_append_1, ← hrest]
    simp [offset, Nat.add_assoc]

/-- Rows counted span by span are counted one after the other. -/
theorem Tiles.flatMap_range' {start stop : Nat} {spans : List Span} (h : Tiles start stop spans) :
    start ≤ stop ∧ (spans.flatMap fun span => List.range' span.start.toNat span.size.toNat) =
      List.range' start (stop - start) := by
  induction spans generalizing start with
  | nil =>
    obtain rfl : start = stop := h
    simp
  | cons span spans ih =>
    obtain ⟨hstart, hrest⟩ := h
    obtain ⟨hle, hrange⟩ := ih hrest
    have hstop : span.stop = start + span.size.toNat := by rw [Span.stop, hstart]
    have hsize : stop - start = span.size.toNat + (stop - (start + span.size.toNat)) := by omega
    refine ⟨by omega, ?_⟩
    rw [List.flatMap_cons, hrange, hstart, hstop, hsize, ← List.range'_append_1]

/-- Reading the entries of a table one after the other cuts them out of it. -/
theorem filterMap_getElem?_range' {α : Type} (xs : List α) (start size : Nat) :
    (List.range' start size).filterMap (xs[·]?) = (xs.drop start).take size := by
  induction size generalizing start with
  | zero => simp
  | succ size ih =>
    rw [List.range'_succ, List.filterMap_cons, ih]
    cases hx : xs[start]? with
    | none =>
      have hle : xs.length ≤ start := List.getElem?_eq_none_iff.1 hx
      rw [List.drop_eq_nil_of_le hle, List.drop_eq_nil_of_le (by omega)]
      simp
    | some x =>
      obtain ⟨hlt, rfl⟩ := List.getElem?_eq_some_iff.1 hx
      rw [List.drop_eq_getElem_cons hlt, List.take_succ_cons]

namespace Program

variable (p : Program V)

/-- The plans of branches. -/
def branchPlans : List PlanId := p.pseudostates.toList.flatMap fun row => row.branches.map (·.plan)

def fallbackPlans : List PlanId := p.pseudostates.toList.map (·.fallback)

/-- The plans of the behaviors that lead somewhere. -/
def transitionPlans : List PlanId := p.behaviors.toList.filterMap (·.transition?)

/-- All places where a plan is named, the pseudostates first. -/
def planRefs : List PlanId := p.pseudostates.toList.flatMap (·.planIds) ++ p.transitionPlans

theorem perm_planRefs :
    (p.branchPlans ++ p.fallbackPlans ++ p.transitionPlans).Perm p.planRefs := by
  have hrows := List.flatMap_append_perm p.pseudostates.toList
    (fun row => row.branches.map (·.plan)) (fun row => [row.fallback])
  rw [← List.map_eq_flatMap] at hrows
  exact hrows.append_right _

end Program

namespace Chart

variable {c : Chart V}

theorem map_planIds (c : Chart V) :
    c.program.pseudostates.toList.map (·.planIds) =
      (List.range c.pseudoParts.length).map fun r =>
        List.range' (offset c.pseudoParts r) (c.pseudoParts.getD r []).length := by
  apply List.ext_getElem (by simp [pseudoParts, pseudoRequests])
  intro r h₁ h₂
  have hr : r < c.pseudostates.size := by simpa using h₁
  have hnode := Array.getElem?_eq_getElem hr
  have hrow := (Array.getElem?_eq_some_iff.1 (getElem?_pseudostates_program hnode)).2
  simp [hrow, PseudoNode.planIds_row, getElem?_pseudoParts hnode]

/-- The plans of pseudostates are numbered in their order. -/
theorem flatMap_planIds (c : Chart V) :
    c.program.pseudostates.toList.flatMap (·.planIds) = List.range c.pseudoPlans.length := by
  have hrange := flatMap_range'_offset c.pseudoParts 0
  simp only [Nat.zero_add] at hrange
  calc c.program.pseudostates.toList.flatMap (·.planIds)
      = (List.range c.pseudoParts.length).flatMap fun r =>
          List.range' (offset c.pseudoParts r) (c.pseudoParts.getD r []).length := by
        rw [List.flatMap_def, map_planIds, ← List.flatMap_def]
    _ = List.range c.pseudoPlans.length := by
        rw [hrange, pseudoPlans, List.length_map, List.range_eq_range']

/-- The places where plans are named name all of them in order. -/
theorem planRefs_eq_range (c : Chart V) :
    c.program.planRefs = List.range c.program.plans.size := by
  have hsize : c.program.plans.size = c.pseudoPlans.length + c.cells.requests.length := by
    change (c.pseudoPlans ++ c.cells.requests.map c.plan).toArray.size = _
    simp
  have htransitions : c.program.transitionPlans =
      List.range' (0 + c.pseudoPlans.length) c.cells.requests.length := by
    have hids := transitionIds_compiledRows c.pseudoPlans.length c.cells.parts.flatten
    rw [← toList_behaviors_program, ← Cells.behaviors_eq_flatten] at hids
    rw [Nat.zero_add]
    exact hids
  rw [Program.planRefs, flatMap_planIds, htransitions, hsize, List.range_eq_range',
    List.range_eq_range', List.range'_append_1]

/-- The rows that a span cuts out of the behavior table. -/
def rowsOf (c : Chart V) (span : Span) : List (BehaviorRow V) :=
  (List.range' span.start.toNat span.size.toNat).filterMap (c.program.behaviors.toList[·]?)

theorem SpansFit.getD_behaviors? (hfit : c.SpansFit) (s : StateId) (e : EventId) :
    (c.program.behaviors? s e).getD [] =
      (c.program.spans[c.program.cell s e]?).toList.flatMap c.rowsOf := by
  unfold Program.behaviors?
  cases hspan : c.program.spans[c.program.cell s e]? with
  | none => rfl
  | some span =>
    rw [Option.bind_some, if_pos (hfit.stop_le (Array.mem_of_getElem? hspan)), Option.getD_some,
      Option.toList_some, List.flatMap_singleton, rowsOf, filterMap_getElem?_range',
      Array.toList_extract, List.extract_eq_take_drop, Span.stop, Nat.add_sub_cancel_left]

/-- The behaviors of all cells, state by state, are the table. -/
theorem SpansFit.flatMap_behaviors? (hfit : c.SpansFit) :
    (c.stateIds.flatMap fun s => c.eventIds.flatMap fun e => (c.program.behaviors? s e).getD []) =
      c.program.behaviors.toList := by
  have hcells : (c.stateIds.flatMap fun s => c.eventIds.flatMap fun e =>
      (c.program.behaviors? s e).getD []) =
        (c.stateIds.flatMap fun s => c.eventIds.map fun e =>
          c.program.spans[c.program.cell s e]?).flatMap fun span =>
            span.toList.flatMap c.rowsOf := by
    simp only [hfit.getD_behaviors?, List.flatMap_assoc, List.flatMap_map]
  have hall : (c.program.spans.toList.flatMap c.rowsOf) =
      (c.program.spans.toList.flatMap fun span =>
        List.range' span.start.toNat span.size.toNat).filterMap
          (c.program.behaviors.toList[·]?) := by
    rw [List.filterMap_flatMap]
    rfl
  rw [hcells, hfit.spans_by_cell, List.flatMap_map]
  simp only [Option.toList_some, List.flatMap_singleton]
  rw [hall, hfit.tiles_spans.flatMap_range'.2, filterMap_getElem?_range']
  simp

end Chart

/-! ## The plans of a diagram -/

/-- A diagram of a plan shows what the plan does. -/
structure PlanDiagram.Shows (shown : PlanDiagram) (plan : Plan V) : Prop where
  exitTo : shown.exitTo = plan.exitTo
  hasAction : shown.hasAction = plan.action.isSome
  enter : shown.enter = plan.enter
  next : shown.next = plan.next

def PseudoDiagram.plans (shown : PseudoDiagram) : List PlanDiagram :=
  shown.branches.map (·.2) ++ [shown.fallback]

def BehaviorDiagram.plan? : BehaviorDiagram → Option PlanDiagram
  | .transition _ _ plan => some plan
  | .internal _ _ _ => none

/-- All plans that a diagram shows, those of pseudostates first. -/
def Diagram.plans (d : Diagram) : List PlanDiagram :=
  d.pseudostates.flatMap (·.plans) ++ d.states.flatMap fun s => s.behaviors.filterMap (·.plan?)

/-- A diagram of a behavior on `e` shows what its row holds. -/
def BehaviorDiagram.Shows (e : EventId) (row : BehaviorRow V) : BehaviorDiagram → Prop
  | .transition e' guarded plan =>
    e' = e ∧ guarded = row.guard.isSome ∧ row.effect = .transition plan.id
  | .internal e' guarded hasAction =>
    e' = e ∧ guarded = row.guard.isSome ∧
      ∃ action consume, row.effect = .internal action consume ∧ hasAction = action.isSome

/-- If everything is mapped to something, nothing is left out. -/
theorem forall₂_filterMap {α β : Type} {R : α → β → Prop} {f : α → Option β} {xs : List α}
    (h : ∀ x ∈ xs, ∃ y, f x = some y ∧ R x y) : List.Forall₂ R xs (xs.filterMap f) := by
  induction xs with
  | nil => exact .nil
  | cons x xs ih =>
    obtain ⟨y, hy, hxy⟩ := h x List.mem_cons_self
    rw [List.filterMap_cons, hy]
    exact .cons hxy (ih fun x hx => h x (List.mem_cons_of_mem _ hx))

namespace Program

variable {p : Program V} {q : PlanId}

theorem exists_planDiagram (hq : q < p.plans.size) :
    ∃ shown, p.planDiagram? q = some shown ∧ shown.id = q := by
  rw [planDiagram?, Array.getElem?_eq_getElem hq]
  exact ⟨_, rfl, rfl⟩

theorem shows_of_planDiagram? {shown : PlanDiagram} (h : p.planDiagram? q = some shown) :
    shown.id = q ∧ ∃ plan, p.plans[q]? = some plan ∧ shown.Shows plan := by
  obtain ⟨plan, hplan, rfl⟩ := Option.map_eq_some_iff.1 h
  exact ⟨rfl, plan, hplan, rfl, rfl, rfl, rfl⟩

/-- A pseudostate is shown with its plans. -/
theorem exists_pseudoDiagram {row : PseudoRow V} (hrow : ∀ q ∈ row.planIds, q < p.plans.size)
    (r : PseudoId) :
    ∃ shown, p.pseudoDiagram? r row = some shown ∧
      shown.plans = row.planIds.filterMap p.planDiagram? ∧
      shown.branches.map (·.2.id) = row.branches.map (·.plan) ∧
      shown.fallback.id = row.fallback := by
  obtain ⟨fallback, hfallback, hid⟩ :=
    exists_planDiagram (hrow row.fallback (by simp [PseudoRow.planIds]))
  refine ⟨_, by rw [pseudoDiagram?, hfallback, Option.map_some], ?_, ?_, hid⟩
  · rw [PseudoDiagram.plans, PseudoRow.planIds, List.filterMap_append, List.filterMap_map,
      List.map_filterMap]
    simp [hfallback, Function.comp_def]
  · have hshown : List.Forall₂ (fun (b : BranchRow V) (shown : GuardDiagram × PlanDiagram) =>
        b.plan = shown.2.id) row.branches (row.branches.filterMap fun b =>
          (p.planDiagram? b.plan).map fun plan => (b.guard.diagram, plan)) := by
      apply forall₂_filterMap
      intro b hb
      obtain ⟨shown, hshown, hid⟩ := exists_planDiagram (hrow b.plan
        (List.mem_append_left _ (List.mem_map_of_mem hb)))
      exact ⟨_, by rw [hshown, Option.map_some], hid.symm⟩
    symm
    rwa [← List.forall₂_eq_eq_eq, List.forall₂_map_left_iff, List.forall₂_map_right_iff]

/-- A behavior is shown with its plan. -/
theorem exists_behaviorDiagram {row : BehaviorRow V}
    (hrow : ∀ q, row.effect = .transition q → q < p.plans.size) (e : EventId) :
    ∃ shown, p.behaviorDiagram? e row = some shown ∧ shown.Shows e row := by
  unfold behaviorDiagram?
  cases heffect : row.effect with
  | internal action consume => exact ⟨_, rfl, rfl, rfl, action, consume, heffect, rfl⟩
  | transition q =>
    obtain ⟨shown, hshown, rfl⟩ := exists_planDiagram (hrow q heffect)
    simp only [hshown]
    exact ⟨_, rfl, rfl, rfl, heffect⟩

theorem bind_plan?_behaviorDiagram? (e : EventId) (row : BehaviorRow V) :
    (p.behaviorDiagram? e row).bind (·.plan?) = row.transition?.bind p.planDiagram? := by
  unfold behaviorDiagram? BehaviorRow.transition?
  cases row.effect with
  | internal action consume => rfl
  | transition q =>
    rw [Option.bind_some, Option.bind_map]
    exact Option.bind_fun_some _

end Program

namespace Chart

/-- Pseudostates are shown one after the other, each with its plans. -/
theorem forall₂_pseudostates (c : Chart V) (hin : c.program.InRange) :
    List.Forall₂ (fun row shown => shown.plans = row.planIds.filterMap c.program.planDiagram? ∧
        shown.branches.map (·.2.id) = row.branches.map (·.plan) ∧
        shown.fallback.id = row.fallback)
      c.program.pseudostates.toList c.program.diagram.pseudostates := by
  rw [← List.zipIdx_map_fst 0 c.program.pseudostates.toList, List.forall₂_map_left_iff]
  apply forall₂_filterMap
  intro x hx
  have hmem : x.1 ∈ c.program.pseudostates := by
    rw [← Array.mem_toList_iff, ← List.zipIdx_map_fst 0 c.program.pseudostates.toList]
    exact List.mem_map_of_mem hx
  exact Program.exists_pseudoDiagram (hin.branches x.1 hmem) x.2

theorem flatMap_plans_pseudostates (c : Chart V) (hin : c.program.InRange) :
    c.program.diagram.pseudostates.flatMap (·.plans) =
      (c.program.pseudostates.toList.flatMap (·.planIds)).filterMap c.program.planDiagram? := by
  rw [List.filterMap_flatMap]
  have hall := forall₂_pseudostates c hin
  generalize c.program.pseudostates.toList = rows, c.program.diagram.pseudostates = shown at hall ⊢
  induction hall with
  | nil => rfl
  | cons hshown _ ih => rw [List.flatMap_cons, List.flatMap_cons, hshown.1, ih]

theorem SpansFit.flatMap_plan?_states {c : Chart V} (hfit : c.SpansFit) :
    (c.program.diagram.states.flatMap fun s => s.behaviors.filterMap (·.plan?)) =
      c.program.transitionPlans.filterMap c.program.planDiagram? := by
  have hrows : ∀ s, ((c.program.eventIds.flatMap fun e =>
      ((c.program.behaviors? s e).getD []).filterMap (c.program.behaviorDiagram? e)).filterMap
        (·.plan?)) = (c.eventIds.flatMap fun e => (c.program.behaviors? s e).getD []).filterMap
          fun row => row.transition?.bind c.program.planDiagram? := by
    intro s
    simp only [List.filterMap_flatMap, List.filterMap_filterMap,
      Program.bind_plan?_behaviorDiagram?]
    rfl
  have hids : c.program.states.toList.zipIdx.map Prod.snd = c.stateIds := by
    rw [List.zipIdx_map_snd, Array.length_toList, size_states_program, stateIds,
      List.range_eq_range']
  calc (c.program.diagram.states.flatMap fun s => s.behaviors.filterMap (·.plan?))
      = (c.program.states.toList.zipIdx.map Prod.snd).flatMap fun s =>
          (c.eventIds.flatMap fun e => (c.program.behaviors? s e).getD []).filterMap
            fun row => row.transition?.bind c.program.planDiagram? := by
        rw [Program.diagram, List.flatMap_map, List.flatMap_map]
        exact List.flatMap_congr fun x _ => hrows x.2
    _ = c.program.transitionPlans.filterMap c.program.planDiagram? := by
        rw [hids, ← List.filterMap_flatMap, hfit.flatMap_behaviors?, Program.transitionPlans,
          List.filterMap_filterMap]

/-- A diagram shows the plans of the program in their order. -/
theorem SpansFit.plans_diagram {c : Chart V} (hfit : c.SpansFit) (hin : c.program.InRange) :
    c.program.diagram.plans =
      (List.range c.program.plans.size).filterMap c.program.planDiagram? := by
  rw [Diagram.plans, flatMap_plans_pseudostates c hin, hfit.flatMap_plan?_states,
    ← List.filterMap_append, ← planRefs_eq_range, Program.planRefs]

theorem SpansFit.map_id_plans_diagram {c : Chart V} (hfit : c.SpansFit)
    (hin : c.program.InRange) :
    c.program.diagram.plans.map (·.id) = List.range c.program.plans.size := by
  have hid : ∀ q ∈ List.range c.program.plans.size,
      (c.program.planDiagram? q).map (·.id) = some q := by
    intro q hq
    obtain ⟨shown, hshown, rfl⟩ := Program.exists_planDiagram (List.mem_range.1 hq)
    rw [hshown, Option.map_some]
  rw [hfit.plans_diagram hin, List.map_filterMap, List.filterMap_congr hid, List.filterMap_some]

/-! ## States and histories -/

/-- How a diagram shows a state: the events it has behaviors on, and its behaviors event by event,
each event's in the order in which they are tried. -/
structure Depicts (c : Chart V) (p : Program V) (s : StateId) (shown : StateDiagram) : Prop where
  id : shown.id = s
  handles : shown.handles = c.eventIds.filter fun e => !(c.declaredOn s (.event e)).isEmpty
  behaviors : ∃ parts, shown.behaviors = parts.flatten ∧
    List.Forall₂ (fun e part => ∃ rows, p.behaviors? s e = some rows ∧
        List.Forall₂ p.Carries (c.behaviorsOn s (.event e)) rows ∧
        List.Forall₂ (BehaviorDiagram.Shows e) rows part)
      c.eventIds parts

end Chart

theorem Program.handles?_of_behaviors? {p : Program V} {s : StateId} {e : EventId}
    {rows : List (BehaviorRow V)} (h : p.behaviors? s e = some rows) :
    p.handles? s e = some !rows.isEmpty := by
  obtain ⟨span, hspan, hrows⟩ := Option.bind_eq_some_iff.1 h
  split at hrows
  · next hle =>
    have hlength : rows.length = span.size.toNat := by
      rw [← Option.some.inj hrows, Array.length_toList, Array.size_extract, Nat.min_eq_left hle,
        Span.stop, Nat.add_sub_cancel_left]
    have hempty : 0 < span.size ↔ 0 < rows.length := by
      rw [UInt32.lt_iff_toNat_lt, hlength, UInt32.toNat_zero]
    rw [handles?, hspan, Option.map_some]
    simp only [hempty]
    cases rows <;> simp
  · cases hrows

namespace Chart

variable {c : Chart V} {p : Program V}

theorem exists_depicts (hin : p.InRange) (h : c.compile = .ok p) {s : StateId}
    (hs : s < c.states.size) :
    ∃ shown, p.diagram.states[s]? = some shown ∧ c.Depicts p s shown := by
  have hcells : ∀ e ∈ c.eventIds, ∃ rows, p.behaviors? s e = some rows ∧
      List.Forall₂ p.Carries (c.behaviorsOn s (.event e)) rows := fun e he =>
    exists_carries h hs (List.mem_range.1 he)
  have hsize : s < p.states.size := by
    obtain ⟨-, -, rfl⟩ := compile_eq_ok_iff.1 h
    simpa using hs
  have hevents : p.eventIds = c.eventIds := by
    obtain ⟨-, -, rfl⟩ := compile_eq_ok_iff.1 h
    rfl
  refine ⟨p.stateDiagram s p.states[s], by simp [Program.diagram, hsize], rfl, ?_, ?_⟩
  · change p.eventIds.filter _ = _
    rw [hevents]
    apply List.filter_congr
    intro e he
    obtain ⟨rows, hrows, hall⟩ := hcells e he
    have hdeclared : (c.behaviorsOn s (.event e)).Perm (c.declaredOn s (.event e)) :=
      ((c.isStableOrder_behaviorsOn s (.event e) _).2 rfl).perm
    have hlength : rows.length = (c.declaredOn s (.event e)).length := by
      rw [← hall.length_eq, hdeclared.length_eq]
    have hempty : rows.isEmpty = (c.declaredOn s (.event e)).isEmpty := by
      rw [Bool.eq_iff_iff, List.isEmpty_iff_length_eq_zero, List.isEmpty_iff_length_eq_zero,
        hlength]
    rw [Program.handles?_of_behaviors? hrows, hempty]
    cases (c.declaredOn s (.event e)).isEmpty <;> rfl
  · refine ⟨c.eventIds.map fun e =>
      ((p.behaviors? s e).getD []).filterMap (p.behaviorDiagram? e), ?_, ?_⟩
    · rw [← hevents, ← List.flatMap_def]
      rfl
    · rw [List.forall₂_map_right_iff, List.forall₂_same]
      intro e he
      obtain ⟨rows, hrows, hall⟩ := hcells e he
      refine ⟨rows, hrows, hall, ?_⟩
      rw [hrows, Option.getD_some]
      apply forall₂_filterMap
      intro row hrow
      have hmem := Program.mem_behaviors hrows hrow
      exact Program.exists_behaviorDiagram (hin.transitions row hmem) e

/-- A diagram shows the states that a history tracks, each with its value. -/
theorem Linked.exists_historyDiagram (hc : c.Linked) {h : HistoryId} {slot : HistorySlot}
    (hslot : c.historySlots[h]? = some slot) :
    ∃ shown, c.program.diagram.histories[h]? = some shown ∧
      shown.id = h ∧ shown.pseudo = slot.pseudo ∧ shown.container = slot.container ∧
      shown.depth = slot.depth ∧ (shown.tracked.map Prod.snd).Nodup ∧
      ∀ v s, (v, s) ∈ shown.tracked ↔
        c.Tracks slot.container slot.depth s ∧ c.program.remembered h v = some s := by
  have hslot? := mem_historySlots.1 (Array.mem_of_getElem? hslot)
  have hhistories : c.program.histories[h]? = some slot := hslot
  refine ⟨_, by simp [Program.diagram, List.getElem?_zipIdx, hhistories]; rfl, rfl, rfl, rfl, rfl,
    HistorySlot.nodup_tracked (hc.nodup_values hslot?), fun v s => ?_⟩
  rw [HistorySlot.mem_tracked_iff, remembered_eq_some_iff hslot]
  exact ⟨fun hv => ⟨((hc.values_eq_iff hslot?).1 hv).1, hv⟩, And.right⟩

/-- Every plan has one owner, and a diagram shows it once, there, as it is. The behaviors of a state
are shown event by event in the order in which they are tried, and the histories with the states
that they track. -/
theorem plans_have_one_owner (hc : c.Drafted) (h : c.compile = .ok p) :
    (∀ q, (p.branchPlans ++ p.fallbackPlans ++ p.transitionPlans).count q =
      if q < p.plans.size then 1 else 0) ∧
    (∀ q, (p.diagram.plans.map (·.id)).count q = if q < p.plans.size then 1 else 0) ∧
    (∀ shown ∈ p.diagram.plans, ∃ plan, p.plans[shown.id]? = some plan ∧ shown.Shows plan) ∧
    List.Forall₂ (fun row shown => shown.branches.map (·.2.id) = row.branches.map (·.plan) ∧
      shown.fallback.id = row.fallback) p.pseudostates.toList p.diagram.pseudostates ∧
    (p.diagram.states.length = c.states.size ∧ ∀ s < c.states.size,
      ∃ shown, p.diagram.states[s]? = some shown ∧ c.Depicts p s shown) ∧
    (p.diagram.histories.length = p.histories.size ∧ ∀ h slot, p.histories[h]? = some slot →
      ∃ shown, p.diagram.histories[h]? = some shown ∧ shown.id = h ∧
        shown.pseudo = slot.pseudo ∧ shown.container = slot.container ∧
        shown.depth = slot.depth ∧ (shown.tracked.map Prod.snd).Nodup ∧
        ∀ v s, (v, s) ∈ shown.tracked ↔
          c.Tracks slot.container slot.depth s ∧ p.remembered h v = some s) := by
  have hin := hc.linked.inRange_of_compile h
  have hfit := spansFit_of_compile h
  have hstates := fun s (hs : s < c.states.size) => exists_depicts hin h hs
  obtain ⟨-, -, rfl⟩ := compile_eq_ok_iff.1 h
  have hcount : ∀ q, (List.range c.ordered.program.plans.size).count q =
      if q < c.ordered.program.plans.size then 1 else 0 := by
    intro q
    rw [List.nodup_range.count]
    simp only [List.mem_range]
  refine ⟨fun q => ?_, fun q => ?_, fun shown hshown => ?_,
    (forall₂_pseudostates c.ordered hin).imp fun _ _ hshown => hshown.2,
    ⟨by simp [Program.diagram], hstates⟩, ⟨by simp [Program.diagram], fun i slot hslot => ?_⟩⟩
  · rw [(Program.perm_planRefs _).count_eq, planRefs_eq_range, hcount]
  · rw [hfit.map_id_plans_diagram hin, hcount]
  · rw [hfit.plans_diagram hin] at hshown
    obtain ⟨q, -, hq⟩ := List.mem_filterMap.1 hshown
    obtain ⟨rfl, plan, hplan, hshows⟩ := Program.shows_of_planDiagram? hq
    exact ⟨plan, hplan, hshows⟩
  · simpa using hc.linked.ordered.exists_historyDiagram hslot

theorem relay_planCount : relay.ordered.program.plans.size = 8 := by decide +kernel

theorem relay_slot : (relay.ordered.historySlots[0]?).map (fun slot =>
    (slot.container, slot.depth)) = some (2, .shallow) := by decide +kernel

/-- The last plan is that of a behavior; the history is the one of the nested state. -/
theorem relay_plans_have_one_owner :
    ∃ p shown history, relay.Drafted ∧ relay.compile = .ok p ∧ p.plans.size = 8 ∧
      (p.branchPlans ++ p.fallbackPlans ++ p.transitionPlans).count 7 = 1 ∧
      (p.diagram.plans.map (·.id)).count 7 = 1 ∧ p.diagram.states[1]? = some shown ∧
      relay.Depicts p 1 shown ∧ p.diagram.histories[0]? = some history ∧
      ∀ v s, (v, s) ∈ history.tracked ↔
        relay.Tracks 2 .shallow s ∧ p.remembered 0 v = some s := by
  obtain ⟨p, hp⟩ := exists_ok_of_isOk relay_compile_isOk
  obtain ⟨slot, hslot, hpair⟩ := Option.map_eq_some_iff.1 relay_slot
  obtain ⟨hcontainer, hdepth⟩ := Prod.mk.inj hpair
  obtain ⟨hrefs, hids, -, -, ⟨-, hstates⟩, -, hhistories⟩ := plans_have_one_owner relay_drafted hp
  have hsize : p.plans.size = 8 := by
    obtain ⟨-, -, rfl⟩ := compile_eq_ok_iff.1 hp
    exact relay_planCount
  have hhistory : p.histories[0]? = some slot := by
    obtain ⟨-, -, rfl⟩ := compile_eq_ok_iff.1 hp
    exact hslot
  obtain ⟨shown, hshown, hdepicts⟩ := hstates 1 (by decide +kernel)
  obtain ⟨history, hfound, -, -, -, -, -, htracked⟩ := hhistories 0 slot hhistory
  rw [hcontainer, hdepth] at htracked
  exact ⟨p, shown, history, relay_drafted, hp, hsize, (hrefs 7).trans (if_pos (by lia)),
    (hids 7).trans (if_pos (by lia)), hshown, hdepicts, hfound, htracked⟩

end Chart

end Statechart
