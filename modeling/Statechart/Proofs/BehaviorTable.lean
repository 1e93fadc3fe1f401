import Statechart.Proofs.InRange
import Statechart.Proofs.PriorityOrder
import Statechart.Proofs.Refinement

/-
  The behavior table holds what was declared. Declared behaviors have one stable order by priority
  (`StablyOrdered.unique`), which sorting a whole state and then keeping one trigger gives as well
  (`StablyOrdered.filter`). Each cell holds its behaviors in this order, one row for each, and the
  spans of the cells lie end to end over the table (`tiles_spans`), so every row belongs to exactly
  one cell (`Tiles.existsUnique`).
-/

namespace Statechart

variable {V : Type}

/-! ## The only stable order -/

/-- Of two priorities one comes before the other unless they are the same. -/
theorem Priority.eq_of_not_before {a b : Priority} (hab : ¬ a.Before b) (hba : ¬ b.Before a) :
    a = b := by
  cases a with
  | explicit as =>
    cases b with
    | explicit bs => exact congrArg explicit (le_antisymm (not_lt.1 hba) (not_lt.1 hab))
    | _ => exact absurd trivial hab
  | unordered =>
    cases b with
    | unordered => rfl
    | explicit _ => exact absurd trivial hba
    | otherwise => exact absurd trivial hab
  | otherwise =>
    cases b with
    | otherwise => rfl
    | _ => exact absurd trivial hba

section Order

variable {α : Type} {priority : α → Priority} {declared sorted xs ys : List α}

/-- Lists in order that agree on what has the same priority are equal. -/
theorem eq_of_ordered (hxs : xs.Pairwise fun a b => ¬ (priority b).Before (priority a))
    (hys : ys.Pairwise fun a b => ¬ (priority b).Before (priority a))
    (h : ∀ k, xs.filter (priority · = k) = ys.filter (priority · = k)) : xs = ys := by
  have hmem : ∀ {xs ys : List α}, (∀ k, xs.filter (priority · = k) = ys.filter (priority · = k)) →
      ∀ x ∈ xs, x ∈ ys := by
    intro xs ys h x hx
    have hself : x ∈ xs.filter (priority · = priority x) := List.mem_filter.2 ⟨hx, by simp⟩
    rw [h] at hself
    exact (List.mem_filter.1 hself).1
  induction xs generalizing ys with
  | nil => exact (List.eq_nil_iff_forall_not_mem.2 fun y hy =>
      List.not_mem_nil (hmem (fun k => (h k).symm) y hy)).symm
  | cons x xs ih =>
    cases ys with
    | nil => exact absurd (hmem h x List.mem_cons_self) List.not_mem_nil
    | cons y ys =>
      obtain ⟨hx, hxtail⟩ := List.pairwise_cons.1 hxs
      obtain ⟨hy, hytail⟩ := List.pairwise_cons.1 hys
      -- The heads have the same priority, since each stands somewhere in the other list.
      have hpriority : priority x = priority y := by
        rcases List.mem_cons.1 (hmem h x List.mem_cons_self) with rfl | hxy
        · rfl
        · rcases List.mem_cons.1 (hmem (fun k => (h k).symm) y List.mem_cons_self) with rfl | hyx
          · rfl
          · exact Priority.eq_of_not_before (hy x hxy) (hx y hyx)
      have hhead := h (priority x)
      rw [List.filter_cons_of_pos (by simp), List.filter_cons_of_pos (by simp [hpriority])] at hhead
      obtain ⟨rfl, -⟩ := List.cons.inj hhead
      congr 1
      apply ih hxtail hytail
      intro k
      have hk := h k
      by_cases hxk : priority x = k
      · rw [List.filter_cons_of_pos (by simpa using hxk),
          List.filter_cons_of_pos (by simpa using hxk)] at hk
        exact (List.cons.inj hk).2
      · rwa [List.filter_cons_of_neg (by simpa using hxk),
          List.filter_cons_of_neg (by simpa using hxk)] at hk

theorem StablyOrdered.unique (hxs : StablyOrdered priority declared xs)
    (hys : StablyOrdered priority declared ys) : xs = ys :=
  eq_of_ordered hxs.ordered hys.ordered fun k => (hxs.stable k).trans (hys.stable k).symm

/-- Keeping some of what was declared keeps the order stable. -/
theorem StablyOrdered.filter (h : StablyOrdered priority declared sorted) (keep : α → Bool) :
    StablyOrdered priority (declared.filter keep) (sorted.filter keep) where
  perm := h.perm.filter keep
  ordered := h.ordered.filter keep
  stable k := by rw [List.filter_comm, h.stable, List.filter_comm]

/-- `sorted` is the one stable order of what was declared. -/
def IsStableOrder (priority : α → Priority) (declared sorted : List α) : Prop :=
  ∀ xs, StablyOrdered priority declared xs ↔ xs = sorted

theorem StablyOrdered.isStableOrder (h : StablyOrdered priority declared sorted) :
    IsStableOrder priority declared sorted := by
  intro xs
  constructor
  · intro hxs
    exact hxs.unique h
  · intro hxs
    rw [hxs]
    exact h

end Order

/-! ## Spans end to end -/

/-- The rows of a span. -/
def Span.Has (span : Span) (i : Nat) : Prop := span.start.toNat ≤ i ∧ i < span.stop

/-- The spans lie end to end, from `start` to `stop`. -/
def Tiles : Nat → Nat → List Span → Prop
  | start, stop, [] => start = stop
  | start, stop, span :: spans => span.start.toNat = start ∧ Tiles span.stop stop spans

section Tiles

variable {start stop r i : Nat} {span : Span} {spans : List Span}

theorem Tiles.start_le (h : Tiles start stop spans) (hspan : spans[r]? = some span) :
    start ≤ span.start.toNat := by
  induction spans generalizing start r with
  | nil => simp at hspan
  | cons first spans ih =>
    obtain ⟨hfirst, hrest⟩ := h
    cases r with
    | zero =>
      obtain rfl : first = span := by simpa using hspan
      exact Nat.le_of_eq hfirst.symm
    | succ r =>
      have hstop : start ≤ first.stop := hfirst ▸ Nat.le_add_right _ _
      exact Nat.le_trans hstop (ih hrest (by simpa using hspan))

/-- Each row on the way is in exactly one of the spans. -/
theorem Tiles.existsUnique (h : Tiles start stop spans) (hi : start ≤ i) (hstop : i < stop) :
    ∃! r : Nat, ∃ span : Span, spans[r]? = some span ∧ span.Has i := by
  induction spans generalizing start with
  | nil =>
    obtain rfl : start = stop := h
    omega
  | cons first spans ih =>
    obtain ⟨hfirst, hrest⟩ := h
    -- Either the first span has the row, and the others start after it, or one of the others does.
    by_cases hlt : i < first.stop
    · refine ⟨0, ⟨first, rfl, by rw [hfirst]; exact hi, hlt⟩, ?_⟩
      intro r ⟨span, hspan, hle, _⟩
      cases r with
      | zero => rfl
      | succ r =>
        have := hrest.start_le (r := r) (by simpa using hspan)
        omega
    · obtain ⟨r, ⟨span, hspan, hhas⟩, hunique⟩ := ih hrest (Nat.le_of_not_lt hlt)
      refine ⟨r + 1, ⟨span, by simpa using hspan, hhas⟩, ?_⟩
      intro r' ⟨span', hspan', hhas'⟩
      cases r' with
      | zero =>
        obtain rfl : first = span' := by simpa using hspan'
        have := hhas'.2
        omega
      | succ r' => rw [hunique r' ⟨span', by simpa using hspan', hhas'⟩]

/-- The spans of parts that are put one after the other. -/
theorem tiles_placementsFrom {parts : List (List (StateId × Behavior V))} {first : PlanId}
    (h : List.Forall₂ (fun place span => place.span = .ok span) (placementsFrom start first parts)
      spans) : Tiles start (start + parts.flatten.length) spans := by
  induction parts generalizing start first spans with
  | nil =>
    cases h
    rfl
  | cons part parts ih =>
    cases h with
    | cons hspan hrest =>
      obtain ⟨hstart, hsize⟩ := Span.of_eq_ok_iff.1 hspan
      refine ⟨hstart, ?_⟩
      rw [Span.stop, hstart, hsize, List.flatten_cons, List.length_append, ← Nat.add_assoc]
      exact ih hrest

end Tiles

/-! ## The table of a program -/

/-- The row says what the behavior was declared with. -/
def Program.Carries (p : Program V) (b : Behavior V) (row : BehaviorRow V) : Prop :=
  row.guard = b.guard ∧
    match b.target with
    | some _ => ∃ q plan, row.effect = .transition q ∧ p.plans[q]? = some plan ∧
        plan.action = b.action
    | none => row.effect = .internal b.action b.consume

namespace Program

variable {p : Program V} {b : Behavior V} {row : BehaviorRow V}

theorem Carries.of_internal {action : Option (Action V)} {consume : Consume V}
    (h : p.Carries b row) (heffect : row.effect = .internal action consume) :
    b.target = none ∧ action = b.action ∧ consume = b.consume := by
  obtain ⟨-, h⟩ := h
  cases htarget : b.target with
  | none =>
    rw [htarget] at h
    obtain ⟨haction, hconsume⟩ := Effect.internal.inj (heffect.symm.trans h)
    exact ⟨rfl, haction, hconsume⟩
  | some target =>
    rw [htarget] at h
    obtain ⟨q, plan, hq, -⟩ := h
    cases heffect.symm.trans hq

theorem Carries.of_transition {q : PlanId} (h : p.Carries b row)
    (heffect : row.effect = .transition q) :
    b.target.isSome ∧ ∃ plan, p.plans[q]? = some plan ∧ plan.action = b.action := by
  obtain ⟨-, h⟩ := h
  cases htarget : b.target with
  | none =>
    rw [htarget] at h
    cases heffect.symm.trans h
  | some target =>
    rw [htarget] at h
    obtain ⟨q', plan, hq, hplan, haction⟩ := h
    obtain rfl := Effect.transition.inj (heffect.symm.trans hq)
    exact ⟨rfl, plan, hplan, haction⟩

end Program

namespace Chart

variable {c : Chart V}

/-- Behaviors are tried in the one stable order. -/
theorem isStableOrder_behaviorsOn (c : Chart V) (s : StateId) (trigger : Trigger) :
    IsStableOrder (·.priority) (c.declaredOn s trigger) (c.behaviorsOn s trigger) := by
  apply StablyOrdered.isStableOrder
  unfold declaredOn behaviorsOn
  cases c.states[s]? with
  | none => exact ⟨.nil, .nil, fun _ => rfl⟩
  | some node => exact (stablyOrdered_byPriority _ _).filter _

theorem carries_of_compiledTo {b : Behavior V} {s : StateId} {row : BehaviorRow V}
    (h : b.CompiledTo c c.program.plans s row) : c.program.Carries b row := by
  obtain ⟨hguard, heffect⟩ := h
  refine ⟨hguard, ?_⟩
  cases htarget : b.target with
  | none => rwa [htarget] at heffect
  | some target =>
    rw [htarget] at heffect
    obtain ⟨q, hq, hplan⟩ := heffect
    exact ⟨q, _, hq, hplan, c.action_plan_move _ _ _⟩

theorem SpansFit.tiles_spans (hfit : c.SpansFit) :
    Tiles 0 c.program.behaviors.size c.program.spans.toList := by
  have htiles := tiles_placementsFrom hfit.forall₂_spans
  rwa [Nat.zero_add, (forall₂_behaviors c).length_eq, Array.length_toList] at htiles

/-- A cell holds the behaviors of its state on its event, one row for each. -/
theorem exists_carries {p : Program V} {s : StateId} {e : EventId} (h : c.compile = .ok p)
    (hs : s < c.states.size) (he : e < c.events.size) :
    ∃ rows, p.behaviors? s e = some rows ∧
      List.Forall₂ p.Carries (c.behaviorsOn s (.event e)) rows := by
  have hfit := spansFit_of_compile h
  obtain ⟨-, -, rfl⟩ := compile_eq_ok_iff.1 h
  have hnode := Array.getElem?_eq_getElem hs
  obtain ⟨rows, hrows, hall⟩ := exists_behaviors hfit (c.getElem?_states_ordered_eq_some hnode) he
  rw [behaviorsOn_eq hnode]
  exact ⟨rows, hrows, hall.imp fun _ _ => carries_of_compiledTo⟩

/-- Cells are numbered state by state. -/
theorem flatMap_range_cells {α : Type} (f : Nat → α) (m n : Nat) :
    ((List.range m).flatMap fun s => (List.range n).map fun e => f (s * n + e)) =
      (List.range (m * n)).map f := by
  induction m with
  | zero => simp
  | succ m ih =>
    rw [List.range_succ, List.flatMap_append, ih, Nat.succ_mul, List.range_add, List.map_append]
    simp

theorem SpansFit.spans_by_cell (hfit : c.SpansFit) :
    (c.stateIds.flatMap fun s => c.eventIds.map fun e => c.program.spans[c.program.cell s e]?) =
      c.program.spans.toList.map some := by
  have hcells := flatMap_range_cells (c.program.spans[·]?) c.states.size c.events.size
  rw [← hfit.size_cells.1] at hcells
  refine hcells.trans (List.ext_getElem (by simp) fun r h₁ h₂ => ?_)
  have hr : r < c.program.spans.size := by simpa using h₁
  simp [hr]

variable {p : Program V}

/-- The tables hold the behaviors that were declared, each once, in their only stable order by
priority. Those of all cells, state by state, make up the behavior table without a gap. -/
theorem tables_hold_declared_behaviors (h : c.compile = .ok p) :
    (∀ s < c.states.size, ∀ e < c.events.size, ∃ sorted rows,
      IsStableOrder (·.priority) (c.declaredOn s (.event e)) sorted ∧
      p.behaviors? s e = some rows ∧ List.Forall₂ p.Carries sorted rows) ∧
    (∀ s < c.states.size, s < p.states.size ∧ ∀ b, ∃ sorted,
      IsStableOrder (·.priority) (c.declaredOn s (.boundary b)) sorted ∧
      p.boundaryOf s b = sorted.map fun rule => ⟨rule.guard, rule.action⟩) ∧
    (c.stateIds.flatMap fun s => c.eventIds.map fun e => p.spans[p.cell s e]?) =
      p.spans.toList.map some ∧
    Tiles 0 p.behaviors.size p.spans.toList ∧
    ∀ i < p.behaviors.size, ∃! r : Nat, ∃ span, p.spans[r]? = some span ∧ span.Has i := by
  have hcarries : ∀ s < c.states.size, ∀ e < c.events.size, _ :=
    fun s hs e he => exists_carries h hs he
  have hfit := spansFit_of_compile h
  obtain ⟨-, -, rfl⟩ := compile_eq_ok_iff.1 h
  have htiles := hfit.tiles_spans
  refine ⟨fun s hs e he => ?_, fun s hs => ⟨by simpa using hs, fun b => ?_⟩, ?_, htiles,
    fun i hi => ?_⟩
  · obtain ⟨rows, hrows, hall⟩ := hcarries s hs e he
    exact ⟨_, rows, c.isStableOrder_behaviorsOn s (.event e), hrows, hall⟩
  · exact ⟨_, c.isStableOrder_behaviorsOn s (.boundary b), c.boundaryOf_eq s b⟩
  · have hcells := hfit.spans_by_cell
    rwa [stateIds_ordered] at hcells
  · simpa only [Array.getElem?_toList] using htiles.existsUnique (Nat.zero_le i) hi

def deskCalls : List (Draft.Call Nat) :=
  [.event "ring", .event "knock", .state "Open" rootState, .state "Shut" rootState,
    .pseudostate rootState .initial none, .branch 0 [.to (.state 1)],
    .on 1 1 [.otherwise, .to (.state 2)], .on 1 2 [.action ⟨(· + 1), fun _ => []⟩],
    .on 1 1 [.action ⟨(· + 2), fun _ => []⟩],
    .behavior 1 (.boundary .exit) [.action ⟨(· + 3), fun _ => []⟩],
    .on 1 1 [.order "2.1", .when ⟨(· == 4), fun _ => []⟩, .to (.state 2)],
    .on 2 2 [.to (.state 1)], .on 1 1 [.order "2", .action ⟨(· + 5), fun _ => []⟩],
    .on 1 1 [.action ⟨(· + 6), fun _ => []⟩],
    .behavior 1 (.boundary .exit) [.order "1", .action ⟨(· + 7), fun _ => []⟩]]

/-- A chart with behaviors of one state in mixed order and on several triggers. -/
def desk : Chart Nat := (Draft.ofCalls "desk" deskCalls).chart

theorem desk_compile_isOk : desk.compile.isOk := by decide +kernel

theorem desk_ringing : (desk.states[1]?).map (fun node =>
    (node.ordered.onEvent 1).map fun b => (b.priority, b.target, b.action.map (·.run 0))) =
      some [(.explicit [2], none, some 5), (.explicit [2, 1], some (.state 2), none),
        (.unordered, none, some 2), (.unordered, none, some 6),
        (.otherwise, some (.state 2), none)] := by decide +kernel

/-- The longer order comes after the one that begins it, and those without an order stay as they
were declared. -/
theorem desk_tables_hold_declared_behaviors :
    ∃ p sorted rows, desk.compile = .ok p ∧ 1 < desk.states.size ∧ 1 < desk.events.size ∧
      IsStableOrder (·.priority) (desk.declaredOn 1 (.event 1)) sorted ∧
      sorted.map (fun b => (b.priority, b.target, b.action.map (·.run 0))) =
        [(.explicit [2], none, some 5), (.explicit [2, 1], some (.state 2), none),
          (.unordered, none, some 2), (.unordered, none, some 6),
          (.otherwise, some (.state 2), none)] ∧
      p.behaviors? 1 1 = some rows ∧ List.Forall₂ p.Carries sorted rows ∧
      Tiles 0 p.behaviors.size p.spans.toList := by
  obtain ⟨p, hp⟩ := exists_ok_of_isOk desk_compile_isOk
  have hs : 1 < desk.states.size := by decide +kernel
  have he : 1 < desk.events.size := by decide +kernel
  obtain ⟨hcells, -, -, htiles, -⟩ := tables_hold_declared_behaviors hp
  obtain ⟨sorted, rows, hsorted, hrows, hall⟩ := hcells 1 hs 1 he
  obtain ⟨node, hnode, hringing⟩ := Option.map_eq_some_iff.1 desk_ringing
  have hon : node.ordered.onEvent 1 = sorted :=
    (behaviorsOn_eq hnode (.event 1)).symm.trans
      ((hsorted _).1 ((desk.isStableOrder_behaviorsOn 1 (.event 1) _).2 rfl))
  exact ⟨p, sorted, rows, hp, hs, he, hsorted, hon ▸ hringing, hrows, hall, htiles⟩

end Chart

end Statechart
