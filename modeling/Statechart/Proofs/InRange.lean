import Statechart.Proofs.Settling
import Statechart.Proofs.Strict.Tables

/-
  No number leads out of a table. All references of a program are plain numbers, given out by
  different passes and looked up without a test: plans, states, pseudostates, histories and their
  values, cells. `Program.InRange` says of each kind that what it names is there, and
  `Prepared.inRange` that it does in the tables of a chart. Compiling itself looks up only what is
  there (`Strict.compileDraft_eq`), and so does every machine in every run
  (`compile_inRange`).
-/

namespace Statechart

variable {V : Type}

/-- The pseudostate is there, and a way may lead through it. -/
def Program.Passable (p : Program V) (r : PseudoId) : Prop :=
  ∃ row, p.pseudostates[r]? = some row ∧ row.kind ≠ .historyContinue

theorem Program.Passable.lt {p : Program V} {r : PseudoId} (h : p.Passable r) :
    r < p.pseudostates.size := by
  obtain ⟨row, hrow, -⟩ := h
  exact (Array.getElem?_eq_some_iff.1 hrow).1

/-- The history is there, and it has such a value. -/
def Program.HasValue (p : Program V) (h : HistoryId) (value : Nat) : Prop :=
  ∃ slot, p.histories[h]? = some slot ∧ value < slot.values.size

/-- All that a plan names is there. -/
structure Plan.InRange (plan : Plan V) (p : Program V) : Prop where
  exitTo : ∀ s, plan.exitTo = some s → s < p.states.size
  enter : ∀ s ∈ plan.enter, s < p.states.size
  settle : ∀ s, plan.next = .settle s → s < p.states.size
  pseudo : ∀ r, plan.next = .pseudo r → p.Passable r

/-- All that the tables of a program name is there. -/
structure Program.InRange (p : Program V) : Prop where
  branches : ∀ row ∈ p.pseudostates, ∀ q ∈ row.planIds, q < p.plans.size
  transitions : ∀ b ∈ p.behaviors, ∀ q, b.effect = .transition q → q < p.plans.size
  plans : ∀ plan ∈ p.plans, plan.InRange p
  rootInitial : p.Passable p.rootInitial
  containers : ∀ row ∈ p.pseudostates, row.container < p.states.size
  parents : ∀ row ∈ p.states, ∀ q, row.parent = some q → q < p.states.size
  children : ∀ row ∈ p.states, ∀ s ∈ row.children, s < p.states.size
  initials : ∀ row ∈ p.states, ∀ r, row.initial = some r → p.Passable r
  histories : ∀ row ∈ p.states, ∀ r, row.history = some r → p.Passable r
  slots : ∀ slot ∈ p.histories, p.Passable slot.pseudo ∧ slot.container < p.states.size
  tracked : ∀ slot ∈ p.histories, ∀ v ∈ slot.tracked, v.2 < p.states.size
  writes : ∀ row ∈ p.states, ∀ w ∈ row.writes, p.HasValue w.history w.value
  guards : ∀ row ∈ p.pseudostates, ∀ b ∈ row.branches, ∀ h v, b.guard = .historyIs h v →
    p.HasValue h v
  /-- There is one cell for each state and each event. -/
  cells : p.spans.size = p.states.size * p.events.size ∧
    p.handlerRows.size = p.states.size * p.events.size ∧
    p.nextAncestors.size = p.states.size * p.events.size
  spans : ∀ span ∈ p.spans, span.stop ≤ p.behaviors.size
  handlers : ∀ s, some s ∈ p.handlerRows ∨ some s ∈ p.nextAncestors → s < p.states.size

/-- A plan that names what is there arrives at what is there. -/
theorem Plan.arrival_lt {plan : Plan V} {n : Nat} {active : StateId}
    (hexit : ∀ t, plan.exitTo = some t → t < n) (henter : ∀ s ∈ plan.enter, s < n)
    (hlt : active < n) : plan.arrival active < n := by
  unfold arrival
  rw [List.getLastD_eq_getLast?]
  cases hlast : plan.enter.getLast? with
  | some s => exact henter s (List.mem_of_getLast? hlast)
  | none =>
    cases hturn : plan.exitTo with
    | none => exact hlt
    | some t => exact hexit t hturn

theorem Plan.Fits.inRange {plan : Plan V} {p : Program V} {active : StateId}
    (h : plan.Fits p active) (hlt : active < p.states.size) : plan.InRange p := by
  have hexit : ∀ t, plan.exitTo = some t → t < p.states.size := fun t ht =>
    Nat.lt_of_le_of_lt (Hierarchy.le_of_mem_ancestors (h.turn t ht)) hlt
  have henter := Program.lt_of_descends h.enter
  have harrival := plan.arrival_lt hexit henter hlt
  refine ⟨hexit, henter, fun s hs => ?_, fun r hr => ?_⟩
  · have hnext := h.next
    rw [hs] at hnext
    exact hnext.1 ▸ harrival
  · have hnext := h.next
    rw [hr] at hnext
    obtain ⟨row, hrow, -, hk⟩ := hnext
    exact ⟨row, hrow, hk⟩

namespace Chart

variable {c : Chart V}

/-! ## Plans -/

theorem mem_plans_program {plan : Plan V} :
    plan ∈ c.program.plans ↔
      ∃ request ∈ c.pseudoParts.flatten ++ c.cells.requests, plan = c.plan request := by
  change plan ∈ (c.pseudoParts.flatten.map c.plan ++ c.cells.requests.map c.plan).toArray ↔ _
  rw [List.mem_toArray, ← List.map_append, List.mem_map]
  simp only [eq_comm]

/-- A plan settles on the spot or belongs to a transition that can be carried out. -/
theorem Prepared.of_mem_plans (h : c.Prepared) (hroot : c.RootUntargeted) {plan : Plan V}
    (hplan : plan ∈ c.program.plans) :
    (∃ s < c.states.size, plan = c.plan (.settle s)) ∨
      ∃ source target action, c.Admits source target ∧
        plan = c.plan (.move source target action) := by
  obtain ⟨request, hmem, rfl⟩ := mem_plans_program.1 hplan
  rcases List.mem_append.1 hmem with hmem | hmem
  · obtain ⟨r, node, hr, hmem⟩ := Prepared.mem_pseudoParts.1 hmem
    by_cases hk : node.kind = .historyContinue
    · have hnode : node ∈ c.pseudostates.toList :=
        Array.mem_toList_iff.2 (Array.mem_of_getElem? hr)
      rw [PseudoNode.requests_of_continue hr hk ((h.rules node hnode).blank hk),
        List.mem_singleton] at hmem
      have hlt := h.linked.landing_pseudo_lt hr
      rw [landing, containerOf_eq_of_getElem? hr] at hlt
      exact .inl ⟨node.container, hlt, by rw [hmem]⟩
    · obtain ⟨t, a, rfl, ha⟩ := h.admits_of_mem_requests hroot hr hk hmem
      exact .inr ⟨_, t, a, ha, rfl⟩
  · obtain ⟨s, node, b, t, hs, hb, -, hbt, rfl⟩ := mem_cells_requests.1 hmem
    exact .inr ⟨_, t, b.action, h.admits_of_mem_behaviors hroot hs hb hbt, rfl⟩

theorem Prepared.plan_inRange (h : c.Prepared) (hroot : c.RootUntargeted) {plan : Plan V}
    (hplan : plan ∈ c.program.plans) : plan.InRange c.program := by
  rcases h.of_mem_plans hroot hplan with ⟨s, hs, rfl⟩ | ⟨source, target, action, ha, rfl⟩
  · have hsettle : ∀ t, (c.plan (.settle s)).next = .settle t → t < c.program.states.size := by
      intro t ht
      obtain rfl : s = t := Continuation.settle.inj ht
      rwa [size_states_program]
    exact ⟨by simp [plan], by simp [plan], hsettle, by simp [plan]⟩
  · refine (h.fits_move ha action).inRange ?_
    rw [size_states_program]
    exact ha.lt

/-! ## Nodes -/

theorem Prepared.passable_of_kind (h : c.Prepared) {s : StateId} {r : PseudoId}
    {kind : PseudoKind → Bool} (hfind : c.find? s kind = some r)
    (hkind : kind .historyContinue = false) : c.program.Passable r := by
  obtain ⟨node, hr, -, hk⟩ := h.linked.find?_some hfind
  obtain ⟨row, hrow, hcompiled⟩ := exists_pseudoRow hr c.getElem?_plans
  refine ⟨row, hrow, fun hcontinue => ?_⟩
  rw [hcompiled.kind] at hcontinue
  rw [hcontinue, hkind] at hk
  cases hk

/-- A row of the table of pseudostates, and the node it was made of. -/
theorem exists_node_of_mem_pseudostates {row : PseudoRow V} (hrow : row ∈ c.program.pseudostates) :
    ∃ (r : PseudoId) (node : PseudoNode V), c.pseudostates[r]? = some node ∧
      c.program.pseudostates[r]? = some row ∧ node.CompiledTo c c.program.plans r row := by
  obtain ⟨r, hr⟩ := Array.getElem?_of_mem hrow
  have hlt : r < c.pseudostates.size := by
    simpa using (Array.getElem?_eq_some_iff.1 hr).1
  have hnode := Array.getElem?_eq_getElem hlt
  obtain ⟨row', hrow', hcompiled⟩ := exists_pseudoRow hnode c.getElem?_plans
  obtain rfl : row' = row := Option.some.inj (hrow'.symm.trans hr)
  exact ⟨r, _, hnode, hr, hcompiled⟩

theorem exists_node_of_mem_states {row : StateRow V} (hrow : row ∈ c.program.states) :
    ∃ s node, c.states[s]? = some node ∧
      row = c.stateRow (c.historyWrites c.historySlots) s node := by
  obtain ⟨s, hs⟩ := Array.getElem?_of_mem hrow
  rw [getElem?_states_program, Option.map_eq_some_iff] at hs
  obtain ⟨node, hnode, rfl⟩ := hs
  exact ⟨s, node, hnode, rfl⟩

theorem hasValue_of_value {h : HistoryId} {slot : HistorySlot} {v : Nat} {s : Option StateId}
    (hslot : c.historySlots[h]? = some slot) (hv : slot.values[v]? = some s) :
    c.program.HasValue h v :=
  ⟨slot, hslot, (Array.getElem?_eq_some_iff.1 hv).1⟩

/-- The branches of a history are guarded by its values. -/
theorem hasValue_of_guard {r : PseudoId} {node : PseudoNode V} (hr : c.pseudostates[r]? = some node)
    {arm : Arm V} (harm : arm ∈ node.arms r c.historySlots) {h : HistoryId} {v : Nat}
    (hguard : arm.guard = .historyIs h v) : c.program.HasValue h v := by
  cases hhist : node.kind.isHistory with
  | false =>
    rw [PseudoNode.arms_of_not_history hr hhist] at harm
    obtain ⟨b, -, rfl⟩ := List.mem_map.1 harm
    cases hb : b.guard <;> simp [hb] at hguard
  | true =>
    obtain ⟨depth, hk⟩ := PseudoKind.exists_history hhist
    obtain ⟨h', slot, -, hslot, hslot?, harms⟩ := PseudoNode.arms_of_history hr hk
    rw [harms] at harm
    obtain ⟨⟨s, i⟩, hx, rfl⟩ := List.mem_map.1 harm
    obtain ⟨rfl, rfl⟩ := BranchGuard.historyIs.inj hguard
    rw [historySlot?_of_history hr hk] at hslot?
    refine hasValue_of_value (s := some s) hslot ?_
    rw [← Option.some.inj hslot?, List.getElem?_toArray]
    exact (HistorySlot.mem_zipIdx_one_iff.1 hx).2

/-! ## Cells -/

theorem SpansFit.stop_le (hfit : c.SpansFit) {span : Span} (hspan : span ∈ c.program.spans) :
    span.stop ≤ c.program.behaviors.size := by
  obtain ⟨r, hr⟩ := Array.getElem?_of_mem hspan
  have hlt : r < c.cells.parts.length := hfit.size_spans ▸ (Array.getElem?_eq_some_iff.1 hr).1
  have hpart := List.getElem?_eq_getElem hlt
  obtain ⟨span', hspan', hstart, hsize⟩ := hfit.exists_span hpart
  obtain rfl : span' = span := Option.some.inj (hspan'.symm.trans hr)
  have hle := offset_add_length_le hpart
  rw [(forall₂_behaviors c).length_eq] at hle
  rw [Span.stop, hstart, hsize]
  exact hle

theorem SpansFit.size_cells (hfit : c.SpansFit) :
    c.program.spans.size = c.states.size * c.events.size ∧
      c.program.handlerRows.size = c.states.size * c.events.size ∧
      c.program.nextAncestors.size = c.states.size * c.events.size := by
  have htables := handlerTables_cells c
  refine ⟨?_, ?_, ?_⟩
  · rw [hfit.size_spans, length_parts_cells]
  · change (c.handlerTables c.cells).1.size = _
    rw [htables]
    exact Strict.length_flatMap_handlersOn c _ _
  · change (c.handlerTables c.cells).2.size = _
    rw [htables]
    exact Strict.length_flatMap_handlersOn c _ _

/-- Only states at or above another are in a row. -/
theorem lt_of_mem_handlersOn {s : StateId} {f : StateId → List StateId}
    (hf : ∀ q, ∀ t ∈ f q, t ≤ q)
    (hs : some s ∈ c.stateIds.flatMap fun q => c.handlersOn (f q)) : s < c.states.size := by
  obtain ⟨q, hq, hs⟩ := List.mem_flatMap.1 hs
  obtain ⟨e, -, hfind⟩ := List.mem_map.1 hs
  exact Nat.lt_of_le_of_lt (hf q s (List.mem_of_find?_eq_some hfind)) (List.mem_range.1 hq)

theorem lt_of_mem_handlers {s : StateId}
    (hs : some s ∈ c.program.handlerRows ∨ some s ∈ c.program.nextAncestors) :
    s < c.states.size := by
  have htables := handlerTables_cells c
  rcases hs with hs | hs
  · change some s ∈ (c.handlerTables c.cells).1 at hs
    rw [htables, List.mem_toArray] at hs
    exact lt_of_mem_handlersOn (fun q t ht => Hierarchy.le_of_mem_ancestors ht) hs
  · change some s ∈ (c.handlerTables c.cells).2 at hs
    rw [htables, List.mem_toArray] at hs
    exact lt_of_mem_handlersOn
      (fun q t ht => Hierarchy.le_of_mem_ancestors (Hierarchy.mem_tail_ancestors.1 ht).1) hs

/-! ## All tables -/

/-- The tables of a prepared chart name only what is there. -/
theorem Prepared.inRange (h : c.Prepared) (hroot : c.RootUntargeted) (hfit : c.SpansFit)
    (hinitial : c.Owns rootState .initial) : c.program.InRange where
  branches := by
    intro row hrow q hq
    obtain ⟨r, node, -, -, hcompiled⟩ := exists_node_of_mem_pseudostates hrow
    obtain ⟨request, -, hplan⟩ := exists_request_of_mem_planIds hcompiled hq
    exact (Array.getElem?_eq_some_iff.1 hplan).1
  transitions := by
    intro b hb q hq
    obtain ⟨⟨s, b'⟩, -, hcompiled⟩ :=
      exists_of_forall₂_of_mem (forall₂_behaviors c) (Array.mem_toList_iff.2 hb)
    have heffect := hcompiled.2
    cases ht : b'.target with
    | none =>
      rw [ht] at heffect
      simp [heffect] at hq
    | some t =>
      rw [ht] at heffect
      obtain ⟨q', hq', hplan⟩ := heffect
      obtain rfl : q' = q := Effect.transition.inj (hq'.symm.trans hq)
      exact (Array.getElem?_eq_some_iff.1 hplan).1
  plans := fun plan hplan => h.plan_inRange hroot hplan
  rootInitial := by
    obtain ⟨r, hr⟩ := Option.isSome_iff_exists.1 (h.linked.initialOf_isSome_iff.2 hinitial)
    have hrow : c.program.rootInitial = r := congrArg (Option.getD · 0) hr
    rw [hrow]
    exact h.passable_of_kind hr rfl
  containers := by
    intro row hrow
    obtain ⟨r, node, hr, -, hcompiled⟩ := exists_node_of_mem_pseudostates hrow
    have hlt := h.linked.landing_pseudo_lt hr
    rwa [landing, containerOf_eq_of_getElem? hr, ← hcompiled.container, ← size_states_program]
      at hlt
  parents := by
    intro row hrow q hq
    obtain ⟨s, node, hs, rfl⟩ := exists_node_of_mem_states hrow
    have hparent : c.parentOf s = some q := by
      rw [parentOf, hs]
      exact hq
    obtain ⟨hlt, hlt'⟩ := parentOf_lt h.linked hparent
    rw [size_states_program]
    exact Nat.lt_trans hlt' hlt
  children := by
    intro row hrow t ht
    obtain ⟨s, node, hs, rfl⟩ := exists_node_of_mem_states hrow
    have hmem : t ∈ c.children s := by
      rw [children_eq, hs]
      exact ht
    rw [size_states_program]
    exact (parentOf_lt h.linked (h.linked.parent_eq t ▸ h.linked.mem_children.1 hmem)).1
  initials := by
    intro row hrow r hr
    obtain ⟨s, node, -, rfl⟩ := exists_node_of_mem_states hrow
    exact h.passable_of_kind hr rfl
  histories := by
    intro row hrow r hr
    obtain ⟨s, node, -, rfl⟩ := exists_node_of_mem_states hrow
    exact h.passable_of_kind hr rfl
  slots := by
    intro slot hslot
    obtain ⟨node, depth, hr, hk, heq⟩ := historySlot?_eq_some_iff.1 (mem_historySlots.1 hslot)
    obtain ⟨row, hrow, hcompiled⟩ := exists_pseudoRow hr c.getElem?_plans
    have hlt := h.linked.landing_pseudo_lt hr
    rw [landing, containerOf_eq_of_getElem? hr] at hlt
    refine ⟨⟨row, hrow, by simp [hcompiled.kind, hk]⟩, ?_⟩
    rw [heq, size_states_program]
    exact hlt
  tracked := by
    intro slot hslot v hv
    rw [size_states_program]
    exact Strict.lt_of_mem_tracked h.linked hslot hv
  writes := by
    intro row hrow w hw
    obtain ⟨s, node, hs, rfl⟩ := exists_node_of_mem_states hrow
    obtain ⟨slot, hslot, hv⟩ := (mem_historyWrites (Array.getElem?_eq_some_iff.1 hs).1).1
      (Array.mem_toList_iff.1 hw)
    exact hasValue_of_value hslot hv
  guards := by
    intro row hrow b hb history v hguard
    obtain ⟨r, node, hr, -, hcompiled⟩ := exists_node_of_mem_pseudostates hrow
    obtain ⟨arm, harm, heq, -⟩ := exists_of_forall₂_of_mem hcompiled.branches hb
    exact hasValue_of_guard hr harm (heq ▸ hguard)
  cells := by
    rw [size_states_program]
    exact hfit.size_cells
  spans := fun span hspan => hfit.stop_le hspan
  handlers := by
    intro s hs
    rw [size_states_program]
    exact lt_of_mem_handlers hs

theorem Linked.inRange_of_compile (hc : c.Linked) {p : Program V} (h : c.compile = .ok p) :
    p.InRange := by
  have hw := hc.wellFormed_of_compile h
  have hfit := spansFit_of_compile h
  obtain ⟨-, -, rfl⟩ := compile_eq_ok_iff.1 h
  refine (hw.prepared hc).inRange (rootUntargeted_ordered.2 hw.root) hfit ?_
  rw [owns_ordered]
  exact hw.rootInitial

end Chart

/-- Whatever was asked of a draft, with whatever numbers: compiling it looks up only what is there,
all that the program names is there, and no machine of it is ever stopped by a look-up that finds
nothing. -/
theorem Draft.compile_inRange (name : String) (calls : List (Draft.Call V)) :
    Strict.compileDraft (Draft.ofCalls name calls) = some (Draft.ofCalls name calls).compile ∧
      ∀ p, (Draft.ofCalls name calls).compile = .ok p → p.InRange ∧
        ∀ (vars : V) (commands : List (Command V)),
          ∃ m, p.performAll (p.machine vars) commands = some m := by
  refine ⟨Strict.compileDraft_eq name calls, fun p hp => ?_⟩
  obtain ⟨c, hfinish, hcompile⟩ : ∃ c, (Draft.ofCalls name calls).finish = .ok c ∧
      c.compile = .ok p := by
    unfold Draft.compile at hp
    cases hfinish : (Draft.ofCalls name calls).finish with
    | error e =>
      rw [hfinish] at hp
      cases hp
    | ok c =>
      rw [hfinish] at hp
      exact ⟨c, rfl, hp⟩
  have hc : c.Linked := Chart.Drafted.linked ⟨name, calls, hfinish⟩
  refine ⟨hc.inRange_of_compile hcompile, fun vars commands => ?_⟩
  obtain ⟨m, hrun, -⟩ := (hc.sound_of_compile hcompile).exists_performAll_idle
    (p.idle_machine vars) commands
  exact ⟨m, hrun⟩

theorem Draft.relay_compile_inRange :
    ∃ p, (Draft.ofCalls "relay" Chart.relayCalls).compile = .ok p ∧
      Strict.compileDraft (Draft.ofCalls "relay" Chart.relayCalls) = some (.ok p) ∧ p.InRange ∧
      ∃ m, p.performAll (p.machine 0) [.dispatch 9, .start, .dispatch 1, .dispatch 1, .dispatch 7] =
        some m := by
  obtain ⟨p, hp⟩ := Chart.exists_ok_of_isOk Chart.relay_compile_isOk
  have hcompile : (Draft.ofCalls "relay" Chart.relayCalls).compile = .ok p := hp
  obtain ⟨hstrict, hrange⟩ := Draft.compile_inRange "relay" Chart.relayCalls
  obtain ⟨hrange, hruns⟩ := hrange p hcompile
  exact ⟨p, hcompile, hcompile ▸ hstrict, hrange, hruns 0 _⟩

end Statechart
