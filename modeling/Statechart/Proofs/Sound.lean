import Statechart.Machine
import Statechart.Proofs.Acceptance

/-
  What a machine may rely on when it runs a program (`Program.Sound`). A plan of a pseudostate can
  be run whenever the container is the innermost active state, a plan of a behavior whenever its
  state is active; it leaves only active states, enters a chain of children, and ends exactly where
  the next pseudostate expects it to (`Plan.Fits`). Pseudostates are ranked so that every way
  through them goes down. Compiling gives sound programs (`sound_of_compile`).
-/

namespace Statechart

variable {V : Type}

/-! ## Plans that fit -/

/-- The way can go on while `s` is the innermost active state. -/
def Program.Arrives (p : Program V) (s : StateId) : Continuation → Prop
  | .settle t => t = s ∧ p.initialOf s = none
  | .pseudo r => ∃ row, p.pseudostates[r]? = some row ∧ row.container = s ∧
      row.kind ≠ .historyContinue

/-- The innermost active state after a plan that is run while `active` is innermost. -/
def Plan.arrival (plan : Plan V) (active : StateId) : StateId :=
  plan.enter.getLastD (plan.exitTo.getD active)

/-- The plan can be run while `active` is the innermost active state. -/
structure Plan.Fits (plan : Plan V) (p : Program V) (active : StateId) : Prop where
  turn : ∀ t, plan.exitTo = some t → t ∈ p.hierarchy.ancestors active
  enter : p.hierarchy.Descends (plan.exitTo.getD active) plan.enter
  next : p.Arrives (plan.arrival active) plan.next

/-- The plans by which a pseudostate may be left. -/
def PseudoRow.planIds (row : PseudoRow V) : List PlanId :=
  row.branches.map (·.plan) ++ [row.fallback]

/-- Pseudostates can be ranked so that every way through them goes down. -/
def Program.Ranked (p : Program V) (rank : PseudoId → Nat) : Prop :=
  (∀ r < p.pseudostates.size, rank r < p.pseudostates.size) ∧
    ∀ {r r' : PseudoId} {row : PseudoRow V} {q : PlanId} {plan : Plan V},
      p.pseudostates[r]? = some row → q ∈ row.planIds →
      p.plans[q]? = some plan → plan.next = .pseudo r' → rank r' < rank r

/-- What a machine may rely on. -/
structure Program.Sound (p : Program V) : Prop where
  root : rootState < p.states.size
  rootInitial : p.Arrives rootState (.pseudo p.rootInitial)
  parent : ∀ {s : StateId} {row : StateRow V}, p.states[s]? = some row →
    p.hierarchy.parent s = row.parent
  nesting : ∀ s < p.states.size, (p.hierarchy.ancestors s).length ≤ maxDepth
  handlers : ∀ s < p.states.size, ∃ handlers, p.handlerRow? s = some handlers ∧
    handlers.length = p.events.size ∧
    ∀ (e : EventId) q, handlers[e]? = some (some q) → q ∈ p.hierarchy.ancestors s
  next : ∀ s < p.states.size, ∀ e < p.events.size, ∃ up, p.nextAncestor? s e = some up ∧
    ∀ q, up = some q → q ∈ (p.hierarchy.ancestors s).tail
  behaviors : ∀ s < p.states.size, ∀ e < p.events.size, ∃ rows, p.behaviors? s e = some rows ∧
    ∀ b ∈ rows, ∀ q, b.effect = .transition q →
      ∃ plan, p.plans[q]? = some plan ∧ plan.exitTo.isSome ∧ plan.Fits p s
  pseudostates : ∀ {r : PseudoId} {row : PseudoRow V}, p.pseudostates[r]? = some row →
    row.kind ≠ .historyContinue →
      ∀ q ∈ row.planIds, ∃ plan, p.plans[q]? = some plan ∧ plan.Fits p row.container
  ranked : ∃ rank, p.Ranked rank

theorem Hierarchy.eq_of {h h' : Hierarchy} (hparent : h.parent = h'.parent)
    (hlabel : h.label = h'.label) (hdepth : h.depth = h'.depth) : h = h' := by
  cases h
  cases h'
  subst hparent hlabel hdepth
  rfl

namespace Chart

/-! ## States in the tables -/

section States

variable {c : Chart V} {s : StateId}

theorem getElem?_states_program (c : Chart V) (s : StateId) :
    c.program.states[s]? =
      (c.states[s]?).map (c.stateRow (c.historyWrites c.historySlots) s) := by
  change (c.states.mapIdx (c.stateRow (c.historyWrites c.historySlots)))[s]? = _
  rw [Array.getElem?_mapIdx]

@[simp] theorem size_states_program (c : Chart V) : c.program.states.size = c.states.size := by
  change (c.states.mapIdx _).size = _
  simp

theorem label_program (c : Chart V) (s : StateId) : c.program.label s = c.label s := by
  rw [Program.label, getElem?_states_program, label]
  cases c.states[s]? <;> rfl

theorem parent_program (c : Chart V) (s : StateId) :
    (c.program.states[s]?).bind (·.parent) = (c.states[s]?).bind (·.parent) := by
  rw [getElem?_states_program]
  cases c.states[s]? <;> rfl

theorem depth_program (c : Chart V) (s : StateId) :
    c.program.hierarchy.depth s = c.hierarchy.depth s := by
  simp only [Program.hierarchy, getElem?_states_program]
  cases hs : c.states[s]? with
  | some node => rfl
  | none =>
    have hroot : c.hierarchy.parent s = none := by simp [hierarchy, backward, hs]
    rw [depth_eq, Hierarchy.ancestors_of_root hroot]
    rfl

/-- A program has the hierarchy of its chart. -/
@[simp] theorem hierarchy_program (c : Chart V) : c.program.hierarchy = c.hierarchy := by
  have hparent : c.program.hierarchy.parent = c.hierarchy.parent := by
    simp only [Program.hierarchy, hierarchy, parent_program]
  exact Hierarchy.eq_of hparent (funext c.label_program) (funext c.depth_program)

theorem initialOf_program (c : Chart V) (s : StateId) : c.program.initialOf s = c.initialOf s := by
  rw [Program.initialOf, getElem?_states_program]
  cases hs : c.states[s]? with
  | some node => rfl
  | none => simp [initialOf, find?, hs]

end States

/-! ## The plans of a compiled chart fit -/

section Fits

variable {c : Chart V}

/-- The way goes on where its target lies. -/
theorem Prepared.arrives (h : c.Prepared) {t : Vertex} (ht : c.IsTarget t) :
    c.program.Arrives (c.landing t) (c.continuation t) := by
  have hpseudo : ∀ (r : PseudoId) (node : PseudoNode V), c.pseudostates[r]? = some node →
      node.kind ≠ .historyContinue → c.program.Arrives node.container (.pseudo r) := by
    intro r node hr hk
    obtain ⟨row, hrow, hcompiled⟩ := exists_pseudoRow hr c.getElem?_plans
    exact ⟨row, hrow, hcompiled.container, hcompiled.kind ▸ hk⟩
  cases t with
  | pseudo r =>
    obtain ⟨node, hr, hk⟩ := ht
    rw [landing, containerOf_eq_of_getElem? hr]
    exact hpseudo r node hr hk
  | state s =>
    rw [landing, continuation]
    cases hi : c.initialOf s with
    | none => exact ⟨rfl, by rw [initialOf_program, hi]⟩
    | some r =>
      obtain ⟨node, hr, hcont, hkind⟩ := h.linked.find?_some hi
      have hk : node.kind = .initial := by simpa using hkind
      rw [← hcont]
      exact hpseudo r node hr (by simp [hk])

/-- From inside a container to a target inside it, the container is the turn. -/
theorem turn_eq_of_inside {container : StateId} {target : Vertex}
    (hin : c.Inside container target) :
    c.hierarchy.turn (.inside container) (c.targetAnchor target) = .ok container := by
  cases target with
  | state s =>
    obtain ⟨hmem, hne⟩ := Hierarchy.mem_tail_ancestors.1 hin
    exact Hierarchy.turn_below hmem hne
  | pseudo r =>
    by_cases heq : container = c.containerOf r
    · rw [heq]
      exact Hierarchy.turn_inside (Hierarchy.self_mem_ancestors _ _)
    · exact Hierarchy.turn_below hin heq

/-- A source that leaves nothing is a container whose target lies inside. -/
theorem turn_of_inside {source target : Vertex} {t : StateId}
    (hstay : (c.sourceAnchor source).2 = false) (hin : c.Inside (c.landing source) target)
    (ht : c.hierarchy.turn (c.sourceAnchor source).1 (c.targetAnchor target) = .ok t) :
    t = c.landing source := by
  have hsource : (c.sourceAnchor source).1 = .inside (c.landing source) := by
    cases source with
    | state s => simp [sourceAnchor] at hstay
    | pseudo p =>
      simp only [sourceAnchor, landing] at hstay ⊢
      split at hstay <;> simp_all
  rw [hsource, turn_eq_of_inside hin] at ht
  exact (Except.ok.inj ht).symm

/-- A transition between these nodes can be carried out while the source is active. -/
structure Admits (c : Chart V) (source target : Vertex) : Prop where
  lt : c.landing source < c.states.size
  isTarget : c.IsTarget target
  ne_root : target ≠ .state rootState
  inside : (c.sourceAnchor source).2 = false → c.Inside (c.landing source) target

/-- What the plan between two nodes is like. If it leaves nothing, it turns where it starts. -/
theorem Prepared.exists_way (h : c.Prepared) {source target : Vertex} (ha : c.Admits source target)
    (action : Option (Action V)) :
    ∃ way : Path, c.pathBetween source target = .ok way ∧
      c.plan (.move source target action) =
        { exitTo := if (c.sourceAnchor source).2 then some way.turn else none
          action
          enter := way.enter
          next := c.continuation target } ∧
      ((c.sourceAnchor source).2 = false → way.turn = c.landing source) := by
  obtain ⟨way, hway⟩ := h.linked.exists_path h.nesting ha.lt ha.isTarget ha.ne_root
  refine ⟨way, hway, by simp only [plan, hway], fun hleaves => ?_⟩
  exact turn_of_inside hleaves (ha.inside hleaves) (Hierarchy.path_ok_inv hway).1

theorem Prepared.next_move (h : c.Prepared) {source target : Vertex} (ha : c.Admits source target)
    (action : Option (Action V)) :
    (c.plan (.move source target action)).next = c.continuation target := by
  obtain ⟨way, -, hplan, -⟩ := h.exists_way ha action
  rw [hplan]

/-- The plan between two nodes ends where its target lies. -/
theorem Prepared.arrival_move (h : c.Prepared) {source target : Vertex}
    (ha : c.Admits source target) (action : Option (Action V)) {active : StateId}
    (hactive : (c.sourceAnchor source).2 = false → active = c.landing source) :
    (c.plan (.move source target action)).arrival active = c.landing target := by
  obtain ⟨way, hway, hplan, hturn⟩ := h.exists_way ha action
  have hj := h.linked.joined ha.lt (h.linked.landing_lt ha.isTarget)
  rw [← c.holder_sourceAnchor, ← c.holder_targetAnchor] at hj
  obtain ⟨-, -, hlast⟩ := Hierarchy.descends_path hj hway
  rw [c.holder_targetAnchor] at hlast
  rw [Plan.arrival, hplan, ← hlast]
  cases hleaves : (c.sourceAnchor source).2 with
  | true => rfl
  | false =>
    rw [hactive hleaves, ← hturn hleaves]
    rfl

/-- The plan between two nodes fits while the source is active. -/
theorem Prepared.fits_move (h : c.Prepared) {source target : Vertex}
    (ha : c.Admits source target) (action : Option (Action V)) :
    (c.plan (.move source target action)).Fits c.program (c.landing source) := by
  obtain ⟨way, hway, hplan, hstay⟩ := h.exists_way ha action
  have hj := h.linked.joined ha.lt (h.linked.landing_lt ha.isTarget)
  rw [← c.holder_sourceAnchor, ← c.holder_targetAnchor] at hj
  obtain ⟨hturn, hdescends, -⟩ := Hierarchy.descends_path hj hway
  rw [c.holder_sourceAnchor] at hturn
  -- Whether or not anything is left, the way down starts where it turns.
  have hstart : (c.plan (.move source target action)).exitTo.getD (c.landing source) =
      way.turn := by
    rw [hplan]
    cases hleaves : (c.sourceAnchor source).2 with
    | true => rfl
    | false => exact (hstay hleaves).symm
  refine ⟨?_, ?_, ?_⟩
  · intro t hexit
    rw [hierarchy_program]
    rw [hexit, Option.getD_some] at hstart
    exact hstart ▸ hturn
  · rw [hierarchy_program, hstart, hplan]
    exact hdescends
  · rw [h.arrival_move ha action fun _ => rfl, hplan]
    exact h.arrives ha.isTarget

theorem Prepared.isSome_exitTo (h : c.Prepared) {s : StateId} {target : Vertex}
    (ha : c.Admits (.state s) target) (action : Option (Action V)) :
    (c.plan (.move (.state s) target action)).exitTo.isSome := by
  obtain ⟨way, -, hplan, -⟩ := h.exists_way ha action
  rw [hplan]
  rfl

/-- The plans of a row are those of what its pseudostate asks for. -/
theorem forall₂_planIds {node : PseudoNode V} {plans : Array (Plan V)} {r : PseudoId}
    {row : PseudoRow V} (h : node.CompiledTo c plans r row) :
    List.Forall₂ (fun request q => plans[q]? = some (c.plan request))
      (node.requests r c.historySlots) row.planIds := by
  refine List.rel_append ?_ (.cons h.fallback .nil)
  rw [List.forall₂_map_left_iff, List.forall₂_map_right_iff]
  exact h.branches.imp fun _ _ hplan => hplan.2

theorem exists_request_of_mem_planIds {node : PseudoNode V} {plans : Array (Plan V)} {r : PseudoId}
    {row : PseudoRow V} (h : node.CompiledTo c plans r row) {q : PlanId} (hq : q ∈ row.planIds) :
    ∃ request ∈ node.requests r c.historySlots, plans[q]? = some (c.plan request) :=
  exists_of_forall₂_of_mem (forall₂_planIds h) hq

/-- A pseudostate asks for transitions that can be carried out. -/
theorem Prepared.admits_of_mem_requests (h : c.Prepared) (hroot : c.RootUntargeted)
    {node : PseudoNode V} {r : PseudoId} (hr : c.pseudostates[r]? = some node)
    (hk : node.kind ≠ .historyContinue) {request : Request V}
    (hrequest : request ∈ node.requests r c.historySlots) :
    ∃ t a, request = .move (.pseudo r) t a ∧ c.Admits (.pseudo r) t := by
  have hnode : node ∈ c.pseudostates.toList := Array.mem_toList_iff.2 (Array.mem_of_getElem? hr)
  obtain ⟨t, a, ht, rfl⟩ := h.linked.mayLeadTo_of_mem_requests hr hk (h.rules node hnode) hrequest
  obtain ⟨htarget, hbranch⟩ := h.isTarget_of_mayLeadTo hnode ht
  have hcont : c.landing (.pseudo r) = node.container := containerOf_eq_of_getElem? hr
  refine ⟨t, a, rfl, h.linked.landing_pseudo_lt hr, htarget, fun heq => ?_, fun hstay => ?_⟩
  · obtain ⟨b, hb, hbt⟩ := hbranch heq
    exact hroot.1 node hnode b hb (heq ▸ hbt)
  · have hkind : node.kind = .initial ∨ node.kind = .entryPoint := by
      simp only [sourceAnchor, kind?, hr, Option.map_some] at hstay
      cases hk' : node.kind <;> simp_all
    rw [hcont]
    rcases ht with ⟨b, hb, hbt⟩ | ⟨depth, s, hdepth, -⟩
    · exact (h.rules node hnode).inside (hkind.imp_right .inr) b hb t hbt
    · simp [hdepth] at hkind

/-- So does a behavior that leads somewhere. -/
theorem Prepared.admits_of_mem_behaviors (h : c.Prepared) (hroot : c.RootUntargeted) {s : StateId}
    {node : StateNode V} (hs : c.states[s]? = some node) {b : Behavior V}
    (hb : b ∈ node.behaviors.toList) {t : Vertex} (ht : b.target = some t) :
    c.Admits (.state s) t := by
  have hnode : node ∈ c.states.toList := Array.mem_toList_iff.2 (Array.mem_of_getElem? hs)
  refine ⟨(Array.getElem?_eq_some_iff.1 hs).1, (h.behaviors node hnode b hb t ht).1,
    fun heq => hroot.2 node hnode b hb (heq ▸ ht), fun hstay => ?_⟩
  simp [sourceAnchor] at hstay

end Fits

section Sound

variable {c : Chart V}

theorem Prepared.lt_of_follows (h : c.Prepared) {p r : PseudoId} (hf : c.Follows p r) :
    r < c.pseudostates.size := by
  obtain ⟨node, t, hp, ht, hgoes⟩ := hf
  have hnode : node ∈ c.pseudostates.toList := Array.mem_toList_iff.2 (Array.mem_of_getElem? hp)
  have htarget := (h.isTarget_of_mayLeadTo hnode ht).1
  cases t with
  | state s =>
    obtain ⟨next, hr, -⟩ := hgoes
    exact (Array.getElem?_eq_some_iff.1 hr).1
  | pseudo q =>
    obtain rfl : q = r := hgoes
    obtain ⟨next, hr, -⟩ := htarget
    exact (Array.getElem?_eq_some_iff.1 hr).1

theorem Prepared.exists_ranked (h : c.Prepared)
    (hloops : ∀ p, ¬ Relation.TransGen c.Follows p p) : ∃ rank, c.program.Ranked rank := by
  have hfollows : Leads (successors c.program.pseudostates c.program.plans) = c.Follows := by
    funext p r
    exact propext (h.linked.leads_iff_follows h.initials h.rules c.getElem?_plans)
  have hsize : (successors c.program.pseudostates c.program.plans).size = c.pseudostates.size := by
    rw [successors_eq, Array.size_map, size_pseudostates_program]
  have hin : ∀ v w, Leads (successors c.program.pseudostates c.program.plans) v w →
      w < (successors c.program.pseudostates c.program.plans).size := by
    rw [hfollows, hsize]
    exact fun v w => h.lt_of_follows
  obtain ⟨rank, hbound, hdown⟩ := exists_rank hin (by rwa [hfollows])
  refine ⟨rank, by simpa [hsize] using hbound, fun {r r' row q plan} hrow hq hplan hnext => ?_⟩
  apply hdown
  rw [Leads, Array.getD_eq_getD_getElem?, successors_eq, Array.getElem?_map, hrow]
  exact List.mem_filterMap.2 ⟨q, hq, by rw [hplan, Option.bind_some, hnext]; rfl⟩

theorem Prepared.fits_behavior (h : c.Prepared) (hroot : c.RootUntargeted) {s : StateId}
    {node : StateNode V} (hs : c.states[s]? = some node) {e : EventId} {b : Behavior V}
    (hb : b ∈ node.onEvent e) {row : BehaviorRow V} {q : PlanId}
    (hcompiled : b.CompiledTo c c.program.plans s row) (heffect : row.effect = .transition q) :
    ∃ plan, c.program.plans[q]? = some plan ∧ plan.exitTo.isSome ∧ plan.Fits c.program s := by
  have hrow := hcompiled.2
  cases ht : b.target with
  | none =>
    rw [ht] at hrow
    simp [hrow] at heffect
  | some t =>
    rw [ht] at hrow
    obtain ⟨q', heffect', hplan⟩ := hrow
    obtain rfl : q' = q := by
      rw [heffect] at heffect'
      exact (Effect.transition.inj heffect').symm
    have ha := h.admits_of_mem_behaviors hroot hs (List.mem_filter.1 hb).1 ht
    exact ⟨_, hplan, h.isSome_exitTo ha _, h.fits_move ha _⟩

/-- The tables of a prepared chart are sound. -/
theorem Prepared.sound (h : c.Prepared) (hroot : c.RootUntargeted) (hfit : c.SpansFit)
    (hinitial : c.Owns rootState .initial) (hloops : ∀ p, ¬ Relation.TransGen c.Follows p p) :
    c.program.Sound where
  root := by
    rw [size_states_program]
    exact h.linked.nonempty
  rootInitial := by
    obtain ⟨r, hr⟩ := Option.isSome_iff_exists.1 (h.linked.initialOf_isSome_iff.2 hinitial)
    obtain ⟨node, hnode, hcont, hkind⟩ := h.linked.find?_some hr
    have hk : node.kind = .initial := by simpa using hkind
    have harrives := h.arrives (t := .pseudo r) ⟨node, hnode, by simp [hk]⟩
    have hrow : c.program.rootInitial = r := by
      change (c.initialOf rootState).getD 0 = r
      rw [hr]
      rfl
    rw [hrow, ← hcont, ← containerOf_eq_of_getElem? hnode]
    exact harrives
  parent := by
    intro s row hrow
    rw [getElem?_states_program, Option.map_eq_some_iff] at hrow
    obtain ⟨node, hnode, rfl⟩ := hrow
    rw [hierarchy_program, h.linked.parent_eq, parentOf, hnode]
    rfl
  nesting := by
    intro s hs
    rw [size_states_program] at hs
    rw [hierarchy_program, ← c.hierarchy.cons_tail_ancestors s]
    exact h.nesting s hs
  handlers := by
    intro s hs
    rw [size_states_program] at hs
    refine ⟨_, handlerRow?_program hs, c.length_handlersOn _, fun e q he => ?_⟩
    have hlt : e < c.events.size := by
      simpa [length_handlersOn] using (List.getElem?_eq_some_iff.1 he).1
    rw [getElem?_handlersOn _ hlt] at he
    rw [hierarchy_program]
    exact List.mem_of_find?_eq_some (Option.some.inj he)
  next := by
    intro s hs e he
    rw [size_states_program] at hs
    refine ⟨_, nextAncestor?_program hs he, fun q hq => ?_⟩
    rw [hierarchy_program]
    exact List.mem_of_find?_eq_some hq
  behaviors := by
    intro s hs e he
    rw [size_states_program] at hs
    have hnode := Array.getElem?_eq_getElem hs
    obtain ⟨rows, hrows, hall⟩ := exists_behaviors hfit hnode he
    refine ⟨rows, hrows, fun row hrow q heffect => ?_⟩
    obtain ⟨b, hb, hcompiled⟩ := exists_of_forall₂_of_mem hall hrow
    exact h.fits_behavior hroot hnode hb hcompiled heffect
  pseudostates := by
    intro r row hrow hk q hq
    have hr : r < c.pseudostates.size := by
      simpa using (Array.getElem?_eq_some_iff.1 hrow).1
    have hnode := Array.getElem?_eq_getElem hr
    obtain ⟨row', hrow', hcompiled⟩ := exists_pseudoRow hnode c.getElem?_plans
    obtain rfl : row' = row := Option.some.inj (hrow'.symm.trans hrow)
    obtain ⟨request, hrequest, hplan⟩ := exists_request_of_mem_planIds hcompiled hq
    obtain ⟨t, a, rfl, ha⟩ :=
      h.admits_of_mem_requests hroot hnode (hcompiled.kind ▸ hk) hrequest
    refine ⟨_, hplan, ?_⟩
    rw [hcompiled.container, ← containerOf_eq_of_getElem? hnode]
    exact h.fits_move ha a
  ranked := h.exists_ranked hloops

/-- Compiling gives sound programs. -/
theorem Linked.sound_of_compile (hc : c.Linked) {p : Program V} (h : c.compile = .ok p) :
    p.Sound := by
  have hw := hc.wellFormed_of_compile h
  have hfit := spansFit_of_compile h
  obtain ⟨-, -, rfl⟩ := compile_eq_ok_iff.1 h
  refine (hw.prepared hc).sound (rootUntargeted_ordered.2 hw.root) hfit ?_ ?_
  · rw [owns_ordered]
    exact hw.rootInitial
  · rw [follows_ordered]
    exact hw.loops

end Sound

end Chart

end Statechart
