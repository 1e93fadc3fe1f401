import Statechart.Proofs.Commands
import Statechart.Proofs.Completion
import Statechart.Proofs.Refinement

/-
  Plans keep to their source. How far a plan may go up depends on whose plan it is: on the kind of
  pseudostate (`Plan.Respects`), or on the state of a behavior. From there it leads down to its
  target and goes on as the target asks (`Plan.LeadsTo`). While a machine runs, whatever follows a
  pseudostate is the plan selected there, run from the container (`Performs.resumed`), so an exit
  point is followed at once by the exit of its container.
-/

namespace Statechart

variable {V : Type}

/-! ## Where a plan leads -/

/-- The plan leads to `target`: from where it stops leaving, or from `start` if it leaves nothing, it
enters one child after the other, down to the state that the target lies in. The way ends there
exactly if the target is a state without an initial pseudostate. -/
structure Plan.LeadsTo (plan : Plan V) (c : Chart V) (start : StateId) (target : Vertex) :
    Prop where
  enter : c.hierarchy.Descends (plan.exitTo.getD start) plan.enter
  arrival : plan.arrival start = c.landing target
  settle : ∀ s, plan.next = .settle s ↔ target = .state s ∧ ¬ c.Owns s .initial
  pseudo : ∀ r, plan.next = .pseudo r ↔ c.GoesOn target r

/-- What may be left and entered by a plan of a pseudostate of this kind in `container`. An exit
point leaves its container, a choice may stay inside it, any other pseudostate does. -/
def Plan.Respects (plan : Plan V) (h : Hierarchy) (container : StateId) : PseudoKind → Prop
  | .choice => ∃ turn ∈ h.ancestors container, plan.exitTo = some turn
  | .exitPoint => ∃ turn ∈ (h.ancestors container).tail, plan.exitTo = some turn
  | .history _ => plan.exitTo = some container ∧ ∀ s ∈ plan.enter, container ∈ (h.ancestors s).tail
  | _ => plan.exitTo = none ∧ ∀ s ∈ plan.enter, container ∈ (h.ancestors s).tail

/-- The plan with number `q` leads from the pseudostate `node` to `target` with this action. -/
def Program.Serves (p : Program V) (c : Chart V) (node : PseudoNode V) (q : PlanId)
    (target : Vertex) (action : Option (Action V)) : Prop :=
  ∃ plan, p.plans[q]? = some plan ∧ plan.action = action ∧
    plan.Respects c.hierarchy node.container node.kind ∧ plan.LeadsTo c node.container target

/-- The row enacts a behavior of `s`. If the behavior has a target, a plan leads there, which stops
leaving at or above `s`. -/
def Program.Enacts (p : Program V) (c : Chart V) (s : StateId) (b : Behavior V)
    (row : BehaviorRow V) : Prop :=
  (b.target = none → ∀ q, row.effect ≠ .transition q) ∧
  ∀ target, b.target = some target → ∃ q plan, row.effect = .transition q ∧
    p.plans[q]? = some plan ∧ plan.action = b.action ∧
    (∃ turn ∈ c.hierarchy.ancestors s, plan.exitTo = some turn) ∧ plan.LeadsTo c s target

theorem Hierarchy.mem_tail_of_descends {h : Hierarchy} {q : StateId} {path : List StateId}
    (hd : h.Descends q path) : ∀ s ∈ path, q ∈ (h.ancestors s).tail := by
  induction path generalizing q with
  | nil => simp
  | cons t path ih =>
    obtain ⟨hparent, hd⟩ := hd
    have hq : q ∈ (h.ancestors t).tail := by simp [ancestors_of_parent hparent]
    intro s hs
    rcases List.mem_cons.1 hs with rfl | hs
    · exact hq
    · obtain ⟨hmem, hne⟩ := mem_tail_ancestors.1 hq
      obtain ⟨ht, hts⟩ := mem_tail_ancestors.1 (ih hd s hs)
      refine mem_tail_ancestors.2 ⟨mem_ancestors_trans hmem ht, ?_⟩
      rintro rfl
      exact hne (mem_ancestors_antisymm hmem ht)

namespace Chart

variable {c : Chart V}

theorem Linked.continuation_eq_settle_iff (hc : c.Linked) {t : Vertex} {s : StateId} :
    c.continuation t = .settle s ↔ t = .state s ∧ ¬ c.Owns s .initial := by
  rw [← hc.initialOf_isSome_iff]
  cases t with
  | pseudo r => simp [continuation]
  | state q =>
    cases hi : c.initialOf q with
    | some r =>
      simp only [continuation, hi, reduceCtorEq, false_iff, Vertex.state.injEq, not_and, not_not]
      rintro rfl
      simp [hi]
    | none =>
      simp only [continuation, hi, Continuation.settle.injEq, Vertex.state.injEq,
        iff_self_and]
      rintro rfl
      simp [hi]

/-- The order of branches and behaviors has no say in where a plan leads. -/
@[simp] theorem leadsTo_ordered {plan : Plan V} {start : StateId} {target : Vertex} :
    plan.LeadsTo c.ordered start target ↔ plan.LeadsTo c start target := by
  constructor
  · rintro ⟨henter, harrival, hsettle, hpseudo⟩
    exact ⟨by simpa using henter, by simpa using harrival, by simpa using hsettle,
      by simpa using hpseudo⟩
  · rintro ⟨henter, harrival, hsettle, hpseudo⟩
    exact ⟨by simpa using henter, by simpa using harrival, by simpa using hsettle,
      by simpa using hpseudo⟩

section Moves

variable {source target : Vertex} (h : c.Prepared) (ha : c.Admits source target)
  (action : Option (Action V))

include h ha

theorem Prepared.leadsTo_move :
    (c.plan (.move source target action)).LeadsTo c (c.landing source) target where
  enter := by
    have hfits := h.fits_move ha action
    rw [← hierarchy_program]
    exact hfits.enter
  arrival := h.arrival_move ha action fun _ => rfl
  settle s := by rw [h.next_move ha action, h.linked.continuation_eq_settle_iff]
  pseudo r := by rw [h.next_move ha action, h.linked.continuation_eq_pseudo_iff h.initials]

/-- Where a source that leaves anything stops. -/
theorem Prepared.exists_exitTo (hleaves : (c.sourceAnchor source).2 = true) :
    ∃ turn ∈ c.hierarchy.ancestors (c.landing source),
      (c.plan (.move source target action)).exitTo = some turn := by
  obtain ⟨way, hway, hplan, -⟩ := h.exists_way ha action
  have hexit : (c.plan (.move source target action)).exitTo = some way.turn := by
    rw [hplan, hleaves]
    rfl
  have hturn := (h.fits_move ha action).turn way.turn hexit
  rw [hierarchy_program] at hturn
  exact ⟨way.turn, hturn, hexit⟩

end Moves

section Pseudostates

variable {node : PseudoNode V} {r : PseudoId} {t : Vertex}

/-- All but choices and exit points lead to targets inside their container. -/
theorem Prepared.inside_of_mayLeadTo (h : c.Prepared) (hnode : node ∈ c.pseudostates.toList)
    (hk : node.kind = .initial ∨ node.kind.isHistory ∨ node.kind = .entryPoint)
    (ht : c.MayLeadTo node t) : c.Inside node.container t := by
  rcases ht with ⟨b, hb, hbt⟩ | ⟨depth, s, -, htracks, rfl⟩
  · exact (h.rules node hnode).inside hk b hb t hbt
  · exact htracks.1

/-- The plan between a pseudostate and its target respects the container. -/
theorem Prepared.respects_move (h : c.Prepared) (hr : c.pseudostates[r]? = some node)
    (hk : node.kind ≠ .historyContinue) (ht : c.MayLeadTo node t) (ha : c.Admits (.pseudo r) t)
    (action : Option (Action V)) :
    (c.plan (.move (.pseudo r) t action)).Respects c.hierarchy node.container node.kind := by
  have hnode := Array.mem_toList_iff.2 (Array.mem_of_getElem? hr)
  have hcont : c.landing (.pseudo r) = node.container := containerOf_eq_of_getElem? hr
  obtain ⟨way, hway, hplan, -⟩ := h.exists_way ha action
  have hlead := (h.leadsTo_move ha action).enter
  have hexit := h.exists_exitTo ha action
  rw [hcont] at hlead hexit
  have hkind : c.kind? r = some node.kind := by rw [kind?, hr, Option.map_some]
  simp only [sourceAnchor, hkind] at hexit
  unfold Plan.Respects
  cases hk' : node.kind with
  | historyContinue => exact absurd hk' hk
  | choice =>
    rw [hk'] at hexit
    exact hexit rfl
  | exitPoint =>
    rw [hk'] at hexit
    obtain ⟨turn, hturn, hexit⟩ := hexit rfl
    refine ⟨turn, Hierarchy.mem_tail_ancestors.2 ⟨hturn, ?_⟩, hexit⟩
    -- The turn holds the target, and the container does not.
    intro heq
    have hj := h.linked.joined ha.lt (h.linked.landing_lt ha.isTarget)
    rw [← c.holder_sourceAnchor, ← c.holder_targetAnchor] at hj
    have habove := (Hierarchy.turn_mem hj (Hierarchy.path_ok_inv hway).1).2.1
    obtain rfl : way.turn = turn := by simpa [hplan, sourceAnchor, hkind, hk'] using hexit
    rw [c.holder_targetAnchor, heq] at habove
    rcases ht with ⟨b, hb, hbt⟩ | ⟨depth, s, hdepth, -⟩
    · exact (h.rules node hnode).outside hk' b hb t hbt habove
    · rw [hk'] at hdepth
      cases hdepth
  | history depth =>
    have hin := h.inside_of_mayLeadTo hnode (.inr (.inl (by rw [hk']; rfl))) ht
    have hturn := (Hierarchy.path_ok_inv hway).1
    simp only [sourceAnchor, hkind, hk', containerOf_eq_of_getElem? hr] at hturn
    rw [turn_eq_of_inside hin] at hturn
    have hexit : (c.plan (.move (.pseudo r) t action)).exitTo = some node.container := by
      rw [hplan, Except.ok.inj hturn]
      simp [sourceAnchor, hkind, hk']
    rw [hexit] at hlead
    exact ⟨hexit, Hierarchy.mem_tail_of_descends hlead⟩
  | initial =>
    have hexit : (c.plan (.move (.pseudo r) t action)).exitTo = none := by
      simp [hplan, sourceAnchor, hkind, hk']
    rw [hexit] at hlead
    exact ⟨hexit, Hierarchy.mem_tail_of_descends hlead⟩
  | entryPoint =>
    have hexit : (c.plan (.move (.pseudo r) t action)).exitTo = none := by
      simp [hplan, sourceAnchor, hkind, hk']
    rw [hexit] at hlead
    exact ⟨hexit, Hierarchy.mem_tail_of_descends hlead⟩

/-- What a pseudostate asks for leads to its target. -/
theorem Prepared.serves_of_mem_requests (h : c.Prepared) (hroot : c.RootUntargeted)
    (hr : c.pseudostates[r]? = some node) (hk : node.kind ≠ .historyContinue)
    {action : Option (Action V)}
    (hmem : .move (.pseudo r) t action ∈ node.requests r c.historySlots) {q : PlanId}
    (hq : c.program.plans[q]? = some (c.plan (.move (.pseudo r) t action))) :
    c.program.Serves c node q t action := by
  have hnode := Array.mem_toList_iff.2 (Array.mem_of_getElem? hr)
  have hcont : c.landing (.pseudo r) = node.container := containerOf_eq_of_getElem? hr
  obtain ⟨t', a, ht, heq⟩ :=
    h.linked.mayLeadTo_of_mem_requests hr hk (h.rules node hnode) hmem
  obtain ⟨-, rfl, rfl⟩ := Request.move.inj heq
  obtain ⟨t', a, heq, ha⟩ := h.admits_of_mem_requests hroot hr hk hmem
  obtain ⟨-, rfl, rfl⟩ := Request.move.inj heq
  have hlead := h.leadsTo_move ha action
  rw [hcont] at hlead
  exact ⟨_, hq, c.action_plan_move _ _ action, h.respects_move hr hk ht ha action, hlead⟩

/-- The plans of any pseudostate but a history lead to the targets of its branches. -/
theorem Prepared.serves_branches (h : c.Prepared) (hroot : c.RootUntargeted)
    (hr : c.pseudostates[r]? = some node) (hk : node.kind ≠ .historyContinue)
    (hhistory : node.kind.isHistory = false) :
    ∃ row, c.program.pseudostates[r]? = some row ∧ row.container = node.container ∧
      List.Forall₂ (fun b q => ∃ target, b.target = some target ∧
          c.program.Serves c node q target b.action)
        node.branches.toList row.planIds := by
  have hnode := Array.mem_toList_iff.2 (Array.mem_of_getElem? hr)
  obtain ⟨row, hrow, hcompiled⟩ := exists_pseudoRow hr c.getElem?_plans
  obtain ⟨last, hlast, -⟩ := (h.rules node hnode).last hk
  have hrequests := PseudoNode.requests_of_not_history hr hhistory hk hlast
  have hplans := forall₂_planIds hcompiled
  rw [hrequests, List.forall₂_map_left_iff] at hplans
  refine ⟨row, hrow, hcompiled.container, ?_⟩
  refine ((List.forall₂_and_left _ _).2 ⟨fun _ hb => hb, hplans⟩).imp ?_
  rintro b q ⟨hb, hq⟩
  obtain ⟨target, ht⟩ := Option.isSome_iff_exists.1 ((h.rules node hnode).lead b hb)
  have hmem := List.mem_map_of_mem (f := node.request r) hb
  rw [← hrequests] at hmem
  rw [PseudoNode.request_eq ht] at hq hmem
  exact ⟨target, ht, h.serves_of_mem_requests hroot hr hk hmem hq⟩

/-- The plans of a history lead to the target of its branch and back to what it tracks besides. -/
theorem Prepared.serves_history (h : c.Prepared) (hroot : c.RootUntargeted) {depth : HistoryDepth}
    {default : Branch V} (hr : c.pseudostates[r]? = some node) (hk : node.kind = .history depth)
    (hdefault : node.branches.toList = [default]) (ht : default.target = some t) :
    ∃ i slot row, c.historySlots[i]? = some slot ∧ c.historySlot? r = some slot ∧
      c.program.pseudostates[r]? = some row ∧
      c.program.Serves c node row.fallback t default.action ∧
      List.Forall₂ (fun x b => b.guard = .historyIs i x.2 ∧
          c.program.remembered i x.2 = some x.1 ∧ c.program.Serves c node b.plan (.state x.1) none)
        ((node.others (c.tracked node.container depth)).zipIdx 1) row.branches := by
  have hcont : node.kind ≠ .historyContinue := by simp [hk]
  obtain ⟨row, hrow, hcompiled⟩ := exists_pseudoRow hr c.getElem?_plans
  obtain ⟨i, slot, -, hslot, hslot?, harms⟩ := PseudoNode.arms_of_history hr hk
  have hfallback : node.fallback r = .move (.pseudo r) t default.action :=
    (PseudoNode.fallback_eq hcont (by simp [hdefault])).trans (PseudoNode.request_eq ht)
  refine ⟨i, slot, row, hslot, hslot?, hrow, ?_, ?_⟩
  · refine h.serves_of_mem_requests hroot hr hcont ?_ (hfallback ▸ hcompiled.fallback)
    rw [← hfallback]
    exact List.mem_append_right _ (List.mem_singleton_self _)
  · have hbranches := hcompiled.branches
    rw [harms, List.forall₂_map_left_iff] at hbranches
    refine ((List.forall₂_and_left _ _).2 ⟨fun _ hx => hx, hbranches⟩).imp ?_
    rintro ⟨s, v⟩ b ⟨hx, hguard, hplan⟩
    refine ⟨hguard, ?_, h.serves_of_mem_requests hroot hr hcont ?_ hplan⟩
    · rw [historySlot?_of_history hr hk] at hslot?
      change ((c.historySlots[i]?).bind fun slot => slot.values[v]?).join = some s
      rw [hslot, ← Option.some.inj hslot?, Option.bind_some, List.getElem?_toArray]
      exact congrArg Option.join (HistorySlot.mem_zipIdx_one_iff.1 hx).2
    · rw [PseudoNode.requests_of_history hr hk]
      exact List.mem_append_left _ (List.mem_map_of_mem (List.fst_mem_of_mem_zipIdx hx))

end Pseudostates

/-- The table enacts the behaviors of a state on an event. -/
theorem Prepared.enacts_behaviors (h : c.Prepared) (hroot : c.RootUntargeted)
    (hfit : c.SpansFit) {s : StateId} {e : EventId} {node : StateNode V}
    (hs : c.states[s]? = some node) (he : e < c.events.size) :
    ∃ rows, c.program.behaviors? s e = some rows ∧
      List.Forall₂ (c.program.Enacts c s) (node.onEvent e) rows := by
  obtain ⟨rows, hrows, hall⟩ := exists_behaviors hfit hs he
  refine ⟨rows, hrows, ((List.forall₂_and_left _ _).2 ⟨fun _ hb => hb, hall⟩).imp ?_⟩
  rintro b row ⟨hb, -, heffect⟩
  constructor
  · intro ht q hq
    rw [ht] at heffect
    simp [hq] at heffect
  · intro target ht
    rw [ht] at heffect
    obtain ⟨q, hq, hplan⟩ := heffect
    have ha := h.admits_of_mem_behaviors hroot hs (List.mem_filter.1 hb).1 ht
    exact ⟨q, _, hq, hplan, c.action_plan_move _ _ _, h.exists_exitTo ha _ rfl, h.leadsTo_move ha _⟩

section Ordered

variable {p : Program V}

theorem serves_ordered {node : PseudoNode V} {q : PlanId} {target : Vertex}
    {action : Option (Action V)} :
    p.Serves c.ordered node.ordered q target action ↔ p.Serves c node q target action := by
  simp [Program.Serves]

theorem enacts_ordered {s : StateId} {b : Behavior V} {row : BehaviorRow V} :
    p.Enacts c.ordered s b row ↔ p.Enacts c s b row := by
  simp [Program.Enacts]

end Ordered

end Chart

/-! ## What follows a pseudostate -/

namespace Program

variable {p : Program V} {m m' : Machine V} {journal : Journal V}

/-- Wherever the journal tells that a pseudostate was passed, the rest of it tells how the plan
selected there was executed from the container on, until the machine was `m'`. -/
def Resumed (p : Program V) (m' : Machine V) (journal : Journal V) : Prop :=
  ∀ first r choice rest, journal = first ++ .passed r choice :: rest →
    ∃ row n m, p.pseudostates[r]? = some row ∧
      p.Executes n m row.container (row.planOf choice) m' rest

theorem resumed_of_passed? (h : journal.filterMap Occurrence.passed? = []) :
    p.Resumed m' journal := by
  intro first r choice rest heq
  have hmem : r ∈ journal.filterMap Occurrence.passed? :=
    mem_filterMap_passed?.2 ⟨choice, by simp [heq]⟩
  rw [h] at hmem
  cases hmem

theorem Resumed.prepend {before : Journal V} (h : p.Resumed m' journal)
    (hbefore : before.filterMap Occurrence.passed? = []) : p.Resumed m' (before ++ journal) := by
  intro first r choice rest heq
  rcases List.append_eq_append_iff.1 heq with ⟨more, -, hmore⟩ | ⟨more, rfl, hmore⟩
  · exact h more r choice rest hmore
  · cases more with
    | nil => exact h [] r choice rest hmore.symm
    | cons o more =>
      obtain ⟨rfl, -⟩ := List.cons.inj hmore
      simp [Occurrence.passed?] at hbefore

theorem Resumed.cons {n : Nat} {r : PseudoId} {row : PseudoRow V} {choice : Option Nat}
    (hr : p.pseudostates[r]? = some row)
    (hexec : p.Executes n m row.container (row.planOf choice) m' journal)
    (h : p.Resumed m' journal) : p.Resumed m' (.passed r choice :: journal) := by
  intro first r' choice' rest heq
  cases first with
  | nil =>
    obtain ⟨hpassed, rfl⟩ := List.cons.inj heq
    obtain ⟨rfl, rfl⟩ := Occurrence.passed.inj hpassed
    exact ⟨row, n, m, hr, hexec⟩
  | cons o first =>
    obtain ⟨-, rfl⟩ := List.cons.inj heq
    exact h first r' choice' rest rfl

theorem Executes.resumed {n : Nat} {active : StateId} {q : PlanId}
    (h : p.Executes n m active q m' journal) : p.Resumed m' journal := by
  induction h with
  | settle h hnext =>
    refine resumed_of_passed? ?_
    rw [List.filterMap_append, filterMap_passed?_travel]
    rfl
  | @pass n m active q plan m₁ r row m' rest h hnext hr hrest ih =>
    have harrives := h.fits.next
    rw [hnext] at harrives
    obtain ⟨row', hr', hcont, -⟩ := harrives
    obtain rfl := Option.some.inj (hr'.symm.trans hr)
    rw [← hcont] at hrest
    rw [List.append_assoc, List.append_assoc]
    exact ((ih.cons hr hrest).prepend (filterMap_passed?_firstOpen ..)).prepend
      (filterMap_passed?_travel ..)

theorem Starts.resumed (hp : p.Sound) (h : p.Starts m m' journal) : p.Resumed m' journal := by
  cases h with
  | @intro m₁ row _ moved henter hroot hhistory hr hk hexec =>
    obtain ⟨row', hr', hcont, -⟩ := hp.rootInitial
    obtain rfl := Option.some.inj (hr'.symm.trans hr)
    have hmoved := hexec.resumed
    rw [← hcont] at hexec
    rw [List.append_assoc, List.append_assoc]
    refine ((hmoved.cons hr hexec).prepend (filterMap_passed?_firstOpen ..)).prepend ?_
    exact List.filterMap_eq_nil_iff.2 (List.forall_mem_cons.2 ⟨rfl, List.forall_mem_cons.2 ⟨rfl,
      forall_mem_runBoundary (P := fun o => o.passed? = none) (fun _ _ _ => rfl)
        (fun _ _ => rfl) _ _⟩⟩)

theorem Outcome.resumed {leaf : StateId} {moved : Bool} (h : p.Outcome leaf m m' journal moved) :
    p.Resumed m' journal := by
  have hquiet : ∀ journal : Journal V, (∀ o ∈ journal, o.quiet) →
      journal.filterMap Occurrence.passed? = [] := by
    intro journal hjournal
    refine List.filterMap_eq_nil_iff.2 fun o ho => ?_
    have := hjournal o ho
    cases o <;> simp_all [Occurrence.quiet, Occurrence.passed?]
  cases h with
  | stay vars hstay => exact resumed_of_passed? (hquiet _ hstay)
  | @move vars s e q _ before moved hbefore hexec =>
    have hfired : ([.fired s e (some q)] : Journal V).filterMap Occurrence.passed? = [] := rfl
    exact (hexec.resumed.prepend hfired).prepend (hquiet _ hbefore)

theorem Performs.resumed (hp : p.Sound) {command : Command V}
    (h : p.Performs m command m' journal) : p.Resumed m' journal := by
  cases h with
  | start _ h => exact h.resumed hp
  | dispatch e _ h => exact h.resumed
  | unheard e _ => exact resumed_of_passed? rfl
  | clear => exact resumed_of_passed? rfl
  | assign change => exact resumed_of_passed? rfl

/-- A plan that stops strictly above the innermost active state leaves that state first. -/
theorem Executes.head?_of_exitTo {n : Nat} {active turn : StateId} {q : PlanId} {plan : Plan V}
    (h : p.Executes n m active q m' journal) (hplan : p.plans[q]? = some plan)
    (hexit : plan.exitTo = some turn) (hturn : turn ∈ (p.hierarchy.ancestors active).tail) :
    journal.head? = some (.exited active) := by
  obtain ⟨hmem, hne⟩ := Hierarchy.mem_tail_ancestors.1 hturn
  have htravel : (p.travel q plan active m.vars).2.head? = some (.exited active) := by
    cases hparent : p.hierarchy.parent active with
    | none =>
      rw [Hierarchy.ancestors_of_root hparent] at hturn
      cases hturn
    | some above =>
      simp only [travel, exits, hexit, Hierarchy.chain_of_parent hparent (Ne.symm hne), crossAll,
        cross, crossed]
      rfl
  cases h with
  | settle h hnext =>
    obtain rfl := Option.some.inj (h.plan_eq.symm.trans hplan)
    rw [List.head?_append, htravel]
    rfl
  | pass h hnext hr hrest =>
    obtain rfl := Option.some.inj (h.plan_eq.symm.trans hplan)
    rw [List.append_assoc, List.head?_append, htravel]
    rfl

end Program

namespace Chart

variable {c : Chart V} {p : Program V}

/-- In a compiled program, the plans of any pseudostate but a history lead to the targets of its
branches. -/
theorem Drafted.serves_branches (hc : c.Drafted) (h : c.compile = .ok p) {r : PseudoId}
    {node : PseudoNode V} (hr : c.pseudostates[r]? = some node)
    (hk : node.kind ≠ .historyContinue) (hhistory : node.kind.isHistory = false) :
    ∃ row, p.pseudostates[r]? = some row ∧ row.container = node.container ∧
      List.Forall₂ (fun b q => ∃ target, b.target = some target ∧ p.Serves c node q target b.action)
        (c.branchesOf r) row.planIds := by
  have hw := hc.linked.wellFormed_of_compile h
  obtain ⟨-, -, rfl⟩ := compile_eq_ok_iff.1 h
  have hr' := c.getElem?_pseudostates_ordered_eq_some hr
  obtain ⟨row, hrow, hcont, hall⟩ := (hw.prepared hc.linked).serves_branches
    (rootUntargeted_ordered.2 hw.root) hr' hk hhistory
  simp only [serves_ordered] at hall
  exact ⟨row, hrow, hcont, branchesOf_eq hr ▸ hall⟩

/-- Those of a history lead to the target of its only branch and back to what it remembers. -/
theorem Drafted.serves_history (hc : c.Drafted) (h : c.compile = .ok p) {r : PseudoId}
    {node : PseudoNode V} (hr : c.pseudostates[r]? = some node) (hk : node.kind.isHistory) :
    ∃ row default target, p.pseudostates[r]? = some row ∧ c.branchesOf r = [default] ∧
      default.target = some target ∧ p.Serves c node row.fallback target default.action ∧
      ∀ b ∈ row.branches, ∃ i v s, b.guard = .historyIs i v ∧ p.remembered i v = some s ∧
        p.Serves c node b.plan (.state s) none := by
  have hw := hc.linked.wellFormed_of_compile h
  have hprepared := hw.prepared hc.linked
  obtain ⟨-, -, rfl⟩ := compile_eq_ok_iff.1 h
  have hr' := c.getElem?_pseudostates_ordered_eq_some hr
  obtain ⟨depth, hdepth⟩ := PseudoKind.exists_history hk
  obtain ⟨default, target, hdefault, -, ht⟩ :=
    (hprepared.rules _ (Array.mem_toList_iff.2 (Array.mem_of_getElem? hr'))).exists_sole (.inr hk)
  obtain ⟨i, slot, row, -, -, hrow, hfallback, hall⟩ := hprepared.serves_history
    (rootUntargeted_ordered.2 hw.root) hr' hdepth hdefault ht
  refine ⟨row, default, target, hrow, (branchesOf_eq hr).trans hdefault, ht,
    serves_ordered.1 hfallback, fun b hb => ?_⟩
  obtain ⟨⟨s, v⟩, -, hguard, hremembered, hserves⟩ := exists_of_forall₂_of_mem hall hb
  exact ⟨i, v, s, hguard, hremembered, serves_ordered.1 hserves⟩

/-- Plans respect the boundary of their source. A plan of a behavior stops leaving at or above its
state; a plan of a choice at or above the container, one of a history at the container, one of an
exit point strictly above it; initial pseudostates and entry points leave nothing, and these and
histories enter only what lies inside the container. Every plan leads down to its target and goes on
as the target asks. In a run, an exit point is followed at once by the exit of its container. -/
theorem plans_respect_boundaries (hc : c.Drafted) (h : c.compile = .ok p) :
    (∀ s < c.states.size, ∀ e < c.events.size, ∃ rows, p.behaviors? s e = some rows ∧
      List.Forall₂ (p.Enacts c s) (c.behaviorsOn s (.event e)) rows) ∧
    (∀ r node, c.pseudostates[r]? = some node → node.kind ≠ .historyContinue →
      node.kind.isHistory = false → ∃ row, p.pseudostates[r]? = some row ∧
        row.container = node.container ∧
        List.Forall₂
          (fun b q => ∃ target, b.target = some target ∧ p.Serves c node q target b.action)
          (c.branchesOf r) row.planIds) ∧
    (∀ r node, c.pseudostates[r]? = some node → node.kind.isHistory →
      ∃ row default target, p.pseudostates[r]? = some row ∧ c.branchesOf r = [default] ∧
        default.target = some target ∧ p.Serves c node row.fallback target default.action ∧
        ∀ b ∈ row.branches, ∃ i v s, b.guard = .historyIs i v ∧ p.remembered i v = some s ∧
          p.Serves c node b.plan (.state s) none) ∧
    ∀ vars commands m command, p.performAll (p.machine vars) commands = some m →
      ∃ m' journal result, p.perform m command = some (m', journal, result) ∧
        ∀ first r choice rest node, journal = first ++ .passed r choice :: rest →
          c.pseudostates[r]? = some node → node.kind = .exitPoint →
            rest.head? = some (.exited node.container) := by
  have hp := hc.linked.sound_of_compile h
  refine ⟨fun s hs e he => ?_, fun r node hr hk hhistory => hc.serves_branches h hr hk hhistory,
    fun r node hr hk => hc.serves_history h hr hk, fun vars commands m command hrun => ?_⟩
  · have hw := hc.linked.wellFormed_of_compile h
    have hfit := spansFit_of_compile h
    obtain ⟨-, -, rfl⟩ := compile_eq_ok_iff.1 h
    have hnode := Array.getElem?_eq_getElem hs
    have hnode' := c.getElem?_states_ordered_eq_some hnode
    obtain ⟨rows, hrows, hall⟩ := (hw.prepared hc.linked).enacts_behaviors
      (rootUntargeted_ordered.2 hw.root) hfit hnode' he
    rw [behaviorsOn_eq hnode]
    exact ⟨rows, hrows, hall.imp fun _ _ => enacts_ordered.1⟩
  · have hresting := (hp.exists_performsAll hrun).2
    obtain ⟨m', journal, result, hperform⟩ := hp.exists_perform_of_resting hresting command
    refine ⟨m', journal, result, hperform, fun first r choice rest node heq hr hk => ?_⟩
    obtain ⟨row, n, m₁, hrow, hexec⟩ :=
      (hp.performs hresting hperform).1.resumed hp first r choice rest heq
    obtain ⟨row', hrow', hcont, hall⟩ :=
      hc.serves_branches h hr (by simp [hk]) (by simp [hk, PseudoKind.isHistory])
    obtain rfl := Option.some.inj (hrow'.symm.trans hrow)
    obtain ⟨b, -, target, -, plan, hplan, -, hrespects, -⟩ :=
      exists_of_forall₂_of_mem hall (row'.planOf_mem_planIds choice)
    rw [hk] at hrespects
    obtain ⟨turn, hturn, hexit⟩ := hrespects
    rw [← hcont, ← hierarchy_of_compile h] at hturn
    rw [← hcont]
    exact hexec.head?_of_exitTo hplan hexit hturn

def harborCalls : List (Draft.Call Nat) :=
  [.event "arrive", .event "leave", .state "Sea" rootState, .state "Port" rootState,
    .state "Pier" 2, .state "Berth" 3, .state "Dock" 2,
    .pseudostate rootState .initial none, .pseudostate 2 .initial none,
    .pseudostate 2 (.history .deep) none, .pseudostate 2 .entryPoint (some "lock"),
    .pseudostate 2 .exitPoint (some "lock"), .pseudostate rootState .choice none,
    .branch 0 [.to (.state 1)], .branch 1 [.to (.state 3)], .branch 2 [.to (.state 5)],
    .branch 3 [.otherwise, .to (.pseudo 2)],
    .branch 3 [.when ⟨(· == 0), fun _ => []⟩, .to (.state 4)],
    .branch 4 [.to (.state 1), .action ⟨(· * 2), fun _ => []⟩],
    .branch 4 [.order "10", .when ⟨(· == 7), fun _ => []⟩, .to (.pseudo 5)],
    .branch 4 [.order "2.1", .when ⟨(· == 9), fun _ => []⟩, .to (.pseudo 5)],
    .branch 5 [.to (.pseudo 3)],
    .on 1 1 [.to (.pseudo 5)],
    .on 2 2 [.to (.pseudo 4), .action ⟨(· + 1), fun _ => []⟩]]

/-- A port that is entered through a choice and an entry point and left through an exit point. -/
def harbor : Chart Nat := (Draft.ofCalls "harbor" harborCalls).chart

theorem harbor_drafted : harbor.Drafted := Draft.drafted_of_fault (by decide +kernel)

theorem harbor_compile_isOk : harbor.compile.isOk := by decide +kernel

theorem harbor_lock : (harbor.pseudostates[4]?).map (fun node => (node.kind, node.container)) =
    some (.exitPoint, 2) := by decide +kernel

/-- On the way out of the port the exit point is passed after the berth and the pier were left. -/
theorem harbor_leaving :
    (do
      let p ← harbor.compile.toOption
      let m ← p.performAll (p.machine 0) [.start, .dispatch 1]
      let (_, journal, _) ← p.perform m (.dispatch 2)
      let passed ← journal[7]?
      return (m.table.settled, passed.passed?)) = some (some 4, some 4) := by decide +kernel

theorem harbor_plans_respect_boundaries :
    ∃ p m m' node row journal choice rest result, harbor.compile = .ok p ∧
      p.performAll (p.machine 0) [.start, .dispatch 1] = some m ∧ m.table.settled = some 4 ∧
      p.perform m (.dispatch 2) = some (m', journal ++ .passed 4 choice :: rest, result) ∧
      harbor.pseudostates[4]? = some node ∧ node.kind = .exitPoint ∧
      p.pseudostates[4]? = some row ∧
      List.Forall₂
        (fun b q => ∃ target, b.target = some target ∧ p.Serves harbor node q target b.action)
        (harbor.branchesOf 4) row.planIds ∧
      rest.head? = some (.exited 2) := by
  have hleaving := harbor_leaving
  simp only [Option.bind_eq_bind, Option.bind_eq_some_iff, Prod.exists, Option.pure_def,
    Option.some.injEq, Prod.mk.injEq] at hleaving
  obtain ⟨p, hp, m, hrun, m', journal, result, hperform, o, ho, hsettled, hpassed⟩ := hleaving
  obtain ⟨node, hnode, hlock⟩ := Option.map_eq_some_iff.1 harbor_lock
  obtain ⟨hkind, hcont⟩ := Prod.mk.inj hlock
  have hcompile := eq_ok_of_toOption hp
  obtain ⟨-, hbranches, -, hexits⟩ := plans_respect_boundaries harbor_drafted hcompile
  obtain ⟨row, hrow, -, hall⟩ :=
    hbranches 4 node hnode (by simp [hkind]) (by simp [hkind, PseudoKind.isHistory])
  obtain ⟨choice, rfl⟩ : ∃ choice, o = .passed 4 choice := by
    cases o with
    | passed r choice => exact ⟨choice, by rw [Option.some.inj hpassed]⟩
    | _ => cases hpassed
  have hsplit : journal = journal.take 7 ++ .passed 4 choice :: journal.drop 8 := by
    obtain ⟨hlt, hget⟩ := List.getElem?_eq_some_iff.1 ho
    rw [← hget, ← List.drop_eq_getElem_cons hlt, List.take_append_drop]
  obtain ⟨m₁, journal₁, result₁, hperform₁, hhead⟩ := hexits 0 _ m (.dispatch 2) hrun
  obtain ⟨rfl, rfl, rfl⟩ : m₁ = m' ∧ journal₁ = journal ∧ result₁ = result := by
    simpa using hperform₁.symm.trans hperform
  exact ⟨p, m, m₁, node, row, _, choice, _, result₁, hcompile, hrun, hsettled,
    hsplit ▸ hperform, hnode, hkind, hrow, hall,
    hcont ▸ hhead _ 4 choice _ node hsplit hnode hkind⟩

end Chart

end Statechart
