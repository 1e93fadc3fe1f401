import Statechart.Proofs.Boundaries

/-
  Two ways to work out the transition of a behavior: from its state to its target (`resolve`), and
  by the plan that was compiled for it (`resolvePlan`). Both turn at the same state and follow the
  same way from the target on, so they differ by the action of the plan only (`Program.Agree`).
  Plans of behaviors are numbered after those of pseudostates (`le_of_transition`,
  `lt_of_mem_planIds`), so that action occurs nowhere else.
-/

namespace Statechart

variable {V : Type}

/-! ## The numbers of plans -/

/-- The plans of a pseudostate are numbered one after the other. -/
theorem PseudoNode.planIds_row (node : PseudoNode V) (r : PseudoId) (slots : Array HistorySlot)
    (first : PlanId) :
    (node.row r slots first).planIds = List.range' first (node.requests r slots).length := by
  have hbranches : (node.row r slots first).branches.map (·.plan) =
      List.range' first (node.arms r slots).length := by
    calc (node.row r slots first).branches.map (·.plan)
        = ((node.arms r slots).zipIdx.map Prod.snd).map (first + ·) := by
          rw [row, List.map_map, List.map_map]
          rfl
      _ = List.range' first (node.arms r slots).length := by
          rw [List.zipIdx_map_snd, List.map_add_range', Nat.add_zero]
  rw [PseudoRow.planIds, hbranches, requests, List.length_append, List.length_map]
  exact List.range'_1_concat.symm

/-- The plans of the transitions among some behaviors. -/
def transitionIds (rows : List (BehaviorRow V)) : List PlanId := rows.filterMap (·.transition?)

theorem mem_transitionIds {rows : List (BehaviorRow V)} {row : BehaviorRow V} {q : PlanId}
    (hrow : row ∈ rows) (heffect : row.effect = .transition q) : q ∈ transitionIds rows :=
  List.mem_filterMap.2 ⟨row, hrow, by rw [BehaviorRow.transition?, heffect]⟩

/-- So are those of behaviors. -/
theorem transitionIds_compiledRows (q : PlanId) (bs : List (StateId × Behavior V)) :
    transitionIds (compiledRows q bs) =
      List.range' q (bs.filterMap fun b => b.2.request b.1).length := by
  unfold transitionIds
  induction bs generalizing q with
  | nil => rfl
  | cons b bs ih =>
    rw [compiledRows, List.filterMap_cons, Behavior.request]
    cases b.2.target with
    | none => exact ih q
    | some target => exact congrArg (q :: ·) (ih (q + 1))

/-- The behaviors of a cell are in the table. -/
theorem Program.mem_behaviors {p : Program V} {s : StateId} {e : EventId}
    {rows : List (BehaviorRow V)} {row : BehaviorRow V} (hrows : p.behaviors? s e = some rows)
    (hrow : row ∈ rows) : row ∈ p.behaviors := by
  obtain ⟨span, -, hcut⟩ := Option.bind_eq_some_iff.1 hrows
  split at hcut
  · rw [← Option.some.inj hcut, Array.toList_extract, List.extract_eq_take_drop] at hrow
    exact Array.mem_toList_iff.1 (List.mem_of_mem_drop (List.mem_of_mem_take hrow))
  · cases hcut

namespace Chart

variable {c : Chart V}

/-- The plans of pseudostates come first, -/
theorem lt_of_mem_planIds {row : PseudoRow V} {q : PlanId} (hrow : row ∈ c.program.pseudostates)
    (hq : q ∈ row.planIds) : q < c.pseudoPlans.length := by
  obtain ⟨r, hr⟩ := Array.getElem?_of_mem hrow
  have hlt : r < c.pseudostates.size := by simpa using (Array.getElem?_eq_some_iff.1 hr).1
  have hnode := Array.getElem?_eq_getElem hlt
  rw [getElem?_pseudostates_program hnode] at hr
  have hle := offset_add_length_le (getElem?_pseudoParts hnode)
  rw [← Option.some.inj hr, PseudoNode.planIds_row, List.mem_range'_1] at hq
  rw [pseudoPlans, List.length_map]
  lia

/-- and those of behaviors after them. -/
theorem le_of_transition {s : StateId} {e : EventId} {rows : List (BehaviorRow V)}
    {row : BehaviorRow V} {q : PlanId} (hrows : c.program.behaviors? s e = some rows)
    (hrow : row ∈ rows) (heffect : row.effect = .transition q) : c.pseudoPlans.length ≤ q := by
  have hq := mem_transitionIds (Array.mem_toList_iff.2 (Program.mem_behaviors hrows hrow)) heffect
  rw [toList_behaviors_program, transitionIds_compiledRows, List.mem_range'_1] at hq
  exact hq.1

end Chart

/-! ## The same way twice -/

namespace Step

def isExit : Step → Bool
  | .exit _ => true
  | _ => false

def isEnter : Step → Bool
  | .enter _ => true
  | _ => false

/-- States that are left up front are the whole first block of exits. -/
theorem split_exits {before after : List Step} {x : Step} (hbefore : ∀ y ∈ before, y.isExit)
    (hafter : after.head? = some x) (hx : x.isEnter ∨ x.isPseudo) :
    (before ++ after).takeWhile isExit = before ∧ (before ++ after).dropWhile isExit = after := by
  obtain ⟨tail, rfl⟩ := List.head?_eq_some_iff.1 hafter
  have hnot : x.isExit = false := by
    cases x with
    | exit s => simp [isEnter, isPseudo] at hx
    | _ => rfl
  rw [List.takeWhile_append_of_pos hbefore, List.dropWhile_append_of_pos hbefore]
  simp [hnot]

end Step

/-- Both ways to work out a transition from `leaf` succeed and agree. By the plan there is one more
step if it has an action: after the first states have been left, before anything is entered or
passed. -/
structure Program.Agree (p : Program V) (leaf : StateId) (target : Vertex) (q : PlanId)
    (acts : Bool) (decide : Decider) (r r' : Resolution) : Prop where
  byTarget : p.resolve leaf target decide = .ok r
  byPlan : p.resolvePlan leaf q decide = .ok r'
  asked : r'.asked = r.asked
  finalLeaf : r'.finalLeaf = r.finalLeaf
  steps : r'.steps = r.steps.takeWhile Step.isExit ++ (if acts then [.action q] else []) ++
    r.steps.dropWhile Step.isExit
  /-- What follows is entered or passed. -/
  next : ∃ x, (r.steps.dropWhile Step.isExit).head? = some x ∧ (x.isEnter ∨ x.isPseudo)
  /-- The action is done once. -/
  single : .action q ∉ r.steps

namespace Program

variable {p : Program V} {active : StateId}

/-- The action of a plan is the only one among its steps. -/
theorem eq_of_mem_planSteps {q q' : PlanId} {steps : List Step} {arrival : StateId}
    {next : Continuation} (h : p.planSteps active q = .ok (steps, arrival, next))
    (hmem : .action q' ∈ steps) : q' = q := by
  obtain ⟨plan, left, rfl⟩ : ∃ (plan : Plan V) (left : List StateId), steps = left.map .exit ++
      (if plan.action.isSome then [.action q] else []) ++ plan.enter.map .enter := by
    unfold planSteps at h
    split at h
    · cases h
    · next plan _ =>
      cases hexit : plan.exitTo with
      | none =>
        rw [hexit] at h
        cases h
        exact ⟨plan, [], rfl⟩
      | some turn =>
        simp only [hexit, stepsOut] at h
        cases hchain : p.hierarchy.chainUpTo active turn with
        | error e =>
          rw [hchain] at h
          cases h
        | ok left =>
          rw [hchain] at h
          cases h
          exact ⟨plan, left, rfl⟩
  have hmem : plan.action.isSome ∧ q' = q := by simpa using hmem
  exact hmem.2

/-- Beyond the target only actions of pseudostates are done. -/
theorem exists_mem_planIds_of_follow {decide : Decider} {n i : Nat} {next : Continuation}
    {rest : Resolution} (h : p.follow decide n active i next = .ok rest) {q : PlanId}
    (hq : .action q ∈ rest.steps) : ∃ row ∈ p.pseudostates, q ∈ row.planIds := by
  induction n using Nat.strongRecOn generalizing active i next rest with
  | ind n ih =>
    obtain ⟨s, rfl, rfl⟩ | ⟨r, row, k, steps, arrival, next', rest', rfl, rfl, hr, hsteps, hrest,
      rfl⟩ := follow_inv h
    · cases hq
    · rcases List.mem_append.1 hq with hq | hq
      · obtain rfl := eq_of_mem_planSteps hsteps (by simpa using hq)
        exact ⟨row, Array.mem_of_getElem? hr, row.planOf_mem_planIds _⟩
      · exact ih k (Nat.lt_succ_self k) hrest hq

end Program

namespace Chart

variable {c : Chart V} {p : Program V}

theorem names_of_isTarget {target : Vertex} (h : c.IsTarget target) : c.program.Names target := by
  cases target with
  | state s =>
    rw [Program.Names, size_states_program]
    exact h
  | pseudo r =>
    obtain ⟨node, hnode, -⟩ := h
    rw [Program.Names, size_pseudostates_program]
    exact (Array.getElem?_eq_some_iff.1 hnode).1

/-- Once the states are left, the way to a target enters one or passes the target. -/
theorem Linked.exists_head (hc : c.Linked) {s : StateId} {target : Vertex} {way : Path}
    (hs : s < c.states.size) (htarget : c.IsTarget target)
    (hway : c.pathBetween (.state s) target = .ok way)
    (hlast : way.enter.getLastD way.turn = c.landing target) {decide : Decider} {n i : Nat}
    {rest : Resolution}
    (hfollow : c.program.follow decide n (c.landing target) i (c.continuation target) = .ok rest) :
    ∃ x, (way.enter.map Step.enter ++ rest.steps).head? = some x ∧ (x.isEnter ∨ x.isPseudo) := by
  cases henter : way.enter with
  | cons t enter => exact ⟨.enter t, rfl, .inl rfl⟩
  | nil =>
    rw [henter] at hlast
    obtain ⟨u, hu, -⟩ | ⟨r, row, k, steps, arrival, next, rest', -, -, -, -, -, rfl⟩ :=
      Program.follow_inv hfollow
    -- The way does not turn at a state that it leads to.
    · obtain ⟨rfl, -⟩ := hc.continuation_eq_settle_iff.1 hu
      have hj : c.hierarchy.Joined (Anchor.state s).holder (Anchor.state u).holder :=
        hc.joined hs htarget
      exact absurd (congrArg Anchor.state hlast.symm)
        (Hierarchy.turn_mem hj (Hierarchy.path_ok_inv hway).1).2.2
    · exact ⟨.pseudo r, rfl, .inr rfl⟩

/-- The target of a behavior is worked out as its plan tells. -/
theorem Prepared.exists_agree (h : c.Prepared) (hp : c.program.Sound) (hin : c.program.InRange)
    {s : StateId} {target : Vertex} (ha : c.Admits (.state s) target) {q : PlanId}
    {action : Option (Action V)}
    (hq : c.program.plans[q]? = some (c.plan (.move (.state s) target action)))
    (hle : c.pseudoPlans.length ≤ q) (decide : Decider) :
    ∃ r r', c.program.Agree s target q action.isSome decide r r' := by
  have hlt : s < c.program.states.size := by
    rw [size_states_program]
    exact ha.lt
  obtain ⟨way, rest, hway, -, -, hlast, hfollow, -, hresolve⟩ :=
    h.exists_resolve_eq hp hin hlt (names_of_isTarget ha.isTarget) ha.ne_root decide
  obtain ⟨way', hway', hplan, -⟩ := h.exists_way ha action
  obtain rfl : way = way' := Except.ok.inj (hway.symm.trans hway')
  have hsteps : c.program.planSteps s q = .ok ((c.program.hierarchy.chain s way.turn).map .exit ++
      (if action.isSome then [.action q] else []) ++ way.enter.map .enter, c.landing target,
      c.continuation target) := by
    have hsteps := hp.planSteps_eq hlt hq
    rw [h.arrival_move ha action (by simp [sourceAnchor]), hplan] at hsteps
    exact hsteps
  obtain ⟨x, hx, hkind⟩ := h.linked.exists_head ha.lt ha.isTarget hway hlast hfollow
  rw [List.append_assoc] at hresolve
  have hexits : ∀ y ∈ (c.program.hierarchy.chain s way.turn).map Step.exit, y.isExit := by
    simp [Step.isExit]
  obtain ⟨hbefore, hafter⟩ := Step.split_exits hexits hx hkind
  refine ⟨_, _, hresolve, Program.resolvePlan_of_follow hlt hsteps hfollow, rfl, rfl, ?_,
    ⟨x, ?_, hkind⟩, ?_⟩
  · rw [hbefore, hafter, List.append_assoc _ _ rest.steps]
  · rw [hafter, hx]
  · intro hmem
    have hmem : Step.action q ∈ rest.steps := by simpa using hmem
    obtain ⟨row, hrow, hq⟩ := Program.exists_mem_planIds_of_follow hfollow hmem
    exact Nat.not_lt.2 hle (lt_of_mem_planIds hrow hq)

/-- Working out the transition of a behavior from its target agrees with working it out by its plan,
whatever is answered on the way. -/
theorem resolve_agrees_with_plan (hc : c.Drafted) (h : c.compile = .ok p) {s : StateId}
    {e : EventId} (hs : s < c.states.size) (he : e < c.events.size) :
    ∃ rows, p.behaviors? s e = some rows ∧
      List.Forall₂ (fun b row => ∀ target, b.target = some target →
          ∃ q, row.effect = .transition q ∧
            ∀ decide, ∃ r r', p.Agree s target q b.action.isSome decide r r')
        (c.behaviorsOn s (.event e)) rows := by
  have hp := hc.linked.sound_of_compile h
  have hin := hc.linked.inRange_of_compile h
  have hw := hc.linked.wellFormed_of_compile h
  have hprepared := hw.prepared hc.linked
  have hfit := spansFit_of_compile h
  obtain ⟨-, -, rfl⟩ := compile_eq_ok_iff.1 h
  have hnode := Array.getElem?_eq_getElem hs
  have hnode' := c.getElem?_states_ordered_eq_some hnode
  obtain ⟨rows, hrows, hall⟩ := exists_behaviors hfit hnode' he
  have hmem := (List.forall₂_and_left _ _).2 ⟨fun _ hb => hb, hall⟩
  have hmem' := (List.forall₂_and_left _ _).2 ⟨fun _ hrow => hrow, hmem.flip⟩
  rw [behaviorsOn_eq hnode]
  refine ⟨rows, hrows, hmem'.flip.imp ?_⟩
  rintro b row ⟨hrow, hb, -, heffect⟩ target ht
  rw [ht] at heffect
  obtain ⟨q, hq, hplan⟩ := heffect
  have ha := hprepared.admits_of_mem_behaviors (rootUntargeted_ordered.2 hw.root) hnode'
    (List.mem_filter.1 hb).1 ht
  exact ⟨q, hq, hprepared.exists_agree hp hin ha hplan (le_of_transition hrows hrow hq)⟩

theorem relay_go : (relay.states[1]?).map (fun node =>
    (node.ordered.onEvent 1).map fun b => (b.target, b.action.isSome)) =
      some [(some (.pseudo 3), true)] := by decide +kernel

/-- To the choice and through the history behind its first branch. -/
theorem relay_resolve_agrees_with_plan :
    ∃ p b row q r r', relay.compile = .ok p ∧ 1 < relay.states.size ∧ 1 < relay.events.size ∧
      relay.behaviorsOn 1 (.event 1) = [b] ∧ b.target = some (.pseudo 3) ∧
      p.behaviors? 1 1 = some [row] ∧ row.effect = .transition q ∧
      p.Agree 1 (.pseudo 3) q true (fun _ _ => some 0) r r' := by
  obtain ⟨p, hp⟩ := exists_ok_of_isOk relay_compile_isOk
  have hs : 1 < relay.states.size := by decide +kernel
  have he : 1 < relay.events.size := by decide +kernel
  obtain ⟨node, hnode, hgo⟩ := Option.map_eq_some_iff.1 relay_go
  obtain ⟨b, hb, hpair⟩ := List.map_eq_singleton_iff.1 hgo
  obtain ⟨htarget, haction⟩ := Prod.mk.inj hpair
  have hon : relay.behaviorsOn 1 (.event 1) = [b] := (behaviorsOn_eq hnode _).trans hb
  obtain ⟨rows, hrows, hall⟩ := resolve_agrees_with_plan relay_drafted hp hs he
  rw [hon, List.forall₂_cons_left_iff] at hall
  obtain ⟨row, rest, hagree, hnil, rfl⟩ := hall
  rw [List.forall₂_nil_left_iff.1 hnil] at hrows
  obtain ⟨q, hq, hagree⟩ := hagree _ htarget
  obtain ⟨r, r', hagree⟩ := hagree fun _ _ => some 0
  rw [haction] at hagree
  exact ⟨p, b, row, q, r, r', hp, hs, he, hon, htarget, hrows, hq, hagree⟩

end Chart

end Statechart
