import Statechart.Proofs.Memory
import Statechart.Proofs.Settling

/-
  Dispatching an event through the tables does what walking the tree of the chart does
  (`dispatch_refines_react`). The two are compared piece by piece: crossing boundaries
  (`foldl_leave`, `foldl_enter`), one leg of a transition (`go_eq`), leaving a pseudostate
  (`exists_leavesFor`), a whole transition (`follow_eq`), one state (`exists_offer`), and the states
  from the innermost one up (`exists_visit`).
-/

namespace Statechart

variable {V : Type}

/-- What can be watched of an occurrence; the numbers of plans and branches cannot. -/
def Occurrence.deed? : Occurrence V → Option (Deed V)
  | .started => none
  | .dispatched _ => none
  | .tested _ guard answer remarks => some (.tested guard answer remarks)
  | .consulted _ _ answer remarks => some (.consulted answer remarks)
  | .acted _ action remarks => some (.acted action remarks)
  | .fired s _ plan => some (.fired s plan.isSome)
  | .entered s => some (.entered s)
  | .exited s => some (.exited s)
  | .passed r _ => some (.passed r)
  | .settled s => some (.settled s)

def deedsOf (journal : Journal V) : List (Deed V) := journal.filterMap Occurrence.deed?

@[simp] theorem deedsOf_nil : deedsOf ([] : Journal V) = [] := rfl

@[simp] theorem deedsOf_append (first rest : Journal V) :
    deedsOf (first ++ rest) = deedsOf first ++ deedsOf rest :=
  List.filterMap_append

/-! ## Guards, actions and boundaries -/

namespace Walker

/-- A walker for whom the same happened as in a run with this outcome. -/
def after (w : Walker V) (run : V × Journal V) : Walker V :=
  { w with vars := run.1, deeds := w.deeds ++ deedsOf run.2 }

theorem after_after (w : Walker V) (first rest : V × Journal V) :
    (w.after first).after rest = w.after (rest.1, first.2 ++ rest.2) := by
  simp [after]

theorem opens_eq (w : Walker V) (site : Site) (guard : Option (Guard V)) :
    w.opens guard = (testGuard site guard w.vars).1 := by
  cases guard <;> rfl

theorem test_eq (w : Walker V) (site : Site) (guard : Option (Guard V)) :
    w.test guard = w.after (w.vars, (testGuard site guard w.vars).2) := by
  cases guard with
  | none => simp [test, testGuard, after]
  | some g => rfl

theorem act_eq (w : Walker V) (site : Site) (action : Option (Action V)) :
    w.act action = w.after (runAction site action w.vars) := by
  cases action with
  | none => simp [act, runAction, after]
  | some a => rfl

theorem keeps_eq (w : Walker V) (e : EventId) (policy : Consume V) :
    w.keeps e policy = policy.consumes w.vars e := by
  cases policy with
  | byDefault => rw [keeps, Consume.consumes, bne, beq_eq_decide, decide_not]
  | _ => rfl

theorem consult_eq (w : Walker V) (e : EventId) (policy : Consume V) :
    w.consult e policy =
      w.log [.consulted (policy.consumes w.vars e) (policy.remarks w.vars)] := by
  rw [← keeps_eq]
  cases policy <;> rfl

theorem foldl_obey (s : StateId) (b : Boundary) (rules : List (Behavior V)) (w : Walker V) :
    rules.foldl obey w =
      w.after (runBoundary s b (rules.map fun rule => ⟨rule.guard, rule.action⟩) w.vars) := by
  induction rules generalizing w with
  | nil => simp [runBoundary, after]
  | cons rule rules ih =>
    rw [List.foldl_cons, ih, obey, w.opens_eq (.boundary s b), w.test_eq (.boundary s b),
      act_eq _ (.boundary s b), List.map_cons, runBoundary]
    cases hopen : (testGuard (.boundary s b) rule.guard w.vars).1 <;> simp [after, hopen]

end Walker

namespace Chart

variable {c : Chart V}

theorem behaviorsOn_eq {s : StateId} {node : StateNode V} (hs : c.states[s]? = some node)
    (trigger : Trigger) :
    c.behaviorsOn s trigger = node.ordered.behaviors.toList.filter (·.trigger == trigger) := by
  rw [behaviorsOn, hs, StateNode.toList_behaviors_ordered]

theorem branchesOf_eq {r : PseudoId} {node : PseudoNode V} (hr : c.pseudostates[r]? = some node) :
    c.branchesOf r = node.ordered.branches.toList := by
  rw [branchesOf, hr, PseudoNode.toList_branches_ordered]

theorem boundaryOf_eq (c : Chart V) (s : StateId) (b : Boundary) :
    c.ordered.program.boundaryOf s b =
      (c.behaviorsOn s (.boundary b)).map fun rule => ⟨rule.guard, rule.action⟩ := by
  have hrow := c.ordered.getElem?_states_program s
  rw [getElem?_states_ordered] at hrow
  cases hs : c.states[s]? with
  | none =>
    rw [hs] at hrow
    cases b <;> simp [Program.boundaryOf, behaviorsOn, hs, hrow]
  | some node =>
    rw [hs] at hrow
    rw [behaviorsOn_eq hs]
    cases b <;> simp only [Program.boundaryOf, hrow] <;> rfl

theorem leave_eq (w : Walker V) (s : StateId) :
    c.leave w s = w.after (c.ordered.program.cross .exit s w.vars) := by
  rw [leave, Walker.foldl_obey s .exit, ← boundaryOf_eq]
  simp [Walker.after, Walker.log, Program.cross, Program.crossed, deedsOf, Occurrence.deed?]

theorem enter_eq (w : Walker V) (s : StateId) :
    c.enter w s =
      { w.after (c.ordered.program.cross .enter s w.vars) with memory := c.note w.memory s } := by
  rw [enter, Walker.foldl_obey s .enter, ← boundaryOf_eq]
  simp [Walker.after, Walker.log, Program.cross, Program.crossed, deedsOf, Occurrence.deed?]

theorem foldl_leave (path : List StateId) (w : Walker V) :
    path.foldl c.leave w = w.after (c.ordered.program.crossAll .exit path w.vars) := by
  induction path generalizing w with
  | nil => simp [Program.crossAll, Walker.after]
  | cons s path ih =>
    rw [List.foldl_cons, ih, leave_eq, Walker.after_after]
    rfl

theorem foldl_enter (path : List StateId) (w : Walker V) :
    path.foldl c.enter w =
      { w.after (c.ordered.program.crossAll .enter path w.vars) with
        memory := path.foldl c.note w.memory } := by
  induction path generalizing w with
  | nil => simp [Program.crossAll, Walker.after]
  | cons s path ih =>
    rw [List.foldl_cons, ih, enter_eq]
    simp [Walker.after, Program.crossAll]

/-! ## One leg of a transition -/

theorem mem_holders {target : Vertex} {s : StateId} :
    s ∈ c.holders target ↔
      s ∈ c.hierarchy.ancestors (c.targetAnchor target).holder ∧
        c.targetAnchor target ≠ .state s := by
  cases target with
  | state t => simp [holders, targetAnchor, Anchor.holder, Hierarchy.mem_tail_ancestors, eq_comm]
  | pseudo r => simp [holders, targetAnchor, Anchor.holder]

/-- One who walks the tree turns where the plan does. -/
theorem Prepared.stays_eq (h : c.Prepared) {source target : Vertex} (ha : c.Admits source target)
    {way : Path} (hway : c.pathBetween source target = .ok way) :
    c.stays source target = some way.turn := by
  have hj := h.linked.joined ha.lt (h.linked.landing_lt ha.isTarget)
  rw [← c.holder_sourceAnchor, ← c.holder_targetAnchor] at hj
  have hturn := (Hierarchy.path_ok_inv hway).1
  obtain ⟨hsource, htarget, hne⟩ := Hierarchy.turn_mem hj hturn
  rw [stays, ← c.holder_sourceAnchor, List.find?_eq_some_iff_append]
  refine ⟨by simpa using mem_holders.2 ⟨htarget, hne⟩,
    c.hierarchy.chain (c.sourceAnchor source).1.holder way.turn,
    (c.hierarchy.ancestors way.turn).tail, ?_, fun x hx => ?_⟩
  · rw [Hierarchy.cons_tail_ancestors]
    exact Hierarchy.ancestors_eq_chain_append hsource
  · -- A state further in that holds the target as well would be above the turn.
    obtain ⟨hx, hbelow, hxne⟩ := (Hierarchy.mem_chain hsource).1 hx
    suffices hnot : x ∉ c.holders target by simpa using hnot
    intro hmem
    obtain ⟨hx', hxtarget⟩ := mem_holders.1 hmem
    exact hxne (Hierarchy.mem_ancestors_antisymm
      (Hierarchy.mem_ancestors_turn hj hturn hx hx' hxtarget) hbelow)

theorem stays_ordered (c : Chart V) (source target : Vertex) :
    c.ordered.stays source target = c.stays source target := by
  cases target <;> simp [stays, holders]

/-- One leg of a transition does what the plan for it says. -/
theorem Prepared.go_eq (h : c.ordered.Prepared) {source target : Vertex}
    (ha : c.ordered.Admits source target) (action : Option (Action V)) (q : PlanId) (w : Walker V)
    (hplace : (c.ordered.sourceAnchor source).2 = false → w.place = c.ordered.landing source) :
    c.go source target action w = some
      { w.after (c.ordered.program.travel q (c.ordered.plan (.move source target action))
          w.place w.vars) with
        place := c.landing target
        memory := (c.ordered.plan (.move source target action)).enter.foldl c.note w.memory } := by
  obtain ⟨way, hway, hplan, hturn⟩ := h.exists_way ha action
  have hstays := h.stays_eq ha hway
  rw [stays_ordered] at hstays
  have hexits : c.ordered.program.exits (c.ordered.plan (.move source target action)) w.place =
      c.hierarchy.chain w.place way.turn := by
    rw [Program.exits, hplan, hierarchy_program, hierarchy_ordered]
    cases hleaves : (c.ordered.sourceAnchor source).2 with
    | true => rfl
    | false => simp [hplace hleaves, hturn hleaves]
  have henter : (c.ordered.plan (.move source target action)).enter =
      (c.hierarchy.chain (c.landing target) way.turn).reverse := by
    rw [hplan, (Hierarchy.path_ok_inv hway).2, c.ordered.holder_targetAnchor, hierarchy_ordered,
      landing_ordered]
  rw [go, hstays]
  simp only [Option.bind_eq_bind, Option.bind_some, Option.pure_def]
  rw [foldl_leave, Walker.act_eq _ (.plan q), Walker.after_after, foldl_enter, Program.travel,
    hexits, henter]
  have haction : (c.ordered.plan (.move source target action)).action = action := by rw [hplan]
  rw [haction]
  simp [Walker.after]

theorem note_ordered (c : Chart V) : c.ordered.note = c.note := by
  funext memory s r
  cases hr : c.pseudostates[r]? <;> simp [note, remembers, getElem?_pseudostates_ordered, hr]

/-! ## Leaving a pseudostate -/

open Program (firstOpen branchOpen choiceAt)

/-- The first open branch is the one whose row is found, or the last one, which is the fallback. -/
theorem firstBranch_eq {r : PseudoId} {node : PseudoNode V} {plans : Array (Plan V)}
    {last : Branch V} (hlast : last.guard = none) {m : Machine V} {bs : List (Branch V)}
    {rows : List (BranchRow V)} (i : Nat) (w : Walker V) (hvars : w.vars = m.vars)
    (hrows : List.Forall₂
      (fun arm row => row.guard = arm.guard ∧ plans[row.plan]? = some (c.plan arm.request))
      (bs.map fun b => (⟨match b.guard with
        | some g => .when g
        | none => .always, node.request r b⟩ : Arm V)) rows) :
    ∃ b ∈ bs ++ [last], Walker.firstBranch (bs ++ [last]) w =
        some (b, w.after (w.vars, (firstOpen r m rows i).2)) ∧
      match (firstOpen r m rows i).1 with
      | some (_, q) => plans[q]? = some (c.plan (node.request r b))
      | none => b = last := by
  induction bs generalizing rows i w with
  | nil =>
    cases hrows
    refine ⟨last, by simp, ?_, rfl⟩
    simp [Walker.firstBranch, Walker.opens, Walker.test, hlast, Walker.after, firstOpen]
  | cons b bs ih =>
    rw [List.map_cons] at hrows
    cases hrows with
    | cons hfirst hrest =>
      next row rows =>
      obtain ⟨hguard, hplan⟩ := hfirst
      have htest : branchOpen r m row.guard = testGuard (.pseudo r) b.guard w.vars := by
        rw [hguard, hvars]
        cases b.guard <;> rfl
      rw [List.cons_append, Walker.firstBranch, firstOpen, w.opens_eq (.pseudo r),
        w.test_eq (.pseudo r), htest]
      rcases testGuard (.pseudo r) b.guard w.vars with ⟨isOpen, tested⟩
      cases isOpen with
      | true => exact ⟨b, by simp, by simp, hplan⟩
      | false =>
        obtain ⟨b', hb', hbranch, hfound⟩ := ih (i + 1) (w.after (w.vars, tested)) hvars hrest
        refine ⟨b', List.mem_cons_of_mem _ hb', ?_, by simpa using hfound⟩
        simp only [Bool.false_eq_true, if_false, hbranch, Walker.after_after]
        rfl

/-- In the tree `r` is left for `target`, as it is by the plan that the machine selects. -/
structure LeavesFor (c : Chart V) (plans : Array (Plan V)) (r : PseudoId) (row : PseudoRow V)
    (m : Machine V) (w : Walker V) (target : Vertex) (action : Option (Action V)) : Prop where
  way : c.wayOut r w = some (target, action,
    w.after (w.vars, (firstOpen r m row.branches 0).2 ++ [.passed r (choiceAt row r m)]))
  plan : plans[row.planOf (choiceAt row r m)]? =
    some (c.ordered.plan (.move (.pseudo r) target action))

section WayOut

variable {r : PseudoId} {node : PseudoNode V} {plans : Array (Plan V)} {row : PseudoRow V}
  {m : Machine V} {w : Walker V}

theorem Prepared.leavesFor_history (h : c.ordered.Prepared) {depth : HistoryDepth}
    (hr : c.pseudostates[r]? = some node) (hk : node.kind = .history depth)
    (hrow : node.ordered.CompiledTo c.ordered plans r row)
    (hmemory : w.memory = c.ordered.program.recall m.history) :
    ∃ target action, c.LeavesFor plans r row m w target action ∧
      .move (.pseudo r) target action ∈ node.ordered.requests r c.ordered.historySlots := by
  have hr' := c.getElem?_pseudostates_ordered_eq_some hr
  have hnode := Array.mem_toList_iff.2 (Array.mem_of_getElem? hr')
  obtain ⟨b, t, hb, hguard, ht⟩ :=
    (h.rules _ hnode).exists_sole (.inr (by simp [hk, PseudoKind.isHistory]))
  obtain ⟨htested, request, hmem, hplan, hrequest⟩ := planOf_history hr' hk hb hrow m
  have hmatch : ((w.memory r).filter fun s => (c.branchesOf r).all (·.target != some (.state s))) =
      (c.ordered.program.recall m.history r).filter fun s => b.target != some (.state s) := by
    simp only [hmemory, branchesOf_eq hr, hb, List.all_cons, List.all_nil, Bool.and_true]
  have hlog : w.after (w.vars, (firstOpen r m row.branches 0).2 ++ [.passed r (choiceAt row r m)]) =
      w.log [.passed r] := by
    rw [htested]
    rfl
  cases hrecall : (c.ordered.program.recall m.history r).filter
      fun s => b.target != some (.state s) with
  | some s =>
    rw [hrecall] at hrequest
    subst hrequest
    refine ⟨.state s, none, ⟨?_, hplan⟩, hmem⟩
    rw [hlog, wayOut, hmatch, hrecall]
  | none =>
    have hfallback : node.ordered.fallback r = node.ordered.request r b :=
      PseudoNode.fallback_eq (by simp [hk]) (by rw [hb]; rfl)
    rw [hrecall] at hrequest
    simp only [hfallback, PseudoNode.request_eq ht] at hrequest
    subst hrequest
    refine ⟨t, b.action, ⟨?_, hplan⟩, hmem⟩
    rw [hlog, wayOut, hmatch, hrecall, branchesOf_eq hr, hb]
    simp [Walker.firstBranch, Walker.opens, Walker.test, hguard, ht]

theorem Prepared.leavesFor_branch (h : c.ordered.Prepared) (hr : c.pseudostates[r]? = some node)
    (hk : node.kind.isHistory = false) (hcont : node.kind ≠ .historyContinue)
    (hrow : node.ordered.CompiledTo c.ordered plans r row) (hvars : w.vars = m.vars)
    (hmemory : w.memory = c.ordered.program.recall m.history) :
    ∃ target action, c.LeavesFor plans r row m w target action ∧
      .move (.pseudo r) target action ∈ node.ordered.requests r c.ordered.historySlots := by
  have hr' := c.getElem?_pseudostates_ordered_eq_some hr
  have hnode := Array.mem_toList_iff.2 (Array.mem_of_getElem? hr')
  obtain ⟨last, hlast, hguard⟩ := (h.rules _ hnode).last hcont
  have hbranches := List.dropLast_append_getLast? last hlast
  have harms := hrow.branches
  rw [PseudoNode.arms_of_not_history hr' hk] at harms
  obtain ⟨b, hb, hfirst, hfound⟩ := firstBranch_eq hguard 0 w hvars harms
  rw [hbranches] at hb hfirst
  obtain ⟨t, ht⟩ := Option.isSome_iff_exists.1 ((h.rules _ hnode).lead b hb)
  have hrecall : w.memory r = none := by
    rw [hmemory, recall_of_historySlot?_eq_none (historySlot?_of_not_history hr' hk)]
  have hrequest : node.ordered.request r b = .move (.pseudo r) t b.action :=
    PseudoNode.request_eq ht
  refine ⟨t, b.action, ⟨?_, ?_⟩, ?_⟩
  · rw [wayOut, hrecall, branchesOf_eq hr, hfirst]
    simp [ht, Walker.after, Walker.log, deedsOf, Occurrence.deed?]
  · rw [Program.planOf_choiceAt, ← hrequest]
    cases hopen : (firstOpen r m row.branches 0).1 with
    | some found =>
      rw [hopen] at hfound
      exact hfound
    | none =>
      rw [hopen] at hfound
      obtain rfl : b = last := hfound
      have hfallback : node.ordered.fallback r = node.ordered.request r b :=
        PseudoNode.fallback_eq (by simpa using hcont) hlast
      rw [← hfallback]
      exact hrow.fallback
  · rw [PseudoNode.requests_of_not_history hr' hk hcont hlast, ← hrequest]
    exact List.mem_map_of_mem hb

/-- A pseudostate that is reached is left alike in the tree and by the machine. -/
theorem Prepared.exists_leavesFor (h : c.ordered.Prepared) (hroot : c.ordered.RootUntargeted)
    (hr : c.ordered.program.pseudostates[r]? = some row) (hk : row.kind ≠ .historyContinue)
    (hvars : w.vars = m.vars) (hmemory : w.memory = c.ordered.program.recall m.history) :
    row.container = c.ordered.landing (.pseudo r) ∧
      ∃ target action, c.LeavesFor c.ordered.program.plans r row m w target action ∧
        c.ordered.Admits (.pseudo r) target := by
  have hlt : r < c.pseudostates.size := by simpa using (Array.getElem?_eq_some_iff.1 hr).1
  have hnode := Array.getElem?_eq_getElem hlt
  have hnode' := c.getElem?_pseudostates_ordered_eq_some hnode
  obtain ⟨row', hrow', hcompiled⟩ := exists_pseudoRow hnode' c.ordered.getElem?_plans
  obtain rfl : row' = row := Option.some.inj (hrow'.symm.trans hr)
  have hcont : c.pseudostates[r].kind ≠ .historyContinue := hcompiled.kind ▸ hk
  obtain ⟨target, action, hleaves, hmem⟩ : ∃ target action,
      c.LeavesFor c.ordered.program.plans r row' m w target action ∧
        .move (.pseudo r) target action ∈
          c.pseudostates[r].ordered.requests r c.ordered.historySlots := by
    by_cases hhistory : c.pseudostates[r].kind.isHistory
    · obtain ⟨depth, hdepth⟩ := PseudoKind.exists_history hhistory
      exact h.leavesFor_history hnode hdepth hcompiled hmemory
    · exact h.leavesFor_branch hnode (by simpa using hhistory) hcont hcompiled hvars hmemory
  obtain ⟨t, a, heq, ha⟩ := h.admits_of_mem_requests hroot hnode' hcont hmem
  obtain ⟨-, rfl, rfl⟩ := Request.move.inj heq
  refine ⟨?_, target, action, hleaves, ha⟩
  rw [hcompiled.container]
  exact (containerOf_eq_of_getElem? hnode').symm

end WayOut

/-! ## Transitions -/

end Chart

/-- One who stands in `place` with the variables of a machine and remembers what it recalls. -/
def Program.walker (p : Program V) (m : Machine V) (place : StateId) (deeds : List (Deed V)) :
    Walker V :=
  ⟨m.vars, place, p.recall m.history, deeds⟩

namespace Chart

open Program (firstOpen choiceAt)

theorem continuation_eq (c : Chart V) (target : Vertex) :
    c.ordered.continuation target =
      match c.onward target with
      | some r => .pseudo r
      | none => .settle (c.landing target) := by
  cases target with
  | pseudo r => rfl
  | state s =>
    rw [continuation, initialOf_ordered, onward]
    cases c.initialOf s <;> rfl

variable {c : Chart V} (h : c.ordered.Prepared) (hroot : c.ordered.RootUntargeted)

include h

/-- After one leg the two still stand in the same place and remember the same. -/
theorem Prepared.go_walker {source target : Vertex} (ha : c.ordered.Admits source target)
    {action : Option (Action V)} {m m₁ : Machine V} {active : StateId} {q : PlanId}
    (ht : c.ordered.program.Travels m active q (c.ordered.plan (.move source target action)) m₁)
    (hactive : (c.ordered.sourceAnchor source).2 = false → active = c.ordered.landing source)
    (deeds : List (Deed V)) :
    c.go source target action (c.ordered.program.walker m active deeds) =
      some (c.ordered.program.walker m₁ (c.landing target) (deeds ++ deedsOf
        (c.ordered.program.travel q (c.ordered.plan (.move source target action)) active
          m.vars).2)) := by
  have hpath : ∀ s ∈ (c.ordered.plan (.move source target action)).enter,
      s < c.ordered.states.size := by
    have hlt := Program.lt_of_descends ht.fits.enter
    rwa [size_states_program] at hlt
  rw [h.go_eq ha action q _ hactive, Program.walker, Program.walker, ht.vars, ht.history,
    h.linked.recall_foldl_remember hpath ht.start.store, note_ordered]
  rfl

include hroot

/-- A transition that is executed by plans is followed in the tree, deed by deed. -/
theorem Prepared.follow_eq {n : Nat} {m m' : Machine V} {active : StateId} {q : PlanId}
    {journal : Journal V} (hexec : c.ordered.program.Executes n m active q m' journal)
    {source target : Vertex} {action : Option (Action V)} (ha : c.ordered.Admits source target)
    (hq : c.ordered.program.plans[q]? = some (c.ordered.plan (.move source target action)))
    (hactive : (c.ordered.sourceAnchor source).2 = false → active = c.ordered.landing source)
    (deeds : List (Deed V)) :
    ∃ leaf, m'.table.settled = some leaf ∧
      c.follow (n + 1) source target action (c.ordered.program.walker m active deeds) =
        some (c.ordered.program.walker m' leaf (deeds ++ deedsOf journal)) := by
  induction hexec generalizing source target action deeds with
  | @settle n m active q plan m₁ s ht hsettle =>
    obtain rfl : plan = c.ordered.plan (.move source target action) :=
      Option.some.inj (ht.plan_eq.symm.trans hq)
    rw [h.next_move ha action, continuation_eq] at hsettle
    cases honward : c.onward target with
    | some r => simp [honward] at hsettle
    | none =>
      obtain rfl : c.landing target = s := by simpa [honward] using hsettle
      refine ⟨c.landing target, rfl, ?_⟩
      simp only [follow, h.go_walker ha ht hactive, Option.bind_eq_bind, Option.bind_some, honward,
        Option.pure_def]
      simp [Program.walker, Walker.log, deedsOf, Occurrence.deed?]
  | @pass n m active q plan m₁ r row m' rest ht hpseudo hr hrest ih =>
    obtain rfl : plan = c.ordered.plan (.move source target action) :=
      Option.some.inj (ht.plan_eq.symm.trans hq)
    have harrives := ht.fits.next
    rw [hpseudo] at harrives
    obtain ⟨row', hrow', hcont, hk⟩ := harrives
    obtain rfl : row' = row := Option.some.inj (hrow'.symm.trans hr)
    rw [h.next_move ha action, continuation_eq] at hpseudo
    cases honward : c.onward target with
    | none => simp [honward] at hpseudo
    | some r' =>
      obtain rfl : r' = r := by simpa [honward] using hpseudo
      have hplace := h.arrival_move ha action hactive
      rw [landing_ordered] at hplace
      obtain ⟨hland, target', action', ⟨hway, hplan'⟩, ha'⟩ := h.exists_leavesFor hroot hr hk
        (m := m₁) (w := c.ordered.program.walker m₁ (c.landing target) (deeds ++ deedsOf
          (c.ordered.program.travel q (c.ordered.plan (.move source target action)) active
            m.vars).2)) rfl rfl
      obtain ⟨leaf, hsettled, hfollow⟩ := ih ha' hplan' (fun _ => hcont.symm.trans hland)
        ((deeds ++ deedsOf (c.ordered.program.travel q
          (c.ordered.plan (.move source target action)) active m.vars).2) ++
            deedsOf ((firstOpen r' m₁ row'.branches 0).2 ++ [.passed r' (choiceAt row' r' m₁)]))
      rw [hplace] at hfollow
      refine ⟨leaf, hsettled, ?_⟩
      rw [follow, h.go_walker ha ht hactive]
      simp only [Option.bind_eq_bind, Option.bind_some, honward, hway]
      rw [deedsOf_append, deedsOf_append, ← List.append_assoc, ← List.append_assoc]
      exact hfollow

/-! ## Events -/

variable (hp : c.ordered.program.Sound)

include hp

/-- The behaviors of one state, tried by the machine and in the tree. -/
theorem Prepared.exists_offer {s : StateId} {e : EventId} {node : StateNode V}
    (hs : c.ordered.states[s]? = some node) {bs : List (Behavior V)}
    (hbs : ∀ b ∈ bs, b ∈ node.behaviors.toList) {rows : List (BehaviorRow V)}
    (hrows : List.Forall₂
      (fun b row => b.CompiledTo c.ordered c.ordered.program.plans s row) bs rows)
    {m : Machine V} {leaf : StateId} (hm : m.Settled c.ordered.program leaf)
    (hleaf : s ∈ c.ordered.program.hierarchy.ancestors leaf) (result : SendResult) (kept : Bool)
    (deeds : List (Deed V)) :
    ∃ m' leaf' journal result' kept',
      c.ordered.program.runBehaviors s e rows m result kept = some (m', journal, result', kept') ∧
      c.offer s e bs (c.ordered.program.walker m leaf deeds) result kept =
        some (c.ordered.program.walker m' leaf' (deeds ++ deedsOf journal), result', kept') ∧
      m'.Settled c.ordered.program leaf' ∧ (kept' = false → leaf' = leaf) := by
  induction hrows generalizing m result kept deeds with
  | nil => exact ⟨m, leaf, [], result, kept, rfl, by simp [offer], hm, fun _ => rfl⟩
  | @cons b row bs rows hrow hrest ih =>
    obtain ⟨hguard, heffect⟩ := hrow
    have hrest := fun b' hb' => hbs b' (List.mem_cons_of_mem b hb')
    have hopens := (c.ordered.program.walker m leaf deeds).opens_eq (.behavior s e) b.guard
    have htest := (c.ordered.program.walker m leaf deeds).test_eq (.behavior s e) b.guard
    change _ = (testGuard (.behavior s e) b.guard m.vars).1 at hopens
    change _ = Walker.after _ (m.vars, (testGuard (.behavior s e) b.guard m.vars).2) at htest
    rcases hguards : testGuard (.behavior s e) b.guard m.vars with ⟨isOpen, tested⟩
    rw [hguards] at hopens htest
    cases isOpen with
    | false =>
      obtain ⟨m', leaf', journal, result', kept', hrun, hoffer, hm', hstay⟩ :=
        ih hrest hm result kept (deeds ++ deedsOf tested)
      refine ⟨m', leaf', tested ++ journal, result', kept', ?_, ?_, hm', hstay⟩
      · simp [Program.runBehaviors, hguard, hguards, hrun]
      · rw [offer, hopens, htest, deedsOf_append, ← List.append_assoc]
        exact hoffer
    | true =>
      cases htarget : b.target with
      | some t =>
        rw [htarget] at heffect
        obtain ⟨q, heffect, hq⟩ := heffect
        have ha := h.admits_of_mem_behaviors hroot hs (hbs b List.mem_cons_self) htarget
        have hfits := (h.fits_move ha b.action).below (h.isSome_exitTo ha b.action) hleaf
        obtain ⟨m', moved, hexec, hruns⟩ := hp.exists_execute hm.toAt hq hfits
        obtain ⟨leaf', hsettled, hfollow⟩ := h.follow_eq hroot hruns ha hq
          (fun hstays => by simp [sourceAnchor] at hstays)
          ((deeds ++ deedsOf tested) ++ [.fired s true])
        obtain ⟨s', hs'⟩ := hruns.exists_settled
        obtain rfl : s' = leaf' := Option.some.inj (hs'.settled.symm.trans hsettled)
        rw [size_pseudostates_program, size_pseudostates_ordered] at hfollow
        refine ⟨m', s', tested ++ .fired s e (some q) :: moved, .transitioned, true, ?_, ?_, hs',
          by simp⟩
        · simp [Program.runBehaviors, hguard, hguards, heffect, hexec]
        · have hwalker : ((c.ordered.program.walker m leaf deeds).after (m.vars, tested)).log
              [.fired s true] = c.ordered.program.walker m leaf
                ((deeds ++ deedsOf tested) ++ [.fired s true]) := rfl
          simp only [offer, hopens, if_true, htarget, htest, hwalker, hfollow, Option.bind_eq_bind,
            Option.bind_some, Option.pure_def]
          simp [deedsOf, Occurrence.deed?]
      | none =>
        rw [htarget] at heffect
        have hacts := (((c.ordered.program.walker m leaf deeds).after (m.vars, tested)).log
          [.fired s false]).act_eq (.behavior s e) b.action
        change _ = Walker.after _ (runAction (.behavior s e) b.action m.vars) at hacts
        rcases hact : runAction (.behavior s e) b.action m.vars with ⟨vars, acted⟩
        rw [hact] at hacts
        obtain ⟨m', leaf', journal, result', kept', hrun, hoffer, hm', hstay⟩ :=
          ih hrest (hm.withVars vars) .handled (kept || b.consume.consumes vars e)
            ((((deeds ++ deedsOf tested) ++ [.fired s false]) ++ deedsOf acted) ++
              [.consulted (b.consume.consumes vars e) (b.consume.remarks vars)])
        refine ⟨m', leaf', tested ++ .fired s e none :: acted ++ [.consulted s e
          (b.consume.consumes vars e) (b.consume.remarks vars)] ++ journal, result', kept', ?_, ?_,
          hm', hstay⟩
        · simp [Program.runBehaviors, hguard, hguards, heffect, hact, Program.consult, hrun]
        · simp only [offer, hopens, if_true, htarget, htest, hacts, Walker.keeps_eq,
            Walker.consult_eq]
          refine Eq.trans hoffer ?_
          simp [deedsOf, Occurrence.deed?]

/-- One state after the other. Where the tree is walked state by state, the machine skips those that
have no behavior on the event. -/
theorem Prepared.exists_visit (hfit : c.ordered.SpansFit) {e : EventId} (he : e < c.events.size)
    {n : Nat} {ss : List StateId} {m : Machine V} {leaf : StateId}
    (hm : m.Settled c.ordered.program leaf) (hss : ss <:+ c.hierarchy.ancestors leaf)
    (hn : ∀ s ∈ ss, s < n) (result : SendResult) (deeds : List (Deed V)) :
    ∃ m' leaf' journal result',
      c.ordered.program.bubble e n (ss.find? (c.ordered.handles e)) m result =
        some (m', journal, result') ∧
      c.visit e ss (c.ordered.program.walker m leaf deeds) result =
        some (c.ordered.program.walker m' leaf' (deeds ++ deedsOf journal), result') ∧
      m'.Settled c.ordered.program leaf' := by
  induction ss generalizing n m result deeds with
  | nil =>
    refine ⟨m, leaf, [], result, ?_, by simp [visit], hm⟩
    cases n <;> rfl
  | cons s ss ih =>
    have hmem : s ∈ c.hierarchy.ancestors leaf := hss.subset List.mem_cons_self
    have hrest : ss <:+ c.hierarchy.ancestors leaf := (List.suffix_cons s ss).trans hss
    have htail : ss = (c.hierarchy.ancestors s).tail := by
      rw [← Hierarchy.eq_ancestors_of_suffix hss, List.tail_cons]
    have hlt : s < c.states.size := by
      have hle := Hierarchy.le_of_mem_ancestors hmem
      have hleaf := hm.lt
      rw [size_states_program, size_states_ordered] at hleaf
      lia
    have hnode := Array.getElem?_eq_getElem hlt
    have hnode' := c.getElem?_states_ordered_eq_some hnode
    have hbehaviors : c.behaviorsOn s (.event e) = c.states[s].ordered.onEvent e :=
      behaviorsOn_eq hnode (.event e)
    have hhandles : c.ordered.handles e s = !(c.states[s].ordered.onEvent e).isEmpty := by
      rw [handles, hnode', Option.any_some]
    cases hempty : (c.states[s].ordered.onEvent e).isEmpty with
    | true =>
      rw [List.find?_cons_of_neg (by rw [hhandles, hempty]; simp)]
      obtain ⟨m', leaf', journal, result', hbubble, hvisit, hm'⟩ :=
        ih hm hrest (fun x hx => hn x (List.mem_cons_of_mem s hx)) result deeds
      refine ⟨m', leaf', journal, result', hbubble, ?_, hm'⟩
      simp [visit, hbehaviors, List.isEmpty_iff.1 hempty, offer, hvisit]
    | false =>
      rw [List.find?_cons_of_pos (by rw [hhandles, hempty]; rfl)]
      obtain ⟨n, rfl⟩ : ∃ k, n = k + 1 := ⟨n - 1, by have := hn s List.mem_cons_self; lia⟩
      have he' : e < c.ordered.events.size := he
      obtain ⟨rows, hrows, hcompiled⟩ := exists_behaviors hfit hnode' he'
      have hnext : c.ordered.program.nextAncestor? s e = some (ss.find? (c.ordered.handles e)) := by
        rw [nextAncestor?_program (by simpa using hlt) he', hierarchy_ordered, htail]
      have hdeclared : ∀ b ∈ c.states[s].ordered.onEvent e,
          b ∈ c.states[s].ordered.behaviors.toList := fun b hb => (List.mem_filter.1 hb).1
      obtain ⟨m₁, leaf₁, first, result₁, kept, hrun, hoffer, hm₁, hstay⟩ :=
        h.exists_offer hroot hp hnode' hdeclared hcompiled hm (e := e) (by simpa using hmem) result
          false deeds
      rw [← hbehaviors] at hoffer
      cases kept with
      | true =>
        refine ⟨m₁, leaf₁, first, result₁, ?_, ?_, hm₁⟩
        · simp [Program.bubble, Program.handle, hnext, hrows, hrun]
        · simp [visit, hoffer]
      | false =>
        obtain rfl := hstay rfl
        have hlower : ∀ x ∈ ss, x < n := by
          intro x hx
          rw [htail] at hx
          obtain ⟨hx, hne⟩ := Hierarchy.mem_tail_ancestors.1 hx
          have hle := Hierarchy.le_of_mem_ancestors hx
          have hsn := hn s List.mem_cons_self
          lia
        obtain ⟨m', leaf', rest, result', hbubble, hvisit, hm'⟩ :=
          ih hm₁ hrest hlower result₁ (deeds ++ deedsOf first)
        refine ⟨m', leaf', first ++ rest, result', ?_, ?_, hm'⟩
        · simp [Program.bubble, Program.handle, hnext, hrows, hrun, hbubble]
        · simp only [visit, hoffer, Option.bind_eq_bind, Option.bind_some, Bool.false_eq_true,
            if_false, hvisit]
          simp

end Chart

namespace Chart

variable {c : Chart V} {p : Program V} {m : Machine V} {leaf : StateId} {e : EventId}

/-- At rest, the state that is offered an event first is the innermost one that handles it. -/
theorem handler_of_settled (hm : m.Settled c.ordered.program leaf) (he : e < c.events.size) :
    m.table.handler e = (c.hierarchy.ancestors leaf).find? (c.ordered.handles e) := by
  have he' : e < c.ordered.events.size := he
  have hrow := hm.handlers
  rw [handlerRow?_program (size_states_program c.ordered ▸ hm.lt)] at hrow
  rw [DispatchTable.handler, ← Option.some.inj hrow, getElem?_handlersOn _ he', hierarchy_ordered]
  rfl

/-- A machine at rest reacts to an event as the tree is walked. -/
theorem Linked.exists_dispatch (hc : c.Linked) (h : c.compile = .ok p) (hm : m.Settled p leaf)
    (he : e < c.events.size) (deeds : List (Deed V)) :
    ∃ m' journal result leaf', p.dispatch m e = some (m', journal, result) ∧
      m'.Settled p leaf' ∧
      c.react e (p.walker m leaf deeds) =
        some (p.walker m' leaf' (deeds ++ deedsOf journal), result) := by
  have hp := hc.sound_of_compile h
  have hw := hc.wellFormed_of_compile h
  have hfit := spansFit_of_compile h
  obtain ⟨-, -, rfl⟩ := compile_eq_ok_iff.1 h
  obtain ⟨m', leaf', journal, result, hbubble, hvisit, hm'⟩ :=
    (hw.prepared hc).exists_visit (rootUntargeted_ordered.2 hw.root) hp hfit he hm
      (List.suffix_refl _) (n := c.ordered.program.states.size)
      (fun s hs => Nat.lt_of_le_of_lt (Hierarchy.le_of_mem_ancestors hs) hm.lt) .noMatch deeds
  refine ⟨m', .dispatched e :: journal, result, leaf', ?_, hm', hvisit⟩
  simp only [Program.dispatch, handler_of_settled hm he, hbubble, Option.bind_eq_bind,
    Option.bind_some, Option.pure_def]

/-- Dispatching an event through the tables does what walking the tree does: the same deeds in the
same order, the same variables, memory and place afterwards, and the same result. -/
theorem dispatch_refines_react (hc : c.Drafted) (h : c.compile = .ok p) {vars : V}
    {commands : List (Command V)} {m : Machine V} {leaf : StateId}
    (hrun : p.performAll (p.machine vars) commands = some m)
    (hleaf : m.table.settled = some leaf) {e : EventId} (he : e < c.events.size) :
    ∃ m' journal result, p.dispatch m e = some (m', journal, result) ∧
      ∃ leaf', m'.table.settled = some leaf' ∧
        c.react e ⟨m.vars, leaf, p.recall m.history, []⟩ =
          some (⟨m'.vars, leaf', p.recall m'.history, deedsOf journal⟩, result) := by
  have hm := (hc.linked.sound_of_compile h).settled_of_performAll hrun hleaf
  obtain ⟨m', journal, result, leaf', hdispatch, hm', hreact⟩ :=
    hc.linked.exists_dispatch h hm he []
  exact ⟨m', journal, result, hdispatch, leaf', hm'.settled, hreact⟩

def jot (digit : Nat) : Clause Nat := .action ⟨(· * 10 + digit), fun _ => []⟩

def porchCalls : List (Draft.Call Nat) :=
  [.event "ring", .event "leave", .state "House" rootState, .state "Hall" 1, .state "Porch" 2,
    .state "Yard" rootState, .pseudostate rootState .initial none, .branch 0 [.to (.state 3)]] ++
  [doEvent, 1, 2].flatMap fun e =>
    [.on 3 e [jot 2, .consume (.when ⟨(· < 10), fun _ => ["few"]⟩)],
      .on 3 e [.order "1", jot 1, .consume .never], .on 1 e [.when ⟨(· == 0), fun _ => []⟩, jot 9],
      .on 1 e (if e = 2 then [jot 3, .to (.state 4)] else [jot 3]), .on rootState e [jot 4]]

/-- A chart that notes which of its behaviors have run, in their order. The innermost state keeps
nothing, the one around it has no behaviors, and the next one says nothing of what it keeps. -/
def porch : Chart Nat := (Draft.ofCalls "porch" porchCalls).chart

theorem porch_drafted : porch.Drafted := Draft.drafted_of_fault (by decide +kernel)

/-- An event, what is noted on it, where the machine is afterwards, and the result. -/
def porchRuns : List (EventId × Nat × StateId × SendResult) :=
  [(doEvent, 1234, 3, .handled), (1, 123, 3, .handled), (2, 123, 4, .transitioned)]

theorem porch_runs : ∀ run ∈ porchRuns, run.1 < porch.events.size ∧
    (do
      let p ← porch.compile.toOption
      let m ← p.performAll (p.machine 0) [.start]
      let (m', _, result) ← p.dispatch m run.1
      return (m.table.settled, m'.vars, m'.table.settled, result)) =
      some (some 3, run.2.1, some run.2.2.1, run.2.2.2) := by decide +kernel

/-- Only `doEvent` gets past the state that says nothing of what it keeps. -/
theorem porch_dispatch_refines_react :
    ∃ p m, porch.compile = .ok p ∧ p.performAll (p.machine 0) [.start] = some m ∧
      ∀ run ∈ porchRuns, ∃ m' journal, run.1 < porch.events.size ∧
        p.dispatch m run.1 = some (m', journal, run.2.2.2) ∧ m'.vars = run.2.1 ∧
        porch.react run.1 ⟨m.vars, 3, p.recall m.history, []⟩ =
          some (⟨m'.vars, run.2.2.1, p.recall m'.history, deedsOf journal⟩, run.2.2.2) := by
  have hall := porch_runs
  simp only [Option.bind_eq_bind, Option.bind_eq_some_iff, Prod.exists, Option.pure_def,
    Option.some.injEq, Prod.mk.injEq] at hall
  obtain ⟨-, p, hp, m, hrun, -⟩ := hall _ List.mem_cons_self
  have hcompile := eq_ok_of_toOption hp
  refine ⟨p, m, hcompile, hrun, fun run hmem => ?_⟩
  obtain ⟨he, p', hp', m₁, hrun', m', journal, result, hdispatch, hleaf, hvars, hsettled, rfl⟩ :=
    hall run hmem
  obtain rfl : p = p' := Option.some.inj (hp.symm.trans hp')
  obtain rfl : m = m₁ := Option.some.inj (hrun.symm.trans hrun')
  obtain ⟨m'', journal', result', hdispatch', leaf', hsettled', hreact⟩ :=
    dispatch_refines_react porch_drafted hcompile hrun hleaf he
  obtain ⟨rfl, rfl, rfl⟩ : m' = m'' ∧ journal = journal' ∧ run.2.2.2 = result' := by
    simpa using hdispatch.symm.trans hdispatch'
  obtain rfl : run.2.2.1 = leaf' := Option.some.inj (hsettled.symm.trans hsettled')
  exact ⟨m', journal, he, hdispatch, hvars, hreact⟩

end Chart

end Statechart
