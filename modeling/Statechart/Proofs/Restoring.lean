import Statechart.Proofs.Completion
import Statechart.Proofs.Recording

/-
  A history restores what was left. The journal of a run tells what was stored whenever a
  pseudostate was evaluated (`Program.Traced`). A history changes only when a state inside its
  container is entered (`recall_stored`), so until then it leads back to the state that it recorded
  when the machine was last at rest inside: by the plan that enters the states down to it and goes
  on from there (`Prepared.exists_restoring_plan`).
-/

namespace Statechart

variable {V : Type}

namespace Program

variable {p : Program V} {m m' : Machine V} {store : HistoryStore} {journal : Journal V}

/-! ## When a pseudostate is evaluated -/

/-- The pseudostate `r` is evaluated in `m`: the plan with number `q` is selected and executed,
until the machine is `m'`. From then on `rest` happens. -/
structure Evaluates (p : Program V) (m : Machine V) (r : PseudoId) (choice : Option Nat)
    (q : PlanId) (m' : Machine V) (rest : Journal V) : Prop where
  select : ∃ tested, p.select m r = some (q, tested ++ [.passed r choice])
  runs : ∃ passed moved after, p.Runs m q passed m' moved ∧ rest = moved ++ after

/-- Wherever the journal tells that a pseudostate was passed, it was evaluated in a machine that had
stored what the journal tells up to there. -/
def Traced (p : Program V) (store : HistoryStore) (journal : Journal V) : Prop :=
  ∀ first r choice rest, journal = first ++ .passed r choice :: rest →
    ∃ row m n active m' moved after, p.pseudostates[r]? = some row ∧
      m.history = p.stored store first ∧ choice = choiceAt row r m ∧
      p.Executes n m active (row.planOf choice) m' moved ∧ rest = moved ++ after

theorem traced_of_passed? (h : journal.filterMap Occurrence.passed? = []) :
    p.Traced store journal := by
  intro first r choice rest heq
  have hmem : r ∈ journal.filterMap Occurrence.passed? :=
    mem_filterMap_passed?.2 ⟨choice, by simp [heq]⟩
  rw [h] at hmem
  cases hmem

theorem Traced.append {first rest : Journal V} (hfirst : p.Traced store first)
    (hrest : p.Traced (p.stored store first) rest) : p.Traced store (first ++ rest) := by
  intro before r choice after heq
  rcases List.append_eq_append_iff.1 heq with ⟨more, rfl, hmore⟩ | ⟨more, rfl, hmore⟩
  · rw [stored_append]
    exact hrest more r choice after hmore
  · cases more with
    | nil =>
      rw [List.nil_append] at hmore
      rw [List.append_nil] at hrest
      exact hrest [] r choice after hmore.symm
    | cons o more =>
      obtain ⟨rfl, rfl⟩ := List.cons.inj hmore
      obtain ⟨row, m, n, active, m', moved, after, hr, hstore, hchoice, hexec, rfl⟩ :=
        hfirst before r choice more rfl
      exact ⟨row, m, n, active, m', moved, after ++ rest, hr, hstore, hchoice, hexec,
        List.append_assoc _ _ _⟩

/-- The moment itself. -/
theorem Executes.traced_cons {n : Nat} {active : StateId} {r : PseudoId} {row : PseudoRow V}
    (hr : p.pseudostates[r]? = some row)
    (hexec : p.Executes n m active (row.planOf (choiceAt row r m)) m' journal)
    (h : p.Traced m.history journal) :
    p.Traced m.history (.passed r (choiceAt row r m) :: journal) := by
  intro first r' choice rest heq
  cases first with
  | nil =>
    obtain ⟨hpassed, rfl⟩ := List.cons.inj heq
    obtain ⟨rfl, rfl⟩ := Occurrence.passed.inj hpassed
    exact ⟨row, m, n, active, m', journal, [], hr, rfl, rfl, hexec, (List.append_nil _).symm⟩
  | cons o first =>
    obtain ⟨rfl, rfl⟩ := List.cons.inj heq
    exact h first r' choice rest rfl

theorem Executes.traced {n : Nat} {active : StateId} {q : PlanId}
    (h : p.Executes n m active q m' journal) : p.Traced m.history journal := by
  induction h with
  | settle h hnext =>
    refine traced_of_passed? ?_
    rw [List.filterMap_append, filterMap_passed?_travel]
    rfl
  | @pass n m active q plan m₁ r row m' rest h hnext hr hrest ih =>
    rw [List.append_assoc, List.append_assoc]
    refine (traced_of_passed? (filterMap_passed?_travel ..)).append ?_
    rw [stored_travel, ← h.history]
    refine (traced_of_passed? (filterMap_passed?_firstOpen ..)).append ?_
    rw [stored_firstOpen]
    exact hrest.traced_cons hr ih

/-- A plan that settles ends the transition. -/
theorem Executes.settled_eq {n : Nat} {active s : StateId} {q : PlanId} {plan : Plan V}
    (h : p.Executes n m active q m' journal) (hplan : p.plans[q]? = some plan)
    (hnext : plan.next = .settle s) : m'.table.settled = some s := by
  cases h with
  | settle h hsettle =>
    obtain rfl := Option.some.inj (h.plan_eq.symm.trans hplan)
    rw [hnext] at hsettle
    obtain rfl := Continuation.settle.inj hsettle
    rfl
  | pass h hpseudo _ _ =>
    obtain rfl := Option.some.inj (h.plan_eq.symm.trans hplan)
    rw [hnext] at hpseudo
    cases hpseudo

theorem Starts.traced (h : p.Starts m m' journal) : p.Traced m.history journal := by
  cases h with
  | @intro m₁ row _ moved henter hroot hhistory hr hk hexec =>
    rw [List.append_assoc, List.append_assoc]
    refine Traced.append (traced_of_passed? ?_) ?_
    · exact List.filterMap_eq_nil_iff.2 (List.forall_mem_cons.2 ⟨rfl, List.forall_mem_cons.2 ⟨rfl,
        forall_mem_runBoundary (P := fun o => o.passed? = none) (fun _ _ _ => rfl)
          (fun _ _ => rfl) _ _⟩⟩)
    · rw [stored_started, ← hhistory]
      refine (traced_of_passed? (filterMap_passed?_firstOpen ..)).append ?_
      rw [stored_firstOpen]
      exact hexec.traced_cons hr hexec.traced

theorem traced_of_quiet (h : ∀ o ∈ journal, o.quiet) : p.Traced store journal := by
  refine traced_of_passed? (List.filterMap_eq_nil_iff.2 fun o ho => ?_)
  have hquiet := h o ho
  cases o <;> simp_all [Occurrence.quiet, Occurrence.passed?]

theorem Outcome.traced {leaf : StateId} {moved : Bool} (h : p.Outcome leaf m m' journal moved) :
    p.Traced m.history journal := by
  cases h with
  | stay vars hquiet => exact traced_of_quiet hquiet
  | @move vars s e q _ before moved hquiet hexec =>
    refine (traced_of_quiet hquiet).append ?_
    rw [p.stored_of_forall _ fun o ho => entered?_of_quiet (hquiet o ho)]
    have hfired : p.Traced m.history [.fired s e (some q)] := traced_of_passed? rfl
    exact hfired.append hexec.traced

theorem Performs.traced {command : Command V} (h : p.Performs m command m' journal) :
    p.Traced m.history journal := by
  cases h with
  | start _ h => exact h.traced
  | unheard e _ => exact traced_of_passed? rfl
  | dispatch e _ h => exact h.traced
  | clear => exact traced_of_passed? rfl
  | assign change => exact traced_of_passed? rfl

theorem PerformsAll.traced {commands : List (Command V)}
    (h : p.PerformsAll m commands m' journal) (hclear : ∀ x ∈ commands, ¬ x.clears) :
    p.Traced m.history journal := by
  induction h with
  | nil => exact traced_of_passed? rfl
  | cons h hrest ih =>
    refine h.traced.append ?_
    rw [← h.history_eq (hclear _ List.mem_cons_self)]
    exact ih fun x hx => hclear x (List.mem_cons_of_mem _ hx)

end Program

/-- The plan leads from a history in `container`, whose only branch is `default`, back to `t`: it
enters the states from a child of the container down to `t` and goes on from there. It has the
action of the branch only if that leads to `t` as well. -/
structure Plan.Restores (plan : Plan V) (p : Program V) (container t : StateId)
    (default : Branch V) : Prop where
  exitTo : plan.exitTo = some container
  enter : plan.enter = (p.hierarchy.chain t container).reverse
  next : plan.next = p.continuationInto t
  action : plan.action = if default.target = some (.state t) then default.action else none

namespace Chart

variable {c : Chart V} {m : Machine V} {r : PseudoId} {store : HistoryStore} {t : StateId}

/-! ## What a history recalls -/

/-- A history forgets nothing while no state is entered that it tracks. -/
theorem Linked.recall_stored (hc : c.Linked) (hstore : store.values.size = c.program.histories.size)
    {journal : Journal V} (h : ∀ s, .entered s ∈ journal → ¬ c.remembers r s) :
    c.program.recall (c.program.stored store journal) r = c.program.recall store r := by
  have hpath : ∀ s ∈ journal.filterMap Occurrence.entered?, ¬ c.remembers r s := by
    intro s hs
    obtain ⟨o, ho, hentered⟩ := List.mem_filterMap.1 hs
    cases o with
    | entered s' => exact Option.some.inj hentered ▸ h s' ho
    | _ => cases hentered
  unfold Program.stored
  generalize journal.filterMap Occurrence.entered? = path at hpath
  induction path generalizing store with
  | nil => rfl
  | cons s path ih =>
    rw [List.foldl_cons, ih ((Program.size_remember _ _ _).trans hstore)
      fun s' hs' => hpath s' (List.mem_cons_of_mem _ hs')]
    by_cases hlt : s < c.states.size
    · rw [hc.recall_remember hlt hstore, note, if_neg (hpath s List.mem_cons_self)]
    · have hnone : c.program.states[s]? = none := by
        rw [Array.getElem?_eq_none]
        rw [size_states_program]
        exact Nat.le_of_not_lt hlt
      rw [Program.remember, hnone]
      rfl

/-- A history that recalls `t` is left by a plan that restores it. -/
theorem Prepared.exists_restoring_plan (h : c.Prepared) (hroot : c.RootUntargeted)
    {node : PseudoNode V} {depth : HistoryDepth} {b : Branch V} {row : PseudoRow V}
    (hr : c.pseudostates[r]? = some node) (hk : node.kind = .history depth)
    (hb : node.branches.toList = [b]) (hrow : c.program.pseudostates[r]? = some row)
    (hrecall : c.program.recall m.history r = some t)
    (ht : node.container ∈ (c.hierarchy.ancestors t).tail) :
    ∃ plan, c.program.plans[row.planOf (Program.choiceAt row r m)]? = some plan ∧
      plan.Restores c.program node.container t b := by
  obtain ⟨row', hrow', hcompiled⟩ := exists_pseudoRow hr c.getElem?_plans
  obtain rfl := Option.some.inj (hrow'.symm.trans hrow)
  obtain ⟨-, request, hmem, hplan, hrequest⟩ := planOf_history hr hk hb hcompiled m
  have hmove : request = .move (.pseudo r) (.state t)
      (if b.target = some (.state t) then b.action else none) := by
    rw [hrequest, hrecall]
    by_cases htarget : b.target = some (.state t)
    · have hlast : node.branches.toList.getLast? = some b := by rw [hb]; rfl
      rw [Option.filter_some, if_neg (by simp [htarget]), if_pos htarget]
      exact (PseudoNode.fallback_eq (by simp [hk]) hlast).trans (PseudoNode.request_eq htarget)
    · rw [Option.filter_some, if_pos (by simpa using htarget), if_neg htarget]
  subst hmove
  obtain ⟨target, action, heq, ha⟩ :=
    h.admits_of_mem_requests hroot hr (by simp [hk]) hmem
  obtain ⟨-, rfl, rfl⟩ := Request.move.inj heq
  obtain ⟨way, hway, hplan', -⟩ := h.exists_way ha
    (if b.target = some (.state t) then b.action else none)
  have hsource : c.sourceAnchor (.pseudo r) = (.inside node.container, true) := by
    simp [sourceAnchor, kind?, hr, hk, containerOf_eq_of_getElem? hr]
  -- The container lies above the state, so the way turns in the container.
  obtain ⟨habove, hne⟩ := Hierarchy.mem_tail_ancestors.1 ht
  obtain ⟨hpath, henter⟩ := Hierarchy.path_ok_inv hway
  rw [hsource, Hierarchy.turn_below habove hne] at hpath
  have hturn : way.turn = node.container := (Except.ok.inj hpath).symm
  refine ⟨_, hplan, ?_, ?_, ?_, ?_⟩
  · rw [hplan', hsource, hturn]
    rfl
  · rw [hplan', henter, hturn, hierarchy_program]
    rfl
  · rw [hplan', continuationInto_program]
  · rw [hplan']

variable {p : Program V}

/-- The only branch of a history. -/
theorem Prepared.exists_default (h : c.ordered.Prepared) {slot : HistorySlot}
    (hslot : c.ordered.historySlot? slot.pseudo = some slot) :
    ∃ node default, c.pseudostates[slot.pseudo]? = some node ∧ node.kind = .history slot.depth ∧
      node.container = slot.container ∧ node.branches.toList = [default] ∧
      node.ordered.branches.toList = [default] := by
  obtain ⟨ordered, depth, hr, hk, heq⟩ := historySlot?_eq_some_iff.1 hslot
  have hmem := Array.mem_toList_iff.2 (Array.mem_of_getElem? hr)
  obtain ⟨default, -, hsole, -⟩ :=
    (h.rules ordered hmem).exists_sole (.inr (by simp [hk, PseudoKind.isHistory]))
  rw [getElem?_pseudostates_ordered, Option.map_eq_some_iff] at hr
  obtain ⟨node, hnode, rfl⟩ := hr
  have hperm := byPriority_perm (·.priority) node.branches.toList
  rw [← PseudoNode.toList_branches_ordered, hsole] at hperm
  refine ⟨node, default, hnode, ?_, ?_, (List.singleton_perm.1 hperm).symm, hsole⟩
  · rw [← PseudoNode.kind_ordered, hk, heq]
  · rw [heq]
    rfl

/-- History restores what was left. Let a machine be at rest in `leaf`, strictly inside the
container of a history, and let it be used after that in whatever way, short of clearing its
histories, without entering a state inside the container. Then the history leads back to the
innermost state at or above `leaf` that it tracks, and a deep history to `leaf` itself, where the
transition is complete. -/
theorem history_restores (hc : c.Drafted) (hcompile : c.compile = .ok p) {vars : V}
    {before later : List (Command V)} {m m' : Machine V} {leaf : StateId} {h : HistoryId}
    {slot : HistorySlot} {choice : Option Nat} {first rest : Journal V}
    (hslot : p.histories[h]? = some slot) (hbefore : ∀ x ∈ before, ¬ x.clears)
    (hrun : p.performAll (p.machine vars) before = some m)
    (hleaf : m.table.settled = some leaf)
    (hinside : slot.container ∈ (c.hierarchy.ancestors leaf).tail)
    (hlater : ∀ x ∈ later, ¬ x.clears)
    (hrecord : p.recordAll m later = some (m', first ++ .passed slot.pseudo choice :: rest))
    (houtside : ∀ s, .entered s ∈ first → slot.container ∉ (c.hierarchy.ancestors s).tail) :
    ∃ node default t m₁ q plan m₂,
      c.pseudostates[slot.pseudo]? = some node ∧ node.branches.toList = [default] ∧
      c.Innermost slot.container slot.depth leaf t ∧
      p.Evaluates m₁ slot.pseudo choice q m₂ rest ∧ p.plans[q]? = some plan ∧
      plan.Restores p slot.container t default ∧
      (slot.depth = .deep → t = leaf ∧ m₂.table.settled = some leaf) := by
  have hp := hc.linked.sound_of_compile hcompile
  have hw := hc.linked.wellFormed_of_compile hcompile
  have hprepared := hw.prepared hc.linked
  obtain ⟨hrecorded, -⟩ := hc.linked.recorded_of_compile hcompile hbefore hrun
  have hsettled := hp.settled_of_performAll hrun hleaf
  obtain ⟨hperforms, -⟩ := hp.performsAll (.inr ⟨leaf, hsettled⟩) hrecord
  obtain ⟨row, m₁, n, active, m₂, moved, after, hrow, hhistory, rfl, hexec, hrest⟩ :=
    hperforms.traced hlater first slot.pseudo choice rest rfl
  obtain ⟨-, -, rfl⟩ := compile_eq_ok_iff.1 hcompile
  have hslot? := mem_historySlots.1 (Array.mem_of_getElem? hslot)
  obtain ⟨t, ht⟩ : ∃ t, c.Innermost slot.container slot.depth leaf t := exists_innermost hinside
  -- Nothing that the history tracks was entered, so it still recalls what it recorded.
  have hrecall : c.ordered.program.recall m₁.history slot.pseudo = some t := by
    rw [hhistory, hc.linked.ordered.recall_stored hsettled.store fun s hs hremembers => ?_]
    · exact (hrecorded leaf hleaf).memory_eq hslot? (innermost_ordered.2 ht)
    · have htracks := (remembers_iff_of_historySlot? hslot?).1 hremembers
      rw [tracks_ordered] at htracks
      exact houtside s hs htracks.1
  obtain ⟨node, default, hnode, hk, hcontainer, hbranches, hsole⟩ :=
    hprepared.exists_default hslot?
  have hr : c.ordered.pseudostates[slot.pseudo]? = some node.ordered := by
    rw [getElem?_pseudostates_ordered, hnode, Option.map_some]
  have habove : node.ordered.container ∈ (c.ordered.hierarchy.ancestors t).tail := by
    rw [PseudoNode.container_ordered, hcontainer, hierarchy_ordered]
    exact ht.tracks.1
  obtain ⟨plan, hplan, hrestores⟩ := hprepared.exists_restoring_plan
    (rootUntargeted_ordered.2 hw.root) hr hk hsole hrow hrecall habove
  rw [PseudoNode.container_ordered, hcontainer] at hrestores
  refine ⟨node, default, t, m₁, _, plan, m₂, hnode, hbranches, ht,
    ⟨⟨_, Program.select_eq m₁ hrow⟩, _, moved, after, hexec.runs, hrest⟩, hplan, hrestores,
    fun hdepth => ?_⟩
  obtain rfl := ht.eq_of_deep hdepth
  have hnext : plan.next = .settle t := by
    rw [hrestores.next, Program.continuationInto, hsettled.leaf]
  exact ⟨rfl, hexec.settled_eq hplan hnext⟩

/-- Two events later the history is evaluated. Until then only the idle state and the container
itself were entered. -/
theorem relay_return :
    (do
      let p ← relay.compile.toOption
      let m ← p.performAll (p.machine 0) [.start, .dispatch 1]
      let slot ← p.histories[0]?
      let (_, journal) ← p.recordAll m [.dispatch 1, .dispatch 1]
      let passed ← journal[13]?
      return (slot.pseudo, passed.passed?, (journal.take 13).filterMap Occurrence.entered?)) =
      some (2, some 2, [1, 2]) := by decide +kernel

theorem relay_history_restores :
    ∃ p m m' slot choice first rest, relay.compile = .ok p ∧
      p.performAll (p.machine 0) [.start, .dispatch 1] = some m ∧ m.table.settled = some 4 ∧
      p.histories[0]? = some slot ∧ p.recordAll m [.dispatch 1, .dispatch 1] =
        some (m', first ++ .passed slot.pseudo choice :: rest) ∧
      ∃ default m₁ q plan m₂, p.Evaluates m₁ slot.pseudo choice q m₂ rest ∧
        p.plans[q]? = some plan ∧ plan.Restores p 2 4 default := by
  have hreturn := relay_return
  have hsecond := relay_second
  simp only [Option.bind_eq_bind, Option.bind_eq_some_iff, Prod.exists, Option.pure_def,
    Option.some.injEq, Prod.mk.injEq] at hreturn hsecond
  obtain ⟨p, hp, m, hrun, slot, hslot, m', journal, hrecord, o, ho, hpseudo, hpassed, hentered⟩ :=
    hreturn
  obtain ⟨p', hp', m'', hrun', slot', hslot', hleaf, hcontainer, hdepth⟩ := hsecond
  obtain rfl := Option.some.inj (hp.symm.trans hp')
  obtain rfl := Option.some.inj (hrun.symm.trans hrun')
  obtain rfl := Option.some.inj (hslot.symm.trans hslot')
  have hcompile := eq_ok_of_toOption hp
  obtain ⟨choice, rfl⟩ : ∃ choice, o = .passed slot.pseudo choice := by
    cases o with
    | passed r choice => exact ⟨choice, by rw [hpseudo, Option.some.inj hpassed]⟩
    | _ => cases hpassed
  have hsplit : journal = journal.take 13 ++ .passed slot.pseudo choice :: journal.drop 14 := by
    obtain ⟨hlt, hget⟩ := List.getElem?_eq_some_iff.1 ho
    rw [← hget, ← List.drop_eq_getElem_cons hlt, List.take_append_drop]
  rw [hsplit] at hrecord
  have houtside : ∀ s, .entered s ∈ journal.take 13 →
      slot.container ∉ (relay.hierarchy.ancestors s).tail := by
    intro s hs
    have hmem : s ∈ (journal.take 13).filterMap Occurrence.entered? :=
      List.mem_filterMap.2 ⟨_, hs, rfl⟩
    rw [hentered] at hmem
    rw [hcontainer]
    have hall : ∀ s ∈ [1, 2], 2 ∉ (relay.hierarchy.ancestors s).tail := by decide +kernel
    exact hall s hmem
  have hinside : slot.container ∈ (relay.hierarchy.ancestors 4).tail := by
    rw [hcontainer]
    decide +kernel
  have hchild : relay.hierarchy.parent 4 = some slot.container := by
    rw [hcontainer]
    decide +kernel
  obtain ⟨node, default, t, m₁, q, plan, m₂, -, -, ht, hevaluates, hplan, hrestores, -⟩ :=
    history_restores relay_drafted hcompile hslot (by simp [Command.clears]) hrun hleaf hinside
      (by simp [Command.clears]) hrecord houtside
  obtain rfl := ht.eq_of_shallow hdepth (Hierarchy.self_mem_ancestors _ 4) hchild
    (by decide +kernel)
  exact ⟨p, m, m', slot, choice, _, _, hcompile, hrun, hleaf, hslot, hrecord, default, m₁, q, plan,
    m₂, hevaluates, hplan, hcontainer ▸ hrestores⟩

end Chart

end Statechart
