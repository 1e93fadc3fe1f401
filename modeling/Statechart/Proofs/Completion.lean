import Statechart.Proofs.InRange
import Statechart.Proofs.Resolution

/-
  Every run to completion ends. Three loops have no bound of their own: following a transition on
  the tables, executing plans until a state settles, and offering an event to one state after the
  other. The first two go on for as long as there is a pseudostate to pass, and every way through
  pseudostates goes down in rank (`exists_follow`, `Executes.nodup_passed`); the third only climbs
  (`Bubbles.sublist`). `Runs` and `Bubbles` are the loops of the machine without any bound, and
  `runs_to_completion` says that they come to an end from wherever a machine can be.
-/

namespace Statechart

variable {V : Type}

/-! ## On the tables -/

namespace Resolution

/-- Steps other than passing a pseudostate add none to those passed. -/
theorem pseudostates_prepend {steps : List Step} (hsteps : ∀ x ∈ steps, ¬ x.isPseudo)
    (r : Resolution) : ({ r with steps := steps ++ r.steps } : Resolution).pseudostates =
      r.pseudostates := by
  unfold pseudostates
  rw [List.filterMap_append, List.append_left_eq_self, List.filterMap_eq_nil_iff]
  intro x hx
  have hmoves := hsteps x hx
  cases x <;> simp_all [Step.isPseudo]

theorem pseudostates_cons {steps : List Step} (hsteps : ∀ x ∈ steps, ¬ x.isPseudo) (p : PseudoId)
    (leaf : StateId) (asked : List Question) (r : Resolution) :
    (⟨.pseudo p :: steps ++ r.steps, leaf, asked⟩ : Resolution).pseudostates =
      p :: r.pseudostates := by
  rw [← pseudostates_prepend hsteps r]
  rfl

end Resolution

/-- The target is there. -/
def Program.Names (p : Program V) : Vertex → Prop
  | .state s => s < p.states.size
  | .pseudo r => r < p.pseudostates.size

namespace Program

variable {p : Program V} {active leaf : StateId} {q : PlanId}

/-- A plan has steps wherever it is taken, none of which passes a pseudostate. -/
theorem Sound.exists_planSteps (hp : p.Sound) (hin : p.InRange) (hlt : active < p.states.size)
    {plan : Plan V} (hq : p.plans[q]? = some plan) :
    ∃ steps, p.planSteps active q = .ok (steps, plan.arrival active, plan.next) ∧
      (∀ x ∈ steps, ¬ x.isPseudo) ∧ plan.arrival active < p.states.size := by
  have hplan := hin.plans plan (Array.mem_of_getElem? hq)
  refine ⟨_, hp.planSteps_eq hlt hq, fun x hx => ?_, plan.arrival_lt hplan.exitTo hplan.enter hlt⟩
  simp only [List.mem_append, List.mem_map] at hx
  rcases hx with (⟨s, -, rfl⟩ | hx) | ⟨s, -, rfl⟩
  · simp [Step.isPseudo]
  · split at hx
    · rw [List.mem_singleton.1 hx]
      simp [Step.isPseudo]
    · simp at hx
  · simp [Step.isPseudo]

/-- Whatever is answered, following ends: each pseudostate ranks below the one before. -/
theorem Sound.exists_follow (hp : p.Sound) (hin : p.InRange) {rank : PseudoId → Nat}
    (hrank : p.Ranked rank) (decide : Decider) {n : Nat} (hlt : active < p.states.size)
    {next : Continuation}
    (hnext : ∀ r, next = .pseudo r → r < p.pseudostates.size ∧ rank r < n) (i : Nat) :
    ∃ rest, p.follow decide n active i next = .ok rest ∧ rest.pseudostates.Nodup ∧
      ∀ r ∈ rest.pseudostates, ∃ first, next = .pseudo first ∧ rank r ≤ rank first := by
  induction n generalizing active next i with
  | zero =>
    cases next with
    | settle s => exact ⟨_, follow_settle decide 0 active i s, by simp [Resolution.pseudostates]⟩
    | pseudo r => exact absurd (hnext r rfl).2 (Nat.not_lt_zero _)
  | succ n ih =>
    cases next with
    | settle s => exact ⟨_, follow_settle decide _ active i s, by simp [Resolution.pseudostates]⟩
    | pseudo r =>
      obtain ⟨hr, hn⟩ := hnext r rfl
      have hrow := Array.getElem?_eq_getElem hr
      generalize p.pseudostates[r] = row at hrow
      have hmem := row.planOf_mem_planIds (decide i ⟨r, row.branches.length⟩)
      obtain ⟨plan, hq⟩ : ∃ plan, p.plans[row.planOf (decide i ⟨r, row.branches.length⟩)]? =
          some plan :=
        ⟨_, Array.getElem?_eq_getElem (hin.branches row (Array.mem_of_getElem? hrow) _ hmem)⟩
      obtain ⟨steps, hsteps, hmoves, harrival⟩ := hp.exists_planSteps hin hlt hq
      have hdown : ∀ r', plan.next = .pseudo r' → rank r' < rank r := fun r' hr' =>
        hrank.2 hrow hmem hq hr'
      have hplan := hin.plans plan (Array.mem_of_getElem? hq)
      obtain ⟨rest, hrest, hnodup, hbelow⟩ := ih harrival (fun r' hr' => ⟨(hplan.pseudo r' hr').lt,
        Nat.lt_of_lt_of_le (hdown r' hr') (Nat.le_of_lt_succ hn)⟩) (i + 1)
      have hlower : ∀ r' ∈ rest.pseudostates, rank r' < rank r := by
        intro r' hr'
        obtain ⟨first, hfirst, hle⟩ := hbelow r' hr'
        exact Nat.lt_of_le_of_lt hle (hdown first hfirst)
      refine ⟨_, follow_pass hrow hsteps hrest, ?_, ?_⟩
      · rw [Resolution.pseudostates_cons hmoves, List.nodup_cons]
        exact ⟨fun hr' => Nat.lt_irrefl _ (hlower r hr'), hnodup⟩
      · rw [Resolution.pseudostates_cons hmoves]
        intro r' hr'
        refine ⟨r, rfl, ?_⟩
        rcases List.mem_cons.1 hr' with rfl | hr'
        · exact Nat.le_refl _
        · exact Nat.le_of_lt (hlower r' hr')

/-- From a start that is there, to completion. -/
theorem Sound.exists_completion (hp : p.Sound) (hin : p.InRange) (decide : Decider)
    (hlt : active < p.states.size) {next : Continuation}
    (hnext : ∀ r, next = .pseudo r → r < p.pseudostates.size) :
    ∃ rest, p.follow decide p.pseudostates.size active 0 next = .ok rest ∧
      rest.pseudostates.Nodup := by
  obtain ⟨rank, hrank⟩ := hp.ranked
  obtain ⟨rest, hrest, hnodup, -⟩ := hp.exists_follow hin hrank decide hlt
    (fun r hr => ⟨hnext r hr, hrank.1 r (hnext r hr)⟩) 0
  exact ⟨rest, hrest, hnodup⟩

theorem Sound.exists_resolvePlan (hp : p.Sound) (hin : p.InRange) (hlt : leaf < p.states.size)
    (hq : q < p.plans.size) (decide : Decider) :
    ∃ r, p.resolvePlan leaf q decide = .ok r ∧ r.pseudostates.Nodup := by
  have hget := Array.getElem?_eq_getElem hq
  obtain ⟨steps, hsteps, hmoves, harrival⟩ := hp.exists_planSteps hin hlt hget
  have hplan := hin.plans _ (Array.mem_of_getElem? hget)
  obtain ⟨rest, hrest, hnodup⟩ :=
    hp.exists_completion hin decide harrival fun r hr => (hplan.pseudo r hr).lt
  refine ⟨_, resolvePlan_of_follow hlt hsteps hrest, ?_⟩
  rwa [Resolution.pseudostates_prepend hmoves]

end Program

namespace Chart

variable {c : Chart V}

theorem continuationInto_program (c : Chart V) (s : StateId) :
    c.program.continuationInto s = c.continuation (.state s) := by
  rw [Program.continuationInto, initialOf_program]
  rfl

/-- On the tables a target is found where the chart has it. -/
theorem targetAnchor_program {target : Vertex} (htarget : c.program.Names target) :
    c.program.targetAnchor target = .ok (c.targetAnchor target, c.continuation target) := by
  cases target with
  | state s =>
    rw [← continuationInto_program]
    exact if_pos htarget
  | pseudo r =>
    have hr : r < c.pseudostates.size := by
      rw [← size_pseudostates_program]
      exact htarget
    have hnode := Array.getElem?_eq_getElem hr
    obtain ⟨row, hrow, hcompiled⟩ := exists_pseudoRow hnode c.getElem?_plans
    simp only [Program.targetAnchor, hrow, hcompiled.container, targetAnchor, continuation,
      containerOf_eq_of_getElem? hnode]

theorem Linked.landing_lt_of_names (hc : c.Linked) {target : Vertex}
    (htarget : c.program.Names target) : c.landing target < c.states.size := by
  cases target with
  | state s =>
    rw [← size_states_program]
    exact htarget
  | pseudo r =>
    refine hc.container r ?_
    rw [← size_pseudostates_program]
    exact htarget

/-- The way goes on through a pseudostate that is there. -/
theorem lt_of_continuation (hin : c.program.InRange) {target : Vertex}
    (htarget : c.program.Names target) {r : PseudoId} (hr : c.continuation target = .pseudo r) :
    r < c.program.pseudostates.size := by
  cases target with
  | pseudo r' => exact Continuation.pseudo.inj hr ▸ htarget
  | state s =>
    rw [← continuationInto_program, Program.continuationInto] at hr
    cases hinitial : c.program.initialOf s with
    | none => simp [hinitial] at hr
    | some first =>
      obtain rfl : first = r := by simpa [hinitial] using hr
      obtain ⟨row, hrow, hfirst⟩ := Option.bind_eq_some_iff.1 hinitial
      exact (hin.initials row (Array.mem_of_getElem? hrow) first hfirst).lt

/-- From every state to every target but the root: up to where the way turns, down to where the
target lies, and on from there. -/
theorem Prepared.exists_resolve_eq (h : c.Prepared) (hp : c.program.Sound)
    (hin : c.program.InRange) {leaf : StateId} {target : Vertex}
    (hlt : leaf < c.program.states.size) (htarget : c.program.Names target)
    (hroot : target ≠ .state rootState) (decide : Decider) :
    ∃ (way : Path) (rest : Resolution), c.pathBetween (.state leaf) target = .ok way ∧
      way.turn ∈ c.program.hierarchy.ancestors leaf ∧
      c.program.hierarchy.Descends way.turn way.enter ∧
      way.enter.getLastD way.turn = c.landing target ∧
      c.program.follow decide c.program.pseudostates.size (c.landing target) 0
        (c.continuation target) = .ok rest ∧
      rest.pseudostates.Nodup ∧
      c.program.resolve leaf target decide = .ok { rest with
        steps := (c.program.hierarchy.chain leaf way.turn).map .exit ++ way.enter.map .enter ++
          rest.steps } := by
  have hleaf : (Anchor.state leaf).holder < c.states.size := by
    rw [← size_states_program]
    exact hlt
  have hlanding := h.linked.landing_lt_of_names htarget
  have hholder : (c.targetAnchor target).holder < c.states.size := by
    rw [holder_targetAnchor]
    exact hlanding
  have hne : c.targetAnchor target ≠ .state rootState := by
    cases target with
    | state s => exact fun heq => hroot (congrArg Vertex.state (Anchor.state.inj heq))
    | pseudo r => exact nofun
  obtain ⟨way, hway⟩ := h.linked.exists_anchored_path h.nesting hleaf hholder hne
  obtain ⟨hturn, hdescends, hlast⟩ :=
    Hierarchy.descends_path (h.linked.joined hleaf hholder) hway
  rw [holder_targetAnchor] at hlast
  rw [← c.hierarchy_program] at hturn hdescends
  rw [← size_states_program] at hlanding
  obtain ⟨rest, hrest, hnodup⟩ :=
    hp.exists_completion hin decide hlanding fun r => lt_of_continuation hin htarget
  refine ⟨way, rest, hway, hturn, hdescends, hlast, hrest, hnodup, ?_⟩
  rw [Program.resolve, if_pos hlt, targetAnchor_program htarget]
  simp only [bind, Except.bind, hierarchy_program, hway, hp.stepsOut_eq hlt, hlast, hrest, pure, Except.pure]

theorem Prepared.exists_resolve (h : c.Prepared) (hp : c.program.Sound)
    (hin : c.program.InRange) {leaf : StateId} {target : Vertex}
    (hlt : leaf < c.program.states.size) (htarget : c.program.Names target)
    (hroot : target ≠ .state rootState) (decide : Decider) :
    ∃ r, c.program.resolve leaf target decide = .ok r ∧ r.pseudostates.Nodup := by
  obtain ⟨way, rest, -, -, -, -, -, hnodup, hresolve⟩ :=
    h.exists_resolve_eq hp hin hlt htarget hroot decide
  have hmoves : ∀ x ∈ (c.program.hierarchy.chain leaf way.turn).map Step.exit ++
      way.enter.map .enter, ¬ x.isPseudo := by
    intro x hx
    simp only [List.mem_append, List.mem_map] at hx
    rcases hx with ⟨s, -, rfl⟩ | ⟨s, -, rfl⟩ <;> simp [Step.isPseudo]
  exact ⟨_, hresolve, (Resolution.pseudostates_prepend hmoves rest).symm ▸ hnodup⟩

end Chart

/-! ## In a machine -/

/-- Some of the states above climb no higher than all of them. -/
theorem Hierarchy.ancestors_sublist {h : Hierarchy} {s t : StateId}
    (ht : t ∈ (h.ancestors s).tail) : (h.ancestors t).Sublist (h.ancestors s).tail := by
  obtain ⟨hmem, hne⟩ := mem_tail_ancestors.1 ht
  cases hq : h.parent s with
  | none =>
    rw [ancestors_of_root hq, List.mem_singleton] at hmem
    exact absurd hmem hne
  | some q =>
    rw [ancestors_of_parent hq, List.tail_cons] at ht ⊢
    rw [ancestors_eq_chain_append ht]
    exact List.sublist_append_right _ _

namespace Program

/-- Executing the plan with number `q` and those it goes on with until a state settles, and the
pseudostates passed on the way. Nothing bounds their number. -/
inductive Runs (p : Program V) :
    Machine V → PlanId → List PseudoId → Machine V → Journal V → Prop
  | settle {m q m₁ journal s} (h : p.runPlan m q = some (m₁, journal, .settle s)) :
      Runs p m q [] { m₁ with table := { m₁.table with settled := some s } }
        (journal ++ [.settled s])
  | pass {m q m₁ journal r q' selected passed m' rest}
      (h : p.runPlan m q = some (m₁, journal, .pseudo r))
      (hselect : p.select m₁ r = some (q', selected)) (hrest : Runs p m₁ q' passed m' rest) :
      Runs p m q (r :: passed) m' (journal ++ selected ++ rest)

/-- Offering an event to one state after the other until it is kept or there is none left, and the
states visited on the way. Nothing bounds their number. -/
inductive Bubbles (p : Program V) (e : EventId) : Option StateId → Machine V → SendResult →
    List StateId → Machine V → Journal V → SendResult → Prop
  | drop {m result} : Bubbles p e none m result [] m [] result
  | keep {s m result m' journal result'}
      (h : p.handle s e m result = some (m', journal, result', .consumed)) :
      Bubbles p e (some s) m result [s] m' journal result'
  | rise {s m result m₁ journal result₁ next visited m' rest result'}
      (h : p.handle s e m result = some (m₁, journal, result₁, .bubble next))
      (hrest : Bubbles p e next m₁ result₁ visited m' rest result') :
      Bubbles p e (some s) m result (s :: visited) m' (journal ++ rest) result'

variable {p : Program V} {m m' : Machine V} {active : StateId} {q : PlanId} {n : Nat} {e : EventId}
  {journal : Journal V}

/-! ### Plan after plan -/

theorem filterMap_passed?_travel (p : Program V) (q : PlanId) (plan : Plan V) (active : StateId)
    (vars : V) : (p.travel q plan active vars).2.filterMap Occurrence.passed? = [] := by
  refine List.filterMap_eq_nil_iff.2 fun o ho => ?_
  cases o with
  | passed r choice => exact absurd ho not_passed_of_travel
  | _ => rfl

theorem filterMap_passed?_firstOpen (row : PseudoRow V) (r : PseudoId) (m : Machine V) :
    (firstOpen r m row.branches 0).2.filterMap Occurrence.passed? = [] :=
  List.filterMap_eq_nil_iff.2 (forall_mem_firstOpen (fun _ _ _ => rfl) m row.branches 0)

theorem mem_filterMap_passed? {r : PseudoId} :
    r ∈ journal.filterMap Occurrence.passed? ↔ ∃ choice, .passed r choice ∈ journal := by
  rw [List.mem_filterMap]
  constructor
  · rintro ⟨o, ho, hr⟩
    cases o with
    | passed r' choice =>
      obtain rfl : r' = r := Option.some.inj hr
      exact ⟨choice, ho⟩
    | _ => cases hr
  · rintro ⟨choice, hr⟩
    exact ⟨_, hr, rfl⟩

/-- An execution needs no bound. -/
theorem Executes.runs (h : p.Executes n m active q m' journal) :
    p.Runs m q (journal.filterMap Occurrence.passed?) m' journal := by
  induction h with
  | settle h hnext =>
    rw [List.filterMap_append, filterMap_passed?_travel]
    exact .settle (hnext ▸ h.run)
  | pass h hnext hr hrest ih =>
    simp only [List.filterMap_append, filterMap_passed?_travel, filterMap_passed?_firstOpen]
    exact .pass (hnext ▸ h.run) (select_eq _ hr) ih

/-- Within one execution no pseudostate is passed twice. -/
theorem Executes.nodup_passed {rank : PseudoId → Nat} (hrank : p.Ranked rank)
    (h : p.Executes n m active q m' journal) :
    (journal.filterMap Occurrence.passed?).Nodup := by
  induction h with
  | settle h hnext =>
    rw [List.filterMap_append, filterMap_passed?_travel]
    exact List.nodup_nil
  | @pass n m active q plan m₁ r row m' rest h hnext hr hrest ih =>
    simp only [List.filterMap_append, filterMap_passed?_travel, filterMap_passed?_firstOpen]
    refine List.nodup_cons.2 ⟨fun hmem => ?_, ih⟩
    obtain ⟨choice, hpassed⟩ := mem_filterMap_passed?.1 hmem
    exact hrest.not_passed_again hrank hr choice hpassed

/-! ### State after state -/

/-- Bubbling needs no bound either. -/
theorem bubbles_of_bubble {handler : Option StateId} {result result' : SendResult}
    (h : p.bubble e n handler m result = some (m', journal, result')) :
    ∃ visited, p.Bubbles e handler m result visited m' journal result' := by
  induction n generalizing handler m result journal with
  | zero =>
    cases handler with
    | some s => cases h
    | none =>
      cases h
      exact ⟨[], .drop⟩
  | succ n ih =>
    cases handler with
    | none =>
      cases h
      exact ⟨[], .drop⟩
    | some s =>
      rw [bubble, Option.bind_eq_bind, Option.bind_eq_some_iff] at h
      obtain ⟨⟨m₁, first, result₁, verdict⟩, hhandle, h⟩ := h
      cases verdict with
      | consumed =>
        cases h
        exact ⟨[s], .keep hhandle⟩
      | bubble next =>
        simp only [Option.bind_eq_bind, Option.bind_eq_some_iff] at h
        obtain ⟨⟨m₂, rest, result₂⟩, hbubble, h⟩ := h
        cases h
        obtain ⟨visited, hrest⟩ := ih hbubble
        exact ⟨s :: visited, .rise hhandle hrest⟩

/-- A state passes an event on to the next one that handles it. -/
theorem nextAncestor?_of_handle {s : StateId} {result result' : SendResult}
    {next : Option StateId}
    (h : p.handle s e m result = some (m', journal, result', .bubble next)) :
    p.nextAncestor? s e = some next := by
  simp only [handle, Option.bind_eq_bind, Option.bind_eq_some_iff] at h
  obtain ⟨up, hup, rows, -, ⟨m₁, journal₁, result₁, consumed⟩, -, h⟩ := h
  cases consumed with
  | true => cases h
  | false =>
    cases h
    exact hup

/-- An event only climbs. -/
theorem Bubbles.sublist (hp : p.Sound) (he : e < p.events.size) {handler : Option StateId}
    {result result' : SendResult} {visited : List StateId}
    (h : p.Bubbles e handler m result visited m' journal result')
    (hlt : ∀ s, handler = some s → s < p.states.size) :
    visited.Sublist (handler.elim [] p.hierarchy.ancestors) := by
  induction h with
  | drop => exact List.nil_sublist _
  | keep h => exact List.singleton_sublist.2 (Hierarchy.self_mem_ancestors _ _)
  | @rise s m result m₁ journal result₁ next visited m' rest result' h hrest ih =>
    obtain ⟨up, hup, habove⟩ := hp.next s (hlt s rfl) e he
    obtain rfl : up = next := Option.some.inj (hup.symm.trans (nextAncestor?_of_handle h))
    show (s :: visited).Sublist (p.hierarchy.ancestors s)
    rw [← p.hierarchy.cons_tail_ancestors s, List.cons_sublist_cons]
    cases hnext : up with
    | none =>
      subst hnext
      exact (ih fun t ht => by cases ht).trans (List.nil_sublist _)
    | some t =>
      subst hnext
      have ht := habove t rfl
      have hle := Hierarchy.le_of_mem_ancestors (Hierarchy.mem_tail_ancestors.1 ht).1
      refine (ih fun t' ht' => ?_).trans (Hierarchy.ancestors_sublist ht)
      cases ht'
      exact Nat.lt_of_le_of_lt hle (hlt s rfl)

/-! ### Commands -/

/-- Starting comes to an end, and no pseudostate is passed twice. -/
def StartEnds (p : Program V) (m : Machine V) : Prop :=
  ∃ m₁ entered q selected passed m' moved,
    p.enter { m with table := m.table.reset } rootState = some (m₁, entered) ∧
    p.select m₁ p.rootInitial = some (q, selected) ∧ p.Runs m₁ q passed m' moved ∧
    p.start m = some (m', .started :: entered ++ selected ++ moved) ∧
    (p.rootInitial :: passed).Nodup

/-- Dispatching comes to an end. Only the settled state and states above it are visited, none of
them twice, and a transition that is fired passes no pseudostate twice. -/
def DispatchEnds (p : Program V) (m : Machine V) (e : EventId) : Prop :=
  ∃ visited m' journal result,
    p.Bubbles e (m.table.handler e) m .noMatch visited m' journal result ∧
    p.dispatch m e = some (m', .dispatched e :: journal, result) ∧
    visited.Nodup ∧
    (∀ s ∈ visited, ∃ leaf, m.table.settled = some leaf ∧ s ∈ p.hierarchy.ancestors leaf) ∧
    ∀ s q, .fired s e (some q) ∈ journal → ∃ vars before passed moved,
      journal = before ++ .fired s e (some q) :: moved ∧
      p.Runs { m with vars } q passed m' moved ∧ passed.Nodup

theorem Sound.startEnds (hp : p.Sound) (hm : m.Ready p) : p.StartEnds m := by
  obtain ⟨m', journal, hstart, hstarts⟩ := hp.exists_starts hm
  obtain ⟨rank, hrank⟩ := hp.ranked
  cases hstarts with
  | intro henter hroot hhistory hr hk hexec =>
    refine ⟨_, _, _, _, _, m', _, henter, select_eq _ hr, hexec.runs, hstart,
      List.nodup_cons.2 ⟨fun hmem => ?_, hexec.nodup_passed hrank⟩⟩
    obtain ⟨choice, hpassed⟩ := mem_filterMap_passed?.1 hmem
    exact hexec.not_passed_again hrank hr choice hpassed

/-- Until it is started, a machine visits no state. -/
theorem dispatchEnds_idle (hm : m.Idle p) (e : EventId) : p.DispatchEnds m e := by
  refine ⟨[], m, [], .noMatch, ?_, dispatch_unhandled (hm.handler_eq_none e), List.nodup_nil,
    by simp, by simp⟩
  rw [hm.handler_eq_none e]
  exact .drop

theorem Sound.dispatchEnds (hp : p.Sound) {leaf : StateId} (hm : m.Settled p leaf)
    (e : EventId) : p.DispatchEnds m e := by
  obtain ⟨m', journal, result, moved, hdispatch, houtcome⟩ := hp.exists_dispatch hm.toAt e
  have hbubble := hdispatch
  simp only [dispatch, Option.bind_eq_bind, Option.bind_eq_some_iff] at hbubble
  obtain ⟨⟨m'', rest, result'⟩, hbubble, heq⟩ := hbubble
  cases heq
  obtain ⟨visited, hvisited⟩ := bubbles_of_bubble hbubble
  -- The first state visited is the settled one or above it, and an event that is not declared
  -- visits none.
  have hsublist : visited.Sublist (p.hierarchy.ancestors leaf) := by
    obtain ⟨handlers, hrow, hlen, habove⟩ := hp.handlers leaf hm.lt
    obtain rfl : handlers = m.table.handlers := Option.some.inj (hrow.symm.trans hm.handlers)
    cases hfirst : m.table.handler e with
    | none =>
      rw [hfirst] at hvisited
      cases hvisited
      exact List.nil_sublist _
    | some s =>
      rw [hfirst] at hvisited
      have hget : m.table.handlers[e]? = some (some s) := Option.join_eq_some_iff.1 hfirst
      have hs := habove e s hget
      have he : e < p.events.size := hlen ▸ (List.getElem?_eq_some_iff.1 hget).1
      have hlt : s < p.states.size := Nat.lt_of_le_of_lt (Hierarchy.le_of_mem_ancestors hs) hm.lt
      have hclimbs := hvisited.sublist hp he fun t ht => Option.some.inj ht ▸ hlt
      rw [Hierarchy.ancestors_eq_chain_append hs]
      exact hclimbs.trans (List.sublist_append_right _ _)
  obtain ⟨rank, hrank⟩ := hp.ranked
  refine ⟨visited, _, rest, _, hvisited, hdispatch,
    hsublist.nodup (p.hierarchy.nodup_ancestors leaf),
    fun s hs => ⟨leaf, hm.settled, hsublist.subset hs⟩, fun s q hfired => ?_⟩
  obtain ⟨vars, before, transition, heq, -, hexec⟩ :=
    houtcome.executes_of_fired (List.mem_cons_of_mem _ hfired)
  cases before with
  | nil => cases heq
  | cons o before =>
    exact ⟨vars, before, _, transition, (List.cons.inj heq).2, hexec.runs,
      hexec.nodup_passed hrank⟩

end Program

namespace Chart

variable {c : Chart V} {p : Program V}

/-- Run to completion always ends. On the tables, every transition to a target but the root and
every plan can be followed to where it settles, whatever is answered on the way, and passes no
pseudostate twice. In a machine, wherever it is, every start and every event comes to an end. -/
theorem runs_to_completion (hc : c.Drafted) (h : c.compile = .ok p) :
    (∀ leaf < p.states.size, ∀ decide : Decider,
      (∀ target, p.Names target → target ≠ .state rootState →
        ∃ r, p.resolve leaf target decide = .ok r ∧ r.pseudostates.Nodup) ∧
      ∀ q < p.plans.size, ∃ r, p.resolvePlan leaf q decide = .ok r ∧ r.pseudostates.Nodup) ∧
    ∀ (vars : V) (commands : List (Command V)), ∃ m,
      p.performAll (p.machine vars) commands = some m ∧ p.StartEnds m ∧
        ∀ e, p.DispatchEnds m e := by
  have hp := hc.linked.sound_of_compile h
  have hin := hc.linked.inRange_of_compile h
  have hprepared := (hc.linked.wellFormed_of_compile h).prepared hc.linked
  refine ⟨fun leaf hlt decide => ⟨fun target htarget hroot => ?_, fun q hq =>
    hp.exists_resolvePlan hin hlt hq decide⟩, fun vars commands => ?_⟩
  · obtain ⟨-, -, rfl⟩ := compile_eq_ok_iff.1 h
    exact hprepared.exists_resolve hp hin hlt htarget hroot decide
  · obtain ⟨m, hrun, hbefore, hafter⟩ :=
      hp.exists_performAll_idle (p.idle_machine vars) commands
    refine ⟨m, hrun, ?_⟩
    by_cases hstart : ∃ x ∈ commands, x.isStart
    · obtain ⟨leaf, hm⟩ := hafter hstart
      exact ⟨hp.startEnds (hp.ready_of_at hm.toAt), hp.dispatchEnds hm⟩
    · have hm := hbefore fun x hx hxs => hstart ⟨x, hx, hxs⟩
      exact ⟨hp.startEnds hm.ready, Program.dispatchEnds_idle hm⟩

theorem relay_sizes : relay.compile.toOption.map
    (fun p => (p.states.size, p.pseudostates.size, p.plans.size)) = some (5, 4, 8) := by
  decide +kernel

/-- To the choice, leaving it by its second branch, and by the last of the plans. -/
theorem relay_runs_to_completion :
    ∃ p, relay.compile = .ok p ∧
      (∃ r, p.resolve 4 (.pseudo 3) (fun _ _ => some 1) = .ok r ∧ r.pseudostates.Nodup) ∧
      (∃ r, p.resolvePlan 2 7 (fun _ _ => none) = .ok r ∧ r.pseudostates.Nodup) ∧
      ∃ m, p.performAll (p.machine 0) [.start, .dispatch 1, .dispatch 1] = some m ∧
        p.StartEnds m ∧ p.DispatchEnds m 1 := by
  obtain ⟨p, hp, hsizes⟩ := Option.map_eq_some_iff.1 relay_sizes
  have hcompile := eq_ok_of_toOption hp
  obtain ⟨hstates, hpseudostates, hplans⟩ : p.states.size = 5 ∧ p.pseudostates.size = 4 ∧
      p.plans.size = 8 := by simpa using hsizes
  obtain ⟨htables, hruns⟩ := runs_to_completion relay_drafted hcompile
  have htarget : p.Names (.pseudo 3) := show 3 < p.pseudostates.size by omega
  obtain ⟨m, hrun, hstart, hdispatch⟩ := hruns 0 [.start, .dispatch 1, .dispatch 1]
  exact ⟨p, hcompile, (htables 4 (by omega) _).1 _ htarget (by simp),
    (htables 2 (by omega) _).2 7 (by omega), m, hrun, hstart, hdispatch 1⟩

end Chart

end Statechart
