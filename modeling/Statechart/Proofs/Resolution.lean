import Statechart.Program.Resolve
import Statechart.Proofs.Settling

/-
  A transition can be followed on the tables alone. Given which branch the machine took at each
  pseudostate, `resolvePlan` says which states were left and entered, whose actions ran and where
  the machine came to rest (`dispatch_resolves`). The machine finds its way through the state that
  is innermost active at each moment, the resolution recomputes it from the hierarchy; they agree
  plan by plan (`planSteps_eq`), and so all the way (`Executes.follows`).
-/

namespace Statechart

variable {V : Type}

/-! ## Reading steps off a journal -/

namespace Occurrence

/-- The step of a transition that an occurrence is. -/
def step? : Occurrence V → Option Step
  | .exited s => some (.exit s)
  | .acted (.plan q) _ _ => some (.action q)
  | .entered s => some (.enter s)
  | .passed r _ => some (.pseudo r)
  | _ => none

/-- A step other than passing a pseudostate. -/
def move? : Occurrence V → Option Step
  | .exited s => some (.exit s)
  | .acted (.plan q) _ _ => some (.action q)
  | .entered s => some (.enter s)
  | _ => none

/-- The pseudostate that was passed. -/
def passed? : Occurrence V → Option PseudoId
  | .passed r _ => some r
  | _ => none

/-- Whether a state fired a certain plan on an event. -/
def fires (s : StateId) (e : EventId) (q : PlanId) : Occurrence V → Bool
  | .fired s' e' (some q') => s' = s ∧ e' = e ∧ q' = q
  | _ => false

theorem fires_iff {s : StateId} {e : EventId} {q : PlanId} {o : Occurrence V} :
    o.fires s e q ↔ o = .fired s e (some q) := by
  unfold fires
  split <;> simp_all

end Occurrence

def Step.isPseudo : Step → Bool
  | .pseudo _ => true
  | _ => false

/-- The decider answers as the machine did. -/
def Decider.Answers (decide : Decider) (journal : Journal V) : Prop :=
  ∀ r choice, .passed r choice ∈ journal → ∀ i branches, decide i ⟨r, branches⟩ = choice

section Steps

theorem filterMap_move?_eq {journal : Journal V} {steps : List Step}
    (h : journal.filterMap Occurrence.step? = steps) :
    journal.filterMap Occurrence.move? = steps.filter (!·.isPseudo) := by
  rw [← h, List.filter_filterMap]
  congr 1
  funext o
  cases o with
  | acted site => cases site <;> rfl
  | _ => rfl

theorem filterMap_passed?_eq {journal : Journal V} {r : Resolution}
    (h : journal.filterMap Occurrence.step? = r.steps) :
    journal.filterMap Occurrence.passed? = r.pseudostates := by
  rw [Resolution.pseudostates, ← h, List.filterMap_filterMap]
  congr 1
  funext o
  cases o with
  | acted site => cases site <;> rfl
  | _ => rfl

theorem step?_of_quiet {o : Occurrence V} (h : o.quiet) : o.step? = none := by
  cases o with
  | acted site => cases site <;> simp_all [Occurrence.quiet, Occurrence.step?]
  | _ => simp_all [Occurrence.quiet, Occurrence.step?]

theorem filterMap_step?_of_quiet {journal : Journal V} (h : ∀ o ∈ journal, o.quiet) :
    journal.filterMap Occurrence.step? = [] :=
  List.filterMap_eq_nil_iff.2 fun o ho => step?_of_quiet (h o ho)

/-- On a boundary guards are tested and actions run, and nothing else happens. -/
theorem forall_mem_runBoundary {P : Occurrence V → Prop} {s : StateId} {b : Boundary}
    (htested : ∀ g passed remarks, P (.tested (.boundary s b) g passed remarks))
    (hacted : ∀ a remarks, P (.acted (.boundary s b) a remarks)) (rows : List (GuardedAction V))
    (vars : V) : ∀ o ∈ (runBoundary s b rows vars).2, P o := by
  induction rows generalizing vars with
  | nil => simp [runBoundary]
  | cons row rows ih =>
    have htest : ∀ o ∈ (testGuard (.boundary s b) row.guard vars).2, P o := by
      cases row.guard <;> simp [testGuard, htested]
    have hact : ∀ o ∈ (runAction (.boundary s b) row.action vars).2, P o := by
      cases row.action <;> simp [runAction, hacted]
    intro o ho
    simp only [runBoundary, List.mem_append] at ho
    rcases ho with (ho | ho) | ho
    · exact htest o ho
    · split at ho
      · exact hact o ho
      · simp at ho
    · exact ih _ o ho

theorem filterMap_step?_runBoundary (s : StateId) (b : Boundary) (rows : List (GuardedAction V))
    (vars : V) : (runBoundary s b rows vars).2.filterMap Occurrence.step? = [] :=
  List.filterMap_eq_nil_iff.2
    (forall_mem_runBoundary (fun _ _ _ => rfl) (fun _ _ => rfl) rows vars)

/-- Crossing a boundary is one step. -/
def Boundary.step : Boundary → StateId → Step
  | .enter, s => .enter s
  | .exit, s => .exit s

theorem filterMap_step?_cross (p : Program V) (b : Boundary) (s : StateId) (vars : V) :
    (p.cross b s vars).2.filterMap Occurrence.step? = [b.step s] := by
  rw [Program.cross, List.filterMap_cons, filterMap_step?_runBoundary]
  cases b <;> rfl

theorem filterMap_step?_crossAll (p : Program V) (b : Boundary) (path : List StateId) (vars : V) :
    (p.crossAll b path vars).2.filterMap Occurrence.step? = path.map b.step := by
  induction path generalizing vars with
  | nil => rfl
  | cons s path ih =>
    rw [Program.crossAll, List.filterMap_append, filterMap_step?_cross, ih]
    rfl

/-- The steps of a plan: leaving, its action if it has one, entering. -/
theorem filterMap_step?_travel (p : Program V) (q : PlanId) (plan : Plan V) (active : StateId)
    (vars : V) :
    (p.travel q plan active vars).2.filterMap Occurrence.step? =
      (p.exits plan active).map .exit ++ (if plan.action.isSome then [.action q] else []) ++
        plan.enter.map .enter := by
  rw [Program.travel, List.filterMap_append, List.filterMap_append, filterMap_step?_crossAll,
    filterMap_step?_crossAll]
  congr 2
  cases plan.action <;> rfl

/-- Before a branch is taken guards are tested, and nothing else happens. -/
theorem forall_mem_firstOpen {P : Occurrence V → Prop} {r : PseudoId}
    (htested : ∀ g passed remarks, P (.tested (.pseudo r) g passed remarks)) (m : Machine V)
    (branches : List (BranchRow V)) (i : Nat) :
    ∀ o ∈ (Program.firstOpen r m branches i).2, P o := by
  induction branches generalizing i with
  | nil => simp [Program.firstOpen]
  | cons b branches ih =>
    have htest : ∀ o ∈ (Program.branchOpen r m b.guard).2, P o := by
      cases b.guard <;> simp [Program.branchOpen, testGuard, htested]
    intro o ho
    simp only [Program.firstOpen] at ho
    split at ho
    · exact htest o ho
    · exact (List.mem_append.1 ho).elim (htest o) (ih _ o)

theorem filterMap_step?_firstOpen (r : PseudoId) (m : Machine V) (branches : List (BranchRow V))
    (i : Nat) : (Program.firstOpen r m branches i).2.filterMap Occurrence.step? = [] :=
  List.filterMap_eq_nil_iff.2 (forall_mem_firstOpen (fun _ _ _ => rfl) m branches i)

end Steps

/-! ## Plan by plan -/

namespace Program

variable {p : Program V} {m m' : Machine V} {active : StateId} {q : PlanId} {n : Nat}
  {journal : Journal V}

/-- However far up it leads, leaving states is never too long. -/
theorem Sound.stepsOut_eq (hp : p.Sound) (hlt : active < p.states.size) (turn : StateId) :
    p.stepsOut active turn = .ok ((p.hierarchy.chain active turn).map .exit) := by
  have hlen : (p.hierarchy.chain active turn).length ≤ maxDepth :=
    Nat.le_trans (List.takeWhile_sublist _).length_le (hp.nesting active hlt)
  rw [stepsOut, Hierarchy.chainUpTo_eq, if_pos hlen]
  rfl

/-- The steps of a plan can be told wherever it is taken. -/
theorem Sound.planSteps_eq (hp : p.Sound) {plan : Plan V} (hlt : active < p.states.size)
    (hq : p.plans[q]? = some plan) :
    p.planSteps active q = .ok
      ((p.exits plan active).map .exit ++ (if plan.action.isSome then [.action q] else []) ++
        plan.enter.map .enter, plan.arrival active, plan.next) := by
  unfold planSteps exits
  rw [hq]
  cases hexit : plan.exitTo with
  | none =>
    simp only [Plan.arrival, hexit]
    rfl
  | some turn =>
    simp only [hp.stepsOut_eq hlt, Plan.arrival, hexit]
    rfl

theorem follow_settle (decide : Decider) (n : Nat) (active : StateId) (i : Nat) (s : StateId) :
    p.follow decide n active i (.settle s) = .ok ⟨[], s, []⟩ := by
  cases n <;> rfl

/-- At a pseudostate the way goes on by the plan that the answer selects. -/
theorem follow_pseudo {decide : Decider} {r : PseudoId} {row : PseudoRow V} {i : Nat}
    (hr : p.pseudostates[r]? = some row) :
    p.follow decide (n + 1) active i (.pseudo r) =
      (p.planSteps active (row.planOf (decide i ⟨r, row.branches.length⟩))).bind fun out =>
        (p.follow decide n out.2.1 (i + 1) out.2.2).map fun rest =>
          ⟨.pseudo r :: out.1 ++ rest.steps, rest.finalLeaf,
            ⟨r, row.branches.length⟩ :: rest.asked⟩ := by
  rw [follow, hr]
  rfl

theorem follow_pass {decide : Decider} {r : PseudoId} {row : PseudoRow V} {i : Nat}
    {steps : List Step} {arrival : StateId} {next : Continuation} {rest : Resolution}
    (hr : p.pseudostates[r]? = some row)
    (hsteps : p.planSteps active (row.planOf (decide i ⟨r, row.branches.length⟩)) =
      .ok (steps, arrival, next))
    (hrest : p.follow decide n arrival (i + 1) next = .ok rest) :
    p.follow decide (n + 1) active i (.pseudo r) =
      .ok ⟨.pseudo r :: steps ++ rest.steps, rest.finalLeaf,
        ⟨r, row.branches.length⟩ :: rest.asked⟩ := by
  rw [follow_pseudo hr, hsteps, Except.bind, hrest]
  rfl

/-- Following comes to its end at once, or it passes a pseudostate by the plan that the answer
selects. -/
theorem follow_inv {decide : Decider} {i : Nat} {next : Continuation} {rest : Resolution}
    (h : p.follow decide n active i next = .ok rest) :
    (∃ s, next = .settle s ∧ rest = ⟨[], s, []⟩) ∨
    ∃ r row k steps arrival next' rest', next = .pseudo r ∧ n = k + 1 ∧
      p.pseudostates[r]? = some row ∧
      p.planSteps active (row.planOf (decide i ⟨r, row.branches.length⟩)) =
        .ok (steps, arrival, next') ∧
      p.follow decide k arrival (i + 1) next' = .ok rest' ∧
      rest = ⟨.pseudo r :: steps ++ rest'.steps, rest'.finalLeaf,
        ⟨r, row.branches.length⟩ :: rest'.asked⟩ := by
  cases next with
  | settle s =>
    rw [follow_settle] at h
    exact .inl ⟨s, rfl, (Except.ok.inj h).symm⟩
  | pseudo r =>
    cases n with
    | zero => cases h
    | succ k =>
      cases hr : p.pseudostates[r]? with
      | none => simp [follow, hr] at h
      | some row =>
        rw [follow_pseudo hr] at h
        cases hsteps : p.planSteps active (row.planOf (decide i ⟨r, row.branches.length⟩)) with
        | error e => simp [hsteps, Except.bind] at h
        | ok out =>
          obtain ⟨steps, arrival, next'⟩ := out
          rw [hsteps, Except.bind] at h
          cases hrest : p.follow decide k arrival (i + 1) next' with
          | error e => simp [hrest, Except.map] at h
          | ok rest' =>
            rw [hrest] at h
            exact .inr ⟨r, row, k, steps, arrival, next', rest', rfl, rfl, hr, hsteps, hrest,
              (Except.ok.inj h).symm⟩

/-- A transition is worked out by the steps of its plan and the way on from there. -/
theorem resolvePlan_of_follow {leaf arrival : StateId} {decide : Decider} {steps : List Step}
    {next : Continuation} {rest : Resolution} (hlt : leaf < p.states.size)
    (hsteps : p.planSteps leaf q = .ok (steps, arrival, next))
    (hrest : p.follow decide p.pseudostates.size arrival 0 next = .ok rest) :
    p.resolvePlan leaf q decide = .ok { rest with steps := steps ++ rest.steps } := by
  rw [resolvePlan, if_pos hlt, hsteps]
  simp only [bind, Except.bind, hrest, pure, Except.pure]

/-- The way of an execution can be followed on the tables. -/
theorem Executes.follows (hp : p.Sound) (h : p.Executes n m active q m' journal)
    {decide : Decider} (hdecide : decide.Answers journal) (i : Nat) :
    ∃ steps arrival next rest, p.planSteps active q = .ok (steps, arrival, next) ∧
      p.follow decide n arrival i next = .ok rest ∧
      journal.filterMap Occurrence.step? = steps ++ rest.steps ∧
      m'.table.settled = some rest.finalLeaf := by
  induction h generalizing i with
  | @settle n m active q plan m₁ s h hnext =>
    refine ⟨_, _, _, _, hp.planSteps_eq h.start.lt h.plan_eq, by rw [hnext, follow_settle], ?_, rfl⟩
    rw [List.filterMap_append, filterMap_step?_travel]
    rfl
  | @pass n m active q plan m₁ r row m' rest h hnext hr hrest ih =>
    have hchoice : decide i ⟨r, row.branches.length⟩ = choiceAt row r m₁ :=
      hdecide r _ (by simp) i _
    obtain ⟨steps, arrival, next, resolution, hsteps, hfollow, hjournal, hsettled⟩ :=
      ih (fun r b hmem => hdecide r b (List.mem_append_right _ hmem)) (i + 1)
    refine ⟨_, _, _, ⟨.pseudo r :: steps ++ resolution.steps, resolution.finalLeaf,
      ⟨r, row.branches.length⟩ :: resolution.asked⟩,
      hp.planSteps_eq h.start.lt h.plan_eq,
      hnext ▸ follow_pass hr (hchoice ▸ hsteps) hfollow, ?_, hsettled⟩
    rw [List.filterMap_append, List.filterMap_append, List.filterMap_append,
      filterMap_step?_travel, filterMap_step?_firstOpen, hjournal]
    simp [Occurrence.step?]

theorem Executes.lt_size (h : p.Executes n m active q m' journal) : active < p.states.size := by
  cases h with
  | settle h _ => exact h.start.lt
  | pass h _ _ _ => exact h.start.lt

/-! ## One answer for each pseudostate -/

section Answers

theorem mem_step?_of_passed {r : PseudoId} {choice : Option Nat}
    (h : .passed r choice ∈ journal) : .pseudo r ∈ journal.filterMap Occurrence.step? :=
  List.mem_filterMap.2 ⟨_, h, rfl⟩

theorem not_passed_of_travel {plan : Plan V} {vars : V} {r : PseudoId} {choice : Option Nat} :
    .passed r choice ∉ (p.travel q plan active vars).2 := by
  intro h
  have hstep := mem_step?_of_passed h
  rw [filterMap_step?_travel] at hstep
  cases haction : plan.action <;> simp [haction] at hstep

theorem not_passed_of_firstOpen {row : PseudoRow V} {r r' : PseudoId} {choice : Option Nat} :
    .passed r' choice ∉ (firstOpen r m row.branches 0).2 := by
  intro h
  have hstep := mem_step?_of_passed h
  simp [filterMap_step?_firstOpen] at hstep

/-- A machine passes pseudostates of lower and lower rank. -/
theorem Executes.rank_le {rank : PseudoId → Nat} (hrank : p.Ranked rank)
    (h : p.Executes n m active q m' journal) {plan : Plan V} (hplan : p.plans[q]? = some plan)
    {r : PseudoId} {choice : Option Nat} (hpassed : .passed r choice ∈ journal) :
    ∃ first, plan.next = .pseudo first ∧ rank r ≤ rank first := by
  induction h generalizing plan with
  | settle h hnext =>
    rcases List.mem_append.1 hpassed with hpassed | hpassed
    · exact absurd hpassed not_passed_of_travel
    · simp at hpassed
  | @pass n m active q plan' m₁ first row m' rest h hnext hr hrest ih =>
    obtain rfl : plan' = plan := Option.some.inj (h.plan_eq.symm.trans hplan)
    refine ⟨first, hnext, ?_⟩
    simp only [List.mem_append, List.mem_singleton, Occurrence.passed.injEq] at hpassed
    rcases hpassed with (hpassed | hpassed | ⟨rfl, -⟩) | hpassed
    · exact absurd hpassed not_passed_of_travel
    · exact absurd hpassed not_passed_of_firstOpen
    · exact Nat.le_refl _
    · obtain ⟨plan₁, hplan₁⟩ := hrest.exists_plan
      obtain ⟨second, hsecond, hle⟩ := ih hplan₁ hpassed
      exact Nat.le_of_lt (Nat.lt_of_le_of_lt hle
        (hrank.2 hr (row.planOf_mem_planIds _) hplan₁ hsecond))

/-- So it does not come back to one. -/
theorem Executes.not_passed_again {rank : PseudoId → Nat} (hrank : p.Ranked rank) {r : PseudoId}
    {row : PseudoRow V} {choice : Option Nat} (hr : p.pseudostates[r]? = some row)
    (h : p.Executes n m active (row.planOf choice) m' journal) (x : Option Nat) :
    .passed r x ∉ journal := by
  intro hx
  obtain ⟨plan, hplan⟩ := h.exists_plan
  obtain ⟨first, hfirst, hle⟩ := h.rank_le hrank hplan hx
  exact absurd (hrank.2 hr (row.planOf_mem_planIds _) hplan hfirst) (Nat.not_lt.2 hle)

/-- And it takes one branch at each of them. -/
theorem Executes.choice_unique {rank : PseudoId → Nat} (hrank : p.Ranked rank)
    (h : p.Executes n m active q m' journal) {r : PseudoId} {choice choice' : Option Nat}
    (hpassed : .passed r choice ∈ journal) (hpassed' : .passed r choice' ∈ journal) :
    choice = choice' := by
  induction h with
  | settle h hnext =>
    rcases List.mem_append.1 hpassed with hpassed | hpassed
    · exact absurd hpassed not_passed_of_travel
    · simp at hpassed
  | @pass n m active q plan m₁ first row m' rest h hnext hr hrest ih =>
    have hlower := hrest.not_passed_again hrank hr
    have hhere : ∀ x, .passed r x ∈ (p.travel q plan active m.vars).2 ++
        ((firstOpen first m₁ row.branches 0).2 ++ [.passed first (choiceAt row first m₁)]) ++ rest →
        (r = first ∧ x = choiceAt row first m₁) ∨ .passed r x ∈ rest := by
      intro x hx
      simp only [List.mem_append, List.mem_singleton, Occurrence.passed.injEq] at hx
      rcases hx with (hx | hx | hx) | hx
      · exact absurd hx not_passed_of_travel
      · exact absurd hx not_passed_of_firstOpen
      · exact .inl hx
      · exact .inr hx
    rcases hhere _ hpassed with ⟨rfl, rfl⟩ | hrest₁
    · rcases hhere _ hpassed' with ⟨-, rfl⟩ | hrest₂
      · rfl
      · exact absurd hrest₂ (hlower _)
    · rcases hhere _ hpassed' with ⟨rfl, rfl⟩ | hrest₂
      · exact absurd hrest₁ (hlower _)
      · exact ih hrest₁ hrest₂

/-- Answers that do not contradict each other can be given by a decider. -/
theorem exists_answers {journal : Journal V}
    (h : ∀ r choice choice', .passed r choice ∈ journal → .passed r choice' ∈ journal →
      choice = choice') : ∃ decide : Decider, decide.Answers journal := by
  classical
  refine ⟨fun _ question => if hx : ∃ choice, .passed question.pseudo choice ∈ journal
    then hx.choose else none, fun r choice hpassed i branches => ?_⟩
  have hx : ∃ choice, .passed r choice ∈ journal := ⟨choice, hpassed⟩
  exact (dif_pos hx).trans (h r _ _ hx.choose_spec hpassed)

end Answers

/-! ## What happens in a transition -/

section Occurrences

variable {P : Occurrence V → Prop}

theorem forall_mem_crossAll {b : Boundary} (hcrossed : ∀ s, P (crossed s b))
    (htested : ∀ s g passed remarks, P (.tested (.boundary s b) g passed remarks))
    (hacted : ∀ s a remarks, P (.acted (.boundary s b) a remarks)) (path : List StateId)
    (vars : V) : ∀ o ∈ (p.crossAll b path vars).2, P o := by
  induction path generalizing vars with
  | nil => simp [crossAll]
  | cons s path ih =>
    intro o ho
    simp only [crossAll, cross, List.mem_append, List.mem_cons] at ho
    rcases ho with (rfl | ho) | ho
    · exact hcrossed s
    · exact forall_mem_runBoundary (htested s) (hacted s) _ _ o ho
    · exact ih _ o ho

/-- All that can happen while a transition is executed. -/
theorem Executes.forall_mem (h : p.Executes n m active q m' journal)
    (hcrossed : ∀ s b, P (crossed s b))
    (htested : ∀ s b g passed remarks, P (.tested (.boundary s b) g passed remarks))
    (hasked : ∀ r g passed remarks, P (.tested (.pseudo r) g passed remarks))
    (hacted : ∀ s b a remarks, P (.acted (.boundary s b) a remarks))
    (hplan : ∀ (q : PlanId) plan a remarks, p.plans[q]? = some plan → plan.action = some a →
      P (.acted (.plan q) a remarks))
    (hpassed : ∀ r choice, P (.passed r choice)) (hsettled : ∀ s, P (.settled s)) :
    ∀ o ∈ journal, P o := by
  have htravel : ∀ {m m₁ : Machine V} {active q plan}, p.Travels m active q plan m₁ →
      ∀ o ∈ (p.travel q plan active m.vars).2, P o := by
    intro m m₁ active q plan h o ho
    simp only [travel, List.mem_append] at ho
    rcases ho with (ho | ho) | ho
    · exact forall_mem_crossAll (hcrossed · _) (htested · _) (hacted · _) _ _ o ho
    · cases haction : plan.action with
      | none => simp [haction, runAction] at ho
      | some a =>
        rw [haction, runAction, List.mem_singleton] at ho
        exact ho ▸ hplan q plan a _ h.plan_eq haction
    · exact forall_mem_crossAll (hcrossed · _) (htested · _) (hacted · _) _ _ o ho
  induction h with
  | settle h hnext =>
    intro o ho
    rcases List.mem_append.1 ho with ho | ho
    · exact htravel h o ho
    · exact List.mem_singleton.1 ho ▸ hsettled _
  | pass h hnext hr hrest ih =>
    intro o ho
    simp only [List.mem_append, List.mem_singleton] at ho
    rcases ho with (ho | ho | rfl) | ho
    · exact htravel h o ho
    · exact forall_mem_firstOpen (hasked _) _ _ _ o ho
    · exact hpassed _ _
    · exact ih o ho

/-- The action reported for a plan is the action of that plan. -/
theorem Executes.action_of_acted (h : p.Executes n m active q m' journal) {q' : PlanId}
    {a : Action V} {remarks : List String} (hacted : .acted (.plan q') a remarks ∈ journal) :
    ∃ plan, p.plans[q']? = some plan ∧ plan.action = some a := by
  have hall := h.forall_mem (P := fun o => ∀ q' a remarks, o = .acted (.plan q') a remarks →
    ∃ plan, p.plans[q']? = some plan ∧ plan.action = some a)
    (fun s b => by cases b <;> simp [crossed]) (by simp) (by simp) (by simp) ?_ (by simp)
    (by simp)
  · exact hall _ hacted _ _ _ rfl
  · intro q plan a remarks hget haction q' a' remarks' heq
    obtain ⟨hsite, rfl, -⟩ := Occurrence.acted.inj heq
    obtain rfl := Site.plan.inj hsite
    exact ⟨plan, hget, haction⟩

/-- While a transition is executed, no other is fired. -/
theorem Executes.not_fired (h : p.Executes n m active q m' journal) {s : StateId} {e : EventId}
    {plan : Option PlanId} : .fired s e plan ∉ journal := by
  intro hfired
  have hall := h.forall_mem (P := fun o => o ≠ .fired s e plan)
    (fun s b => by cases b <;> simp [crossed]) (by simp) (by simp) (by simp) (by simp) (by simp)
    (by simp)
  exact hall _ hfired rfl

end Occurrences

/-- An event that fired a transition did nothing else after it. -/
theorem Outcome.executes_of_fired {leaf : StateId} {moved : Bool}
    (h : p.Outcome leaf m m' journal moved) {s : StateId} {e : EventId}
    (hfired : .fired s e (some q) ∈ journal) :
    ∃ vars before rest, journal = before ++ .fired s e (some q) :: rest ∧
      (∀ o ∈ before, o.quiet) ∧
      p.Executes p.pseudostates.size { m with vars } leaf q m' rest := by
  cases h with
  | stay vars hquiet => simpa [Occurrence.quiet] using hquiet _ hfired
  | move vars hquiet hexec =>
    rcases List.mem_append.1 hfired with hmem | hmem
    · simpa [Occurrence.quiet] using hquiet _ hmem
    · rcases List.mem_cons.1 hmem with heq | hmem
      · simp only [Occurrence.fired.injEq, Option.some.injEq] at heq
        obtain ⟨rfl, rfl, rfl⟩ := heq
        exact ⟨vars, _, _, rfl, hquiet, hexec⟩
      · exact absurd hmem hexec.not_fired

theorem Executes.resolvePlan_eq (hp : p.Sound)
    (h : p.Executes p.pseudostates.size m active q m' journal) {decide : Decider}
    (hdecide : decide.Answers journal) :
    ∃ r, p.resolvePlan active q decide = .ok r ∧ journal.filterMap Occurrence.step? = r.steps ∧
      m'.table.settled = some r.finalLeaf := by
  obtain ⟨steps, arrival, next, rest, hsteps, hfollow, hjournal, hsettled⟩ :=
    h.follows hp hdecide 0
  exact ⟨_, resolvePlan_of_follow h.lt_size hsteps hfollow, hjournal, hsettled⟩

end Program

namespace Chart

variable {c : Chart V} {p : Program V}

/-- A transition that an event fires goes the way that the tables say: given which branch was taken
at each pseudostate, it leaves and enters the same states, runs the same actions, passes the same
pseudostates and comes to rest in the same state. -/
theorem dispatch_resolves (hc : c.Drafted) (h : c.compile = .ok p) {vars : V}
    {commands : List (Command V)} {m : Machine V} {leaf : StateId}
    (hrun : p.performAll (p.machine vars) commands = some m)
    (hleaf : m.table.settled = some leaf) (e : EventId) :
    ∃ m' journal result, p.dispatch m e = some (m', journal, result) ∧
      ∀ s q, .fired s e (some q) ∈ journal →
        (∃ decide : Decider, decide.Answers journal) ∧
        (∀ q' a remarks, .acted (.plan q') a remarks ∈ journal →
          ∃ plan, p.plans[q']? = some plan ∧ plan.action = some a) ∧
        ∀ decide : Decider, decide.Answers journal →
          ∃ r, p.resolvePlan leaf q decide = .ok r ∧
            journal.filterMap Occurrence.move? = r.steps.filter (!·.isPseudo) ∧
            journal.filterMap Occurrence.passed? = r.pseudostates ∧
            m'.table.settled = some r.finalLeaf := by
  have hp := hc.linked.sound_of_compile h
  have hm := hp.settled_of_performAll hrun hleaf
  obtain ⟨m', journal, result, moved, hdispatch, houtcome⟩ := hp.exists_dispatch hm.toAt e
  refine ⟨m', journal, result, hdispatch, fun s q hfired => ?_⟩
  obtain ⟨vars, before, rest, rfl, hquiet, hexec⟩ := houtcome.executes_of_fired hfired
  -- All that matters of the journal happens after the transition was fired.
  have hmem : ∀ {o}, o ∈ before ++ .fired s e (some q) :: rest → ¬ o.quiet →
      o ≠ .fired s e (some q) → o ∈ rest := by
    intro o ho hloud hne
    rcases List.mem_append.1 ho with ho | ho
    · exact absurd (hquiet o ho) hloud
    · exact (List.mem_cons.1 ho).resolve_left hne
  have hsteps : (before ++ .fired s e (some q) :: rest).filterMap Occurrence.step? =
      rest.filterMap Occurrence.step? := by
    rw [List.filterMap_append, filterMap_step?_of_quiet hquiet]
    rfl
  obtain ⟨rank, hrank⟩ := hp.ranked
  refine ⟨Program.exists_answers fun r x y hx hy => hexec.choice_unique hrank
    (hmem hx (by simp [Occurrence.quiet]) (by simp))
    (hmem hy (by simp [Occurrence.quiet]) (by simp)),
    fun q' a remarks hacted => hexec.action_of_acted
      (hmem hacted (by simp [Occurrence.quiet]) (by simp)), fun decide hdecide => ?_⟩
  obtain ⟨r, hresolve, hrest, hsettled⟩ := hexec.resolvePlan_eq hp fun r x hx =>
    hdecide r x (List.mem_append_right _ (List.mem_cons_of_mem _ hx))
  exact ⟨r, hresolve, filterMap_move?_eq (hsteps.trans hrest),
    filterMap_passed?_eq (hsteps.trans hrest), hsettled⟩

/-- The third time, the way leads through the choice to what the history restores. -/
theorem relay_third :
    (do
      let p ← relay.compile.toOption
      let m ← p.performAll (p.machine 0) [.start, .dispatch 1, .dispatch 1]
      let (m', journal, _) ← p.dispatch m 1
      return (m.table.settled, m'.table.settled, journal.any (Occurrence.fires 1 1 6),
        journal.filterMap Occurrence.passed?)) =
      some (some 1, some 4, true, [3, 2]) := by decide +kernel

theorem relay_dispatch_resolves :
    ∃ p m m' journal result, relay.compile = .ok p ∧
      p.performAll (p.machine 0) [.start, .dispatch 1, .dispatch 1] = some m ∧
      p.dispatch m 1 = some (m', journal, result) ∧ .fired 1 1 (some 6) ∈ journal ∧
      ∃ decide : Decider, decide.Answers journal ∧ ∃ r, p.resolvePlan 1 6 decide = .ok r ∧
        journal.filterMap Occurrence.move? = r.steps.filter (!·.isPseudo) ∧
        r.pseudostates = [3, 2] ∧ r.finalLeaf = 4 := by
  have h := relay_third
  simp only [Option.bind_eq_bind, Option.bind_eq_some_iff, Prod.exists, Option.pure_def,
    Option.some.injEq, Prod.mk.injEq] at h
  obtain ⟨p, hp, m, hrun, m', journal, result, hdispatch, hleaf, hsettled, hfired, hpassed⟩ := h
  have hcompile := eq_ok_of_toOption hp
  have hmem : .fired 1 1 (some 6) ∈ journal := by
    obtain ⟨o, ho, heq⟩ := List.any_eq_true.1 hfired
    rwa [← Occurrence.fires_iff.1 heq]
  obtain ⟨m'', journal', result', hdispatch', hall⟩ :=
    dispatch_resolves relay_drafted hcompile hrun hleaf 1
  obtain ⟨rfl, rfl, rfl⟩ : m' = m'' ∧ journal = journal' ∧ result = result' := by
    simpa using hdispatch.symm.trans hdispatch'
  obtain ⟨⟨decide, hdecide⟩, -, hresolves⟩ := hall 1 6 hmem
  obtain ⟨r, hr, hmoves, hpseudo, hfinal⟩ := hresolves decide hdecide
  refine ⟨p, m, m', journal, result, hcompile, hrun, hdispatch, hmem, decide, hdecide, r, hr,
    hmoves, hpseudo ▸ hpassed, ?_⟩
  simpa [hsettled] using hfinal.symm

end Chart

end Statechart
