import Statechart.Proofs.Sound

/-
  What a machine does on a sound program, function by function. Leaving and entering states amounts
  to crossing their boundaries one after the other (`exitUpTo_eq`, `enterAll_eq`), so running a plan
  that fits has a closed form (`runPlan_eq`): afterwards the machine is where the plan arrives, with
  the handlers of that state in force (`Machine.At`).
-/

namespace Statechart

variable {V : Type}

/-- Nothing is in the way of entering a state. -/
structure Machine.Ready (m : Machine V) (p : Program V) : Prop where
  handlers : m.table.handlers.length = p.events.size
  store : m.history.values.size = p.histories.size

/-- `s` is the innermost active state, and its handlers are in force. -/
structure Machine.At (m : Machine V) (p : Program V) (s : StateId) : Prop where
  active : m.table.active = some s
  handlers : p.handlerRow? s = some m.table.handlers
  lt : s < p.states.size
  store : m.history.values.size = p.histories.size

namespace Program

variable (p : Program V)

/-! ## Crossing boundaries -/

/-- The behaviors of a state on one of its boundaries. -/
def boundaryOf (s : StateId) : Boundary → List (GuardedAction V)
  | .enter => ((p.states[s]?).map (·.onEnter)).getD []
  | .exit => ((p.states[s]?).map (·.onExit)).getD []

/-- Reports that a state was entered or left. -/
def crossed (s : StateId) : Boundary → Occurrence V
  | .enter => .entered s
  | .exit => .exited s

/-- Crosses a boundary of a state. -/
def cross (b : Boundary) (s : StateId) (vars : V) : V × Journal V :=
  let run := runBoundary s b (p.boundaryOf s b) vars
  (run.1, crossed s b :: run.2)

/-- Crosses the same boundary of one state after the other. -/
def crossAll (b : Boundary) : List StateId → V → V × Journal V
  | [], vars => (vars, [])
  | s :: ss, vars =>
    let first := p.cross b s vars
    let rest := crossAll b ss first.1
    (rest.1, first.2 ++ rest.2)

/-- What entering a state stores. -/
def remember (store : HistoryStore) (s : StateId) : HistoryStore :=
  (((p.states[s]?).map (·.writes)).getD []).foldl (fun store w => store.set w.history w.value) store

theorem size_foldl_set (writes : List HistoryWrite) (store : HistoryStore) :
    (writes.foldl (fun store w => store.set w.history w.value) store).values.size =
      store.values.size := by
  induction writes generalizing store with
  | nil => rfl
  | cons w writes ih => rw [List.foldl_cons, ih, HistoryStore.set, Array.size_setIfInBounds]

theorem size_remember (store : HistoryStore) (s : StateId) :
    (p.remember store s).values.size = store.values.size :=
  size_foldl_set _ _

/-- The states that a plan leaves when `active` is the innermost active state. -/
def exits (plan : Plan V) (active : StateId) : List StateId :=
  match plan.exitTo with
  | none => []
  | some t => p.hierarchy.chain active t

/-- Runs the plan with number `q` from `active`: leaving, its action, entering. -/
def travel (q : PlanId) (plan : Plan V) (active : StateId) (vars : V) : V × Journal V :=
  let out := p.crossAll .exit (p.exits plan active) vars
  let acted := runAction (.plan q) plan.action out.1
  let into := p.crossAll .enter plan.enter acted.1
  (into.1, out.2 ++ acted.2 ++ into.2)

end Program

/-- The machine `m`, in which `active` is the innermost active state, has run the plan with number
`q` and is now `m'`. -/
structure Program.Travels (p : Program V) (m : Machine V) (active : StateId) (q : PlanId)
    (plan : Plan V) (m' : Machine V) : Prop where
  start : m.At p active
  plan_eq : p.plans[q]? = some plan
  fits : plan.Fits p active
  run : p.runPlan m q = some (m', (p.travel q plan active m.vars).2, plan.next)
  arrived : m'.At p (plan.arrival active)
  vars : m'.vars = (p.travel q plan active m.vars).1
  history : m'.history = plan.enter.foldl p.remember m.history

theorem Machine.At.withVars {m : Machine V} {p : Program V} {s : StateId} (hm : m.At p s)
    (vars : V) : ({ m with vars } : Machine V).At p s :=
  ⟨hm.active, hm.handlers, hm.lt, hm.store⟩

namespace Program.Sound

variable {p : Program V} (hp : p.Sound) {m : Machine V} {s t active : StateId}

include hp

theorem ready_of_at (hm : m.At p s) : m.Ready p := by
  obtain ⟨handlers, hrow, hlen, -⟩ := hp.handlers s hm.lt
  obtain rfl : handlers = m.table.handlers := Option.some.inj (hrow.symm.trans hm.handlers)
  exact ⟨hlen, hm.store⟩

/-- Entering a state crosses its boundary, and the machine is there. -/
theorem enter_eq (hm : m.Ready p) (hs : s < p.states.size) :
    ∃ m', p.enter m s = some (m', (p.cross .enter s m.vars).2) ∧ m'.At p s ∧
      m'.vars = (p.cross .enter s m.vars).1 ∧ m'.history = p.remember m.history s ∧
      m'.table.settled = m.table.settled := by
  obtain ⟨handlers, hrow, hlen, -⟩ := hp.handlers s hs
  have hget := Array.getElem?_eq_getElem hs
  have hinstall : m.table.install? handlers = some { m.table with handlers } := by
    rw [DispatchTable.install?, if_pos (hlen.trans hm.handlers.symm)]
  refine ⟨⟨_, ⟨handlers, some s, m.table.settled⟩, p.remember m.history s⟩, ?_,
    ⟨rfl, hrow, hs, (p.size_remember _ _).trans hm.store⟩, rfl, rfl, rfl⟩
  simp only [enter, hget, hrow, hinstall, Option.bind_eq_bind, Option.bind_some, cross,
    boundaryOf, remember, crossed, Option.map_some, Option.getD_some, Option.pure_def]

/-- Leaving a state that is not a root crosses its boundary, and the machine is in its parent. -/
theorem exit_eq {q : StateId} (hm : m.At p s) (hq : p.hierarchy.parent s = some q) :
    ∃ m', p.exit m s = some (m', (p.cross .exit s m.vars).2) ∧ m'.At p q ∧
      m'.vars = (p.cross .exit s m.vars).1 ∧ m'.history = m.history ∧
      m'.table.settled = m.table.settled := by
  have hget := Array.getElem?_eq_getElem hm.lt
  have hparent := (hp.parent hget).symm.trans hq
  have hlt : q < p.states.size := Nat.lt_trans (p.hierarchy.parent_lt hq) hm.lt
  obtain ⟨handlers, hrow, hlen, -⟩ := hp.handlers q hlt
  have hinstall : m.table.install? handlers = some { m.table with handlers } := by
    rw [DispatchTable.install?, if_pos (hlen.trans (hp.ready_of_at hm).handlers.symm)]
  refine ⟨⟨_, ⟨handlers, some q, m.table.settled⟩, m.history⟩, ?_,
    ⟨rfl, hrow, hlt, hm.store⟩, rfl, rfl, rfl⟩
  simp only [exit, hget, hparent, hrow, hinstall, Option.bind_eq_bind, Option.bind_some, cross,
    boundaryOf, crossed, Option.map_some, Option.getD_some, Option.pure_def]

omit hp in
theorem lt_of_parent {q : StateId} (hq : p.hierarchy.parent s = some q) : s < p.states.size := by
  by_contra hge
  have hnone : p.states[s]? = none := Array.getElem?_eq_none (Nat.le_of_not_lt hge)
  simp [hierarchy, backward, hnone] at hq

/-- Leaving goes up to the turn, however many states are on the way. -/
theorem exitWithin_eq {n : Nat} (hm : m.At p s) (ht : t ∈ p.hierarchy.ancestors s)
    (hn : (p.hierarchy.chain s t).length < n) :
    ∃ m', p.exitWithin t n m = some (m', (p.crossAll .exit (p.hierarchy.chain s t) m.vars).2) ∧
      m'.At p t ∧ m'.vars = (p.crossAll .exit (p.hierarchy.chain s t) m.vars).1 ∧
      m'.history = m.history ∧ m'.table.settled = m.table.settled := by
  induction n generalizing m s with
  | zero => exact absurd hn (Nat.not_lt_zero _)
  | succ n ih =>
    rw [exitWithin, hm.active]
    by_cases hst : s = t
    · subst hst
      simp only [if_true]
      rw [Hierarchy.chain_self]
      exact ⟨m, rfl, hm, rfl, rfl, rfl⟩
    · cases hq : p.hierarchy.parent s with
      | none =>
        rw [Hierarchy.ancestors_of_root hq, List.mem_singleton] at ht
        exact absurd ht.symm hst
      | some q =>
        rw [Hierarchy.chain_of_parent hq hst, List.length_cons] at hn
        have htq : t ∈ p.hierarchy.ancestors q :=
          ((Hierarchy.mem_ancestors_of_parent hq).1 ht).resolve_left (Ne.symm hst)
        obtain ⟨m₁, hexit, hm₁, hvars₁, hhistory₁, hsettled₁⟩ := hp.exit_eq hm hq
        obtain ⟨m₂, hrest, hm₂, hvars₂, hhistory₂, hsettled₂⟩ := ih hm₁ htq (by omega)
        refine ⟨m₂, ?_, hm₂, ?_, hhistory₂.trans hhistory₁, hsettled₂.trans hsettled₁⟩
        · simp only [if_neg hst, hexit, hrest, Option.bind_eq_bind, Option.bind_some,
            Option.pure_def]
          rw [Hierarchy.chain_of_parent hq hst, crossAll, hvars₁]
        · rw [hvars₂, hvars₁, Hierarchy.chain_of_parent hq hst, crossAll]

theorem exitUpTo_eq (hm : m.At p s) (ht : t ∈ p.hierarchy.ancestors s) :
    ∃ m', p.exitUpTo m t = some (m', (p.crossAll .exit (p.hierarchy.chain s t) m.vars).2) ∧
      m'.At p t ∧ m'.vars = (p.crossAll .exit (p.hierarchy.chain s t) m.vars).1 ∧
      m'.history = m.history ∧ m'.table.settled = m.table.settled := by
  have hlen := p.hierarchy.chain_length_le s t
  have hlt := hm.lt
  exact hp.exitWithin_eq hm ht (by lia)

/-- Entering goes down a chain of children. -/
theorem enterAll_eq {path : List StateId} (hm : m.At p s) (hpath : p.hierarchy.Descends s path) :
    ∃ m', p.enterAll m path = some (m', (p.crossAll .enter path m.vars).2) ∧
      m'.At p (path.getLastD s) ∧ m'.vars = (p.crossAll .enter path m.vars).1 ∧
      m'.history = path.foldl p.remember m.history ∧ m'.table.settled = m.table.settled := by
  induction path generalizing m s with
  | nil => exact ⟨m, rfl, hm, rfl, rfl, rfl⟩
  | cons t path ih =>
    obtain ⟨hparent, hpath⟩ := hpath
    obtain ⟨m₁, henter, hm₁, hvars₁, hhistory₁, hsettled₁⟩ :=
      hp.enter_eq (hp.ready_of_at hm) (lt_of_parent hparent)
    obtain ⟨m₂, hrest, hm₂, hvars₂, hhistory₂, hsettled₂⟩ := ih hm₁ hpath
    refine ⟨m₂, ?_, by rwa [List.getLastD_cons], ?_, ?_, hsettled₂.trans hsettled₁⟩
    · simp only [enterAll, henter, hrest, Option.bind_eq_bind, Option.bind_some, Option.pure_def]
      rw [crossAll, hvars₁]
    · rw [hvars₂, hvars₁, crossAll]
    · rw [hhistory₂, hhistory₁, List.foldl_cons]

/-- Running a plan that fits leads to where it arrives. -/
theorem runPlan_eq {q : PlanId} {plan : Plan V} (hm : m.At p active)
    (hq : p.plans[q]? = some plan) (hfits : plan.Fits p active) :
    ∃ m', p.runPlan m q = some (m', (p.travel q plan active m.vars).2, plan.next) ∧
      p.Travels m active q plan m' := by
  obtain ⟨m₁, hexit, hm₁, hvars₁, hhistory₁, hsettled₁⟩ :
      ∃ m₁, (match plan.exitTo with
          | none => some (m, [])
          | some turn => p.exitUpTo m turn) =
            some (m₁, (p.crossAll .exit (p.exits plan active) m.vars).2) ∧
        m₁.At p (plan.exitTo.getD active) ∧
        m₁.vars = (p.crossAll .exit (p.exits plan active) m.vars).1 ∧
        m₁.history = m.history ∧ m₁.table.settled = m.table.settled := by
    have hturn := hfits.turn
    unfold exits
    cases hexit : plan.exitTo with
    | none => exact ⟨m, rfl, hm, rfl, rfl, rfl⟩
    | some t => exact hp.exitUpTo_eq hm (hturn t hexit)
  obtain ⟨m₂, henter, hm₂, hvars₂, hhistory₂, hsettled₂⟩ := hp.enterAll_eq
    (hm₁.withVars (runAction (.plan q) plan.action m₁.vars).1) hfits.enter
  have hrun : p.runPlan m q = (match plan.exitTo with
      | none => some (m, [])
      | some turn => p.exitUpTo m turn).bind fun left =>
        (p.enterAll { left.1 with vars := (runAction (.plan q) plan.action left.1.vars).1 }
          plan.enter).bind fun into =>
            some (into.1, left.2 ++ (runAction (.plan q) plan.action left.1.vars).2 ++ into.2,
              plan.next) := by
    simp only [runPlan, hq, Option.bind_eq_bind, Option.bind_some, Option.pure_def]
    cases plan.exitTo <;> rfl
  rw [hexit, Option.bind_some, henter, Option.bind_some, hvars₁] at hrun
  refine ⟨m₂, hrun, hm, hq, hfits, hrun, hm₂, ?_, hhistory₂.trans (by rw [hhistory₁])⟩
  rw [hvars₂, hvars₁, travel]

end Program.Sound

theorem Program.lt_of_descends {p : Program V} {q : StateId} {path : List StateId}
    (hd : p.hierarchy.Descends q path) : ∀ s ∈ path, s < p.states.size := by
  induction path generalizing q with
  | nil => simp
  | cons t path ih =>
    intro s hs
    rcases List.mem_cons.1 hs with rfl | hs
    · exact Sound.lt_of_parent hd.1
    · exact ih hd.2 s hs

/-! ## Leaving a pseudostate -/

/-- The plan of the branch with this number, or of the fallback. -/
def PseudoRow.planOf (row : PseudoRow V) (choice : Option Nat) : PlanId :=
  match choice.bind fun i => row.branches[i]? with
  | some b => b.plan
  | none => row.fallback

theorem PseudoRow.planOf_mem_planIds (row : PseudoRow V) (choice : Option Nat) :
    row.planOf choice ∈ row.planIds := by
  unfold planOf planIds
  cases hb : choice.bind fun i => row.branches[i]? with
  | none => simp
  | some b =>
    obtain ⟨i, -, hi⟩ := Option.bind_eq_some_iff.1 hb
    exact List.mem_append_left _ (List.mem_map_of_mem (List.mem_of_getElem? hi))

namespace Program

/-- An open branch is given with its number and its plan. -/
theorem firstOpen_eq_some {r : PseudoId} {m : Machine V} {branches : List (BranchRow V)}
    {i k : Nat} {q : PlanId} (h : (firstOpen r m branches i).1 = some (k, q)) :
    i ≤ k ∧ ∃ b, branches[k - i]? = some b ∧ b.plan = q := by
  induction branches generalizing i with
  | nil => simp [firstOpen] at h
  | cons b branches ih =>
    rw [firstOpen] at h
    cases hopen : (branchOpen r m b.guard).1 with
    | true =>
      simp only [hopen, if_true, Option.some.injEq, Prod.mk.injEq] at h
      obtain ⟨rfl, rfl⟩ := h
      exact ⟨Nat.le_refl _, b, by simp, rfl⟩
    | false =>
      simp only [hopen, Bool.false_eq_true, if_false] at h
      obtain ⟨hle, b', hb', hq⟩ := ih h
      refine ⟨Nat.le_of_succ_le hle, b', ?_, hq⟩
      rw [show k - i = (k - (i + 1)) + 1 by omega, List.getElem?_cons_succ]
      exact hb'

/-- The branch by which a pseudostate is left, by number; none for the fallback. -/
def choiceAt (row : PseudoRow V) (r : PseudoId) (m : Machine V) : Option Nat :=
  (firstOpen r m row.branches 0).1.map Prod.fst

theorem planOf_choiceAt (row : PseudoRow V) (r : PseudoId) (m : Machine V) :
    row.planOf (choiceAt row r m) =
      match (firstOpen r m row.branches 0).1 with
      | some (_, q) => q
      | none => row.fallback := by
  unfold choiceAt
  cases hopen : (firstOpen r m row.branches 0).1 with
  | none => rfl
  | some found =>
    obtain ⟨k, q⟩ := found
    obtain ⟨-, b, hb, hq⟩ := firstOpen_eq_some hopen
    rw [Nat.sub_zero] at hb
    simp [PseudoRow.planOf, hb, hq]

theorem select_eq {p : Program V} {r : PseudoId} {row : PseudoRow V} (m : Machine V)
    (hr : p.pseudostates[r]? = some row) :
    p.select m r = some (row.planOf (choiceAt row r m),
      (firstOpen r m row.branches 0).2 ++ [.passed r (choiceAt row r m)]) := by
  rw [planOf_choiceAt]
  unfold select choiceAt
  rw [hr]
  simp only [Option.bind_eq_bind, Option.bind_some]
  rcases firstOpen r m row.branches 0 with ⟨found, tested⟩
  cases found <;> rfl

/-! ## Executing to completion -/

/-- The machine `m`, in which `active` is the innermost active state, runs the plan with number `q`
and those it goes on with, at most `n` more, until it is `m'`. -/
inductive Executes (p : Program V) :
    Nat → Machine V → StateId → PlanId → Machine V → Journal V → Prop
  | settle {n m active q plan m₁ s} (h : p.Travels m active q plan m₁)
      (hnext : plan.next = .settle s) :
      Executes p n m active q { m₁ with table := { m₁.table with settled := some s } }
        ((p.travel q plan active m.vars).2 ++ [.settled s])
  | pass {n m active q plan m₁ r row m' rest} (h : p.Travels m active q plan m₁)
      (hnext : plan.next = .pseudo r) (hr : p.pseudostates[r]? = some row)
      (hrest : Executes p n m₁ (plan.arrival active) (row.planOf (choiceAt row r m₁)) m' rest) :
      Executes p (n + 1) m active q m' ((p.travel q plan active m.vars).2 ++
        ((firstOpen r m₁ row.branches 0).2 ++ [.passed r (choiceAt row r m₁)]) ++ rest)

end Program

/-- The machine has come to rest in `s`. -/
structure Machine.Settled (m : Machine V) (p : Program V) (s : StateId) : Prop extends
    m.At p s where
  settled : m.table.settled = some s
  leaf : p.initialOf s = none

namespace Program

variable {p : Program V} {m m' : Machine V} {active : StateId} {q : PlanId} {n : Nat}

theorem executeWithin_settle {m₁ : Machine V} {journal : Journal V} {s : StateId}
    (hrun : p.runPlan m q = some (m₁, journal, .settle s)) :
    p.executeWithin (n + 1) m q =
      some ({ m₁ with table := { m₁.table with settled := some s } }, journal ++ [.settled s]) := by
  simp [executeWithin, hrun]

theorem executeWithin_pass {m₁ : Machine V} {journal rest : Journal V} {r : PseudoId}
    {row : PseudoRow V} (hrun : p.runPlan m q = some (m₁, journal, .pseudo r))
    (hr : p.pseudostates[r]? = some row)
    (hrest : p.executeWithin n m₁ (row.planOf (choiceAt row r m₁)) = some (m', rest)) :
    p.executeWithin (n + 1) m q = some (m', journal ++ ((firstOpen r m₁ row.branches 0).2 ++
      [.passed r (choiceAt row r m₁)]) ++ rest) := by
  simp [executeWithin, hrun, select_eq m₁ hr, hrest]

/-- A plan that fits is executed to completion, since every way through pseudostates goes down. -/
theorem Sound.exists_executes (hp : p.Sound) {rank : PseudoId → Nat} (hrank : p.Ranked rank)
    {plan : Plan V} (hm : m.At p active) (hq : p.plans[q]? = some plan)
    (hfits : plan.Fits p active) (hn : ∀ r, plan.next = .pseudo r → rank r < n) :
    ∃ m' journal, p.executeWithin (n + 1) m q = some (m', journal) ∧
      p.Executes n m active q m' journal := by
  induction n generalizing m active q plan with
  | zero =>
    obtain ⟨m₁, hrun, htravels⟩ := hp.runPlan_eq hm hq hfits
    cases hnext : plan.next with
    | settle s => exact ⟨_, _, executeWithin_settle (hnext ▸ hrun), .settle htravels hnext⟩
    | pseudo r => exact absurd (hn r hnext) (Nat.not_lt_zero _)
  | succ n ih =>
    obtain ⟨m₁, hrun, htravels⟩ := hp.runPlan_eq hm hq hfits
    cases hnext : plan.next with
    | settle s => exact ⟨_, _, executeWithin_settle (hnext ▸ hrun), .settle htravels hnext⟩
    | pseudo r =>
      have harrives := hfits.next
      rw [hnext] at harrives
      obtain ⟨row, hr, hcont, hk⟩ := harrives
      have hmem := row.planOf_mem_planIds (choiceAt row r m₁)
      obtain ⟨plan', hq', hfits'⟩ := hp.pseudostates hr hk _ hmem
      obtain ⟨m', rest, hexec, hrest⟩ := ih htravels.arrived hq' (hcont ▸ hfits') fun r' hr' =>
        Nat.lt_of_lt_of_le (hrank.2 hr hmem hq' hr') (Nat.lt_succ_iff.1 (hn r hnext))
      exact ⟨m', _, executeWithin_pass (hnext ▸ hrun) hr hexec, .pass htravels hnext hr hrest⟩

theorem Sound.exists_execute (hp : p.Sound) {plan : Plan V} (hm : m.At p active)
    (hq : p.plans[q]? = some plan) (hfits : plan.Fits p active) :
    ∃ m' journal, p.execute m q = some (m', journal) ∧
      p.Executes p.pseudostates.size m active q m' journal := by
  obtain ⟨rank, hrank⟩ := hp.ranked
  refine hp.exists_executes hrank hm hq hfits fun r hnext => ?_
  have harrives := hfits.next
  rw [hnext] at harrives
  obtain ⟨row, hr, -⟩ := harrives
  exact hrank.1 r (Array.getElem?_eq_some_iff.1 hr).1

theorem Executes.exists_plan {journal : Journal V} (h : p.Executes n m active q m' journal) :
    ∃ plan, p.plans[q]? = some plan := by
  cases h with
  | settle h _ => exact ⟨_, h.plan_eq⟩
  | pass h _ _ _ => exact ⟨_, h.plan_eq⟩

theorem Executes.exists_settled {journal : Journal V}
    (h : p.Executes n m active q m' journal) : ∃ s, m'.Settled p s := by
  induction h with
  | settle h hnext =>
    have harrives := h.fits.next
    rw [hnext] at harrives
    obtain ⟨rfl, hleaf⟩ := harrives
    have hm := h.arrived
    exact ⟨_, ⟨hm.active, hm.handlers, hm.lt, hm.store⟩, rfl, hleaf⟩
  | pass _ _ _ _ ih => exact ih

end Program

end Statechart
