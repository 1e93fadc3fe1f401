import Statechart.Proofs.Dispatch

/-
  Where a machine can be between two commands. Before it is first started nothing is active; from
  then on, whatever is done to it, it has come to rest in a state without an initial pseudostate,
  which is innermost and whose handlers are in force (`performAll_settles`). Every command keeps
  this, and no command ever fails.
-/

namespace Statechart

variable {V : Type}

def Command.isStart : Command V → Bool
  | .start => true
  | _ => false

/-- One command after the other. -/
def Program.performAll (p : Program V) : Machine V → List (Command V) → Option (Machine V)
  | m, [] => some m
  | m, command :: commands => do
    let (m, _, _) ← p.perform m command
    performAll p m commands

/-- The machine has not been started. -/
structure Machine.Idle (m : Machine V) (p : Program V) : Prop where
  table : m.table = .new p.events.size
  store : m.history.values.size = p.histories.size

theorem Machine.Idle.ready {m : Machine V} {p : Program V} (hm : m.Idle p) : m.Ready p :=
  ⟨by rw [hm.table, DispatchTable.new, List.length_replicate], hm.store⟩

theorem Machine.Idle.handler_eq_none {m : Machine V} {p : Program V} (hm : m.Idle p) (e : EventId) :
    m.table.handler e = none := by
  rw [DispatchTable.handler, hm.table, DispatchTable.new, List.getElem?_replicate]
  split <;> rfl

theorem Machine.Settled.withVars {m : Machine V} {p : Program V} {s : StateId}
    (hm : m.Settled p s) (vars : V) : ({ m with vars } : Machine V).Settled p s :=
  ⟨hm.toAt.withVars vars, hm.settled, hm.leaf⟩

namespace Program

theorem idle_machine (p : Program V) (vars : V) : (p.machine vars).Idle p :=
  ⟨rfl, by simp [machine, HistoryStore.new]⟩

theorem size_clear (store : HistoryStore) : store.clear.values.size = store.values.size := by
  simp [HistoryStore.clear, HistoryStore.new]

/-- The machine `m` is started and comes to rest as `m'`: it enters the root and leaves the root's
initial pseudostate. -/
inductive Starts (p : Program V) (m : Machine V) : Machine V → Journal V → Prop
  | intro {m₁ row m' moved}
      (henter : p.enter { m with table := m.table.reset } rootState =
        some (m₁, (p.cross .enter rootState m.vars).2))
      (hroot : m₁.At p rootState) (hhistory : m₁.history = p.remember m.history rootState)
      (hr : p.pseudostates[p.rootInitial]? = some row) (hk : row.kind ≠ .historyContinue)
      (hexec : p.Executes p.pseudostates.size m₁ rootState
        (row.planOf (choiceAt row p.rootInitial m₁)) m' moved) :
      Starts p m m' (.started :: (p.cross .enter rootState m.vars).2 ++
        ((firstOpen p.rootInitial m₁ row.branches 0).2 ++
          [.passed p.rootInitial (choiceAt row p.rootInitial m₁)]) ++ moved)

variable {p : Program V} {m m' : Machine V} {leaf : StateId}

/-- An event that no state handles does nothing. -/
theorem dispatch_unhandled {e : EventId} (h : m.table.handler e = none) :
    p.dispatch m e = some (m, [.dispatched e], .noMatch) := by
  rw [dispatch, h]
  cases p.states.size <;> rfl

/-- However an event ends, the machine is at rest again. -/
theorem Outcome.exists_settled {journal : Journal V} {moved : Bool}
    (hm : m.Settled p leaf) (h : p.Outcome leaf m m' journal moved) : ∃ s, m'.Settled p s := by
  cases h with
  | stay vars _ => exact ⟨leaf, hm.withVars vars⟩
  | move _ _ hexec => exact hexec.exists_settled

namespace Sound

variable (hp : p.Sound)

include hp

/-- A machine can be started from wherever it is. -/
theorem exists_starts (hm : m.Ready p) : ∃ m' journal, p.start m = some (m', journal) ∧
    p.Starts m m' journal := by
  have hready : ({ m with table := m.table.reset } : Machine V).Ready p :=
    ⟨by simpa [DispatchTable.reset, DispatchTable.new] using hm.handlers, hm.store⟩
  obtain ⟨m₁, henter, hm₁, -, hhistory, -⟩ := hp.enter_eq hready hp.root
  obtain ⟨row, hr, hcont, hk⟩ := hp.rootInitial
  obtain ⟨plan, hq, hfits⟩ := hp.pseudostates hr hk _
    (row.planOf_mem_planIds (choiceAt row p.rootInitial m₁))
  obtain ⟨m', moved, hexec, hruns⟩ := hp.exists_execute hm₁ hq (hcont ▸ hfits)
  refine ⟨m', _, ?_, .intro henter hm₁ hhistory hr hk hruns⟩
  simp [start, henter, select_eq m₁ hr, hexec]

/-- Starting brings a machine to rest. -/
theorem exists_start (hm : m.Ready p) : ∃ m' journal s, p.start m = some (m', journal) ∧
    m'.Settled p s := by
  obtain ⟨m', journal, hstart, hstarts⟩ := hp.exists_starts hm
  cases hstarts with
  | intro _ _ _ _ _ hexec =>
    obtain ⟨s, hs⟩ := hexec.exists_settled
    exact ⟨m', _, s, hstart, hs⟩

/-- A command finds a machine at rest and leaves it at rest. -/
theorem exists_perform (hm : m.Settled p leaf) (command : Command V) :
    ∃ m' journal result s, p.perform m command = some (m', journal, result) ∧ m'.Settled p s := by
  cases command with
  | start =>
    obtain ⟨m', journal, s, hstart, hs⟩ := hp.exists_start (hp.ready_of_at hm.toAt)
    exact ⟨m', journal, none, s, by simp [perform, hstart], hs⟩
  | dispatch e =>
    obtain ⟨m', journal, result, moved, hdispatch, houtcome⟩ := hp.exists_dispatch hm.toAt e
    obtain ⟨s, hs⟩ := houtcome.exists_settled hm
    exact ⟨m', journal, some result, s, by simp [perform, hdispatch], hs⟩
  | clearHistory =>
    exact ⟨_, _, _, leaf, rfl, ⟨hm.active, hm.handlers, hm.lt, by rw [size_clear, hm.store]⟩,
      hm.settled, hm.leaf⟩
  | assign change => exact ⟨_, _, _, leaf, rfl, hm.withVars _⟩

omit hp in
/-- Until it is started, a machine does not react. -/
theorem exists_perform_idle (hm : m.Idle p) {command : Command V} (hcommand : ¬ command.isStart) :
    ∃ m' journal result, p.perform m command = some (m', journal, result) ∧ m'.Idle p := by
  cases command with
  | start => simp [Command.isStart] at hcommand
  | dispatch e =>
    exact ⟨m, [.dispatched e], some .noMatch,
      by simp [perform, dispatch_unhandled (hm.handler_eq_none e)], hm⟩
  | clearHistory => exact ⟨_, _, _, rfl, hm.table, by rw [size_clear, hm.store]⟩
  | assign change => exact ⟨_, _, _, rfl, hm.table, hm.store⟩

theorem exists_performAll (hm : m.Settled p leaf) (commands : List (Command V)) :
    ∃ m' s, p.performAll m commands = some m' ∧ m'.Settled p s := by
  induction commands generalizing m leaf with
  | nil => exact ⟨m, leaf, rfl, hm⟩
  | cons command commands ih =>
    obtain ⟨m₁, journal, result, s, hperform, hs⟩ := hp.exists_perform hm command
    obtain ⟨m', s', hrest, hs'⟩ := ih hs
    exact ⟨m', s', by simp [performAll, hperform, hrest], hs'⟩

/-- A run from the beginning: idle until the first start, at rest from then on. -/
theorem exists_performAll_idle (hm : m.Idle p) (commands : List (Command V)) :
    ∃ m', p.performAll m commands = some m' ∧
      ((∀ x ∈ commands, ¬ x.isStart) → m'.Idle p) ∧
      ((∃ x ∈ commands, x.isStart) → ∃ s, m'.Settled p s) := by
  induction commands generalizing m with
  | nil => exact ⟨m, rfl, fun _ => hm, by simp⟩
  | cons command commands ih =>
    by_cases hstart : command.isStart
    · obtain ⟨m₁, journal, s, hrun, hs⟩ := hp.exists_start hm.ready
      obtain ⟨m', s', hrest, hs'⟩ := hp.exists_performAll hs commands
      have hcommand : command = .start := by cases command <;> simp_all [Command.isStart]
      refine ⟨m', by simp [performAll, hcommand, perform, hrun, hrest], fun h => ?_,
        fun _ => ⟨s', hs'⟩⟩
      exact absurd hstart (h command List.mem_cons_self)
    · obtain ⟨m₁, journal, result, hperform, hidle⟩ := exists_perform_idle hm hstart
      obtain ⟨m', hrest, hbefore, hafter⟩ := ih hidle
      refine ⟨m', by simp [performAll, hperform, hrest],
        fun h => hbefore fun x hx => h x (List.mem_cons_of_mem _ hx), ?_⟩
      rintro ⟨x, hx, hxs⟩
      rcases List.mem_cons.1 hx with rfl | hx
      · exact absurd hxs hstart
      · exact hafter ⟨x, hx, hxs⟩

/-- A machine that says where it has settled is at rest there. -/
theorem settled_of_performAll {vars : V} {commands : List (Command V)}
    (hrun : p.performAll (p.machine vars) commands = some m)
    (hleaf : m.table.settled = some leaf) : m.Settled p leaf := by
  obtain ⟨m', hrun', hbefore, hafter⟩ :=
    hp.exists_performAll_idle (p.idle_machine vars) commands
  obtain rfl : m' = m := Option.some.inj (hrun'.symm.trans hrun)
  by_cases hstart : ∃ x ∈ commands, x.isStart
  · obtain ⟨s, hs⟩ := hafter hstart
    obtain rfl : s = leaf := Option.some.inj (hs.settled.symm.trans hleaf)
    exact hs
  · have hidle := hbefore fun x hx hxs => hstart ⟨x, hx, hxs⟩
    simp [hidle.table, DispatchTable.new] at hleaf

end Sound

end Program

namespace Chart

variable {c : Chart V} {p : Program V}

theorem size_states_of_compile (h : c.compile = .ok p) : p.states.size = c.states.size := by
  obtain ⟨-, -, rfl⟩ := compile_eq_ok_iff.1 h
  rw [size_states_program, size_states_ordered]

theorem initialOf_of_compile (h : c.compile = .ok p) (s : StateId) :
    p.initialOf s = c.initialOf s := by
  obtain ⟨-, -, rfl⟩ := compile_eq_ok_iff.1 h
  rw [initialOf_program, initialOf_ordered]

theorem hierarchy_of_compile (h : c.compile = .ok p) : p.hierarchy = c.hierarchy := by
  obtain ⟨-, -, rfl⟩ := compile_eq_ok_iff.1 h
  rw [hierarchy_program, hierarchy_ordered]

/-- Whatever is done to a machine, nothing is active before its first start, and after it the
machine rests in a state that owns no initial pseudostate, which is innermost and whose handlers
are in force. -/
theorem performAll_settles (hc : c.Drafted) (h : c.compile = .ok p) (vars : V)
    (commands : List (Command V)) :
    ∃ m, p.performAll (p.machine vars) commands = some m ∧
      ((∀ x ∈ commands, ¬ x.isStart) → m.table.settled = none ∧ m.table.active = none ∧
        m.table.handlers = List.replicate p.events.size none) ∧
      ((∃ x ∈ commands, x.isStart) → ∃ leaf < c.states.size, m.table.settled = some leaf ∧
        m.table.active = some leaf ∧ p.handlerRow? leaf = some m.table.handlers ∧
        ¬ c.Owns leaf .initial ∧
        ((∀ s, c.children s ≠ [] → c.Owns s .initial) → c.children leaf = [])) := by
  have hp := hc.linked.sound_of_compile h
  obtain ⟨m, hrun, hbefore, hafter⟩ := hp.exists_performAll_idle (p.idle_machine vars) commands
  refine ⟨m, hrun, fun hx => ?_, fun hx => ?_⟩
  · rw [(hbefore hx).table]
    exact ⟨rfl, rfl, rfl⟩
  · obtain ⟨leaf, hs⟩ := hafter hx
    have hleaf : ¬ c.Owns leaf .initial := by
      rw [← hc.linked.initialOf_isSome_iff, ← initialOf_of_compile h, hs.leaf]
      simp
    refine ⟨leaf, size_states_of_compile h ▸ hs.lt, hs.settled, hs.active, hs.handlers, hleaf,
      fun hall => ?_⟩
    by_contra hchildren
    exact hleaf (hall leaf hchildren)

theorem relay_performAll_settles :
    ∃ p, relay.compile = .ok p ∧ ∃ m, p.performAll (p.machine 0)
        [.assign (· + 1), .dispatch 7, .start, .dispatch 1, .clearHistory, .dispatch 1] = some m ∧
      ∃ leaf < relay.states.size, m.table.settled = some leaf ∧ m.table.active = some leaf ∧
        p.handlerRow? leaf = some m.table.handlers ∧ ¬ relay.Owns leaf .initial := by
  obtain ⟨p, hp⟩ := exists_ok_of_isOk relay_compile_isOk
  obtain ⟨m, hrun, -, hafter⟩ := performAll_settles relay_drafted hp 0
    [.assign (· + 1), .dispatch 7, .start, .dispatch 1, .clearHistory, .dispatch 1]
  obtain ⟨leaf, hlt, hsettled, hactive, hhandlers, hleaf, -⟩ := hafter ⟨.start, by simp, rfl⟩
  exact ⟨p, hp, m, hrun, leaf, hlt, hsettled, hactive, hhandlers, hleaf⟩

end Chart

end Statechart
