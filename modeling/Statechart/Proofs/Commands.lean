import Statechart.Proofs.Resolution

/-
  What a command does to a machine, said once (`Program.Performs`): it starts it, lets an event run
  to completion, clears the store or assigns variables. A run is one command after the other
  (`PerformsAll`), and every run of a sound program is one (`Sound.performsAll`). What is stored
  changes only when states are entered, so the journal tells it (`PerformsAll.history_eq`).
-/

namespace Statechart

variable {V : Type}

def Command.clears : Command V → Bool
  | .clearHistory => true
  | _ => false

/-- The machine has not been started, or it has come to rest. -/
def Machine.Resting (m : Machine V) (p : Program V) : Prop :=
  m.Idle p ∨ ∃ leaf, m.Settled p leaf

/-- A machine at rest that says where it has settled is there. -/
theorem Machine.Resting.settled {m : Machine V} {p : Program V} {leaf : StateId}
    (hm : m.Resting p) (hleaf : m.table.settled = some leaf) : m.Settled p leaf := by
  rcases hm with hm | ⟨s, hm⟩
  · simp [hm.table, DispatchTable.new] at hleaf
  · obtain rfl : s = leaf := Option.some.inj (hm.settled.symm.trans hleaf)
    exact hm

/-- The state that was entered. -/
def Occurrence.entered? : Occurrence V → Option StateId
  | .entered s => some s
  | _ => none

namespace Program

/-! ## One command after the other -/

/-- One command after the other, with all that happens. -/
def recordAll (p : Program V) : Machine V → List (Command V) → Option (Machine V × Journal V)
  | m, [] => some (m, [])
  | m, command :: commands => do
    let (m, first, _) ← p.perform m command
    let (m, rest) ← recordAll p m commands
    return (m, first ++ rest)

/-- What one command does. -/
inductive Performs (p : Program V) : Machine V → Command V → Machine V → Journal V → Prop
  | start {m m' journal} (hm : m.Ready p) (h : p.Starts m m' journal) :
      Performs p m .start m' journal
  | unheard {m} (e : EventId) (hm : m.Idle p) : Performs p m (.dispatch e) m [.dispatched e]
  | dispatch {m leaf m' journal moved} (e : EventId) (hm : m.Settled p leaf)
      (h : p.Outcome leaf m m' journal moved) : Performs p m (.dispatch e) m' journal
  | clear {m : Machine V} : Performs p m .clearHistory { m with history := m.history.clear } []
  | assign {m : Machine V} (change : V → V) :
      Performs p m (.assign change) { m with vars := change m.vars } []

/-- What a run does. -/
inductive PerformsAll (p : Program V) :
    Machine V → List (Command V) → Machine V → Journal V → Prop
  | nil {m} : PerformsAll p m [] m []
  | cons {m command m₁ first commands m' rest} (h : p.Performs m command m₁ first)
      (hrest : PerformsAll p m₁ commands m' rest) :
      PerformsAll p m (command :: commands) m' (first ++ rest)

variable {p : Program V} {m m' : Machine V} {command : Command V} {commands : List (Command V)}
  {journal : Journal V}

theorem performAll_eq (p : Program V) (m : Machine V) (commands : List (Command V)) :
    p.performAll m commands = (p.recordAll m commands).map Prod.fst := by
  induction commands generalizing m with
  | nil => rfl
  | cons command commands ih =>
    simp only [performAll, recordAll, Option.bind_eq_bind, Option.map_bind, ih]
    cases p.perform m command with
    | none => rfl
    | some done =>
      simp only [Option.bind_some, Function.comp]
      cases p.recordAll done.1 commands <;> rfl

theorem resting_machine (p : Program V) (vars : V) : (p.machine vars).Resting p :=
  .inl (p.idle_machine vars)

namespace Sound

variable (hp : p.Sound)

include hp

theorem ready_of_resting (hm : m.Resting p) : m.Ready p := by
  rcases hm with hm | ⟨leaf, hm⟩
  · exact hm.ready
  · exact hp.ready_of_at hm.toAt

/-- A command finds a machine at rest, does one of these things and leaves it at rest. -/
theorem performs {result : Option SendResult} (hm : m.Resting p)
    (h : p.perform m command = some (m', journal, result)) :
    p.Performs m command m' journal ∧ m'.Resting p := by
  cases command with
  | start =>
    obtain ⟨m₁, first, hstart, hstarts⟩ := hp.exists_starts (hp.ready_of_resting hm)
    simp only [perform, hstart, Option.bind_eq_bind, Option.bind_some, Option.pure_def,
      Option.some.injEq, Prod.mk.injEq] at h
    obtain ⟨rfl, rfl, -⟩ := h
    refine ⟨.start (hp.ready_of_resting hm) hstarts, .inr ?_⟩
    cases hstarts with
    | intro _ _ _ _ _ hexec => exact hexec.exists_settled
  | dispatch e =>
    rcases hm with hm | ⟨leaf, hm⟩
    · simp only [perform, dispatch_unhandled (hm.handler_eq_none e), Option.bind_eq_bind,
        Option.bind_some, Option.pure_def, Option.some.injEq, Prod.mk.injEq] at h
      obtain ⟨rfl, rfl, -⟩ := h
      exact ⟨.unheard e hm, .inl hm⟩
    · obtain ⟨m₁, first, result₁, moved, hdispatch, houtcome⟩ := hp.exists_dispatch hm.toAt e
      simp only [perform, hdispatch, Option.bind_eq_bind, Option.bind_some, Option.pure_def,
        Option.some.injEq, Prod.mk.injEq] at h
      obtain ⟨rfl, rfl, -⟩ := h
      exact ⟨.dispatch e hm houtcome, .inr (houtcome.exists_settled hm)⟩
  | clearHistory =>
    cases h
    refine ⟨.clear, ?_⟩
    rcases hm with hm | ⟨leaf, hm⟩
    · exact .inl ⟨hm.table, by rw [size_clear, hm.store]⟩
    · exact .inr ⟨leaf, ⟨hm.active, hm.handlers, hm.lt, by rw [size_clear, hm.store]⟩, hm.settled,
        hm.leaf⟩
  | assign change =>
    cases h
    refine ⟨.assign change, ?_⟩
    rcases hm with hm | ⟨leaf, hm⟩
    · exact .inl ⟨hm.table, hm.store⟩
    · exact .inr ⟨leaf, hm.withVars _⟩

theorem performsAll (hm : m.Resting p) (h : p.recordAll m commands = some (m', journal)) :
    p.PerformsAll m commands m' journal ∧ m'.Resting p := by
  induction commands generalizing m journal with
  | nil =>
    cases h
    exact ⟨.nil, hm⟩
  | cons command commands ih =>
    simp only [recordAll, Option.bind_eq_bind, Option.bind_eq_some_iff] at h
    obtain ⟨⟨m₁, first, result⟩, hperform, ⟨m₂, rest⟩, hrecord, heq⟩ := h
    cases heq
    obtain ⟨hfirst, hm₁⟩ := hp.performs hm hperform
    obtain ⟨hrest, hm₂⟩ := ih hm₁ hrecord
    exact ⟨.cons hfirst hrest, hm₂⟩

/-- From rest no command fails. -/
theorem exists_perform_of_resting (hm : m.Resting p) (command : Command V) :
    ∃ m' journal result, p.perform m command = some (m', journal, result) := by
  rcases hm with hm | ⟨leaf, hm⟩
  · by_cases hcommand : command.isStart
    · obtain ⟨m', journal, s, hstart, -⟩ := hp.exists_start hm.ready
      obtain rfl : command = .start := by cases command <;> simp_all [Command.isStart]
      exact ⟨m', journal, none, by simp [perform, hstart]⟩
    · obtain ⟨m', journal, result, hperform, -⟩ := exists_perform_idle hm hcommand
      exact ⟨m', journal, result, hperform⟩
  · obtain ⟨m', journal, result, s, hperform, -⟩ := hp.exists_perform hm command
    exact ⟨m', journal, result, hperform⟩

theorem exists_recordAll (hm : m.Resting p) (commands : List (Command V)) :
    ∃ m' journal, p.recordAll m commands = some (m', journal) := by
  induction commands generalizing m with
  | nil => exact ⟨m, [], rfl⟩
  | cons command commands ih =>
    obtain ⟨m₁, first, result, hperform⟩ := hp.exists_perform_of_resting hm command
    obtain ⟨m', rest, hrecord⟩ := ih (hp.performs hm hperform).2
    exact ⟨m', first ++ rest, by simp [recordAll, hperform, hrecord]⟩

/-- A run from the beginning. -/
theorem exists_performsAll {vars : V} (h : p.performAll (p.machine vars) commands = some m) :
    (∃ journal, p.PerformsAll (p.machine vars) commands m journal) ∧ m.Resting p := by
  rw [performAll_eq, Option.map_eq_some_iff] at h
  obtain ⟨⟨m₁, journal⟩, hrecord, rfl⟩ := h
  obtain ⟨hall, hm⟩ := hp.performsAll (p.resting_machine vars) hrecord
  exact ⟨⟨journal, hall⟩, hm⟩

end Sound

/-! ## What is stored -/

/-- What is stored after all that a journal tells. -/
def stored (p : Program V) (store : HistoryStore) (journal : Journal V) : HistoryStore :=
  (journal.filterMap Occurrence.entered?).foldl p.remember store

theorem stored_append (p : Program V) (store : HistoryStore) (first rest : Journal V) :
    p.stored store (first ++ rest) = p.stored (p.stored store first) rest := by
  rw [stored, List.filterMap_append, List.foldl_append]
  rfl

/-- Where no state is entered, nothing is stored. -/
theorem stored_of_forall (p : Program V) (store : HistoryStore)
    (h : ∀ o ∈ journal, o.entered? = none) : p.stored store journal = store := by
  rw [stored, List.filterMap_eq_nil_iff.2 h]
  rfl

theorem entered?_of_quiet {o : Occurrence V} (h : o.quiet) : o.entered? = none := by
  cases o <;> simp_all [Occurrence.quiet, Occurrence.entered?]

/-- The states entered are told by the steps. -/
theorem filterMap_entered?_eq {steps : List Step}
    (h : journal.filterMap Occurrence.step? = steps) :
    journal.filterMap Occurrence.entered? = (⟨steps, 0, []⟩ : Resolution).entryChain := by
  rw [Resolution.entryChain, ← h, List.filterMap_filterMap]
  congr 1
  funext o
  cases o with
  | acted site => cases site <;> rfl
  | _ => rfl

theorem stored_travel (p : Program V) (q : PlanId) (plan : Plan V) (active : StateId) (vars : V)
    (store : HistoryStore) :
    p.stored store (p.travel q plan active vars).2 = plan.enter.foldl p.remember store := by
  rw [stored, filterMap_entered?_eq (filterMap_step?_travel p q plan active vars),
    Resolution.entryChain]
  congr 1
  cases plan.action <;> simp [List.filterMap_append, List.filterMap_map]

/-- Starting enters the root first. -/
theorem stored_started (p : Program V) (s : StateId) (vars : V) (store : HistoryStore) :
    p.stored store (.started :: (p.cross .enter s vars).2) = p.remember store s := by
  rw [stored, List.filterMap_cons, cross, List.filterMap_cons,
    List.filterMap_eq_nil_iff.2 (forall_mem_runBoundary (P := fun o => o.entered? = none)
      (fun _ _ _ => rfl) (fun _ _ => rfl) _ _)]
  rfl

theorem stored_firstOpen (p : Program V) (row : PseudoRow V) (r : PseudoId) (m : Machine V)
    (store : HistoryStore) : p.stored store (firstOpen r m row.branches 0).2 = store :=
  p.stored_of_forall store
    (forall_mem_firstOpen (P := fun o => o.entered? = none) (fun _ _ _ => rfl) m _ _)

theorem stored_select (p : Program V) (row : PseudoRow V) (r : PseudoId) (m : Machine V)
    (choice : Option Nat) (store : HistoryStore) :
    p.stored store ((firstOpen r m row.branches 0).2 ++ [.passed r choice]) = store := by
  rw [stored_append, stored_firstOpen]
  rfl

theorem Executes.history_eq {n : Nat} {active : StateId} {q : PlanId}
    (h : p.Executes n m active q m' journal) : m'.history = p.stored m.history journal := by
  induction h with
  | settle h hnext =>
    rw [stored_append, stored_travel, ← h.history]
    rfl
  | pass h hnext hr hrest ih =>
    rw [stored_append, stored_append, stored_travel, stored_select, ← h.history]
    exact ih

theorem Starts.history_eq (h : p.Starts m m' journal) :
    m'.history = p.stored m.history journal := by
  cases h with
  | intro _ _ hhistory _ _ hexec =>
    rw [stored_append, stored_append, stored_started, stored_select, ← hhistory]
    exact hexec.history_eq

theorem Outcome.history_eq {leaf : StateId} {moved : Bool} (h : p.Outcome leaf m m' journal moved) :
    m'.history = p.stored m.history journal := by
  cases h with
  | stay vars hquiet =>
    rw [p.stored_of_forall _ fun o ho => entered?_of_quiet (hquiet o ho)]
  | move vars hquiet hexec =>
    rw [stored_append, p.stored_of_forall _ fun o ho => entered?_of_quiet (hquiet o ho)]
    exact hexec.history_eq

theorem Performs.history_eq (h : p.Performs m command m' journal) (hclear : ¬ command.clears) :
    m'.history = p.stored m.history journal := by
  cases h with
  | start _ h => exact h.history_eq
  | unheard e _ => rfl
  | dispatch e _ h => exact h.history_eq
  | clear => simp [Command.clears] at hclear
  | assign change => rfl

/-- Unless the store is cleared, the states that a run enters tell what is stored. -/
theorem PerformsAll.history_eq (h : p.PerformsAll m commands m' journal)
    (hclear : ∀ x ∈ commands, ¬ x.clears) : m'.history = p.stored m.history journal := by
  induction h with
  | nil => rfl
  | cons h hrest ih =>
    rw [stored_append, ← h.history_eq (hclear _ List.mem_cons_self)]
    exact ih fun x hx => hclear x (List.mem_cons_of_mem _ hx)

end Program

end Statechart
