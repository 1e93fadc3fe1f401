import Statechart.Proofs.Commands
import Statechart.Proofs.Walks

/-
  States are entered and left as brackets are opened and closed. From a start on, each entry is that
  of a child of the innermost active state and each exit that of the innermost active state
  (`Hierarchy.Crosses`). The states entered and not yet left are then the innermost state and those
  above it (`Crosses.foldl_update`), and of one state entries and exits take turns
  (`Crosses.isChain`). A walk crosses boundaries this way (`crosses_of_walk`), so a run does
  (`PerformsAll.crosses`, `crossings_balanced`).
-/

namespace Statechart

variable {V : Type}

/-! ## Crossings -/

/-- A boundary of a state that was crossed. -/
structure Crossing where
  boundary : Boundary
  state : StateId
deriving DecidableEq

/-- The states entered and not yet left after one more crossing, last entered first. -/
def Crossing.update (active : List StateId) : Crossing → List StateId
  | ⟨.enter, s⟩ => s :: active
  | ⟨.exit, s⟩ => active.erase s

/-- The states entered and not yet left, last entered first. -/
def activeStates (crossings : List Crossing) : List StateId := crossings.foldl Crossing.update []

/-- Which boundaries of `s` were crossed. -/
def boundariesOf (s : StateId) (crossings : List Crossing) : List Boundary :=
  (crossings.filter (·.state = s)).map (·.boundary)

def Occurrence.crossing? : Occurrence V → Option Crossing
  | .entered s => some ⟨.enter, s⟩
  | .exited s => some ⟨.exit, s⟩
  | _ => none

def Step.crossing? : Step → Option Crossing
  | .enter s => some ⟨.enter, s⟩
  | .exit s => some ⟨.exit, s⟩
  | _ => none

/-- The boundaries crossed are told by the steps. -/
theorem filterMap_crossing?_eq (journal : Journal V) :
    journal.filterMap Occurrence.crossing? =
      (journal.filterMap Occurrence.step?).filterMap Step.crossing? := by
  rw [List.filterMap_filterMap]
  congr 1
  funext o
  cases o with
  | acted site => cases site <;> rfl
  | _ => rfl

/-- The crossings lead from `a` to `b`, each from the state that is innermost by then: it enters a
child of it or leaves it. -/
inductive Hierarchy.Crosses (h : Hierarchy) : StateId → List Crossing → StateId → Prop
  | done {a} : Crosses h a [] a
  | enter {a s rest b} (hs : h.parent s = some a) (hrest : Crosses h s rest b) :
      Crosses h a (⟨.enter, s⟩ :: rest) b
  | exit {s q rest b} (hs : h.parent s = some q) (hrest : Crosses h q rest b) :
      Crosses h s (⟨.exit, s⟩ :: rest) b

namespace Hierarchy

variable {h : Hierarchy} {a b s t : StateId} {crossings first rest : List Crossing}

theorem Crosses.append (hfirst : h.Crosses a first b) (hrest : h.Crosses b rest t) :
    h.Crosses a (first ++ rest) t := by
  induction hfirst with
  | done => exact hrest
  | enter hs _ ih => exact .enter hs (ih hrest)
  | exit hs _ ih => exact .exit hs (ih hrest)

theorem Crosses.exists_between (hall : h.Crosses a (first ++ rest) b) :
    ∃ t, h.Crosses a first t ∧ h.Crosses t rest b := by
  induction first generalizing a with
  | nil => exact ⟨a, .done, hall⟩
  | cons x first ih =>
    cases hall with
    | enter hs hall =>
      obtain ⟨t, hfirst, hrest⟩ := ih hall
      exact ⟨t, .enter hs hfirst, hrest⟩
    | exit hs hall =>
      obtain ⟨t, hfirst, hrest⟩ := ih hall
      exact ⟨t, .exit hs hfirst, hrest⟩

/-- The states that are active are the innermost one and those above it. -/
theorem Crosses.foldl_update (hall : h.Crosses a crossings b) :
    crossings.foldl Crossing.update (h.ancestors a) = h.ancestors b := by
  induction hall with
  | done => rfl
  | enter hs _ ih => rwa [List.foldl_cons, Crossing.update, ← ancestors_of_parent hs]
  | exit hs _ ih =>
    rwa [List.foldl_cons, Crossing.update, ancestors_of_parent hs, List.erase_cons_head]

/-- Entries and exits of `s` take turns; the first is an exit just if `s` is active before. -/
theorem Crosses.isChain (hall : h.Crosses a crossings b) (s : StateId) :
    List.IsChain (· ≠ ·)
      ((if s ∈ h.ancestors a then .enter else .exit) :: boundariesOf s crossings) := by
  induction hall with
  | done => exact .singleton _
  | @enter a t rest b ht _ ih =>
    by_cases hst : t = s
    · subst hst
      rw [if_pos (self_mem_ancestors h t)] at ih
      rw [if_neg fun hmem => parent_not_mem_of_mem ht hmem rfl]
      simpa [boundariesOf] using ih
    · simpa [boundariesOf, hst, mem_ancestors_of_parent ht, Ne.symm hst] using ih
  | @exit t q rest b ht _ ih =>
    by_cases hst : t = s
    · subst hst
      rw [if_neg fun hmem => parent_not_mem_of_mem ht hmem rfl] at ih
      rw [if_pos (self_mem_ancestors h t)]
      simpa [boundariesOf] using ih
    · simpa [boundariesOf, hst, mem_ancestors_of_parent ht, Ne.symm hst] using ih

theorem parent_rootState (h : Hierarchy) : h.parent rootState = none := by
  cases hq : h.parent rootState with
  | none => rfl
  | some q => exact absurd (h.parent_lt hq) (Nat.not_lt_zero q)

theorem Crosses.activeStates_root (hall : h.Crosses rootState crossings b) :
    activeStates (⟨.enter, rootState⟩ :: crossings) = h.ancestors b := by
  rw [← hall.foldl_update, ancestors_of_root h.parent_rootState]
  rfl

theorem Crosses.alternate_root (hall : h.Crosses rootState crossings b) (s : StateId) :
    (boundariesOf s (⟨.enter, rootState⟩ :: crossings)).IsChain (· ≠ ·) ∧
      (boundariesOf s (⟨.enter, rootState⟩ :: crossings)).head? ≠ some .exit := by
  have hchain := hall.isChain s
  simp only [ancestors_of_root h.parent_rootState, List.mem_singleton] at hchain
  by_cases hs : rootState = s
  · rw [if_pos hs.symm] at hchain
    simpa [boundariesOf, hs] using hchain
  · rw [if_neg (Ne.symm hs), List.isChain_cons] at hchain
    obtain ⟨hhead, htail⟩ := hchain
    have hskip : boundariesOf s (⟨.enter, rootState⟩ :: crossings) = boundariesOf s crossings := by
      simp [boundariesOf, hs]
    rw [hskip]
    exact ⟨htail, fun hexit => hhead _ hexit rfl⟩

/-- The first crossing of those left goes from the innermost state, and never over the root. -/
theorem Crosses.head {boundary : Boundary} (hall : h.Crosses a (⟨boundary, s⟩ :: rest) b) :
    s ≠ rootState ∧ (boundary = .enter → h.parent s = some a) ∧ (boundary = .exit → s = a) := by
  have hne : ∀ {q}, h.parent s = some q → s ≠ rootState := by
    rintro q hq rfl
    rw [h.parent_rootState] at hq
    cases hq
  cases hall with
  | enter hs _ => exact ⟨hne hs, fun _ => hs, nofun⟩
  | exit hs _ => exact ⟨hne hs, nofun, fun _ => rfl⟩

end Hierarchy

namespace Program

variable {p : Program V} {active leaf : StateId} {m m' : Machine V} {journal : Journal V}

/-! ## Runs cross boundaries along the tree -/

/-- A walk crosses boundaries along the tree. -/
theorem crosses_of_walk {steps : List Step} (h : p.walk active steps = some leaf) :
    p.hierarchy.Crosses active (steps.filterMap Step.crossing?) leaf := by
  induction steps generalizing active with
  | nil =>
    cases h
    exact .done
  | cons x steps ih =>
    rw [walk_cons, Option.bind_eq_some_iff] at h
    obtain ⟨next, hstride, hwalk⟩ := h
    have hrest := ih hwalk
    cases x with
    | enter s =>
      obtain ⟨hs, heq⟩ := Option.ite_none_right_eq_some.1 hstride
      cases heq
      exact .enter hs hrest
    | exit s =>
      obtain ⟨rfl, hs⟩ := Option.ite_none_right_eq_some.1 hstride
      exact .exit hs hrest
    | action q =>
      cases hstride
      exact hrest
    | pseudo r =>
      obtain ⟨-, heq⟩ := Option.ite_none_right_eq_some.1 hstride
      cases heq
      exact hrest

/-- An execution is a walk to where it settles. -/
theorem Executes.exists_walk {n : Nat} {q : PlanId} (h : p.Executes n m active q m' journal) :
    ∃ leaf, p.walk active (journal.filterMap Occurrence.step?) = some leaf ∧
      m'.table.settled = some leaf := by
  induction h with
  | @settle n m active q plan m₁ s h hnext =>
    have harrives := h.fits.next
    rw [hnext] at harrives
    obtain ⟨rfl, -⟩ := harrives
    refine ⟨_, ?_, rfl⟩
    rw [List.filterMap_append, filterMap_step?_travel, walk_append, h.fits.walk_eq]
    rfl
  | @pass n m active q plan m₁ r row m' rest h hnext hr hrest ih =>
    obtain ⟨leaf, hwalk, hsettled⟩ := ih
    have harrives := h.fits.next
    rw [hnext] at harrives
    obtain ⟨row', hr', hcont, -⟩ := harrives
    obtain rfl : row' = row := Option.some.inj (hr'.symm.trans hr)
    have hpass : p.walk (plan.arrival active) [.pseudo r] = some (plan.arrival active) := by
      rw [walk_cons, ← hcont, stride_pseudo hr]
      rfl
    refine ⟨leaf, ?_, hsettled⟩
    rw [List.filterMap_append, List.filterMap_append, filterMap_step?_travel,
      List.filterMap_append, filterMap_step?_firstOpen, walk_append, walk_append, h.fits.walk_eq,
      Option.bind_some]
    exact (congrArg (Option.bind · _) hpass).trans hwalk

theorem Executes.crosses {n : Nat} {q : PlanId} (h : p.Executes n m active q m' journal) :
    ∃ leaf, p.hierarchy.Crosses active (journal.filterMap Occurrence.crossing?) leaf ∧
      m'.table.settled = some leaf := by
  obtain ⟨leaf, hwalk, hsettled⟩ := h.exists_walk
  refine ⟨leaf, ?_, hsettled⟩
  rw [filterMap_crossing?_eq]
  exact crosses_of_walk hwalk

/-- A start enters the root and goes on from there. -/
theorem Starts.crosses (h : p.Starts m m' journal) :
    ∃ crossings leaf,
      journal.filterMap Occurrence.crossing? = ⟨.enter, rootState⟩ :: crossings ∧
      p.hierarchy.Crosses rootState crossings leaf ∧ m'.table.settled = some leaf := by
  cases h with
  | @intro m₁ row m' moved _ _ _ _ _ hexec =>
    obtain ⟨leaf, hcrosses, hsettled⟩ := hexec.crosses
    refine ⟨moved.filterMap Occurrence.crossing?, leaf, ?_, hcrosses, hsettled⟩
    rw [List.filterMap_append, List.filterMap_append, List.filterMap_append,
      filterMap_crossing?_eq (_ :: _), filterMap_crossing?_eq (firstOpen _ _ _ _).2,
      filterMap_step?_firstOpen, List.filterMap_cons, filterMap_step?_cross]
    rfl

theorem filterMap_crossing?_of_quiet (h : ∀ o ∈ journal, o.quiet) :
    journal.filterMap Occurrence.crossing? = [] := by
  rw [filterMap_crossing?_eq, filterMap_step?_of_quiet h]
  rfl

theorem Outcome.crosses {moved : Bool} (hleaf : m.table.settled = some leaf)
    (h : p.Outcome leaf m m' journal moved) :
    ∃ leaf', p.hierarchy.Crosses leaf (journal.filterMap Occurrence.crossing?) leaf' ∧
      m'.table.settled = some leaf' := by
  cases h with
  | stay vars hquiet =>
    rw [filterMap_crossing?_of_quiet hquiet]
    exact ⟨leaf, .done, hleaf⟩
  | move vars hquiet hexec =>
    rw [List.filterMap_append, filterMap_crossing?_of_quiet hquiet]
    exact hexec.crosses

/-- A command other than a start goes on from where the machine has settled. -/
theorem Performs.crosses {command : Command V} (h : p.Performs m command m' journal)
    (hcommand : ¬ command.isStart) (hleaf : m.table.settled = some leaf) :
    ∃ leaf', p.hierarchy.Crosses leaf (journal.filterMap Occurrence.crossing?) leaf' ∧
      m'.table.settled = some leaf' := by
  cases h with
  | start _ _ => exact absurd rfl hcommand
  | unheard e _ => exact ⟨leaf, .done, hleaf⟩
  | dispatch e hm h =>
    obtain rfl := Option.some.inj (hm.settled.symm.trans hleaf)
    exact h.crosses hleaf
  | clear => exact ⟨leaf, .done, hleaf⟩
  | assign change => exact ⟨leaf, .done, hleaf⟩

theorem PerformsAll.crosses {commands : List (Command V)}
    (h : p.PerformsAll m commands m' journal) (hcommands : ∀ x ∈ commands, ¬ x.isStart)
    (hleaf : m.table.settled = some leaf) :
    ∃ leaf', p.hierarchy.Crosses leaf (journal.filterMap Occurrence.crossing?) leaf' ∧
      m'.table.settled = some leaf' := by
  induction h generalizing leaf with
  | nil => exact ⟨leaf, .done, hleaf⟩
  | cons h _ ih =>
    obtain ⟨leaf₁, hfirst, hleaf₁⟩ := h.crosses (hcommands _ List.mem_cons_self) hleaf
    obtain ⟨leaf₂, hrest, hleaf₂⟩ :=
      ih (fun x hx => hcommands x (List.mem_cons_of_mem _ hx)) hleaf₁
    rw [List.filterMap_append]
    exact ⟨leaf₂, hfirst.append hrest, hleaf₂⟩

/-- A run that begins with a start and has no other. -/
theorem PerformsAll.crosses_of_start {commands : List (Command V)}
    (h : p.PerformsAll m (.start :: commands) m' journal)
    (hcommands : ∀ x ∈ commands, ¬ x.isStart) :
    ∃ crossings leaf,
      journal.filterMap Occurrence.crossing? = ⟨.enter, rootState⟩ :: crossings ∧
      p.hierarchy.Crosses rootState crossings leaf ∧ m'.table.settled = some leaf := by
  cases h with
  | cons h hrest =>
    cases h with
    | start _ hstarts =>
      obtain ⟨first, leaf₁, hjournal, hfirst, hleaf₁⟩ := hstarts.crosses
      obtain ⟨leaf, hlater, hleaf⟩ := hrest.crosses hcommands hleaf₁
      exact ⟨_, leaf, by rw [List.filterMap_append, hjournal, List.cons_append],
        hfirst.append hlater, hleaf⟩

end Program

namespace Chart

variable {c : Chart V} {p : Program V}

/-- From a start on boundaries are crossed along the tree: first the root is entered, later a child
of the innermost active state is, or that state is left, and never the root again. So entries and
exits of each state take turns, an entry first, and whenever the machine is at rest the states
entered and not yet left are the settled one and those above it. -/
theorem crossings_balanced (hc : c.Drafted) (h : c.compile = .ok p) (vars : V)
    (before later : List (Command V)) (hlater : ∀ x ∈ later, ¬ x.isStart) :
    ∃ m₀ m journal leaf crossings, p.performAll (p.machine vars) before = some m₀ ∧
      p.recordAll m₀ (.start :: later) = some (m, journal) ∧
      journal.filterMap Occurrence.crossing? = ⟨.enter, rootState⟩ :: crossings ∧
      (∀ first boundary s rest, crossings = first ++ ⟨boundary, s⟩ :: rest →
        s ≠ rootState ∧
        ∃ active, (activeStates (⟨.enter, rootState⟩ :: first)).head? = some active ∧
          (boundary = .enter → c.hierarchy.parent s = some active) ∧
          (boundary = .exit → s = active)) ∧
      (∀ s, (boundariesOf s (⟨.enter, rootState⟩ :: crossings)).IsChain (· ≠ ·) ∧
        (boundariesOf s (⟨.enter, rootState⟩ :: crossings)).head? ≠ some .exit) ∧
      m.table.settled = some leaf ∧ m.table.active = some leaf ∧
      activeStates (⟨.enter, rootState⟩ :: crossings) = c.hierarchy.ancestors leaf := by
  have hp := hc.linked.sound_of_compile h
  obtain ⟨m₀, hbefore, -⟩ := hp.exists_performAll_idle (p.idle_machine vars) before
  obtain ⟨-, hm₀⟩ := hp.exists_performsAll hbefore
  obtain ⟨m, journal, hrecord⟩ := hp.exists_recordAll hm₀ (.start :: later)
  obtain ⟨hall, hm⟩ := hp.performsAll hm₀ hrecord
  obtain ⟨crossings, leaf, hcrossings, hcrosses, hleaf⟩ := hall.crosses_of_start hlater
  rw [hierarchy_of_compile h] at hcrosses
  refine ⟨m₀, m, journal, leaf, crossings, hbefore, hrecord, hcrossings, ?_, fun s => ?_, hleaf,
    (hm.settled hleaf).active, ?_⟩
  · rintro first boundary s rest rfl
    obtain ⟨active, hfirst, hnext⟩ := hcrosses.exists_between
    obtain ⟨hne, henter, hexit⟩ := hnext.head
    refine ⟨hne, active, ?_, henter, hexit⟩
    rw [hfirst.activeStates_root, Hierarchy.ancestors_eq, List.head?_cons]
  · exact hcrosses.alternate_root s
  · exact hcrosses.activeStates_root

/-- Started for the second time, into the inner states and out again. -/
theorem relay_crossed :
    (do
      let p ← relay.compile.toOption
      let m₀ ← p.performAll (p.machine 0) [.start, .dispatch 1]
      let (m, journal) ← p.recordAll m₀ [.start, .dispatch 1, .clearHistory, .dispatch 1]
      return (m.table.settled, journal.filterMap Occurrence.crossing?)) =
      some (some 1, [⟨.enter, 0⟩, ⟨.enter, 1⟩, ⟨.exit, 1⟩, ⟨.enter, 2⟩, ⟨.enter, 4⟩, ⟨.exit, 4⟩,
        ⟨.exit, 2⟩, ⟨.enter, 1⟩]) := by decide +kernel

theorem relay_crossings_balanced :
    ∃ p m₀ m journal, relay.compile = .ok p ∧
      p.performAll (p.machine 0) [.start, .dispatch 1] = some m₀ ∧
      p.recordAll m₀ [.start, .dispatch 1, .clearHistory, .dispatch 1] = some (m, journal) ∧
      (∃ active, (activeStates [⟨.enter, 0⟩, ⟨.enter, 1⟩, ⟨.exit, 1⟩, ⟨.enter, 2⟩]).head? =
        some active ∧ relay.hierarchy.parent 4 = some active) ∧
      (∀ s, (boundariesOf s (journal.filterMap Occurrence.crossing?)).IsChain (· ≠ ·)) ∧
      m.table.active = some 1 ∧
      activeStates (journal.filterMap Occurrence.crossing?) = relay.hierarchy.ancestors 1 := by
  have h := relay_crossed
  simp only [Option.bind_eq_bind, Option.bind_eq_some_iff, Prod.exists, Option.pure_def,
    Option.some.injEq, Prod.mk.injEq] at h
  obtain ⟨p, hp, m₀, hbefore, m, journal, hrecord, hsettled, hcrossed⟩ := h
  have hcompile := eq_ok_of_toOption hp
  obtain ⟨m₀', m', journal', leaf, crossings, hbefore', hrecord', hcrossings, hwhen, halternate,
      hleaf, hactive, hlast⟩ := crossings_balanced relay_drafted hcompile 0 [.start, .dispatch 1]
    [.dispatch 1, .clearHistory, .dispatch 1] (by simp [Command.isStart])
  obtain rfl : m₀ = m₀' := Option.some.inj (hbefore.symm.trans hbefore')
  obtain ⟨rfl, rfl⟩ : m = m' ∧ journal = journal' := by simpa using hrecord.symm.trans hrecord'
  obtain rfl : 1 = leaf := Option.some.inj (hsettled.symm.trans hleaf)
  obtain rfl := List.tail_eq_of_cons_eq (hcrossings.symm.trans hcrossed)
  obtain ⟨-, active, hfour, henter, -⟩ :=
    hwhen [⟨.enter, 1⟩, ⟨.exit, 1⟩, ⟨.enter, 2⟩] .enter 4 _ rfl
  rw [← hcrossings] at halternate hlast
  exact ⟨p, m₀, m, journal, hcompile, hbefore, hrecord, ⟨active, hfour, henter rfl⟩,
    fun s => (halternate s).1, hactive, hlast⟩

end Chart

end Statechart
