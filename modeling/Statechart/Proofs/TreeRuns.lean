import Statechart.Proofs.Refinement

/-
  Starting in the tree. A machine that is ready to be started does what one does who enters the root
  of the tree and goes on from its initial pseudostate (`Linked.exists_start`). From rest it reacts
  to an event as the tree is walked (`Linked.exists_dispatch`), so a run can be followed on the
  chart alone, command by command.
-/

namespace Statechart

variable {V : Type}

theorem deedsOf_started (journal : Journal V) : deedsOf (.started :: journal) = deedsOf journal :=
  rfl

/-- Entering a state does to the variables what crossing its boundary does. -/
theorem Program.vars_enter {p : Program V} {m m' : Machine V} {s : StateId} {journal : Journal V}
    (h : p.enter m s = some (m', journal)) : m'.vars = (p.cross .enter s m.vars).1 := by
  simp only [enter, Option.bind_eq_bind, Option.bind_eq_some_iff] at h
  obtain ⟨row, hrow, handlers, -, table, -, heq⟩ := h
  cases heq
  simp [cross, boundaryOf, hrow]

namespace Chart

/-- Enters the root and goes on from its initial pseudostate. -/
def begin (c : Chart V) (w : Walker V) : Option (Walker V) := do
  let r ← c.initialOf rootState
  let (target, action, w) ← c.wayOut r (c.enter { w with place := rootState } rootState)
  c.follow (c.pseudostates.size + 1) (.pseudo r) target action w

variable {c : Chart V} {p : Program V} {m : Machine V}

/-- Entering a state in the tree leaves one who knows what the machine knows. -/
theorem Linked.enter_walker (hc : c.ordered.Linked) {m₁ : Machine V} {s : StateId}
    (hs : s < c.ordered.states.size)
    (hstore : m.history.values.size = c.ordered.program.histories.size)
    (hvars : m₁.vars = (c.ordered.program.cross .enter s m.vars).1)
    (hhistory : m₁.history = c.ordered.program.remember m.history s) (place : StateId)
    (deeds : List (Deed V)) :
    c.enter (c.ordered.program.walker m place deeds) s = c.ordered.program.walker m₁ place
      (deeds ++ deedsOf (c.ordered.program.cross .enter s m.vars).2) := by
  rw [enter_eq, Program.walker, Program.walker, hvars, hhistory, hc.recall_remember hs hstore,
    note_ordered]
  rfl

theorem WellFormed.initialOf_rootState (hw : c.WellFormed) (hc : c.Linked) :
    c.initialOf rootState = some c.ordered.program.rootInitial := by
  obtain ⟨r, hr⟩ := Option.isSome_iff_exists.1 (hc.initialOf_isSome_iff.2 hw.rootInitial)
  have hrow : c.ordered.program.rootInitial = (c.ordered.initialOf rootState).getD 0 := rfl
  rw [hrow, initialOf_ordered, hr, Option.getD_some]

/-- Starting a machine does what beginning in the tree does. -/
theorem Linked.exists_start (hc : c.Linked) (h : c.compile = .ok p) (hm : m.Ready p)
    (place : StateId) (deeds : List (Deed V)) :
    ∃ m' journal leaf, p.start m = some (m', journal) ∧ m'.Settled p leaf ∧
      c.begin (p.walker m place deeds) =
        some (p.walker m' leaf (deeds ++ deedsOf journal)) := by
  have hp := hc.sound_of_compile h
  have hw := hc.wellFormed_of_compile h
  obtain ⟨-, -, rfl⟩ := compile_eq_ok_iff.1 h
  have hprepared := hw.prepared hc
  have hroot := rootUntargeted_ordered.2 hw.root
  obtain ⟨m', journal, hstart, hstarts⟩ := hp.exists_starts hm
  cases hstarts with
  | @intro m₁ row _ moved henter _ hhistory hr hk hexec =>
    obtain ⟨row', hr', hcontainer, -⟩ := hp.rootInitial
    obtain rfl : row' = row := Option.some.inj (hr'.symm.trans hr)
    -- Entering the root, then leaving its initial pseudostate, then the transition.
    have hvars := Program.vars_enter henter
    have hentered : c.enter (c.ordered.program.walker m rootState deeds) rootState =
        c.ordered.program.walker m₁ rootState (deeds ++ deedsOf
          (c.ordered.program.cross .enter rootState m.vars).2) :=
      hc.ordered.enter_walker hc.ordered.nonempty hm.store hvars hhistory _ _
    obtain ⟨hland, target, action, ⟨hway, hplan⟩, ha⟩ := hprepared.exists_leavesFor hroot hr hk
      (m := m₁) (w := c.ordered.program.walker m₁ rootState (deeds ++ deedsOf
        (c.ordered.program.cross .enter rootState m.vars).2)) rfl rfl
    obtain ⟨leaf, hsettled, hfollow⟩ := hprepared.follow_eq hroot hexec ha hplan
      (fun _ => hcontainer.symm.trans hland) ((deeds ++ deedsOf
        (c.ordered.program.cross .enter rootState m.vars).2) ++ deedsOf
          ((Program.firstOpen c.ordered.program.rootInitial m₁ row'.branches 0).2 ++
            [.passed c.ordered.program.rootInitial
              (Program.choiceAt row' c.ordered.program.rootInitial m₁)]))
    obtain ⟨s, hs⟩ := hexec.exists_settled
    obtain rfl : s = leaf := Option.some.inj (hs.settled.symm.trans hsettled)
    refine ⟨m', _, s, hstart, hs, ?_⟩
    rw [begin, hw.initialOf_rootState hc]
    change (c.wayOut _ (c.enter (c.ordered.program.walker m rootState deeds) rootState)).bind _ = _
    rw [size_pseudostates_program, size_pseudostates_ordered] at hfollow
    rw [hentered, hway]
    refine Eq.trans hfollow ?_
    simp only [List.cons_append, deedsOf_started, deedsOf_append, List.append_assoc]
    rfl

end Chart

end Statechart
