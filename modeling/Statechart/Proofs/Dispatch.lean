import Statechart.Proofs.Engine

/-
  What becomes of an event. On a sound program every dispatch comes to an end: either only behaviors
  without a target ran, and nothing but the variables changed, or the last thing that happened is
  one transition, executed to completion (`Program.Outcome`, `Sound.exists_dispatch`).
-/

namespace Statechart

variable {V : Type}

/-- Nothing is left, entered or passed, and no transition is fired. -/
def Occurrence.quiet : Occurrence V → Bool
  | .dispatched _ => true
  | .tested _ _ _ _ => true
  | .consulted _ _ _ _ => true
  | .acted (.behavior _ _) _ _ => true
  | .fired _ _ none => true
  | _ => false

/-- A plan of an active state fits whatever state below it is innermost. -/
theorem Plan.Fits.below {plan : Plan V} {p : Program V} {s leaf : StateId} (h : plan.Fits p s)
    (hexit : plan.exitTo.isSome) (hs : s ∈ p.hierarchy.ancestors leaf) : plan.Fits p leaf := by
  obtain ⟨t, ht⟩ := Option.isSome_iff_exists.1 hexit
  have hstart : plan.exitTo.getD leaf = plan.exitTo.getD s := by rw [ht]; rfl
  have harrival : plan.arrival leaf = plan.arrival s := by rw [arrival, hstart, arrival]
  exact ⟨fun t ht => Hierarchy.mem_ancestors_trans (h.turn t ht) hs, hstart ▸ h.enter,
    harrival ▸ h.next⟩

namespace Program

/-- What became of the machine `m`, whose innermost active state is `leaf`: it stayed, or it moved
by one transition. -/
inductive Outcome (p : Program V) (leaf : StateId) (m : Machine V) :
    Machine V → Journal V → Bool → Prop
  | stay (vars : V) {journal : Journal V} (hquiet : ∀ o ∈ journal, o.quiet) :
      Outcome p leaf m { m with vars } journal false
  | move (vars : V) {s e q m'} {before moved : Journal V} (hquiet : ∀ o ∈ before, o.quiet)
      (hexec : p.Executes p.pseudostates.size { m with vars } leaf q m' moved) :
      Outcome p leaf m m' (before ++ .fired s e (some q) :: moved) true

variable {p : Program V} {leaf : StateId} {m m' : Machine V}

/-- What stays quiet at first does not change the outcome. -/
theorem Outcome.prepend (vars : V) {first journal : Journal V} {moved : Bool}
    (hquiet : ∀ o ∈ first, o.quiet) (h : p.Outcome leaf { m with vars } m' journal moved) :
    p.Outcome leaf m m' (first ++ journal) moved := by
  cases h with
  | stay vars' hrest =>
    exact .stay vars' fun o ho => (List.mem_append.1 ho).elim (hquiet o) (hrest o)
  | move vars' hrest hexec =>
    rw [← List.append_assoc]
    exact .move vars' (fun o ho => (List.mem_append.1 ho).elim (hquiet o) (hrest o)) hexec

theorem quiet_testGuard {s : StateId} {e : EventId} (guard : Option (Guard V)) (vars : V) :
    ∀ o ∈ (testGuard (.behavior s e) guard vars).2, o.quiet := by
  cases guard <;> simp [testGuard, Occurrence.quiet]

theorem quiet_runAction {s : StateId} {e : EventId} (action : Option (Action V)) (vars : V) :
    ∀ o ∈ (runAction (.behavior s e) action vars).2, o.quiet := by
  cases action <;> simp [runAction, Occurrence.quiet]

namespace Sound

variable (hp : p.Sound)

include hp

/-- The behaviors of one active state. -/
theorem exists_runBehaviors {s : StateId} {e : EventId} {rows : List (BehaviorRow V)}
    (hm : m.At p leaf) (hs : s ∈ p.hierarchy.ancestors leaf)
    (hrows : ∀ b ∈ rows, ∀ q, b.effect = .transition q →
      ∃ plan, p.plans[q]? = some plan ∧ plan.exitTo.isSome ∧ plan.Fits p s)
    (result : SendResult) (consumed : Bool) :
    ∃ m' journal result' consumed' moved,
      p.runBehaviors s e rows m result consumed = some (m', journal, result', consumed') ∧
      p.Outcome leaf m m' journal moved ∧ (moved → consumed') := by
  induction rows generalizing m result consumed with
  | nil => exact ⟨m, [], result, consumed, false, rfl, .stay m.vars (by simp), by simp⟩
  | cons b rows ih =>
    have hrest : ∀ b ∈ rows, _ := fun b hb => hrows b (List.mem_cons_of_mem _ hb)
    have htested := quiet_testGuard (s := s) (e := e) b.guard m.vars
    rcases htest : testGuard (.behavior s e) b.guard m.vars with ⟨passed, tested⟩
    rw [htest] at htested
    cases passed with
    | false =>
      obtain ⟨m', journal, result', consumed', moved, hrun, houtcome, hmoved⟩ :=
        ih hm hrest result consumed
      refine ⟨m', tested ++ journal, result', consumed', moved, ?_, ?_, hmoved⟩
      · simp [runBehaviors, htest, hrun]
      · exact .prepend m.vars htested houtcome
    | true =>
      cases heffect : b.effect with
      | transition q =>
        obtain ⟨plan, hq, hexit, hfits⟩ := hrows b List.mem_cons_self q heffect
        obtain ⟨m', moved, hexec, hruns⟩ := hp.exists_execute hm hq (hfits.below hexit hs)
        refine ⟨m', tested ++ .fired s e (some q) :: moved, .transitioned, true, true, ?_,
          .move m.vars htested hruns, by simp⟩
        simp [runBehaviors, htest, heffect, hexec]
      | internal action consume =>
        have hacted := quiet_runAction (s := s) (e := e) action m.vars
        rcases hact : runAction (.behavior s e) action m.vars with ⟨vars, acted⟩
        rw [hact] at hacted
        rcases hask : consult s e consume vars with ⟨kept, consulted⟩
        have hconsulted : ∀ o ∈ consulted, o.quiet := by
          obtain ⟨-, rfl⟩ := Prod.mk.inj hask
          simp [Occurrence.quiet]
        obtain ⟨m', journal, result', consumed', moved, hrun, houtcome, hmoved⟩ :=
          ih (hm.withVars vars) hrest .handled (consumed || kept)
        refine ⟨m', (tested ++ .fired s e none :: acted ++ consulted) ++ journal, result',
          consumed', moved, ?_, .prepend vars ?_ houtcome, hmoved⟩
        · simp [runBehaviors, htest, heffect, hact, hask, hrun]
        · intro o ho
          simp only [List.mem_append, List.mem_cons] at ho
          rcases ho with (ho | rfl | ho) | ho
          · exact htested o ho
          · rfl
          · exact hacted o ho
          · exact hconsulted o ho

/-- One active state. If the event moved the machine, no other state sees it. -/
theorem exists_handle {s : StateId} {e : EventId} (hm : m.At p leaf)
    (hs : s ∈ p.hierarchy.ancestors leaf) (he : e < p.events.size) (result : SendResult) :
    ∃ m' journal result' verdict moved,
      p.handle s e m result = some (m', journal, result', verdict) ∧
      p.Outcome leaf m m' journal moved ∧ (moved → verdict = .consumed) ∧
      ∀ q, verdict = .bubble (some q) → q ∈ (p.hierarchy.ancestors s).tail := by
  have hlt : s < p.states.size := Nat.lt_of_le_of_lt (Hierarchy.le_of_mem_ancestors hs) hm.lt
  obtain ⟨up, hup, habove⟩ := hp.next s hlt e he
  obtain ⟨rows, hrows, hfits⟩ := hp.behaviors s hlt e he
  obtain ⟨m', journal, result', consumed, moved, hrun, houtcome, hmoved⟩ :=
    hp.exists_runBehaviors (e := e) hm hs hfits result false
  refine ⟨m', journal, result', if consumed then .consumed else .bubble up, moved, ?_, houtcome,
    fun h => by rw [hmoved h, if_pos rfl], fun q hq => ?_⟩
  · simp [handle, hup, hrows, hrun]
  · cases consumed with
    | true => simp at hq
    | false => exact habove q (by simpa using hq)

/-- One active state after the other, each further up than the last. -/
theorem exists_bubble {e : EventId} {n : Nat} {handler : Option StateId} (hm : m.At p leaf)
    (hs : ∀ s, handler = some s → s ∈ p.hierarchy.ancestors leaf ∧ s < n)
    (he : e < p.events.size) (result : SendResult) :
    ∃ m' journal result' moved, p.bubble e n handler m result = some (m', journal, result') ∧
      p.Outcome leaf m m' journal moved := by
  induction n generalizing m handler result with
  | zero =>
    cases handler with
    | none => exact ⟨m, [], result, false, rfl, .stay m.vars (by simp)⟩
    | some s => exact absurd (hs s rfl).2 (Nat.not_lt_zero s)
  | succ n ih =>
    cases handler with
    | none => exact ⟨m, [], result, false, rfl, .stay m.vars (by simp)⟩
    | some s =>
      obtain ⟨hmem, hlt⟩ := hs s rfl
      obtain ⟨m₁, journal, result₁, verdict, moved, hhandle, houtcome, hmoved, hup⟩ :=
        hp.exists_handle hm hmem he result
      cases verdict with
      | consumed => exact ⟨m₁, journal, result₁, moved, by simp [bubble, hhandle], houtcome⟩
      | bubble next =>
        -- The event is still on its way, so nothing has moved.
        cases houtcome with
        | move => simp at hmoved
        | stay vars hquiet =>
          have hnext : ∀ q, next = some q → q ∈ p.hierarchy.ancestors leaf ∧ q < n := by
            intro q hq
            obtain ⟨hq, hne⟩ := Hierarchy.mem_tail_ancestors.1 (hup q (hq ▸ rfl))
            have hle := Hierarchy.le_of_mem_ancestors hq
            exact ⟨Hierarchy.mem_ancestors_trans hq hmem, by lia⟩
          obtain ⟨m', rest, result', moved', hbubble, hrest⟩ :=
            ih (hm.withVars vars) hnext result₁
          exact ⟨m', journal ++ rest, result', moved', by simp [bubble, hhandle, hbubble],
            .prepend vars hquiet hrest⟩

/-- Every dispatch in an active machine comes to an end. -/
theorem exists_dispatch (hm : m.At p leaf) (e : EventId) :
    ∃ m' journal result moved, p.dispatch m e = some (m', journal, result) ∧
      p.Outcome leaf m m' journal moved := by
  obtain ⟨handlers, hrow, hlen, habove⟩ := hp.handlers leaf hm.lt
  obtain rfl : handlers = m.table.handlers := Option.some.inj (hrow.symm.trans hm.handlers)
  suffices hbubble : ∃ m' journal result moved,
      p.bubble e p.states.size (m.table.handler e) m .noMatch = some (m', journal, result) ∧
        p.Outcome leaf m m' journal moved by
    obtain ⟨m', journal, result, moved, hrun, houtcome⟩ := hbubble
    have hfirst : ∀ o ∈ ([.dispatched e] : Journal V), o.quiet := by simp [Occurrence.quiet]
    exact ⟨m', [.dispatched e] ++ journal, result, moved, by simp [dispatch, hrun],
      .prepend m.vars hfirst houtcome⟩
  by_cases he : e < p.events.size
  · refine hp.exists_bubble hm (fun s hs => ?_) he .noMatch
    have hget : m.table.handlers[e]? = some (some s) := Option.join_eq_some_iff.1 hs
    have hmem := habove e s hget
    exact ⟨hmem, Nat.lt_of_le_of_lt (Hierarchy.le_of_mem_ancestors hmem) hm.lt⟩
  · -- An event that is not declared is handled nowhere.
    have hnone : m.table.handler e = none := by
      rw [DispatchTable.handler, List.getElem?_eq_none (by lia)]
      rfl
    rw [hnone]
    exact ⟨m, [], .noMatch, false, by cases p.states.size <;> rfl, .stay m.vars (by simp)⟩

end Sound

end Program

end Statechart
