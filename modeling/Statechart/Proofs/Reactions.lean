import Statechart.Proofs.BehaviorTable
import Statechart.Proofs.Commands
import Statechart.Proofs.Completion

/-
  What the result of a dispatch says. Only a transition moves a machine: without one the table and
  the store stay as they are, and without any behavior that fires the variables do too. What became
  of an event is said once (`Program.Reply`) and followed from one behavior to the next, from one
  state to the next (`Reply.append`) and so through a whole dispatch (`Bubbles.exists_reply`). The
  result that is handed on along the way is that of the last behavior that fired
  (`SendResult.followedBy`).
-/

namespace Statechart

variable {V : Type}

namespace Occurrence

/-- Nothing is done; an event came in or a guard was tested. -/
def still : Occurrence V → Bool
  | .dispatched _ => true
  | .tested _ _ _ _ => true
  | _ => false

/-- A behavior on an event is looked at: its guard is tested, or it fires and does its work. -/
def evaluates : Occurrence V → Bool
  | .tested (.behavior _ _) _ _ _ => true
  | .acted (.behavior _ _) _ _ => true
  | .consulted _ _ _ _ => true
  | .fired _ _ _ => true
  | _ => false

theorem quiet_of_still {o : Occurrence V} (h : o.still) : o.quiet := by
  cases o with
  | dispatched e => rfl
  | tested site guard passed remarks => rfl
  | _ => cases h

end Occurrence

namespace SendResult

/-- The result of what happened first and of what happened then. -/
def followedBy (first second : SendResult) : SendResult :=
  if second = .noMatch then first else second

theorem noMatch_followedBy (second : SendResult) : noMatch.followedBy second = second := by
  cases second <;> rfl

theorem followedBy_of_ne (first : SendResult) {second : SendResult} (h : second ≠ .noMatch) :
    first.followedBy second = second := by
  rw [followedBy, if_neg h]

theorem followedBy_assoc (first second third : SendResult) :
    first.followedBy (second.followedBy third) = (first.followedBy second).followedBy third := by
  cases third <;> rfl

end SendResult

theorem fst_testGuard (site : Site) (guard : Option (Guard V)) (vars : V) :
    (testGuard site guard vars).1 = guard.all (·.test vars) := by
  cases guard <;> rfl

theorem still_testGuard (site : Site) (guard : Option (Guard V)) (vars : V) :
    ∀ o ∈ (testGuard site guard vars).2, o.still := by
  cases guard <;> simp [testGuard, Occurrence.still]

namespace Program

/-- What is put down when a behavior without a target fires: its guard, its action and whether its
policy keeps the event. -/
def reaction (s : StateId) (e : EventId) (guard : Option (Guard V)) (action : Option (Action V))
    (consume : Consume V) (vars : V) : Journal V :=
  let acted := runAction (.behavior s e) action vars
  (testGuard (.behavior s e) guard vars).2 ++ .fired s e none :: acted.2 ++
    (consult s e consume acted.1).2

theorem quiet_reaction (s : StateId) (e : EventId) (guard : Option (Guard V))
    (action : Option (Action V)) (consume : Consume V) (vars : V) :
    ∀ o ∈ reaction s e guard action consume vars, o.quiet := by
  intro o ho
  simp only [reaction, List.mem_append, List.mem_cons] at ho
  rcases ho with (ho | rfl | ho) | ho
  · exact quiet_testGuard guard vars o ho
  · rfl
  · exact quiet_runAction action vars o ho
  · obtain rfl := List.mem_singleton.1 ho
    rfl

/-- The row is that of an open behavior on `e` of one of these states. -/
structure Offers (p : Program V) (states : List StateId) (e : EventId) (vars : V) (s : StateId)
    (row : BehaviorRow V) : Prop where
  visited : s ∈ states
  held : ∃ rows, p.behaviors? s e = some rows ∧ row ∈ rows
  isOpen : row.guard.all (·.test vars)

/-- What became of an event that these states were offered, by its result: no behavior fired, or
some did but no transition, or a transition was the last to fire. -/
inductive Reply (p : Program V) (states : List StateId) (e : EventId) (m : Machine V) :
    Machine V → Journal V → SendResult → Prop
  | ignored {journal : Journal V} (hstill : ∀ o ∈ journal, o.still) :
      Reply p states e m m journal .noMatch
  | reacted (vars : V) {vars₀ s row action consume} {journal : Journal V}
      (hoffers : p.Offers states e vars₀ s row) (heffect : row.effect = .internal action consume)
      (hfired : reaction s e row.guard action consume vars₀ <:+: journal)
      (hquiet : ∀ o ∈ journal, o.quiet) : Reply p states e m { m with vars } journal .handled
  | moved (vars : V) {s row q m'} {before moved : Journal V}
      (hoffers : p.Offers states e vars s row) (heffect : row.effect = .transition q)
      (hquiet : ∀ o ∈ before, o.quiet) (hexec : p.execute { m with vars } q = some (m', moved)) :
      Reply p states e m m' (before ++ .fired s e (some q) :: moved) .transitioned

variable {p : Program V} {states : List StateId} {e : EventId} {m m₁ m' : Machine V}
  {first rest journal : Journal V} {result result' : SendResult}

/-- If a behavior fired in the end, what was quiet before does not count. -/
theorem Reply.prepend (vars : V) (hquiet : ∀ o ∈ first, o.quiet)
    (h : p.Reply states e { m with vars } m' rest result) (hresult : result ≠ .noMatch) :
    p.Reply states e m m' (first ++ rest) result := by
  cases h with
  | ignored => exact absurd rfl hresult
  | reacted vars' hoffers heffect hfired hrest =>
    exact .reacted vars' hoffers heffect (hfired.trans (List.suffix_append first rest).isInfix)
      fun o ho => (List.mem_append.1 ho).elim (hquiet o) (hrest o)
  | moved vars' hoffers heffect hrest hexec =>
    rw [← List.append_assoc]
    exact .moved vars' hoffers heffect
      (fun o ho => (List.mem_append.1 ho).elim (hquiet o) (hrest o)) hexec

/-- One thing after the other, as long as the first did not move the machine. -/
theorem Reply.append {second : SendResult} (h : p.Reply states e m m₁ first result)
    (hstays : result ≠ .transitioned) (h' : p.Reply states e m₁ m' rest second) :
    p.Reply states e m m' (first ++ rest) (result.followedBy second) := by
  -- If nothing fired in the end, the first result stands; otherwise the second one does.
  by_cases hsecond : second = .noMatch
  · subst hsecond
    obtain ⟨hrest⟩ := h'
    cases h with
    | moved => exact absurd rfl hstays
    | ignored hstill =>
      exact .ignored fun o ho => (List.mem_append.1 ho).elim (hstill o) (hrest o)
    | reacted vars hoffers heffect hfired hquiet =>
      refine .reacted vars hoffers heffect (hfired.trans (List.prefix_append first rest).isInfix) ?_
      intro o ho
      exact (List.mem_append.1 ho).elim (hquiet o) fun ho => Occurrence.quiet_of_still (hrest o ho)
  · rw [SendResult.followedBy_of_ne result hsecond]
    cases h with
    | moved => exact absurd rfl hstays
    | ignored hstill =>
      exact .prepend m.vars (fun o ho => Occurrence.quiet_of_still (hstill o ho)) h' hsecond
    | reacted vars hoffers heffect hfired hquiet => exact .prepend vars hquiet h' hsecond

/-- The behaviors of one state. If one of them moved the machine, the event is kept. -/
theorem exists_reply_of_runBehaviors {s : StateId} {all rows : List (BehaviorRow V)}
    {consumed consumed' : Bool} (hs : s ∈ states) (hall : p.behaviors? s e = some all)
    (hrows : ∀ row ∈ rows, row ∈ all)
    (h : p.runBehaviors s e rows m result consumed = some (m', journal, result', consumed')) :
    ∃ reply, p.Reply states e m m' journal reply ∧ result' = result.followedBy reply ∧
      (reply = .transitioned → consumed') := by
  induction rows generalizing m result consumed journal with
  | nil =>
    cases h
    exact ⟨.noMatch, .ignored (by simp), rfl, by simp⟩
  | cons row rows ih =>
    have hrest : ∀ row ∈ rows, row ∈ all := fun row hrow => hrows row (List.mem_cons_of_mem _ hrow)
    have hstill := still_testGuard (.behavior s e) row.guard m.vars
    have hopen := fst_testGuard (.behavior s e) row.guard m.vars
    rcases htest : testGuard (.behavior s e) row.guard m.vars with ⟨passed, tested⟩
    rw [htest] at hstill hopen
    rw [runBehaviors, htest] at h
    cases passed with
    | false =>
      simp only [Option.bind_eq_bind, Option.bind_eq_some_iff] at h
      obtain ⟨⟨m₁, rest, result₁, consumed₁⟩, hrun, h⟩ := h
      cases h
      obtain ⟨reply, hreply, hresult, hmoved⟩ := ih hrest hrun
      have happend := Reply.append (.ignored hstill) (by simp) hreply
      rw [SendResult.noMatch_followedBy] at happend
      exact ⟨reply, happend, hresult, hmoved⟩
    | true =>
      have hoffers : p.Offers states e m.vars s row :=
        ⟨hs, ⟨all, hall, hrows row List.mem_cons_self⟩, hopen.symm⟩
      cases heffect : row.effect with
      | transition q =>
        simp only [heffect, Option.bind_eq_bind, Option.bind_eq_some_iff] at h
        obtain ⟨⟨m₁, moved⟩, hexec, h⟩ := h
        cases h
        exact ⟨.transitioned, .moved m.vars hoffers heffect
          (fun o ho => Occurrence.quiet_of_still (hstill o ho)) hexec, rfl, fun _ => rfl⟩
      | internal action consume =>
        simp only [heffect, Option.bind_eq_bind, Option.bind_eq_some_iff] at h
        obtain ⟨⟨m₁, rest, result₁, consumed₁⟩, hrun, h⟩ := h
        cases h
        -- From here on the event is handled at least, whatever the result was before.
        obtain ⟨reply, hreply, hresult, hmoved⟩ := ih hrest hrun
        have hfired := Reply.reacted (runAction (.behavior s e) action m.vars).1 hoffers heffect
          List.infix_rfl (quiet_reaction s e row.guard action consume m.vars) |>.append (by simp)
            hreply
        simp only [reaction, htest] at hfired
        refine ⟨_, hfired, ?_, fun h => hmoved ?_⟩
        · rw [SendResult.followedBy_assoc]
          exact hresult
        · cases reply with
          | transitioned => rfl
          | _ => cases h

/-- One state. An event that it passes on has not moved the machine. -/
theorem exists_reply_of_handle {s : StateId} {verdict : Verdict} (hs : s ∈ states)
    (h : p.handle s e m result = some (m', journal, result', verdict)) :
    ∃ reply, p.Reply states e m m' journal reply ∧ result' = result.followedBy reply ∧
      (verdict ≠ .consumed → reply ≠ .transitioned) := by
  simp only [handle, Option.bind_eq_bind, Option.bind_eq_some_iff] at h
  obtain ⟨next, -, rows, hrows, ⟨m₁, journal₁, result₁, consumed⟩, hrun, h⟩ := h
  cases h
  obtain ⟨reply, hreply, hresult, hmoved⟩ :=
    exists_reply_of_runBehaviors hs hrows (fun _ hrow => hrow) hrun
  refine ⟨reply, hreply, hresult, fun hverdict h => hverdict ?_⟩
  rw [if_pos (hmoved h)]

/-- One state after the other. -/
theorem Bubbles.exists_reply {handler : Option StateId} {visited : List StateId}
    (h : p.Bubbles e handler m result visited m' journal result')
    (hvisited : ∀ s ∈ visited, s ∈ states) :
    ∃ reply, p.Reply states e m m' journal reply ∧ result' = result.followedBy reply := by
  induction h with
  | drop => exact ⟨.noMatch, .ignored (by simp), rfl⟩
  | keep h =>
    obtain ⟨reply, hreply, hresult, -⟩ :=
      exists_reply_of_handle (hvisited _ List.mem_cons_self) h
    exact ⟨reply, hreply, hresult⟩
  | rise h hrest ih =>
    obtain ⟨reply, hreply, hresult, hstays⟩ :=
      exists_reply_of_handle (hvisited _ List.mem_cons_self) h
    obtain ⟨second, hsecond, hfinal⟩ := ih fun s hs => hvisited s (List.mem_cons_of_mem _ hs)
    refine ⟨_, hreply.append (hstays (by simp)) hsecond, ?_⟩
    rw [SendResult.followedBy_assoc, ← hresult]
    exact hfinal

/-- While a transition is executed no behavior on an event is looked at. -/
theorem Executes.not_evaluates {n : Nat} {active : StateId} {q : PlanId}
    (h : p.Executes n m active q m' journal) : ∀ o ∈ journal, o.evaluates = false :=
  h.forall_mem (fun s b => by cases b <;> rfl) (fun _ _ _ _ _ => rfl) (fun _ _ _ _ => rfl)
    (fun _ _ _ _ => rfl) (fun _ _ _ _ _ _ => rfl) (fun _ _ => rfl) fun _ => rfl

/-- A transition that is offered runs to its end without looking at another behavior. -/
theorem Sound.not_evaluates (hp : p.Sound) {leaf s : StateId} {row : BehaviorRow V} {q : PlanId}
    {vars : V} (hm : m.At p leaf) (hs : s ∈ p.hierarchy.ancestors leaf) (he : e < p.events.size)
    (hoffers : p.Offers states e vars s row) (heffect : row.effect = .transition q)
    (hexec : p.execute { m with vars } q = some (m', journal)) :
    ∀ o ∈ journal, o.evaluates = false := by
  have hlt : s < p.states.size := Nat.lt_of_le_of_lt (Hierarchy.le_of_mem_ancestors hs) hm.lt
  obtain ⟨rows, hrows, hrow⟩ := hoffers.held
  obtain ⟨rows', hrows', hfits⟩ := hp.behaviors s hlt e he
  obtain rfl := Option.some.inj (hrows.symm.trans hrows')
  obtain ⟨plan, hplan, hexit, hfits⟩ := hfits row hrow q heffect
  obtain ⟨m₁, moved, hexec', hruns⟩ :=
    hp.exists_execute (hm.withVars vars) hplan (hfits.below hexit hs)
  obtain ⟨-, rfl⟩ := Prod.mk.inj (Option.some.inj (hexec'.symm.trans hexec))
  exact hruns.not_evaluates

/-- No state handles an event that is not declared or comes before the start. -/
theorem Sound.handler_eq_none (hp : p.Sound) {vars : V} {commands : List (Command V)}
    (hrun : p.performAll (p.machine vars) commands = some m)
    (h : p.events.size ≤ e ∨ ∀ x ∈ commands, ¬ x.isStart) : m.table.handler e = none := by
  obtain ⟨m₁, hrun₁, hidle, -⟩ := hp.exists_performAll_idle (p.idle_machine vars) commands
  obtain rfl := Option.some.inj (hrun₁.symm.trans hrun)
  rcases h with he | hstart
  · have hlen := (hp.ready_of_resting (hp.exists_performsAll hrun).2).handlers
    rw [DispatchTable.handler, List.getElem?_eq_none (by omega)]
    rfl
  · exact (hidle hstart).handler_eq_none e

/-- A dispatch replies as its result says. -/
theorem Sound.exists_reply (hp : p.Sound) (hm : m.Resting p) (e : EventId) :
    ∃ visited m' journal result, p.dispatch m e = some (m', journal, result) ∧
      p.Reply visited e m m' journal result ∧
      ∀ s ∈ visited, ∃ leaf, m.table.settled = some leaf ∧ s ∈ p.hierarchy.ancestors leaf := by
  have h : p.DispatchEnds m e := hm.elim (dispatchEnds_idle · e) fun ⟨_, hm⟩ => hp.dispatchEnds hm e
  obtain ⟨visited, m', journal, result, hbubbles, hdispatch, -, hvisited, -⟩ := h
  obtain ⟨reply, hreply, hresult⟩ := hbubbles.exists_reply fun _ hs => hs
  rw [SendResult.noMatch_followedBy] at hresult
  have hfirst : p.Reply visited e m m [.dispatched e] .noMatch :=
    .ignored (by simp [Occurrence.still])
  have happend := hfirst.append (by simp) hreply
  rw [SendResult.noMatch_followedBy, ← hresult] at happend
  exact ⟨visited, m', _, result, hdispatch, happend, hvisited⟩

end Program

/-- `b` is a behavior on `e` of `s`, which is the settled state of `m` or above it, and it is open
with these variables. -/
structure Machine.Hears (m : Machine V) (c : Chart V) (e : EventId) (vars : V) (s : StateId)
    (b : Behavior V) : Prop where
  active : ∃ leaf, m.table.settled = some leaf ∧ s ∈ c.hierarchy.ancestors leaf
  declared : b ∈ c.behaviorsOn s (.event e)
  isOpen : b.guard.all (·.test vars)

namespace Chart

variable {c : Chart V} {p : Program V} {m : Machine V}

/-- What is offered was declared. -/
theorem exists_hears (h : c.compile = .ok p) {visited : List StateId} {e : EventId} {vars : V}
    {s leaf : StateId} {row : BehaviorRow V} (hoffers : p.Offers visited e vars s row)
    (he : e < c.events.size) (hm : m.Settled p leaf) (hs : s ∈ p.hierarchy.ancestors leaf) :
    ∃ b, m.Hears c e vars s b ∧ p.Carries b row := by
  obtain ⟨rows, hrows, hrow⟩ := hoffers.held
  have hlt : s < c.states.size := by
    rw [← size_states_of_compile h]
    exact Nat.lt_of_le_of_lt (Hierarchy.le_of_mem_ancestors hs) hm.lt
  obtain ⟨rows', hrows', hall⟩ := exists_carries h hlt he
  obtain rfl := Option.some.inj (hrows.symm.trans hrows')
  obtain ⟨b, hb, hcarries⟩ := exists_of_forall₂_of_mem hall hrow
  refine ⟨b, ⟨⟨leaf, hm.settled, hierarchy_of_compile h ▸ hs⟩, hb, ?_⟩, hcarries⟩
  rw [← hcarries.1]
  exact hoffers.isOpen

/-- Only a transition moves a machine, and the result of a dispatch says what happened. If nothing
matched, the machine is as it was and no action ran. If the event was handled, the table and the
store are as they were and a behavior without a target fired. If there was a transition, it was the
only one, no other behavior was looked at after it, and before it nothing was left or entered. An
event that is not declared, or that comes before the start, matches nothing. -/
theorem dispatch_result_tells (hc : c.Drafted) (h : c.compile = .ok p) {vars : V}
    {commands : List (Command V)} (hrun : p.performAll (p.machine vars) commands = some m)
    (e : EventId) :
    ∃ m' journal result, p.dispatch m e = some (m', journal, result) ∧
      (result = .noMatch → m' = m ∧ ∀ o ∈ journal, o.still) ∧
      (result = .handled → m'.table = m.table ∧ m'.history = m.history ∧
        (∀ o ∈ journal, o.quiet) ∧
        ∃ s b vars₀, m.Hears c e vars₀ s b ∧ b.target = none ∧
          Program.reaction s e b.guard b.action b.consume vars₀ <:+: journal) ∧
      (result = .transitioned → ∃ s b q plan vars₀ before moved, m.Hears c e vars₀ s b ∧
        b.target.isSome ∧ p.plans[q]? = some plan ∧ plan.action = b.action ∧
        journal = before ++ .fired s e (some q) :: moved ∧
        (∀ o ∈ before, o.quiet) ∧ (∀ o ∈ moved, o.evaluates = false) ∧
        p.execute { m with vars := vars₀ } q = some (m', moved)) ∧
      (c.events.size ≤ e ∨ (∀ x ∈ commands, ¬ x.isStart) → result = .noMatch) := by
  have hp := hc.linked.sound_of_compile h
  have hresting := (hp.exists_performsAll hrun).2
  obtain ⟨visited, m', journal, result, hdispatch, hreply, hvisited⟩ := hp.exists_reply hresting e
  have hevents : p.events.size = c.events.size := by
    obtain ⟨-, -, rfl⟩ := compile_eq_ok_iff.1 h
    rfl
  have hunheard : c.events.size ≤ e ∨ (∀ x ∈ commands, ¬ x.isStart) → result = .noMatch := by
    intro hunheard
    rw [← hevents] at hunheard
    rw [Program.dispatch_unhandled (hp.handler_eq_none hrun hunheard)] at hdispatch
    cases hdispatch
    rfl
  -- Whatever fired is on a declared event, so its row can be traced back to the chart.
  have hheard : result ≠ .noMatch → e < c.events.size :=
    fun hresult => Nat.lt_of_not_le fun hge => hresult (hunheard (.inl hge))
  refine ⟨m', journal, result, hdispatch, ?_, ?_, ?_, hunheard⟩
  · intro hresult
    subst hresult
    obtain ⟨hstill⟩ := hreply
    exact ⟨rfl, hstill⟩
  · intro hresult
    subst hresult
    cases hreply with
    | reacted vars' hoffers heffect hfired hquiet =>
      obtain ⟨leaf, hleaf, hs⟩ := hvisited _ hoffers.visited
      obtain ⟨b, hhears, hcarries⟩ :=
        exists_hears h hoffers (hheard (by simp)) (hresting.settled hleaf) hs
      obtain ⟨htarget, rfl, rfl⟩ := hcarries.of_internal heffect
      exact ⟨rfl, rfl, hquiet, _, b, _, hhears, htarget, hcarries.1 ▸ hfired⟩
  · intro hresult
    subst hresult
    cases hreply with
    | moved vars₀ hoffers heffect hquiet hexec =>
      obtain ⟨leaf, hleaf, hs⟩ := hvisited _ hoffers.visited
      have hm := hresting.settled hleaf
      have he := hheard (by simp)
      obtain ⟨b, hhears, hcarries⟩ := exists_hears h hoffers he hm hs
      obtain ⟨htarget, plan, hplan, haction⟩ := hcarries.of_transition heffect
      exact ⟨_, b, _, plan, vars₀, _, _, hhears, htarget, hplan, haction, rfl, hquiet,
        hp.not_evaluates hm.toAt hs (hevents ▸ he) hoffers heffect hexec, hexec⟩

theorem desk_drafted : desk.Drafted := ⟨"desk", deskCalls, rfl⟩

theorem desk_rings :
    (do
      let p ← desk.compile.toOption
      let m ← p.performAll (p.machine 0) [.dispatch 1, .start]
      let (_, _, result) ← p.dispatch m 1
      return result) = some .transitioned := by decide +kernel

/-- Three behaviors without a target fire before the transition. -/
theorem desk_dispatch_result_tells :
    ∃ p m m' journal s b q vars₀ before moved, desk.compile = .ok p ∧
      p.performAll (p.machine 0) [.dispatch 1, .start] = some m ∧
      p.dispatch m 1 = some (m', journal, .transitioned) ∧ m.Hears desk 1 vars₀ s b ∧
      b.target.isSome ∧ journal = before ++ .fired s 1 (some q) :: moved ∧
      (∀ o ∈ before, o.quiet) ∧ (∀ o ∈ moved, o.evaluates = false) ∧
      p.execute { m with vars := vars₀ } q = some (m', moved) := by
  have hrings := desk_rings
  simp only [Option.bind_eq_bind, Option.bind_eq_some_iff, Prod.exists, Option.pure_def,
    Option.some.injEq] at hrings
  obtain ⟨p, hp, m, hrun, m', journal, result, hdispatch, rfl⟩ := hrings
  have hcompile := eq_ok_of_toOption hp
  obtain ⟨m₁, journal₁, result₁, hdispatch₁, -, -, hmoved, -⟩ :=
    dispatch_result_tells desk_drafted hcompile hrun 1
  obtain ⟨rfl, rfl, rfl⟩ : m₁ = m' ∧ journal₁ = journal ∧ result₁ = .transitioned := by
    simpa using hdispatch₁.symm.trans hdispatch
  obtain ⟨s, b, q, plan, vars₀, before, moved, hhears, htarget, -, -, hrest⟩ := hmoved rfl
  exact ⟨p, m, m₁, journal₁, s, b, q, vars₀, before, moved, hcompile, hrun, hdispatch, hhears,
    htarget, hrest⟩

end Chart

end Statechart
