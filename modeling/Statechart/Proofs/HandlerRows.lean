import Statechart.Proofs.BehaviorTable
import Statechart.Proofs.CommonAncestors

/-
  The rows of handlers are the tree laid flat. The row of a state was copied from that of its parent
  and changed where the state has behaviors of its own, yet it says for every event which state
  comes first on the way from the state up to the root (`Chart.Lineage`). Turning from there to the
  next handler again and again (`Program.HandsOn`) goes through all states on that way that declare
  a behavior on the event, and through no others (`rows_follow_tree`).
-/

namespace Statechart

variable {V : Type}

/-- Each state is followed by states that are above it. -/
theorem Hierarchy.pairwise_ancestors (h : Hierarchy) (s : StateId) :
    (h.ancestors s).Pairwise fun inner outer => outer ∈ h.ancestors inner := by
  induction s using h.parent_induction with
  | root s hp => simp [ancestors_of_root hp]
  | step s q hp ih =>
    rw [ancestors_of_parent hp, List.pairwise_cons]
    exact ⟨fun outer houter => (mem_ancestors_of_parent hp).2 (.inr houter), ih⟩

/-- From this handler on, each one names the next, and the last one names none. -/
inductive Program.HandsOn (p : Program V) (e : EventId) : Option StateId → List StateId → Prop
  | stop : p.HandsOn e none []
  | pass {s : StateId} {next : Option StateId} {rest : List StateId}
      (hnext : p.nextAncestor? s e = some next) (hrest : p.HandsOn e next rest) :
      p.HandsOn e (some s) (s :: rest)

namespace Chart

/-- A state, its parent, the parent of that, and so on up to the root. -/
inductive Lineage (c : Chart V) : StateId → List StateId → Prop
  | root : c.Lineage rootState [rootState]
  | child {s q : StateId} {line : List StateId} (hparent : c.parentOf s = some q)
      (hline : c.Lineage q line) : c.Lineage s (s :: line)

variable {c : Chart V} {p : Program V} {s : StateId} {e : EventId}

theorem Linked.lineage (hc : c.Linked) (hs : s < c.states.size) :
    c.Lineage s (c.hierarchy.ancestors s) := by
  induction s using c.hierarchy.parent_induction with
  | root s hp =>
    rw [Hierarchy.ancestors_of_root hp, (hc.parent_eq_none_iff hs).1 hp]
    exact .root
  | step s q hp ih =>
    rw [Hierarchy.ancestors_of_parent hp]
    exact .child (hc.parent_eq s ▸ hp) (ih (Nat.lt_trans (c.hierarchy.parent_lt hp) hs))

/-! ## Who declares a behavior -/

theorem handles_iff_exists_declared : c.handles e s ↔ ∃ b, b ∈ c.declaredOn s (.event e) := by
  unfold handles declaredOn
  cases c.states[s]? with
  | none => simp
  | some node => simp [StateNode.onEvent, List.eq_nil_iff_forall_not_mem]

/-- The order of its behaviors does not matter for what a state handles. -/
@[simp] theorem handles_ordered (c : Chart V) (e : EventId) : c.ordered.handles e = c.handles e := by
  funext s
  unfold handles
  rw [getElem?_states_ordered]
  cases c.states[s]? with
  | none => rfl
  | some node =>
    have hperm : (node.ordered.onEvent e).Perm (node.onEvent e) := by
      rw [StateNode.onEvent, StateNode.toList_behaviors_ordered]
      exact (byPriority_perm _ _).filter _
    simp [hperm.isEmpty_eq]

/-! ## From one handler to the next -/

/-- One state more: it is listed if it handles the event, and then names what comes next. -/
theorem handsOn_cons {states : List StateId}
    (hnext : c.program.nextAncestor? s e = some (states.find? (c.handles e)))
    (hrest : c.program.HandsOn e (states.find? (c.handles e)) (states.filter (c.handles e))) :
    c.program.HandsOn e ((s :: states).find? (c.handles e))
      ((s :: states).filter (c.handles e)) := by
  by_cases hs : c.handles e s
  · rw [List.find?_cons_of_pos hs, List.filter_cons_of_pos hs]
    exact .pass hnext hrest
  · rw [List.find?_cons_of_neg hs, List.filter_cons_of_neg hs]
    exact hrest

/-- The states at or above `s` that handle an event, innermost first. -/
def handlersFrom (c : Chart V) (e : EventId) (s : StateId) : List StateId :=
  (c.hierarchy.ancestors s).filter (c.handles e)

/-- Handlers hand on to each other through all of these states. -/
theorem handsOn_handlersFrom (hs : s < c.states.size) (he : e < c.events.size) :
    c.program.HandsOn e ((c.hierarchy.ancestors s).find? (c.handles e)) (c.handlersFrom e s) := by
  unfold handlersFrom
  -- Down from the root: what the link of `s` names is where the handlers of its parent start.
  induction s using c.hierarchy.parent_induction with
  | root s hp =>
    have hnext := nextAncestor?_program hs he
    rw [Hierarchy.ancestors_of_root hp] at hnext ⊢
    exact handsOn_cons hnext .stop
  | step s q hp ih =>
    have hnext := nextAncestor?_program hs he
    rw [Hierarchy.ancestors_of_parent hp] at hnext ⊢
    exact handsOn_cons hnext (ih (Nat.lt_trans (c.hierarchy.parent_lt hp) hs))

theorem handlersFrom_ordered (c : Chart V) (e : EventId) (s : StateId) :
    c.ordered.handlersFrom e s = c.handlersFrom e s := by
  rw [handlersFrom, hierarchy_ordered, handles_ordered, handlersFrom]

theorem Linked.mem_handlersFrom (hc : c.Linked) {x : StateId} :
    x ∈ c.handlersFrom e s ↔ c.Encloses x s ∧ ∃ b, b ∈ c.declaredOn x (.event e) := by
  rw [handlersFrom, List.mem_filter, hc.encloses_iff, handles_iff_exists_declared]

theorem Linked.pairwise_handlersFrom (hc : c.Linked) :
    (c.handlersFrom e s).Pairwise fun inner outer => c.Encloses outer inner := by
  refine List.Pairwise.filter _ ((c.hierarchy.pairwise_ancestors s).imp fun houter => ?_)
  exact hc.encloses_iff.2 houter

/-- The rows of a program follow the tree. On the way from a state up to the root, the row of the
state names the first state that declares a behavior on an event, and the link of the state to its
next handler the first one strictly above it. Following the links from what the row names, all
states at or above the state that declare a behavior on the event come up once, innermost first. -/
theorem rows_follow_tree (hc : c.Drafted) (h : c.compile = .ok p) (hs : s < c.states.size)
    (he : e < c.events.size) :
    c.Lineage s (c.hierarchy.ancestors s) ∧
    (∃ row, p.handlerRow? s = some row ∧ row.length = c.events.size ∧
      row[e]? = some ((c.hierarchy.ancestors s).find? (c.handles e))) ∧
    p.nextAncestor? s e = some ((c.hierarchy.ancestors s).tail.find? (c.handles e)) ∧
    p.HandsOn e ((c.hierarchy.ancestors s).find? (c.handles e)) (c.handlersFrom e s) ∧
    (∀ x, x ∈ c.handlersFrom e s ↔
      c.Encloses x s ∧ ∃ b, b ∈ c.declaredOn x (.event e)) ∧
    (c.handlersFrom e s).Nodup ∧
    (c.handlersFrom e s).Pairwise fun inner outer => c.Encloses outer inner := by
  have hl := hc.linked
  obtain ⟨-, -, rfl⟩ := compile_eq_ok_iff.1 h
  have hs' : s < c.ordered.states.size := by simpa using hs
  have he' : e < c.ordered.events.size := he
  have hnext := nextAncestor?_program hs' he'
  have hhands := handsOn_handlersFrom hs' he'
  rw [hierarchy_ordered, handles_ordered] at hnext hhands
  rw [handlersFrom_ordered] at hhands
  refine ⟨hl.lineage hs, ⟨_, handlerRow?_program hs', c.ordered.length_handlersOn _, ?_⟩, hnext,
    hhands, fun x => hl.mem_handlersFrom, (c.hierarchy.nodup_ancestors s).filter _,
    hl.pairwise_handlersFrom⟩
  rw [getElem?_handlersOn _ he', hierarchy_ordered, handles_ordered]

def lodgeCalls : List (Draft.Call Nat) :=
  [.event "bell", .event "smoke", .state "House" rootState, .state "Floor" 1, .state "Room" 2,
    .state "Alcove" 3, .state "Yard" rootState, .pseudostate rootState .initial none,
    .branch 0 [.to (.state 4)], .on rootState 1 [.to (.state 5)],
    .on 3 1 [.order "2", .action ⟨(· + 1), fun _ => []⟩], .on 3 1 [.order "1", .to (.state 5)],
    .on 1 1 [.action ⟨(· * 2), fun _ => []⟩], .on 5 2 []]

/-- A house in which a bell is heard in some places and smoke only in the yard. -/
def lodge : Chart Nat := (Draft.ofCalls "lodge" lodgeCalls).chart

theorem lodge_drafted : lodge.Drafted := ⟨"lodge", lodgeCalls, rfl⟩

theorem lodge_compile_isOk : lodge.compile.isOk := by decide +kernel

/-- From an alcove the bell is heard in the room, then in the house, then outside, and not on the
floor in between. Of smoke nothing is heard. -/
theorem lodge_rows_follow_tree :
    ∃ p row, lodge.compile = .ok p ∧ p.handlerRow? 4 = some row ∧ row[1]? = some (some 3) ∧
      p.nextAncestor? 4 1 = some (some 3) ∧ p.HandsOn 1 (some 3) [3, 1, 0] ∧
      p.nextAncestor? 4 2 = some none ∧ p.HandsOn 2 none [] := by
  obtain ⟨p, hp⟩ := exists_ok_of_isOk lodge_compile_isOk
  have hbell : (lodge.hierarchy.ancestors 4).find? (lodge.handles 1) = some 3 ∧
      (lodge.hierarchy.ancestors 4).tail.find? (lodge.handles 1) = some 3 ∧
      lodge.handlersFrom 1 4 = [3, 1, 0] := by decide +kernel
  have hsmoke : (lodge.hierarchy.ancestors 4).find? (lodge.handles 2) = none ∧
      (lodge.hierarchy.ancestors 4).tail.find? (lodge.handles 2) = none ∧
      lodge.handlersFrom 2 4 = [] := by decide +kernel
  have hs : 4 < lodge.states.size := by decide +kernel
  have he : 2 < lodge.events.size := by decide +kernel
  obtain ⟨-, ⟨row, hrow, -, hfirst⟩, hnext, hhands, -⟩ :=
    rows_follow_tree lodge_drafted hp hs (Nat.lt_of_succ_lt he)
  obtain ⟨-, -, hnext', hhands', -⟩ := rows_follow_tree lodge_drafted hp hs he
  rw [hbell.1] at hfirst hhands
  rw [hbell.2.1] at hnext
  rw [hbell.2.2] at hhands
  rw [hsmoke.1, hsmoke.2.2] at hhands'
  rw [hsmoke.2.1] at hnext'
  exact ⟨p, row, hp, hrow, hfirst, hnext, hhands, hnext', hhands'⟩

end Chart

end Statechart
