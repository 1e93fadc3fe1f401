import Mathlib.Data.List.Basic
import Statechart.Chart.Check
import Statechart.Chart.Draft
import Statechart.Proofs.Hierarchy

/-
  Charts that drafting can give. Whatever is asked of a draft, in whatever order and with whatever
  numbers, its nodes stay linked (`linked_call`): the root is the only state without a parent, a
  parent is declared before its children, and a state lists exactly its children and pseudostates,
  in the order of their numbers. So the hierarchy of a drafted chart is a single tree.
-/

namespace Statechart

variable {V : Type}

namespace Chart

/-- The state that `s` names as its parent. -/
def parentOf (c : Chart V) (s : StateId) : Option StateId := (c.states[s]?).bind (·.parent)

structure Linked (c : Chart V) : Prop where
  nonempty : 0 < c.states.size
  root : c.parentOf rootState = none
  parent : ∀ s < c.states.size, s ≠ rootState → ∃ q, c.parentOf s = some q ∧ q < s
  children : ∀ s < c.states.size,
    c.children s = c.stateIds.filter fun t => c.parentOf t = some s
  owned : ∀ s < c.states.size, c.owned s = c.pseudoIds.filter fun p => c.containerOf p = s
  container : ∀ p < c.pseudostates.size, c.containerOf p < c.states.size
  fewEvents : c.events.size ≤ maxNodes
  fewStates : c.states.size ≤ maxNodes
  fewPseudostates : c.pseudostates.size ≤ maxNodes

theorem children_eq (c : Chart V) (s : StateId) :
    c.children s = ((c.states[s]?).map (·.children.toList)).getD [] := by
  unfold children
  cases c.states[s]? <;> rfl

theorem owned_eq (c : Chart V) (s : StateId) :
    c.owned s = ((c.states[s]?).map (·.pseudostates.toList)).getD [] := by
  unfold owned
  cases c.states[s]? <;> rfl

theorem containerOf_eq (c : Chart V) (p : PseudoId) :
    c.containerOf p = ((c.pseudostates[p]?).map (·.container)).getD rootState := by
  unfold containerOf
  cases c.pseudostates[p]? <;> rfl

theorem label_eq (c : Chart V) (s : StateId) :
    c.label s = ((c.states[s]?).map (·.name)).getD "?" := by
  unfold label
  cases c.states[s]? <;> rfl

/-- Charts that link the same nodes in the same way are linked alike. -/
theorem Linked.congr {c c' : Chart V} (hc : c.Linked) (hs : c'.states.size = c.states.size)
    (hps : c'.pseudostates.size = c.pseudostates.size) (hev : c'.events.size ≤ maxNodes)
    (hparent : ∀ s, c'.parentOf s = c.parentOf s) (hchildren : ∀ s, c'.children s = c.children s)
    (howned : ∀ s, c'.owned s = c.owned s) (hcont : ∀ p, c'.containerOf p = c.containerOf p) :
    c'.Linked where
  nonempty := by rw [hs]; exact hc.nonempty
  root := by rw [hparent]; exact hc.root
  parent s h hne := by
    rw [hs] at h
    simpa only [hparent] using hc.parent s h hne
  children s h := by
    rw [hs] at h
    simpa only [hchildren, hparent, stateIds, hs] using hc.children s h
  owned s h := by
    rw [hs] at h
    simpa only [howned, hcont, pseudoIds, hps] using hc.owned s h
  container p h := by
    rw [hps] at h
    simpa only [hcont, hs] using hc.container p h
  fewEvents := hev
  fewStates := by rw [hs]; exact hc.fewStates
  fewPseudostates := by rw [hps]; exact hc.fewPseudostates

end Chart

namespace Draft

/-- What can be asked of a draft. The other ways of declaring a pseudostate or a behavior are cases
of the ones here. -/
inductive Call (V : Type) where
  | event (name : String)
  | state (name : String) (parent : StateId)
  | pseudostate (container : StateId) (kind : PseudoKind) (name : Option String)
  | branch (p : PseudoId) (clauses : List (Clause V))
  | behavior (s : StateId) (trigger : Trigger) (clauses : List (Clause V))
  | on (s : StateId) (e : EventId) (clauses : List (Clause V))

def call (d : Draft V) : Call V → Draft V
  | .event name => (d.event name).2
  | .state name parent => (d.state name parent).2
  | .pseudostate container kind name => (d.pseudostate container kind name).2
  | .branch p clauses => d.branch p clauses
  | .behavior s trigger clauses => d.behavior s trigger clauses
  | .on s e clauses => d.on s e clauses

/-- A draft from the beginning. -/
def ofCalls (name : String) (calls : List (Call V)) : Draft V := calls.foldl call (new name)

end Draft

/-- Some draft without a mistake gives this chart. -/
def Chart.Drafted (c : Chart V) : Prop :=
  ∃ name calls, (Draft.ofCalls name calls).finish = .ok c

theorem Draft.drafted_of_fault {name : String} {calls : List (Draft.Call V)}
    (h : (Draft.ofCalls name calls).fault.isNone) : (Draft.ofCalls name calls).chart.Drafted := by
  refine ⟨name, calls, ?_⟩
  rw [finish, Option.isNone_iff_eq_none.1 h]

/-! ## Every call keeps a chart linked -/

namespace Draft

theorem linked_new (name : String) : (new name : Draft V).chart.Linked where
  nonempty := by simp [new]
  root := rfl
  parent s h hne := by
    simp only [new, List.size_toArray, List.length_cons, List.length_nil] at h
    obtain rfl : s = 0 := by lia
    exact absurd rfl hne
  children s h := by
    simp only [new, List.size_toArray, List.length_cons, List.length_nil] at h
    obtain rfl : s = 0 := by lia
    rfl
  owned s h := by
    simp only [new, List.size_toArray, List.length_cons, List.length_nil] at h
    obtain rfl : s = 0 := by lia
    rfl
  container p h := by simp [new] at h
  fewEvents := by simp [new, maxNodes]
  fewStates := by simp [new, maxNodes]
  fewPseudostates := by simp [new]

@[simp] theorem chart_noteAll (d : Draft V) (clauses : List (Clause V)) :
    (d.noteAll clauses).chart = d.chart := rfl

theorem linked_event {d : Draft V} (hd : d.chart.Linked) (name : String) :
    (d.event name).2.chart.Linked := by
  simp only [event]
  split
  · exact hd
  · next h =>
    refine hd.congr rfl rfl ?_ (fun _ => rfl) (fun _ => rfl) (fun _ => rfl) (fun _ => rfl)
    rw [Array.size_push]
    lia

/-- Attaching a behavior changes no link. -/
theorem linked_behavior {d : Draft V} (hd : d.chart.Linked) (s : StateId) (trigger : Trigger)
    (clauses : List (Clause V)) : (d.behavior s trigger clauses).chart.Linked := by
  unfold behavior
  rw [chart_noteAll]
  split
  · refine hd.congr (by simp) rfl hd.fewEvents ?_ ?_ ?_ (fun _ => rfl)
    all_goals
      intro t
      simp only [Chart.parentOf, Chart.children, Chart.owned, Array.getElem?_modify]
      by_cases hst : s = t
      · cases d.chart.states[t]? <;> simp [hst]
      · simp [hst]
  · exact hd

theorem linked_on {d : Draft V} (hd : d.chart.Linked) (s : StateId) (e : EventId)
    (clauses : List (Clause V)) : (d.on s e clauses).chart.Linked := by
  unfold on
  apply linked_behavior
  split
  · exact hd
  · exact hd

/-- Attaching a branch changes no link. -/
theorem linked_branch {d : Draft V} (hd : d.chart.Linked) (p : PseudoId)
    (clauses : List (Clause V)) : (d.branch p clauses).chart.Linked := by
  unfold branch
  rw [chart_noteAll]
  split
  · refine hd.congr rfl (by simp) hd.fewEvents (fun _ => rfl) (fun _ => rfl) (fun _ => rfl) ?_
    intro r
    simp only [Chart.containerOf, Array.getElem?_modify]
    by_cases hpr : p = r
    · cases d.chart.pseudostates[r]? <;> simp [hpr]
    · simp [hpr]
  · exact hd

end Draft

/-! ## One more node -/

namespace Chart

/-- `c` with one more state, the last child of its parent. -/
def addState (c : Chart V) (name : String) (parent : StateId) : Chart V :=
  { c with
    states := (c.states.modify parent fun node =>
      { node with children := node.children.push c.states.size }).push
        { name, parent := some parent } }

section AddState

variable (c : Chart V) (name : String) (parent : StateId)

@[simp] theorem size_addState : (c.addState name parent).states.size = c.states.size + 1 := by
  simp [addState]

theorem getElem?_addState (t : StateId) :
    (c.addState name parent).states[t]? =
      if t = c.states.size then some { name, parent := some parent }
      else if parent = t then (c.states[t]?).map fun node =>
        { node with children := node.children.push c.states.size }
      else c.states[t]? := by
  simp only [addState, Array.getElem?_push, Array.size_modify, Array.getElem?_modify]

theorem parentOf_addState (t : StateId) :
    (c.addState name parent).parentOf t =
      if t = c.states.size then some parent else c.parentOf t := by
  rw [parentOf, getElem?_addState]
  split
  · rfl
  · split
    · rw [parentOf, Option.bind_map]
      rfl
    · rfl

theorem children_addState {t : StateId} (ht : t < c.states.size) :
    (c.addState name parent).children t =
      c.children t ++ if parent = t then [c.states.size] else [] := by
  rw [children_eq, getElem?_addState, if_neg (Nat.ne_of_lt ht), children_eq]
  split
  · simp [ht]
  · simp

theorem children_addState_last : (c.addState name parent).children c.states.size = [] := by
  rw [children_eq, getElem?_addState, if_pos rfl]
  rfl

theorem owned_addState {t : StateId} (ht : t < c.states.size) :
    (c.addState name parent).owned t = c.owned t := by
  rw [owned_eq, getElem?_addState, if_neg (Nat.ne_of_lt ht), owned_eq]
  split
  · simp [ht]
  · rfl

theorem owned_addState_last : (c.addState name parent).owned c.states.size = [] := by
  rw [owned_eq, getElem?_addState, if_pos rfl]
  rfl

theorem label_addState {t : StateId} (ht : t < c.states.size) :
    (c.addState name parent).label t = c.label t := by
  rw [label_eq, getElem?_addState, if_neg (Nat.ne_of_lt ht), label_eq]
  split
  · rw [Option.map_map]
    rfl
  · rfl

theorem stateIds_addState : (c.addState name parent).stateIds = c.stateIds ++ [c.states.size] := by
  rw [stateIds, size_addState, List.range_succ]
  rfl

variable {c}

/-- Nothing names a state that is not there yet as its parent. -/
theorem Linked.parentOf_ne_size (hc : c.Linked) {t : StateId} (ht : t < c.states.size) :
    c.parentOf t ≠ some c.states.size := by
  intro h
  by_cases h0 : t = rootState
  · rw [h0, hc.root] at h
    cases h
  · obtain ⟨q, hq, hlt⟩ := hc.parent t ht h0
    rw [h] at hq
    cases hq
    lia

theorem Linked.addState (hc : c.Linked) (hmax : c.states.size < maxNodes)
    (hp : parent < c.states.size) : (c.addState name parent).Linked where
  nonempty := by simp
  root := by
    have hne : rootState ≠ c.states.size := Nat.ne_of_lt hc.nonempty
    rw [parentOf_addState, if_neg hne]
    exact hc.root
  parent t ht hne := by
    rw [size_addState] at ht
    rw [parentOf_addState]
    split
    · exact ⟨parent, rfl, by lia⟩
    · exact hc.parent t (by lia) hne
  children t ht := by
    rw [size_addState] at ht
    have hold : (c.stateIds.filter fun x => (c.addState name parent).parentOf x = some t) =
        c.stateIds.filter fun x => c.parentOf x = some t := by
      apply List.filter_congr
      intro x hx
      rw [parentOf_addState, if_neg (Nat.ne_of_lt (List.mem_range.1 hx))]
    have hlast : [c.states.size].filter (fun x => (c.addState name parent).parentOf x = some t) =
        if parent = t then [c.states.size] else [] := by
      rw [List.filter_cons, parentOf_addState, if_pos rfl]
      simp
    rw [stateIds_addState, List.filter_append, hold, hlast]
    rcases Nat.lt_succ_iff_lt_or_eq.1 ht with hlt | rfl
    · rw [children_addState c name parent hlt, hc.children t hlt]
    · have hnone : (c.stateIds.filter fun x => c.parentOf x = some c.states.size) = [] := by
        rw [List.filter_eq_nil_iff]
        intro x hx
        rw [decide_eq_true_iff]
        exact hc.parentOf_ne_size (List.mem_range.1 hx)
      rw [children_addState_last, hnone, if_neg (Nat.ne_of_lt hp)]
      rfl
  owned t ht := by
    rw [size_addState] at ht
    rcases Nat.lt_succ_iff_lt_or_eq.1 ht with hlt | rfl
    · rw [owned_addState c name parent hlt]
      exact hc.owned t hlt
    · rw [owned_addState_last]
      symm
      rw [List.filter_eq_nil_iff]
      intro p hp
      rw [decide_eq_true_iff]
      exact Nat.ne_of_lt (hc.container p (List.mem_range.1 hp))
  container p hp := by
    rw [size_addState]
    exact Nat.lt_succ_of_lt (hc.container p hp)
  fewEvents := hc.fewEvents
  fewStates := by
    rw [size_addState]
    exact hmax
  fewPseudostates := hc.fewPseudostates

end AddState

/-- `c` with one more pseudostate, the last one of its container. -/
def addPseudostate (c : Chart V) (container : StateId) (kind : PseudoKind) (name : Option String) :
    Chart V :=
  { c with
    states := c.states.modify container fun node =>
      { node with pseudostates := node.pseudostates.push c.pseudostates.size }
    pseudostates := c.pseudostates.push { kind, container, name } }

section AddPseudostate

variable (c : Chart V) (container : StateId) (kind : PseudoKind) (name : Option String)

@[simp] theorem size_states_addPseudostate :
    (c.addPseudostate container kind name).states.size = c.states.size := by
  simp [addPseudostate]

@[simp] theorem size_addPseudostate :
    (c.addPseudostate container kind name).pseudostates.size = c.pseudostates.size + 1 := by
  simp [addPseudostate]

theorem getElem?_states_addPseudostate (t : StateId) :
    (c.addPseudostate container kind name).states[t]? =
      if container = t then (c.states[t]?).map fun node =>
        { node with pseudostates := node.pseudostates.push c.pseudostates.size }
      else c.states[t]? := by
  simp only [addPseudostate, Array.getElem?_modify]

theorem parentOf_addPseudostate (t : StateId) :
    (c.addPseudostate container kind name).parentOf t = c.parentOf t := by
  rw [parentOf, getElem?_states_addPseudostate]
  split
  · rw [parentOf, Option.bind_map]
    rfl
  · rfl

theorem children_addPseudostate (t : StateId) :
    (c.addPseudostate container kind name).children t = c.children t := by
  rw [children_eq, getElem?_states_addPseudostate, children_eq]
  split
  · rw [Option.map_map]
    rfl
  · rfl

theorem owned_addPseudostate {t : StateId} (ht : t < c.states.size) :
    (c.addPseudostate container kind name).owned t =
      c.owned t ++ if container = t then [c.pseudostates.size] else [] := by
  rw [owned_eq, getElem?_states_addPseudostate, owned_eq]
  split
  · simp [ht]
  · simp

theorem label_addPseudostate (t : StateId) :
    (c.addPseudostate container kind name).label t = c.label t := by
  rw [label_eq, getElem?_states_addPseudostate, label_eq]
  split
  · rw [Option.map_map]
    rfl
  · rfl

theorem containerOf_addPseudostate (p : PseudoId) :
    (c.addPseudostate container kind name).containerOf p =
      if p = c.pseudostates.size then container else c.containerOf p := by
  rw [containerOf_eq, containerOf_eq]
  simp only [addPseudostate, Array.getElem?_push]
  split <;> rfl

theorem pseudoIds_addPseudostate :
    (c.addPseudostate container kind name).pseudoIds = c.pseudoIds ++ [c.pseudostates.size] := by
  rw [pseudoIds, size_addPseudostate, List.range_succ]
  rfl

variable {c}

theorem Linked.addPseudostate (hc : c.Linked) (hmax : c.pseudostates.size < maxNodes)
    (hq : container < c.states.size) : (c.addPseudostate container kind name).Linked where
  nonempty := by simpa using hc.nonempty
  root := by simpa only [parentOf_addPseudostate] using hc.root
  parent t ht hne := by
    rw [size_states_addPseudostate] at ht
    simpa only [parentOf_addPseudostate] using hc.parent t ht hne
  children t ht := by
    rw [size_states_addPseudostate] at ht
    simpa only [children_addPseudostate, parentOf_addPseudostate, stateIds,
      size_states_addPseudostate] using hc.children t ht
  owned t ht := by
    rw [size_states_addPseudostate] at ht
    have hold : (c.pseudoIds.filter fun p =>
          (c.addPseudostate container kind name).containerOf p = t) =
        c.pseudoIds.filter fun p => c.containerOf p = t := by
      apply List.filter_congr
      intro p hp
      rw [containerOf_addPseudostate, if_neg (Nat.ne_of_lt (List.mem_range.1 hp))]
    have hlast : [c.pseudostates.size].filter (fun p =>
          (c.addPseudostate container kind name).containerOf p = t) =
        if container = t then [c.pseudostates.size] else [] := by
      rw [List.filter_cons, containerOf_addPseudostate, if_pos rfl]
      simp
    rw [owned_addPseudostate c container kind name ht, hc.owned t ht, pseudoIds_addPseudostate,
      List.filter_append, hold, hlast]
  container p hp := by
    rw [size_addPseudostate] at hp
    rw [containerOf_addPseudostate, size_states_addPseudostate]
    split
    · exact hq
    · exact hc.container p (by lia)
  fewEvents := hc.fewEvents
  fewStates := by simpa using hc.fewStates
  fewPseudostates := by
    rw [size_addPseudostate]
    exact hmax

end AddPseudostate

end Chart

namespace Draft

theorem linked_state {d : Draft V} (hd : d.chart.Linked) (name : String) (parent : StateId) :
    (d.state name parent).2.chart.Linked := by
  simp only [state]
  split
  · exact hd
  · next hmax =>
    split
    · next hp => exact hd.addState name parent (Nat.lt_of_not_le hmax) hp
    · exact hd

theorem linked_pseudostate {d : Draft V} (hd : d.chart.Linked) (container : StateId)
    (kind : PseudoKind) (name : Option String) :
    (d.pseudostate container kind name).2.chart.Linked := by
  simp only [pseudostate]
  split
  · exact hd
  · next hmax =>
    split
    · next hq => exact hd.addPseudostate container kind name (Nat.lt_of_not_le hmax) hq
    · exact hd

theorem linked_call {d : Draft V} (hd : d.chart.Linked) (call : Call V) :
    (d.call call).chart.Linked := by
  cases call with
  | event name => exact linked_event hd name
  | state name parent => exact linked_state hd name parent
  | pseudostate container kind name => exact linked_pseudostate hd container kind name
  | branch p clauses => exact linked_branch hd p clauses
  | behavior s trigger clauses => exact linked_behavior hd s trigger clauses
  | on s e clauses => exact linked_on hd s e clauses

theorem linked_foldl_call {d : Draft V} (hd : d.chart.Linked) (calls : List (Call V)) :
    (calls.foldl call d).chart.Linked := by
  induction calls generalizing d with
  | nil => exact hd
  | cons c calls ih => exact ih (linked_call hd c)

end Draft

theorem Chart.Drafted.linked {c : Chart V} (hc : c.Drafted) : c.Linked := by
  obtain ⟨name, calls, h⟩ := hc
  have hl : (Draft.ofCalls name calls).chart.Linked :=
    Draft.linked_foldl_call (Draft.linked_new name) calls
  unfold Draft.finish at h
  split at h
  · cases h
  · cases h
    exact hl

namespace Chart

/-! ## The tree of a linked chart -/

theorem parentOf_lt {c : Chart V} (hc : c.Linked) {s q : StateId} (h : c.parentOf s = some q) :
    s < c.states.size ∧ q < s := by
  have hs : s < c.states.size := by
    by_contra hge
    rw [parentOf, Array.getElem?_eq_none (Nat.le_of_not_lt hge)] at h
    cases h
  refine ⟨hs, ?_⟩
  by_cases h0 : s = rootState
  · rw [h0, hc.root] at h
    cases h
  · obtain ⟨r, hr, hlt⟩ := hc.parent s hs h0
    rw [h] at hr
    cases hr
    exact hlt

section Tree

variable {c : Chart V} {a b s q : StateId}

theorem Linked.parent_eq (hc : c.Linked) (s : StateId) : c.hierarchy.parent s = c.parentOf s := by
  change (c.parentOf s).filter (· < s) = c.parentOf s
  cases h : c.parentOf s with
  | none => rfl
  | some q => simp [Option.filter, (parentOf_lt hc h).2]

theorem Linked.parent_eq_none_iff (hc : c.Linked) (hs : s < c.states.size) :
    c.hierarchy.parent s = none ↔ s = rootState := by
  rw [hc.parent_eq]
  constructor
  · intro h
    by_contra hne
    obtain ⟨q, hq, -⟩ := hc.parent s hs hne
    rw [h] at hq
    cases hq
  · rintro rfl
    exact hc.root

theorem Linked.root_mem_ancestors (hc : c.Linked) (hs : s < c.states.size) :
    rootState ∈ c.hierarchy.ancestors s := by
  induction s using c.hierarchy.parent_induction with
  | root s hp =>
    rw [(hc.parent_eq_none_iff hs).1 hp]
    exact Hierarchy.self_mem_ancestors _ _
  | step s q hp ih =>
    have hq : q < c.states.size := Nat.lt_trans (c.hierarchy.parent_lt hp) hs
    exact (Hierarchy.mem_ancestors_of_parent hp).2 (Or.inr (ih hq))

/-- A chart counts its depths by walking up. -/
theorem counted (c : Chart V) (s : StateId) : c.hierarchy.Counted s := by
  have hd : c.hierarchy.depth s = (c.hierarchy.ancestors s).length - 1 := rfl
  have := c.hierarchy.ancestors_length_pos s
  rw [Hierarchy.Counted, hd]
  lia

theorem Linked.joined (hc : c.Linked) (ha : a < c.states.size) (hb : b < c.states.size) :
    c.hierarchy.Joined a b :=
  ⟨c.counted a, c.counted b, rootState, hc.root_mem_ancestors ha, hc.root_mem_ancestors hb⟩

/-! ## The pseudostates of a state -/

variable {p : PseudoId} {k : PseudoKind → Bool}

theorem containerOf_eq_of_getElem? {node : PseudoNode V} (h : c.pseudostates[p]? = some node) :
    c.containerOf p = node.container := by
  rw [containerOf_eq, h]
  rfl

theorem Linked.mem_owned (hc : c.Linked) :
    p ∈ c.owned s ↔ p < c.pseudostates.size ∧ c.containerOf p = s := by
  by_cases hs : s < c.states.size
  · rw [hc.owned s hs, List.mem_filter, decide_eq_true_iff]
    exact and_congr_left' List.mem_range
  · have hnone : c.owned s = [] := by
      rw [owned_eq, Array.getElem?_eq_none (Nat.le_of_not_lt hs)]
      rfl
    rw [hnone]
    constructor
    · intro h
      cases h
    · rintro ⟨hp, rfl⟩
      exact absurd (hc.container p hp) hs

theorem find?_eq (c : Chart V) (s : StateId) (k : PseudoKind → Bool) :
    c.find? s k = (c.owned s).find? fun p => (c.kind? p).any k := by
  rw [find?, owned_eq]
  cases c.states[s]? <;> simp

theorem Linked.find?_some (hc : c.Linked) (h : c.find? s k = some p) :
    ∃ node, c.pseudostates[p]? = some node ∧ node.container = s ∧ k node.kind = true := by
  rw [find?_eq] at h
  obtain ⟨hp, rfl⟩ := hc.mem_owned.1 (List.mem_of_find?_eq_some h)
  have hk := List.find?_some h
  refine ⟨c.pseudostates[p], Array.getElem?_eq_getElem hp, ?_, ?_⟩
  · exact (containerOf_eq_of_getElem? (Array.getElem?_eq_getElem hp)).symm
  · simpa [kind?, hp] using hk

theorem Linked.find?_isSome_iff (hc : c.Linked) :
    (c.find? s k).isSome ↔ ∃ node ∈ c.pseudostates.toList, node.container = s ∧ k node.kind := by
  constructor
  · intro h
    obtain ⟨p, hp⟩ := Option.isSome_iff_exists.1 h
    obtain ⟨node, hget, hcont, hk⟩ := hc.find?_some hp
    exact ⟨node, Array.mem_toList_iff.2 (Array.mem_of_getElem? hget), hcont, hk⟩
  · rintro ⟨node, hmem, rfl, hk⟩
    obtain ⟨p, hget⟩ := Array.getElem?_of_mem (Array.mem_toList_iff.1 hmem)
    obtain ⟨hp, -⟩ := Array.getElem?_eq_some_iff.1 hget
    rw [find?_eq, List.find?_isSome]
    refine ⟨p, hc.mem_owned.2 ⟨hp, containerOf_eq_of_getElem? hget⟩, ?_⟩
    simpa [kind?, hget] using hk

/-- The chart has a pseudostate of this kind in this state. -/
def Owns (c : Chart V) (s : StateId) (kind : PseudoKind) : Prop :=
  ∃ node ∈ c.pseudostates.toList, node.container = s ∧ node.kind = kind

instance (c : Chart V) (s : StateId) (kind : PseudoKind) : Decidable (c.Owns s kind) :=
  inferInstanceAs
    (Decidable (∃ node ∈ c.pseudostates.toList, node.container = s ∧ node.kind = kind))

theorem Linked.find?_isSome_iff_owns (hc : c.Linked) (kind : PseudoKind) :
    (c.find? s (· == kind)).isSome ↔ c.Owns s kind := by
  rw [hc.find?_isSome_iff]
  simp [Owns]

theorem Linked.initialOf_isSome_iff (hc : c.Linked) : (c.initialOf s).isSome ↔ c.Owns s .initial :=
  hc.find?_isSome_iff_owns .initial

theorem Linked.hasContinue_iff (hc : c.Linked) : c.hasContinue s ↔ c.Owns s .historyContinue :=
  hc.find?_isSome_iff_owns .historyContinue

theorem Linked.hasShallowHistory_iff (hc : c.Linked) :
    c.hasShallowHistory s ↔ c.Owns s (.history .shallow) :=
  hc.find?_isSome_iff_owns (.history .shallow)

end Tree

/-! ## Putting behaviors and branches in order changes no link -/

section Ordered

variable (c : Chart V)

@[simp] theorem size_states_ordered : c.ordered.states.size = c.states.size := by
  simp [ordered]

@[simp] theorem size_pseudostates_ordered :
    c.ordered.pseudostates.size = c.pseudostates.size := by
  simp [ordered]

@[simp] theorem events_ordered : c.ordered.events = c.events := rfl

theorem getElem?_states_ordered (s : StateId) :
    c.ordered.states[s]? = (c.states[s]?).map StateNode.ordered := by
  simp [ordered]

theorem getElem?_pseudostates_ordered (p : PseudoId) :
    c.ordered.pseudostates[p]? = (c.pseudostates[p]?).map PseudoNode.ordered := by
  simp [ordered]

theorem getElem?_states_ordered_eq_some {s : StateId} {node : StateNode V}
    (h : c.states[s]? = some node) : c.ordered.states[s]? = some node.ordered := by
  rw [getElem?_states_ordered, h, Option.map_some]

theorem getElem?_pseudostates_ordered_eq_some {p : PseudoId} {node : PseudoNode V}
    (h : c.pseudostates[p]? = some node) : c.ordered.pseudostates[p]? = some node.ordered := by
  rw [getElem?_pseudostates_ordered, h, Option.map_some]

@[simp] theorem stateIds_ordered : c.ordered.stateIds = c.stateIds := by
  rw [stateIds, size_states_ordered]
  rfl

@[simp] theorem parentOf_ordered (s : StateId) : c.ordered.parentOf s = c.parentOf s := by
  rw [parentOf, getElem?_states_ordered, Option.bind_map]
  rfl

@[simp] theorem children_ordered (s : StateId) : c.ordered.children s = c.children s := by
  rw [children_eq, getElem?_states_ordered, Option.map_map, children_eq]
  rfl

@[simp] theorem owned_ordered (s : StateId) : c.ordered.owned s = c.owned s := by
  rw [owned_eq, getElem?_states_ordered, Option.map_map, owned_eq]
  rfl

@[simp] theorem containerOf_ordered (p : PseudoId) :
    c.ordered.containerOf p = c.containerOf p := by
  rw [containerOf_eq, getElem?_pseudostates_ordered, Option.map_map, containerOf_eq]
  rfl

@[simp] theorem kind?_ordered (p : PseudoId) : c.ordered.kind? p = c.kind? p := by
  rw [kind?, getElem?_pseudostates_ordered, Option.map_map]
  rfl

@[simp] theorem label_ordered (s : StateId) : c.ordered.label s = c.label s := by
  rw [label, label, getElem?_states_ordered]
  cases c.states[s]? <;> rfl

@[simp] theorem find?_ordered (s : StateId) (k : PseudoKind → Bool) :
    c.ordered.find? s k = c.find? s k := by
  simp [find?_eq]

@[simp] theorem initialOf_ordered (s : StateId) : c.ordered.initialOf s = c.initialOf s :=
  c.find?_ordered s _

@[simp] theorem hierarchy_ordered : c.ordered.hierarchy = c.hierarchy := by
  have hp : (fun s : StateId => (c.ordered.states[s]?).bind fun node => node.parent) =
      fun s : StateId => (c.states[s]?).bind fun node => node.parent := funext c.parentOf_ordered
  have hl : c.ordered.label = c.label := funext c.label_ordered
  simp only [hierarchy, hp, hl]

variable {c}

theorem Linked.ordered (hc : c.Linked) : c.ordered.Linked :=
  hc.congr c.size_states_ordered c.size_pseudostates_ordered hc.fewEvents c.parentOf_ordered
    c.children_ordered c.owned_ordered c.containerOf_ordered

end Ordered

end Chart

end Statechart
