import Statechart.Proofs.Paths

/-
  A history continue seen from both ends. From below it is checked by walking up through marked
  states to a shallow history; from above a shallow history collects its states and goes on below
  those that are marked. Both describe the same relation (`reachesShallow_iff_exists_tracks`): a
  history continue is accepted exactly if some shallow history collects its state and goes on below
  it. An accepted one brings in the children of its state, which that history would not track
  otherwise, and a rejected one changes nothing that is tracked (`continue_checked_as_collected`).
-/

namespace Statechart

variable {V : Type}

namespace Chart

/-- A shallow history in `container` collects `s` and all its children. -/
def CollectsInto (c : Chart V) (container s : StateId) : Prop :=
  s ∈ c.tracked container .shallow ∧ ∀ q ∈ c.children s, q ∈ c.tracked container .shallow

/-- What a shallow history in `container` would track if `s` were not marked. -/
def trackedUnmarked (c : Chart V) (s container : StateId) : List StateId :=
  c.below (fun q => c.hasContinue q && q != s) c.states.size container

variable {c : Chart V} {container s q : StateId} {r : PseudoId}

/-- Going down depends only on what is said of the states that come up. -/
theorem below_congr {opens opens' : StateId → Bool} {n : Nat}
    (h : ∀ q ∈ c.below opens n s, opens q = opens' q) :
    c.below opens n s = c.below opens' n s := by
  induction n generalizing s with
  | zero => rfl
  | succ n ih =>
    rw [below, below]
    apply List.flatMap_congr
    intro q hq
    have hself : q ∈ c.below opens (n + 1) s :=
      List.mem_flatMap.2 ⟨q, hq, List.mem_cons_self⟩
    rw [← h q hself]
    split
    · next hopen =>
      rw [ih fun x hx => h x (List.mem_flatMap.2 ⟨q, hq, ?_⟩)]
      rw [if_pos hopen]
      exact List.mem_cons_of_mem _ hx
    · rfl

theorem continueFault_of_continue {node : PseudoNode V} (hr : c.pseudostates[r]? = some node)
    (hk : node.kind = .historyContinue) :
    c.continueFault r =
      if c.reachesShallow (c.hierarchy.ancestors node.container).tail then none
      else some (.orphanContinue (c.label node.container)) := by
  rw [continueFault, hr, Option.bind_some]
  split <;> simp_all

namespace Linked

variable (hc : c.Linked)

include hc

theorem collectsInto_iff (hmark : c.Owns s .historyContinue) :
    c.CollectsInto container s ↔ c.Tracks container .shallow s := by
  constructor
  · exact fun h => hc.mem_tracked.1 h.1
  · intro htracks
    exact ⟨hc.mem_tracked.2 htracks,
      fun q hq => hc.mem_tracked.2 (htracks.child (hc.mem_children.1 hq) fun _ => hmark)⟩

/-- The children of a state come up only through that state. -/
theorem not_mem_trackedUnmarked (hs : c.Tracks container .shallow s) (hq : q ∈ c.children s) :
    q ∉ c.trackedUnmarked s container := by
  intro hmem
  have hp := hc.mem_children.1 hq
  obtain ⟨habove, -, -, hopen⟩ := (hc.mem_below _).1 hmem
  obtain ⟨hcontainer, hne⟩ := Hierarchy.mem_tail_ancestors.1 hs.1
  -- Everything strictly between `q` and the container has to be open, and `s` is closed.
  have hchain : s ∈ c.hierarchy.chain q container :=
    (Hierarchy.mem_chain habove).2 ⟨Hierarchy.parent_mem_ancestors hp, hcontainer, Ne.symm hne⟩
  have hsq : s ≠ q := Nat.ne_of_lt (c.hierarchy.parent_lt hp)
  simpa using hopen s hchain hsq

/-- A mark on a state that does not come up changes nothing. -/
theorem trackedUnmarked_eq (hs : ¬ c.Tracks container .shallow s) :
    c.trackedUnmarked s container = c.tracked container .shallow := by
  refine (below_congr fun q hq => ?_).symm
  have hne : q ≠ s := fun h => hs (hc.mem_tracked.1 (h ▸ hq))
  simp [hne]

/-- The way up finds a shallow history exactly if a shallow history tracks the state. -/
theorem reachesShallow_iff_exists_tracks (s : StateId) :
    c.reachesShallow (c.hierarchy.ancestors s).tail ↔
      ∃ container, c.Owns container (.history .shallow) ∧ c.Tracks container .shallow s := by
  rw [hc.reachesShallow_iff, Continued]
  refine exists_congr fun container => ?_
  rw [Tracks, and_left_comm]
  simp

end Linked

/-- A history continue is accepted from below exactly if a shallow history goes on below its state
from above. That history would not track the children of the state without the mark. If the history
continue is rejected, the error names its state, and all shallow histories track what they would
track without the mark. -/
theorem continue_checked_as_collected (hc : c.Sketched) {node : PseudoNode V}
    (hr : c.pseudostates[r]? = some node) (hk : node.kind = .historyContinue) :
    (c.continueFault r = none ↔
      ∃ container, c.Owns container (.history .shallow) ∧
        c.CollectsInto container node.container) ∧
    (∀ container, c.Owns container (.history .shallow) → c.CollectsInto container node.container →
      ∀ q ∈ c.children node.container, q ∉ c.trackedUnmarked node.container container) ∧
    (c.continueFault r ≠ none →
      c.continueFault r = some (.orphanContinue (c.label node.container)) ∧
      ∀ container, c.Owns container (.history .shallow) →
        c.trackedUnmarked node.container container = c.tracked container .shallow) := by
  have hl := hc.linked
  have hmark : c.Owns node.container .historyContinue :=
    ⟨node, Array.mem_toList_iff.2 (Array.mem_of_getElem? hr), rfl, hk⟩
  have hcollects : ∀ container, c.CollectsInto container node.container ↔
      c.Tracks container .shallow node.container := fun _ => hl.collectsInto_iff hmark
  have hfault := continueFault_of_continue hr hk
  have haccepted : c.continueFault r = none ↔ ∃ container, c.Owns container (.history .shallow) ∧
      c.Tracks container .shallow node.container := by
    rw [hfault, ← hl.reachesShallow_iff_exists_tracks]
    simp
  simp only [hcollects]
  refine ⟨haccepted, fun container _ htracks q hq => hl.not_mem_trackedUnmarked htracks hq,
    fun hrejected => ⟨?_, fun container howns => ?_⟩⟩
  · rw [hfault, if_neg]
    exact fun hup => hrejected (by rw [hfault, if_pos hup])
  · exact hl.trackedUnmarked_eq fun htracks =>
      hrejected (haccepted.2 ⟨container, howns, htracks⟩)

def chestCalls : List (Draft.Call Nat) :=
  [.state "Chest" rootState, .state "Tray" 1, .state "Cup" 2, .state "Pearl" 3,
    .state "Jar" rootState, .state "Pea" 5, .pseudostate 1 (.history .shallow) none,
    .pseudostate 2 .historyContinue none, .pseudostate 3 (.history .deep) none,
    .pseudostate 3 .historyContinue none, .pseudostate 5 .historyContinue none]

/-- A chest with a shallow history, marks on a tray and on the cup in it, which has a deep history of
its own, and a mark on a jar beside the chest, which no history is above. -/
def chest : Chart Nat := (Draft.ofCalls "chest" chestCalls).chart

/-- The mark on the cup lets the history of the chest see the pearl. The mark on the jar is
rejected, and the history of the chest does not depend on it. -/
theorem chest_continue_checked_as_collected :
    chest.continueFault 3 = none ∧
    (∃ container, chest.Owns container (.history .shallow) ∧ chest.CollectsInto container 3 ∧
      4 ∉ chest.trackedUnmarked 3 container) ∧
    chest.continueFault 4 = some (.orphanContinue "Jar") ∧
    chest.trackedUnmarked 5 1 = chest.tracked 1 .shallow := by
  have hc : chest.Sketched := ⟨"chest", chestCalls, rfl⟩
  have hmarks : chest.kind? 3 = some .historyContinue ∧ chest.kind? 4 = some .historyContinue := by
    decide +kernel
  have hplaces : chest.containerOf 3 = 3 ∧ chest.containerOf 4 = 5 := by decide +kernel
  obtain ⟨cup, hcup, hcupKind⟩ := Option.map_eq_some_iff.1 hmarks.1
  obtain ⟨jar, hjar, hjarKind⟩ := Option.map_eq_some_iff.1 hmarks.2
  have haccepted : chest.continueFault 3 = none :=
    Option.isNone_iff_eq_none.1 (by decide +kernel)
  have hrejected : chest.continueFault 4 ≠ none :=
    Option.isSome_iff_ne_none.1 (by decide +kernel)
  have hpearl : 4 ∈ chest.children 3 := by decide +kernel
  have hshallow : chest.Owns 1 (.history .shallow) := by decide +kernel
  have hlabel : chest.label 5 = "Jar" := by decide +kernel
  obtain ⟨hiff, heffect, -⟩ := continue_checked_as_collected hc hcup hcupKind
  obtain ⟨-, -, hnone⟩ := continue_checked_as_collected hc hjar hjarKind
  rw [← containerOf_eq_of_getElem? hcup, hplaces.1] at hiff heffect
  rw [← containerOf_eq_of_getElem? hjar, hplaces.2, hlabel] at hnone
  obtain ⟨container, howns, hinto⟩ := hiff.1 haccepted
  obtain ⟨herror, hsame⟩ := hnone hrejected
  exact ⟨haccepted, ⟨container, howns, hinto, heffect container howns hinto 4 hpearl⟩, herror,
    hsame 1 hshallow⟩

end Chart

end Statechart
