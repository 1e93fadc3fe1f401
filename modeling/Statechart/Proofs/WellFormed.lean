import Statechart.Proofs.Layout
import Statechart.Proofs.Loop
import Statechart.Proofs.PriorityOrder

/-
  What a chart has to be like, said without the passes that check it (`Chart.WellFormed`), and what
  the first checks amount to: names, nesting and references (`structureFault_eq_none_iff`), the
  branches of one pseudostate (`branchFault_eq_none_iff`), and where a history continue may stand
  (`historyFault_eq_none_iff`).
-/

namespace Statechart

variable {V : Type}

namespace Chart

/-! ## Well-formed charts -/

/-- A target exists, and no history continue is one. -/
def IsTarget (c : Chart V) : Vertex → Prop
  | .state s => s < c.states.size
  | .pseudo p => ∃ node, c.pseudostates[p]? = some node ∧ node.kind ≠ .historyContinue

/-- A target lies inside a state if it is a state strictly below it or a pseudostate of it or of a
state below it. -/
def Inside (c : Chart V) (container : StateId) : Vertex → Prop
  | .state s => container ∈ (c.hierarchy.ancestors s).tail
  | .pseudo p => container ∈ c.hierarchy.ancestors (c.containerOf p)

/-- What a behavior may say: on a boundary it leads nowhere, its event is declared, its target is
one. -/
structure BehaviorRules (c : Chart V) (b : Behavior V) : Prop where
  boundary : ∀ x, b.trigger = .boundary x → b.target = none
  event : ∀ e, b.trigger = .event e → e < c.events.size
  target : ∀ t, b.target = some t → c.IsTarget t

/-- What the branches of a pseudostate may be, which are given in the order in which they are
tried. All but a history continue have a last branch, and it is always open. -/
structure BranchRules (c : Chart V) (kind : PseudoKind) (container : StateId)
    (branches : List (Branch V)) : Prop where
  blank : kind = .historyContinue → branches = []
  lead : ∀ b ∈ branches, b.target.isSome
  last : kind ≠ .historyContinue → ∃ b, branches.getLast? = some b ∧ b.guard = none
  sole : kind = .initial ∨ kind.isHistory → branches.length = 1
  inside : kind = .initial ∨ kind.isHistory ∨ kind = .entryPoint →
    ∀ b ∈ branches, ∀ t, b.target = some t → c.Inside container t
  outside : kind = .exitPoint →
    ∀ b ∈ branches, ∀ t, b.target = some t → container ∉ c.hierarchy.ancestors (c.landing t)

/-- A pseudostate may lead to the targets of its branches, a history also to what it tracks. -/
def MayLeadTo (c : Chart V) (node : PseudoNode V) (t : Vertex) : Prop :=
  (∃ b ∈ node.branches.toList, b.target = some t) ∨
    ∃ depth s, node.kind = .history depth ∧ c.Tracks node.container depth s ∧ t = .state s

/-- From a target the way goes on through the pseudostate that it is, or through the initial
pseudostate of the state that it is. -/
def GoesOn (c : Chart V) (t : Vertex) (r : PseudoId) : Prop :=
  match t with
  | .state s => ∃ node, c.pseudostates[r]? = some node ∧ node.container = s ∧ node.kind = .initial
  | .pseudo p => p = r

/-- A way may go on from the pseudostate `p` through `r`. -/
def Follows (c : Chart V) (p r : PseudoId) : Prop :=
  ∃ node t, c.pseudostates[p]? = some node ∧ c.MayLeadTo node t ∧ c.GoesOn t r

/-- Neither a branch nor a behavior leads to the root. -/
def RootUntargeted (c : Chart V) : Prop :=
  (∀ node ∈ c.pseudostates.toList, ∀ b ∈ node.branches.toList,
    b.target ≠ some (.state rootState)) ∧
  ∀ node ∈ c.states.toList, ∀ b ∈ node.behaviors.toList, b.target ≠ some (.state rootState)

/-- How many plans a pseudostate needs. A history needs one for its default and one for each state
that it tracks besides. -/
def plansOf (c : Chart V) (node : PseudoNode V) : Nat :=
  match node.kind with
  | .historyContinue => 1
  | .history depth =>
    1 + c.stateIds.countP fun s =>
      c.Tracks node.container depth s ∧ ∀ b ∈ node.branches.toList, b.target ≠ some (.state s)
  | _ => node.branches.size

/-- How many plans a chart needs. -/
def planCount (c : Chart V) : Nat :=
  (c.pseudostates.toList.map c.plansOf).sum +
    (c.states.toList.map fun node => node.behaviors.toList.countP fun b => b.target.isSome).sum

/-- No state has two pseudostates of such a kind. -/
def AtMostOne (c : Chart V) (kind : PseudoKind → Bool) : Prop :=
  ∀ (p r : PseudoId) (a b : PseudoNode V), c.pseudostates[p]? = some a →
    c.pseudostates[r]? = some b → a.container = b.container → kind a.kind → kind b.kind → p = r

structure WellFormed (c : Chart V) : Prop where
  stateNames : (c.states.toList.map (·.name)).Nodup
  eventNames : c.events.toList.Nodup
  rootInitial : c.Owns rootState .initial
  initials : c.AtMostOne (· == .initial)
  histories : c.AtMostOne (·.isHistory)
  /-- Above a state there are fewer than `maxDepth` others. -/
  nesting : ∀ s < c.states.size, (c.hierarchy.ancestors s).tail.length < maxDepth
  behaviors : ∀ node ∈ c.states.toList, ∀ b ∈ node.behaviors.toList, c.BehaviorRules b
  targets : ∀ node ∈ c.pseudostates.toList, ∀ b ∈ node.branches.toList,
    ∀ t, b.target = some t → c.IsTarget t
  root : c.RootUntargeted
  branches : ∀ node ∈ c.pseudostates.toList, c.BranchRules node.kind node.container
    (byPriority (·.priority) node.branches.toList)
  continues : ∀ node ∈ c.pseudostates.toList, node.kind = .historyContinue →
    c.Continued node.container
  /-- No way through pseudostates is closed. -/
  loops : ∀ p, ¬ Relation.TransGen c.Follows p p
  plans : c.planCount ≤ maxNodes

/-! ## Names -/

theorem firstRepeat_go_eq_none_iff (names : List String) (seen : Std.TreeSet String) :
    firstRepeat.go names seen = none ↔
      names.Nodup ∧ ∀ name ∈ names, seen.contains name = false := by
  induction names generalizing seen with
  | nil => simp [firstRepeat.go]
  | cons name names ih =>
    rw [firstRepeat.go]
    cases hs : seen.contains name with
    | true => simp [hs]
    | false =>
      simp only [Bool.false_eq_true, if_false, ih, Std.TreeSet.contains_insert, List.nodup_cons,
        List.mem_cons, forall_eq_or_imp, hs, true_and, Bool.or_eq_false_iff, beq_eq_false_iff_ne,
        ne_eq, Std.LawfulEqCmp.compare_eq_iff_eq]
      constructor
      · rintro ⟨hn, hall⟩
        exact ⟨⟨fun hmem => (hall name hmem).1 rfl, hn⟩, fun x hx => (hall x hx).2⟩
      · rintro ⟨⟨hnot, hn⟩, hall⟩
        exact ⟨hn, fun x hx => ⟨fun h => hnot (h ▸ hx), hall x hx⟩⟩

theorem firstRepeat_eq_none_iff (names : List String) : firstRepeat names = none ↔ names.Nodup := by
  rw [firstRepeat, firstRepeat_go_eq_none_iff]
  simp

/-! ## States and references -/

variable {c : Chart V}

@[simp] theorem faultIf_eq_none_iff {condition : Bool} {error : ModelError} :
    faultIf condition error = none ↔ condition = false := by
  cases condition <;> simp [faultIf]

theorem targetFault_eq_none_iff {t : Vertex} : c.targetFault t = none ↔ c.IsTarget t := by
  cases t with
  | state s => simp [targetFault, IsTarget]
  | pseudo p =>
    unfold targetFault IsTarget
    cases hp : c.pseudostates[p]? <;> simp [hp]

theorem behaviorFault_eq_none_iff {s : StateId} {b : Behavior V} :
    c.behaviorFault s b = none ↔ c.BehaviorRules b := by
  have htarget : b.target.bind c.targetFault = none ↔ ∀ t, b.target = some t → c.IsTarget t := by
    simp [Option.bind_eq_none_iff, targetFault_eq_none_iff]
  have hrules : c.BehaviorRules b ↔ (∀ x, b.trigger = .boundary x → b.target = none) ∧
      (∀ e, b.trigger = .event e → e < c.events.size) ∧ ∀ t, b.target = some t → c.IsTarget t :=
    ⟨fun h => ⟨h.boundary, h.event, h.target⟩, fun h => ⟨h.1, h.2.1, h.2.2⟩⟩
  rw [hrules]
  unfold behaviorFault
  cases ht : b.trigger <;> simp [htarget]

/-- A list without repetition is short if all its entries are equal. -/
theorem length_le_one_iff {α : Type} {xs : List α} (hn : xs.Nodup) :
    xs.length ≤ 1 ↔ ∀ a ∈ xs, ∀ b ∈ xs, a = b := by
  match xs with
  | [] => simp
  | [x] => simp
  | x :: y :: xs =>
    have hne : x ≠ y := fun h => (List.nodup_cons.1 hn).1 (h ▸ List.mem_cons_self)
    simp only [List.length_cons]
    exact ⟨fun h => by omega, fun h => absurd (h x (by simp) y (by simp)) hne⟩

theorem Linked.countOwned_le_one_iff (hc : c.Linked) (k : PseudoKind → Bool) :
    (∀ s < c.states.size, c.countOwned s k ≤ 1) ↔ c.AtMostOne k := by
  have hmem : ∀ (s p : Nat), p ∈ ((c.owned s).filter fun p => (c.kind? p).any k) ↔
      ∃ node, c.pseudostates[p]? = some node ∧ node.container = s ∧ k node.kind := by
    intro s p
    rw [List.mem_filter, hc.mem_owned, containerOf_eq, kind?]
    cases hp : c.pseudostates[p]? with
    | none => simp
    | some node => simp [(Array.getElem?_eq_some_iff.1 hp).1]
  have hcount : ∀ s < c.states.size, (c.countOwned s k ≤ 1 ↔
      ∀ p ∈ ((c.owned s).filter fun p => (c.kind? p).any k),
        ∀ r ∈ ((c.owned s).filter fun p => (c.kind? p).any k), p = r) := by
    intro s hs
    have hnodup : (c.owned s).Nodup := by
      rw [hc.owned s hs]
      exact List.nodup_range.filter _
    rw [countOwned, List.countP_eq_length_filter, length_le_one_iff (hnodup.filter _)]
  constructor
  · intro h p r a b hp hr hab hka hkb
    have hs : b.container < c.states.size := by
      have hcont := hc.container r (Array.getElem?_eq_some_iff.1 hr).1
      rwa [containerOf_eq_of_getElem? hr] at hcont
    exact (hcount _ hs).1 (h _ hs) p ((hmem _ _).2 ⟨a, hp, hab, hka⟩) r
      ((hmem _ _).2 ⟨b, hr, rfl, hkb⟩)
  · intro h s hs
    refine (hcount s hs).2 fun p hp r hr => ?_
    obtain ⟨a, ha, hsa, hka⟩ := (hmem s p).1 hp
    obtain ⟨b, hb, hsb, hkb⟩ := (hmem s r).1 hr
    exact h p r a b ha hb (hsa.trans hsb.symm) hka hkb

theorem depth_eq (c : Chart V) (s : StateId) :
    c.hierarchy.depth s = (c.hierarchy.ancestors s).tail.length := by
  have h := counted c s
  rw [Hierarchy.Counted, ← c.hierarchy.cons_tail_ancestors s, List.length_cons] at h
  exact Nat.succ.inj h

/-- A chart that links its nodes declares a parent before its children. -/
theorem Linked.parentFault_eq_none (hc : c.Linked) (s : StateId) : c.parentFault s = none := by
  change (c.parentOf s).bind _ = none
  cases hp : c.parentOf s with
  | none => rfl
  | some q =>
    have hlt := (parentOf_lt hc hp).2
    simpa using hlt

theorem Linked.stateFault_eq_none_iff (hc : c.Linked) {s : StateId} {node : StateNode V}
    (hs : c.states[s]? = some node) :
    c.stateFault s = none ↔
      (c.hierarchy.ancestors s).tail.length < maxDepth ∧
      c.countOwned s (· == .initial) ≤ 1 ∧ c.countOwned s (·.isHistory) ≤ 1 ∧
      ∀ b ∈ node.behaviors.toList, c.BehaviorRules b := by
  unfold stateFault
  simp [hc.parentFault_eq_none, hs, depth_eq, behaviorFault_eq_none_iff]

/-- The first pass finds nothing exactly if names, nesting and references are in order. -/
theorem Linked.structureFault_eq_none_iff (hc : c.Linked) :
    c.structureFault = none ↔
      (c.states.toList.map (·.name)).Nodup ∧ c.events.toList.Nodup ∧
      c.Owns rootState .initial ∧ c.AtMostOne (· == .initial) ∧ c.AtMostOne (·.isHistory) ∧
      (∀ s < c.states.size, (c.hierarchy.ancestors s).tail.length < maxDepth) ∧
      (∀ node ∈ c.states.toList, ∀ b ∈ node.behaviors.toList, c.BehaviorRules b) ∧
      ∀ node ∈ c.pseudostates.toList, ∀ b ∈ node.branches.toList,
        ∀ t, b.target = some t → c.IsTarget t := by
  have hinitial : (c.initialOf rootState).isNone = false ↔ c.Owns rootState .initial := by
    rw [← hc.initialOf_isSome_iff, Option.isNone_eq_false_iff]
  have hstates : (∀ s ∈ c.stateIds, c.stateFault s = none) ↔
      (∀ s < c.states.size, (c.hierarchy.ancestors s).tail.length < maxDepth) ∧
      c.AtMostOne (· == .initial) ∧ c.AtMostOne (·.isHistory) ∧
      ∀ node ∈ c.states.toList, ∀ b ∈ node.behaviors.toList, c.BehaviorRules b := by
    rw [← hc.countOwned_le_one_iff, ← hc.countOwned_le_one_iff]
    constructor
    · intro h
      have hfault : ∀ {s : StateId}, s < c.states.size → c.stateFault s = none :=
        fun hs => h _ (by simpa [stateIds] using hs)
      have hall := fun s (hs : s < c.states.size) =>
        (hc.stateFault_eq_none_iff (Array.getElem?_eq_getElem hs)).1 (hfault hs)
      refine ⟨fun s hs => (hall s hs).1, fun s hs => (hall s hs).2.1, fun s hs => (hall s hs).2.2.1,
        fun node hnode => ?_⟩
      obtain ⟨s, hs⟩ := List.getElem?_of_mem hnode
      rw [Array.getElem?_toList] at hs
      exact ((hc.stateFault_eq_none_iff hs).1 (hfault (Array.getElem?_eq_some_iff.1 hs).1)).2.2.2
    · rintro ⟨hdepth, hinit, hhist, hbeh⟩ s hs
      have hlt : s < c.states.size := by simpa [stateIds] using hs
      exact (hc.stateFault_eq_none_iff (Array.getElem?_eq_getElem hlt)).2
        ⟨hdepth s hlt, hinit s hlt, hhist s hlt, hbeh _ (by simp)⟩
  simp only [structureFault, Option.orElse_eq_orElse, Option.orElse_eq_or, Option.or_eq_none_iff,
    Option.map_eq_none_iff, firstRepeat_eq_none_iff, faultIf_eq_none_iff, hinitial,
    List.findSome?_eq_none_iff, hstates, Option.bind_eq_none_iff, targetFault_eq_none_iff]
  tauto

/-! ## Branches -/

theorem landsInside_iff {container : StateId} {t : Vertex} :
    c.landsInside container t ↔ c.Inside container t := by
  cases t with
  | state s => rw [landsInside, Inside, Hierarchy.isAbove_iff, Hierarchy.mem_tail_ancestors]
  | pseudo p => rw [landsInside, Inside, Hierarchy.isWithin_iff]

theorem getLast?_any_isElse_iff {branches : List (Branch V)} :
    branches.getLast?.any Branch.isElse ↔ ∃ b, branches.getLast? = some b ∧ b.guard = none := by
  simp [Branch.isElse, Option.any_eq_true]

theorem find?_targets_eq_none_iff {branches : List (Branch V)} {test : Vertex → Bool} :
    (branches.filterMap (·.target)).find? test = none ↔
      ∀ b ∈ branches, ∀ t, b.target = some t → test t = false := by
  simp only [List.find?_eq_none, List.mem_filterMap, Bool.not_eq_true]
  exact ⟨fun h b hb t ht => h t ⟨b, hb, ht⟩, fun h t ⟨b, hb, ht⟩ => h b hb t ht⟩

/-- The check of a pseudostate whose branches are in order. -/
theorem branchFault_eq_none_iff {node : PseudoNode V} :
    c.branchFault node = none ↔ c.BranchRules node.kind node.container node.branches.toList := by
  have hlead : node.branches.any (·.target.isNone) = false ↔
      ∀ b ∈ node.branches.toList, b.target.isSome := by
    simp [← Array.any_toList, Option.isSome_iff_ne_none]
  have hinside : ((node.branches.toList.filterMap (·.target)).find? fun t =>
        !c.landsInside node.container t) = none ↔
      ∀ b ∈ node.branches.toList, ∀ t, b.target = some t → c.Inside node.container t := by
    simp only [find?_targets_eq_none_iff, Bool.not_eq_false', landsInside_iff]
  have houtside : ((node.branches.toList.filterMap (·.target)).find? fun t =>
        c.hierarchy.isWithin (c.landing t) node.container) = none ↔
      ∀ b ∈ node.branches.toList, ∀ t, b.target = some t →
        node.container ∉ c.hierarchy.ancestors (c.landing t) := by
    simp only [find?_targets_eq_none_iff, ← Hierarchy.isWithin_iff, Bool.not_eq_true]
  have helse : (!node.branches.toList.getLast?.any Branch.isElse) = false ↔
      ∃ b, node.branches.toList.getLast? = some b ∧ b.guard = none := by
    rw [Bool.not_eq_false', getLast?_any_isElse_iff]
  have hsole : (!(node.branches.size == 1 && node.branches.toList.getLast?.any Branch.isElse)) =
        false ↔ (∃ b, node.branches.toList.getLast? = some b ∧ b.guard = none) ∧
          node.branches.toList.length = 1 := by
    rw [Bool.not_eq_false', Bool.and_comm, Bool.and_eq_true, getLast?_any_isElse_iff, beq_iff_eq,
      Array.length_toList]
  have hempty : (!node.branches.isEmpty) = false ↔
      node.branches.toList = [] ∧ ∀ b ∈ node.branches.toList, b.target.isSome := by
    rw [Bool.not_eq_false', Array.isEmpty_iff, ← Array.toList_eq_nil_iff]
    exact ⟨fun h => ⟨h, by simp [h]⟩, And.left⟩
  have hrules : ∀ kind, c.BranchRules kind node.container node.branches.toList ↔ _ := fun kind =>
    ⟨fun h => And.intro h.blank (And.intro h.lead (And.intro h.last
      (And.intro h.sole (And.intro h.inside h.outside)))),
      fun h => ⟨h.1, h.2.1, h.2.2.1, h.2.2.2.1, h.2.2.2.2.1, h.2.2.2.2.2⟩⟩
  unfold branchFault kindFault
  rw [hrules]
  cases node.kind <;>
    simp only [reduceCtorEq, if_true, if_false, Option.orElse_eq_orElse, Option.orElse_eq_or,
      Option.or_eq_none_iff, faultIf_eq_none_iff, Option.map_eq_none_iff, hlead, hinside, houtside,
      helse, hsole, hempty, PseudoKind.isHistory, IsEmpty.forall_iff, true_and, and_true, ne_eq,
      not_true_eq_false, not_false_eq_true, forall_const, or_false, or_true, Bool.false_eq_true,
      and_assoc]

/-! ## Histories -/

/-- Only a declared state has a state above it, and the root has none. -/
theorem Linked.lt_of_mem_tail (hc : c.Linked) {a s : StateId}
    (ha : a ∈ (c.hierarchy.ancestors s).tail) : s < c.states.size ∧ s ≠ rootState := by
  cases hp : c.hierarchy.parent s with
  | none =>
    rw [Hierarchy.ancestors_of_root hp] at ha
    simp at ha
  | some q =>
    obtain ⟨hs, hq⟩ := parentOf_lt hc (hc.parent_eq s ▸ hp)
    exact ⟨hs, Nat.ne_of_gt (Nat.lt_of_le_of_lt (Nat.zero_le q) hq)⟩

/-- A history tracks fewer states than there are. -/
theorem Linked.length_tracked_lt (hc : c.Linked) (container : StateId) (depth : HistoryDepth) :
    (c.tracked container depth).length < c.states.size := by
  have hlt := fun s (hs : s ∈ c.tracked container depth) =>
    hc.lt_of_mem_tail (hc.mem_tracked.1 hs).1
  have hnodup : (rootState :: c.tracked container depth).Nodup :=
    List.nodup_cons.2 ⟨fun h => (hlt _ h).2 rfl, hc.nodup_tracked container depth⟩
  have hsub : rootState :: c.tracked container depth ⊆ List.range c.states.size := by
    intro s hs
    rcases List.mem_cons.1 hs with rfl | hs
    · exact List.mem_range.2 hc.nonempty
    · exact List.mem_range.2 (hlt s hs).1
  have hle := (List.subperm_of_subset hnodup hsub).length_le
  rwa [List.length_cons, List.length_range] at hle

theorem Linked.fits_of_historySlot? (hc : c.Linked) {p : PseudoId} {slot : HistorySlot}
    (h : c.historySlot? p = some slot) : slot.fits := by
  obtain ⟨node, depth, -, -, rfl⟩ := historySlot?_eq_some_iff.1 h
  have hlen := List.length_filter_le (fun s => some s != node.trackedDefault
    (c.tracked node.container depth)) (c.tracked node.container depth)
  have hlt := hc.length_tracked_lt node.container depth
  have hmax := hc.fewStates
  simp only [HistorySlot.fits, PseudoNode.others, List.size_toArray, List.length_cons,
    List.length_map, decide_eq_true_eq]
  lia

/-- Histories always have room, so only a history continue can be out of place. -/
theorem Linked.historyFault_eq_none_iff (hc : c.Linked) {p : PseudoId} {node : PseudoNode V}
    (hp : c.pseudostates[p]? = some node) :
    c.historyFault c.historySlots p = none ↔
      (node.kind = .historyContinue → c.Continued node.container) := by
  have hroom : ((c.historySlots.find? (·.pseudo == p)).bind fun slot =>
      if slot.fits then none else some (ModelError.tooMany .tracked)) = none := by
    rw [find?_historySlots, Option.bind_eq_none_iff]
    intro slot hslot
    rw [if_pos (hc.fits_of_historySlot? hslot)]
  rw [historyFault, hroom, Option.orElse_eq_orElse, Option.orElse_eq_or, Option.or_none,
    continueFault, hp, Option.bind_some, ← hc.reachesShallow_iff]
  simp

end Chart

end Statechart
