import Statechart.Proofs.WellFormed

/-
  What the nodes of a chart ask for when plans are numbered. A pseudostate asks for the targets it
  may lead to and for no others (`exists_mem_requests`, `mayLeadTo_of_mem_requests`), as many plans
  as `plansOf` says (`length_requests`); behaviors ask for their targets (`mem_cells_requests`,
  `length_cells_requests`). Between declared nodes there is always a path, except into the root
  (`pathFault_eq_none_iff`).
-/

namespace Statechart

variable {V : Type} {c : Chart V}

/-! ## Pseudostates -/

theorem PseudoKind.exists_history {kind : PseudoKind} (hk : kind.isHistory) :
    ∃ depth, kind = .history depth := by
  cases kind <;> simp_all [isHistory]

section Pseudostates

variable {node : PseudoNode V} {r : PseudoId}

/-- Before its fallback a history tries one branch for each state but the default. -/
theorem PseudoNode.arms_of_history {depth : HistoryDepth} (hr : c.pseudostates[r]? = some node)
    (hk : node.kind = .history depth) :
    ∃ h slot, c.historySlots.findIdx? (·.pseudo == r) = some h ∧ c.historySlots[h]? = some slot ∧
      c.historySlot? r = some slot ∧
      node.arms r c.historySlots =
        ((node.others (c.tracked node.container depth)).zipIdx 1).map fun x =>
          ⟨.historyIs h x.2, .move (.pseudo r) (.state x.1) none⟩ := by
  have hslot := Chart.historySlot?_of_history hr hk
  obtain ⟨h, hidx, hget⟩ := Chart.exists_findIdx?_of_historySlot? hslot
  refine ⟨h, _, hidx, hget, hslot, ?_⟩
  rw [arms, hidx]
  simp only [hget, Option.map_some, Option.getD_some]
  exact HistorySlot.filterMap_tracked (node.trackedDefault (c.tracked node.container depth)) _ rfl
    fun v => (⟨.historyIs h v.1, .move (.pseudo r) (.state v.2) none⟩ : Arm V)

/-- Any other pseudostate tries its branches. -/
theorem PseudoNode.arms_of_not_history (hr : c.pseudostates[r]? = some node)
    (hk : node.kind.isHistory = false) :
    node.arms r c.historySlots = node.branches.toList.dropLast.map fun b =>
      ⟨match b.guard with
        | some g => .when g
        | none => .always, node.request r b⟩ := by
  have hnone :=
    Chart.findIdx?_of_historySlot?_eq_none (Chart.historySlot?_of_not_history hr hk)
  unfold arms
  cases hfind : c.historySlots.findIdx? (·.pseudo == r) with
  | none => rfl
  | some h => simp [hnone] at hfind

theorem PseudoNode.fallback_eq (hk : node.kind ≠ .historyContinue) {b : Branch V}
    (hb : node.branches.toList.getLast? = some b) : node.fallback r = node.request r b := by
  rw [fallback, if_neg hk, ← Array.getLast?_toList, hb]

theorem PseudoNode.request_eq {b : Branch V} {t : Vertex} (ht : b.target = some t) :
    node.request r b = .move (.pseudo r) t b.action := by
  rw [request, ht]

theorem PseudoNode.requests_of_history {depth : HistoryDepth} (hr : c.pseudostates[r]? = some node)
    (hk : node.kind = .history depth) :
    node.requests r c.historySlots =
      ((node.others (c.tracked node.container depth)).map fun s =>
        .move (.pseudo r) (.state s) none) ++ [node.fallback r] := by
  obtain ⟨h, slot, -, -, -, harms⟩ := PseudoNode.arms_of_history hr hk
  rw [requests, harms, List.map_map]
  conv_rhs => rw [← List.zipIdx_map_fst 1 (node.others _), List.map_map]
  rfl

/-- A pseudostate other than a history asks for each of its branches. -/
theorem PseudoNode.requests_of_not_history (hr : c.pseudostates[r]? = some node)
    (hk : node.kind.isHistory = false) (hcont : node.kind ≠ .historyContinue) {b : Branch V}
    (hb : node.branches.toList.getLast? = some b) :
    node.requests r c.historySlots = node.branches.toList.map (node.request r) := by
  rw [requests, PseudoNode.arms_of_not_history hr hk, PseudoNode.fallback_eq hcont hb,
    List.map_map]
  conv_rhs => rw [← List.dropLast_append_getLast? b hb, List.map_append]
  rfl

theorem PseudoNode.requests_of_continue (hr : c.pseudostates[r]? = some node)
    (hk : node.kind = .historyContinue) (hb : node.branches.toList = []) :
    node.requests r c.historySlots = [.settle node.container] := by
  rw [requests, PseudoNode.arms_of_not_history hr (by rw [hk]; rfl), hb, fallback, if_pos hk]
  rfl

/-- The default of a history is the target of its only branch. -/
theorem PseudoNode.trackedDefault_eq {tracked : List StateId} {b : Branch V} {s : StateId}
    (hb : node.branches.toList = [b]) :
    node.trackedDefault tracked = some s ↔ b.target = some (.state s) ∧ s ∈ tracked := by
  have hget : node.branches[0]? = some b := by rw [← Array.getElem?_toList, hb]; rfl
  unfold trackedDefault
  rw [hget, Option.bind_some]
  cases ht : b.target with
  | none => simp
  | some t =>
    cases t with
    | pseudo p => simp
    | state q =>
      by_cases hq : q ∈ tracked
      · simpa [hq] using fun h : q = s => h ▸ hq
      · simpa [hq] using fun h : q = s => h ▸ hq

theorem PseudoNode.mem_others {tracked : List StateId} {b : Branch V} {s : StateId}
    (hb : node.branches.toList = [b]) :
    s ∈ node.others tracked ↔ s ∈ tracked ∧ b.target ≠ some (.state s) := by
  rw [others, List.mem_filter, bne_iff_ne, ne_comm, ne_eq, PseudoNode.trackedDefault_eq hb]
  tauto

/-- An initial pseudostate or a history has one branch, which leads somewhere. -/
theorem Chart.BranchRules.exists_sole {kind : PseudoKind} {container : StateId}
    {branches : List (Branch V)} (h : c.BranchRules kind container branches)
    (hk : kind = .initial ∨ kind.isHistory) :
    ∃ b t, branches = [b] ∧ b.guard = none ∧ b.target = some t := by
  obtain ⟨b, hb⟩ := List.length_eq_one_iff.1 (h.sole hk)
  have hcont : kind ≠ .historyContinue := by
    rintro rfl
    simp [PseudoKind.isHistory] at hk
  obtain ⟨b', hlast, hguard⟩ := h.last hcont
  obtain rfl : b = b' := by simpa [hb] using hlast
  obtain ⟨t, ht⟩ := Option.isSome_iff_exists.1 (h.lead b (by simp [hb]))
  exact ⟨b, t, hb, hguard, ht⟩

section Rules

variable (hc : c.Linked) (hr : c.pseudostates[r]? = some node)
  (hcont : node.kind ≠ .historyContinue)
  (hrules : c.BranchRules node.kind node.container node.branches.toList)

include hc hr hcont hrules

/-- A pseudostate asks only for targets that it may lead to, -/
theorem Chart.Linked.mayLeadTo_of_mem_requests {request : Request V}
    (hmem : request ∈ node.requests r c.historySlots) :
    ∃ t a, c.MayLeadTo node t ∧ request = .move (.pseudo r) t a := by
  cases hk : node.kind.isHistory with
  | false =>
    obtain ⟨last, hlast, -⟩ := hrules.last hcont
    rw [PseudoNode.requests_of_not_history hr hk hcont hlast] at hmem
    obtain ⟨b, hb, rfl⟩ := List.mem_map.1 hmem
    obtain ⟨t, ht⟩ := Option.isSome_iff_exists.1 (hrules.lead b hb)
    exact ⟨t, b.action, .inl ⟨b, hb, ht⟩, PseudoNode.request_eq ht⟩
  | true =>
    obtain ⟨depth, hdepth⟩ := PseudoKind.exists_history hk
    obtain ⟨b, t, hb, -, ht⟩ := hrules.exists_sole (.inr hk)
    rw [PseudoNode.requests_of_history hr hdepth, List.mem_append, List.mem_singleton,
      PseudoNode.fallback_eq (b := b) hcont (by simp [hb]), PseudoNode.request_eq ht] at hmem
    rcases hmem with hmem | rfl
    · obtain ⟨s, hs, rfl⟩ := List.mem_map.1 hmem
      have htracks := hc.mem_tracked.1 ((PseudoNode.mem_others hb).1 hs).1
      exact ⟨.state s, none, .inr ⟨depth, s, hdepth, htracks, rfl⟩, rfl⟩
    · exact ⟨t, b.action, .inl ⟨b, by simp [hb], ht⟩, rfl⟩

/-- and for all of them. -/
theorem Chart.Linked.exists_mem_requests {t : Vertex} (ht : c.MayLeadTo node t) :
    ∃ a, .move (.pseudo r) t a ∈ node.requests r c.historySlots := by
  cases hk : node.kind.isHistory with
  | false =>
    obtain ⟨last, hlast, -⟩ := hrules.last hcont
    rw [PseudoNode.requests_of_not_history hr hk hcont hlast]
    rcases ht with ⟨b, hb, hbt⟩ | ⟨depth, s, hdepth, -⟩
    · exact ⟨b.action, List.mem_map.2 ⟨b, hb, PseudoNode.request_eq hbt⟩⟩
    · simp [hdepth, PseudoKind.isHistory] at hk
  | true =>
    obtain ⟨depth, hdepth⟩ := PseudoKind.exists_history hk
    obtain ⟨b, t', hb, -, hbt⟩ := hrules.exists_sole (.inr hk)
    rw [PseudoNode.requests_of_history hr hdepth,
      PseudoNode.fallback_eq (b := b) hcont (by simp [hb]), PseudoNode.request_eq hbt]
    by_cases hdefault : t = t'
    · exact ⟨b.action, by simp [hdefault]⟩
    · rcases ht with ⟨b', hb', hbt'⟩ | ⟨depth', s, hdepth', htracks, rfl⟩
      · obtain rfl : b' = b := by simpa [hb] using hb'
        exact absurd (Option.some.inj (hbt'.symm.trans hbt)) hdefault
      · obtain rfl : depth = depth' := by simpa [hdepth] using hdepth'
        have hs : s ∈ node.others (c.tracked node.container depth) :=
          (PseudoNode.mem_others hb).2 ⟨hc.mem_tracked.2 htracks, by
            rw [hbt]
            exact fun h => hdefault (Option.some.inj h).symm⟩
        exact ⟨none, List.mem_append_left _ (List.mem_map.2 ⟨s, hs, rfl⟩)⟩

omit hcont in
/-- It needs as many plans as it asks for targets. -/
theorem Chart.Linked.length_requests :
    (node.requests r c.historySlots).length = c.plansOf node := by
  cases hk : node.kind with
  | historyContinue =>
    rw [PseudoNode.requests_of_continue hr hk (hrules.blank hk), Chart.plansOf, hk]
    rfl
  | history depth =>
    obtain ⟨b, t, hb, -⟩ := hrules.exists_sole (.inr (by rw [hk]; rfl))
    have hperm : (node.others (c.tracked node.container depth)).Perm
        (c.stateIds.filter fun s => c.Tracks node.container depth s ∧
          ∀ b ∈ node.branches.toList, b.target ≠ some (.state s)) := by
      apply (List.perm_ext_iff_of_nodup ((hc.nodup_tracked _ _).filter _)
        (List.nodup_range.filter _)).2
      intro s
      have hlt : c.Tracks node.container depth s → s < c.states.size := fun h =>
        (hc.lt_of_mem_tail h.1).1
      rw [← PseudoNode.others, PseudoNode.mem_others hb, hc.mem_tracked, List.mem_filter,
        List.mem_range, hb]
      simpa using fun h _ => hlt h
    rw [PseudoNode.requests_of_history hr hk, Chart.plansOf, hk, List.length_append,
      List.length_map, hperm.length_eq, ← List.countP_eq_length_filter]
    exact Nat.add_comm _ _
  | _ =>
    have hcont : node.kind ≠ .historyContinue := by simp [hk]
    obtain ⟨last, hlast, -⟩ := hrules.last hcont
    rw [PseudoNode.requests_of_not_history hr (by rw [hk]; rfl) hcont hlast, Chart.plansOf, hk,
      List.length_map]
    rfl

end Rules

end Pseudostates

/-! ## Behaviors -/

namespace Chart

theorem mem_cells_requests {request : Request V} :
    request ∈ c.cells.requests ↔
      ∃ s node b t, c.states[s]? = some node ∧ b ∈ node.behaviors.toList ∧
        (∃ e < c.events.size, b.trigger = .event e) ∧ b.target = some t ∧
        request = .move (.state s) t b.action := by
  rw [Cells.requests, Cells.behaviors_eq_flatten, parts_cells]
  constructor
  · intro h
    obtain ⟨⟨s, b⟩, hb, hrequest⟩ := List.mem_filterMap.1 h
    obtain ⟨cell, hcell, hb⟩ := List.mem_flatten.1 hb
    obtain ⟨⟨node, s'⟩, hnode, hcell⟩ := List.mem_flatMap.1 hcell
    obtain ⟨e, he, rfl⟩ := List.mem_map.1 hcell
    obtain ⟨b', hb', heq⟩ := List.mem_map.1 hb
    obtain ⟨rfl, rfl⟩ := Prod.mk.inj heq
    obtain ⟨t, ht, rfl⟩ := Option.map_eq_some_iff.1 hrequest
    obtain ⟨hmem, htrigger⟩ := List.mem_filter.1 hb'
    exact ⟨s', node, b', t, by simpa using List.mem_zipIdx_iff_getElem?.1 hnode, hmem,
      ⟨e, List.mem_range.1 he, by simpa using htrigger⟩, ht, rfl⟩
  · rintro ⟨s, node, b, t, hnode, hb, ⟨e, he, htrigger⟩, ht, rfl⟩
    refine List.mem_filterMap.2 ⟨(s, b), List.mem_flatten.2 ⟨_, List.mem_flatMap.2
      ⟨(node, s), List.mem_zipIdx_iff_getElem?.2 (by simpa using hnode),
        List.mem_map.2 ⟨e, List.mem_range.2 he, rfl⟩⟩, List.mem_map.2 ⟨b, ?_, rfl⟩⟩, ?_⟩
    · exact List.mem_filter.2 ⟨hb, by simp [htrigger]⟩
    · simp [Behavior.request, ht]

theorem sum_range_ite {n i : Nat} (hi : i < n) (k : Nat) :
    ((List.range n).map fun j => if i = j then k else 0).sum = k := by
  induction n with
  | zero => exact absurd hi (Nat.not_lt_zero i)
  | succ n ih =>
    rw [List.range_succ, List.map_append, List.sum_append]
    by_cases h : i = n
    · have hzero : ((List.range n).map fun j => if i = j then k else 0) = List.replicate n 0 := by
        rw [List.eq_replicate_iff]
        refine ⟨by simp, fun x hx => ?_⟩
        obtain ⟨j, hj, rfl⟩ := List.mem_map.1 hx
        exact if_neg (by have := List.mem_range.1 hj; omega)
      rw [hzero]
      simp [h]
    · simp [ih (by omega), h]

/-- Sorting behaviors into the cells of their events loses none that leads somewhere. -/
theorem sum_countP_onEvent {n : Nat} {bs : List (Behavior V)}
    (hbs : ∀ b ∈ bs, b.target.isSome → ∃ e < n, b.trigger = .event e) :
    ((List.range n).map fun e =>
      (bs.filter fun b => b.trigger == .event e).countP fun b => b.target.isSome).sum =
        bs.countP fun b => b.target.isSome := by
  induction bs with
  | nil => simp
  | cons b bs ih =>
    have hcell : ∀ e, ((b :: bs).filter fun b => b.trigger == .event e).countP
          (fun b => b.target.isSome) =
        (if b.trigger = .event e then (if b.target.isSome then 1 else 0) else 0) +
          (bs.filter fun b => b.trigger == .event e).countP fun b => b.target.isSome := by
      intro e
      rw [List.filter_cons]
      by_cases h : b.trigger = .event e
      · simp [h, List.countP_cons, Nat.add_comm]
      · simp [h]
    have hfirst : ((List.range n).map fun e =>
        if b.trigger = .event e then (if b.target.isSome then 1 else 0) else 0).sum =
          if b.target.isSome then 1 else 0 := by
      cases ht : b.target.isSome with
      | false => simp
      | true =>
        obtain ⟨e, he, htrigger⟩ := hbs b List.mem_cons_self ht
        simpa [htrigger] using sum_range_ite he 1
    simp only [hcell, List.sum_map_add, hfirst,
      ih fun b' hb' => hbs b' (List.mem_cons_of_mem _ hb'), List.countP_cons]
    exact Nat.add_comm _ _

/-- Behaviors need one plan for each that leads somewhere. -/
theorem length_cells_requests
    (hbs : ∀ node ∈ c.states.toList, ∀ b ∈ node.behaviors.toList, b.target.isSome →
      ∃ e < c.events.size, b.trigger = .event e) :
    c.cells.requests.length =
      (c.states.toList.map fun node =>
        node.behaviors.toList.countP fun b => b.target.isSome).sum := by
  rw [Cells.requests, Cells.behaviors_eq_flatten, List.length_filterMap_eq_countP,
    List.countP_flatten, parts_cells, List.map_flatMap, List.flatMap_def, List.sum_flatten,
    List.map_map, ← List.zipIdx_map_fst 0 c.states.toList, List.map_map, List.zipIdx_map_fst]
  congr 1
  apply List.map_congr_left
  rintro ⟨node, s⟩ hnode
  have hmem : node ∈ c.states.toList := List.fst_mem_of_mem_zipIdx hnode
  rw [Function.comp_apply, Function.comp_apply, ← sum_countP_onEvent (hbs node hmem), List.map_map]
  congr 1
  apply List.map_congr_left
  intro e _
  rw [Function.comp_apply, List.countP_map, StateNode.onEvent]
  simp [Function.comp_def, Behavior.request]

/-! ## Paths -/

variable {source target : Vertex}

theorem holder_sourceAnchor (c : Chart V) (v : Vertex) :
    (c.sourceAnchor v).1.holder = c.landing v := by
  cases v with
  | state s => rfl
  | pseudo p =>
    simp only [sourceAnchor]
    split <;> rfl

theorem holder_targetAnchor (c : Chart V) (v : Vertex) :
    (c.targetAnchor v).holder = c.landing v := by
  cases v <;> rfl

theorem Linked.landing_pseudo_lt (hc : c.Linked) {p : PseudoId} {node : PseudoNode V}
    (hp : c.pseudostates[p]? = some node) : c.landing (.pseudo p) < c.states.size :=
  hc.container p (Array.getElem?_eq_some_iff.1 hp).1

theorem Linked.landing_lt (hc : c.Linked) (ht : c.IsTarget target) :
    c.landing target < c.states.size := by
  cases target with
  | state s => exact ht
  | pseudo p =>
    obtain ⟨node, hp, -⟩ := ht
    exact hc.landing_pseudo_lt hp

/-- Every way turns somewhere, but for those into the root. -/
theorem Linked.exists_turn (hc : c.Linked) (source : Anchor) {target : Anchor}
    (ht : target.holder < c.states.size) (hroot : target ≠ .state rootState) :
    ∃ turn, c.hierarchy.turn source target = .ok turn := by
  apply Hierarchy.exists_turn
  intro t htarget _
  subst htarget
  rw [Option.isSome_iff_ne_none, ne_eq, hc.parent_eq_none_iff (show t < c.states.size from ht)]
  exact fun h => hroot (congrArg Anchor.state h)

theorem Linked.turn_root (hc : c.Linked) {source : Anchor} (hs : source.holder < c.states.size) :
    c.hierarchy.turn source (.state rootState) =
      .error (.transitionToRoot (c.label source.holder)) :=
  Hierarchy.turn_of_root (hc.root_mem_ancestors hs) ((hc.parent_eq_none_iff hc.nonempty).2 rfl)

/-- There is a path into every state but the root. -/
theorem Linked.exists_anchored_path (hc : c.Linked)
    (hnesting : ∀ s < c.states.size, (c.hierarchy.ancestors s).tail.length < maxDepth)
    {source target : Anchor} (hs : source.holder < c.states.size)
    (ht : target.holder < c.states.size) (hroot : target ≠ .state rootState) :
    ∃ way, c.hierarchy.path source target = .ok way := by
  obtain ⟨turn, hturn⟩ := hc.exists_turn source ht hroot
  have hmem := (Hierarchy.turn_mem (hc.joined hs ht) hturn).2.1
  have hlen := Hierarchy.chain_length_lt hmem
  have hdeep := hnesting _ ht
  rw [List.length_tail] at hdeep
  exact ⟨_, Hierarchy.path_eq_ok hturn (by omega)⟩

/-- There is a path to every target but the root. -/
theorem Linked.exists_path (hc : c.Linked)
    (hnesting : ∀ s < c.states.size, (c.hierarchy.ancestors s).tail.length < maxDepth)
    (hs : c.landing source < c.states.size) (ht : c.IsTarget target)
    (hroot : target ≠ .state rootState) : ∃ way, c.pathBetween source target = .ok way := by
  have hland := hc.landing_lt ht
  rw [← c.holder_sourceAnchor] at hs
  rw [← c.holder_targetAnchor] at hland
  refine hc.exists_anchored_path hnesting hs hland fun h => hroot ?_
  cases target with
  | state s => simpa [targetAnchor] using h
  | pseudo p => simp [targetAnchor] at h

/-- Into the root there is none. -/
theorem Linked.pathBetween_root (hc : c.Linked) (hs : c.landing source < c.states.size) :
    ∃ error, c.pathBetween source (.state rootState) = .error error := by
  rw [← c.holder_sourceAnchor] at hs
  exact ⟨_, Hierarchy.path_eq_error (hc.turn_root hs)⟩

theorem Linked.pathFault_eq_none_iff (hc : c.Linked)
    (hnesting : ∀ s < c.states.size, (c.hierarchy.ancestors s).tail.length < maxDepth)
    (hs : c.landing source < c.states.size) (ht : c.IsTarget target) {action : Option (Action V)} :
    c.pathFault (.move source target action) = none ↔ target ≠ .state rootState := by
  constructor
  · rintro h rfl
    obtain ⟨error, herror⟩ := hc.pathBetween_root hs
    simp [pathFault, herror] at h
  · intro hroot
    obtain ⟨way, hway⟩ := hc.exists_path hnesting hs ht hroot
    simp [pathFault, hway]

end Chart

end Statechart
