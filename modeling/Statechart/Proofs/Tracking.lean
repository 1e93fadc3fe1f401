import Statechart.Proofs.Linked
import Statechart.History

/-
  What histories track. `mem_tracked`: a history tracks exactly the states strictly below its
  container, a shallow one only those with every state in between marked by a history continue, and
  none of them twice. `reachesShallow_iff` reads the upward check of a history continue as the same
  condition seen from below. The slots of a chart hold one entry for each history
  (`find?_historySlots`).
-/

namespace Statechart

variable {V : Type}

namespace Chart

/-- A history of this depth in `container` is to remember `s`. -/
def Tracks (c : Chart V) (container : StateId) (depth : HistoryDepth) (s : StateId) : Prop :=
  container ∈ (c.hierarchy.ancestors s).tail ∧
    (depth = .shallow → ∀ x ∈ (c.hierarchy.ancestors s).tail,
      container ∈ (c.hierarchy.ancestors x).tail → c.Owns x .historyContinue)

instance (c : Chart V) (container : StateId) (depth : HistoryDepth) (s : StateId) :
    Decidable (c.Tracks container depth s) :=
  inferInstanceAs (Decidable (_ ∧ _))

variable {c : Chart V} {s t q : StateId}

/-! ## Going down -/

/-- Below a state that is tracked and marked, its children are tracked too. -/
theorem Tracks.child {container : StateId} {depth : HistoryDepth}
    (h : c.Tracks container depth t) (hs : c.hierarchy.parent s = some t)
    (hmarked : depth = .shallow → c.Owns t .historyContinue) : c.Tracks container depth s := by
  unfold Tracks
  rw [Hierarchy.ancestors_of_parent hs, List.tail_cons]
  refine ⟨(Hierarchy.mem_tail_ancestors.1 h.1).1, fun hdepth x hx hcontainer => ?_⟩
  by_cases hxt : x = t
  · exact hxt ▸ hmarked hdepth
  · exact h.2 hdepth x (Hierarchy.mem_tail_ancestors.2 ⟨hx, hxt⟩) hcontainer

theorem Linked.mem_children (hc : c.Linked) : t ∈ c.children q ↔ c.hierarchy.parent t = some q := by
  rw [hc.parent_eq]
  by_cases hq : q < c.states.size
  · rw [hc.children q hq, List.mem_filter, decide_eq_true_iff]
    constructor
    · exact And.right
    · intro h
      exact ⟨List.mem_range.2 (parentOf_lt hc h).1, h⟩
  · have hnone : c.children q = [] := by
      rw [children_eq, Array.getElem?_eq_none (Nat.le_of_not_lt hq)]
      rfl
    rw [hnone]
    constructor
    · intro h
      cases h
    · intro h
      have := parentOf_lt hc h
      lia

theorem Linked.nodup_children (hc : c.Linked) (q : StateId) : (c.children q).Nodup := by
  by_cases hq : q < c.states.size
  · rw [hc.children q hq]
    exact List.nodup_range.filter _
  · rw [children_eq, Array.getElem?_eq_none (Nat.le_of_not_lt hq)]
    exact List.nodup_nil

theorem Linked.mem_below (hc : c.Linked) (opens : StateId → Bool) {n : Nat} :
    t ∈ c.below opens n s ↔
      s ∈ c.hierarchy.ancestors t ∧ t ≠ s ∧ (c.hierarchy.chain t s).length ≤ n ∧
        ∀ x ∈ c.hierarchy.chain t s, x ≠ t → opens x := by
  induction n generalizing s with
  | zero =>
    simp only [below, List.not_mem_nil, false_iff, not_and]
    intro hs hne hlen
    have : t ∈ c.hierarchy.chain t s :=
      (Hierarchy.mem_chain hs).2 ⟨Hierarchy.self_mem_ancestors _ t, hs, hne⟩
    have := List.length_pos_of_mem this
    lia
  | succ n ih =>
    simp only [below, List.mem_flatMap, List.mem_cons, hc.mem_children]
    constructor
    · rintro ⟨q, hq, rfl | ht⟩
      · -- A child itself: nothing lies in between.
        have hs := Hierarchy.parent_mem_ancestors hq
        have hch := Hierarchy.chain_parent (Hierarchy.self_mem_ancestors c.hierarchy t) hq
        rw [Hierarchy.chain_self, List.nil_append] at hch
        refine ⟨hs, ?_, by simp [hch], ?_⟩
        · have := c.hierarchy.parent_lt hq
          lia
        · intro x hx hne
          rw [hch, List.mem_singleton] at hx
          exact absurd hx hne
      · split at ht
        · next hopen =>
          obtain ⟨hqt, hne, hlen, hall⟩ := ih.1 ht
          have hch := Hierarchy.chain_parent hqt hq
          have hlt := c.hierarchy.parent_lt hq
          have hle := Hierarchy.le_of_mem_ancestors hqt
          refine ⟨Hierarchy.mem_ancestors_trans (Hierarchy.parent_mem_ancestors hq) hqt, by lia, ?_,
            ?_⟩
          · rw [hch, List.length_append, List.length_singleton]
            lia
          · intro x hx hxt
            rw [hch, List.mem_append, List.mem_singleton] at hx
            rcases hx with hx | rfl
            · exact hall x hx hxt
            · exact hopen
        · cases ht
    · rintro ⟨hs, hne, hlen, hall⟩
      obtain ⟨q, hqt, hq⟩ := Hierarchy.exists_child hs (Ne.symm hne)
      refine ⟨q, hq, ?_⟩
      by_cases htq : t = q
      · exact Or.inl htq
      · have hch := Hierarchy.chain_parent hqt hq
        have hmem : q ∈ c.hierarchy.chain t s := by
          rw [hch]
          simp
        rw [if_pos (hall q hmem (Ne.symm htq))]
        refine Or.inr (ih.2 ⟨hqt, htq, ?_, ?_⟩)
        · rw [hch, List.length_append, List.length_singleton] at hlen
          lia
        · intro x hx hxt
          refine hall x ?_ hxt
          rw [hch]
          exact List.mem_append_left _ hx

theorem Linked.nodup_below (hc : c.Linked) (opens : StateId → Bool) (n : Nat) (s : StateId) :
    (c.below opens n s).Nodup := by
  induction n generalizing s with
  | zero => exact List.nodup_nil
  | succ n ih =>
    rw [below, List.nodup_flatMap]
    constructor
    · intro q _
      rw [List.nodup_cons]
      split
      · refine ⟨fun hq => ?_, ih q⟩
        exact ((hc.mem_below opens).1 hq).2.1 rfl
      · exact ⟨List.not_mem_nil, List.nodup_nil⟩
    · -- Two children have no state below both of them.
      have hup : ∀ q t, t ∈ (q :: if opens q then c.below opens n q else []) →
          q ∈ c.hierarchy.ancestors t := by
        intro q t ht
        rcases List.mem_cons.1 ht with rfl | ht
        · exact Hierarchy.self_mem_ancestors _ t
        · split at ht
          · exact ((hc.mem_below opens).1 ht).1
          · cases ht
      refine List.Pairwise.imp_of_mem ?_ (hc.nodup_children s)
      intro a b ha hb hab t hta htb
      exact hab (Hierarchy.eq_of_parent_eq (hup a t hta) (hup b t htb) (hc.mem_children.1 ha)
        (hc.mem_children.1 hb))

/-- A history tracks what it is to track. -/
theorem Linked.mem_tracked (hc : c.Linked) {container : StateId} {depth : HistoryDepth} :
    s ∈ c.tracked container depth ↔ c.Tracks container depth s := by
  have hmem : ∀ opens : StateId → Bool, s ∈ c.below opens c.states.size container ↔
      container ∈ (c.hierarchy.ancestors s).tail ∧
        ∀ x ∈ (c.hierarchy.ancestors s).tail,
          container ∈ (c.hierarchy.ancestors x).tail → opens x := by
    intro opens
    rw [hc.mem_below, Hierarchy.mem_tail_ancestors]
    constructor
    · rintro ⟨hs, hne, -, hall⟩
      refine ⟨⟨hs, Ne.symm hne⟩, fun x hx hxc => ?_⟩
      rw [Hierarchy.mem_tail_ancestors] at hx hxc
      exact hall x ((Hierarchy.mem_chain hs).2 ⟨hx.1, hxc.1, Ne.symm hxc.2⟩) hx.2
    · rintro ⟨⟨hs, hne⟩, hall⟩
      refine ⟨hs, Ne.symm hne, ?_, fun x hx hxt => ?_⟩
      · obtain ⟨q, hq⟩ : ∃ q, c.hierarchy.parent s = some q := by
          cases hp : c.hierarchy.parent s with
          | some q => exact ⟨q, rfl⟩
          | none =>
            rw [Hierarchy.ancestors_of_root hp, List.mem_singleton] at hs
            exact absurd hs hne
        rw [hc.parent_eq] at hq
        have := (parentOf_lt hc hq).1
        have := c.hierarchy.chain_length_le s container
        lia
      · obtain ⟨h1, h2, h3⟩ := (Hierarchy.mem_chain hs).1 hx
        exact hall x (Hierarchy.mem_tail_ancestors.2 ⟨h1, hxt⟩)
          (Hierarchy.mem_tail_ancestors.2 ⟨h2, Ne.symm h3⟩)
  cases depth with
  | shallow =>
    rw [tracked, hmem, Tracks]
    simp only [hc.hasContinue_iff, true_implies]
  | deep =>
    rw [tracked, hmem, Tracks]
    simp

theorem Linked.nodup_tracked (hc : c.Linked) (container : StateId) (depth : HistoryDepth) :
    (c.tracked container depth).Nodup := by
  cases depth with
  | shallow => exact hc.nodup_below _ _ _
  | deep => exact hc.nodup_below _ _ _

/-! ## Going up -/

theorem Linked.reachesShallow_ancestors (hc : c.Linked) (q : StateId) :
    c.reachesShallow (c.hierarchy.ancestors q) ↔
      ∃ r ∈ c.hierarchy.ancestors q, c.Owns r (.history .shallow) ∧
        ∀ x ∈ c.hierarchy.chain q r, c.Owns x .historyContinue := by
  induction q using c.hierarchy.parent_induction with
  | root q hp =>
    rw [Hierarchy.ancestors_of_root hp]
    simp only [reachesShallow, Bool.and_false, Bool.or_false, hc.hasShallowHistory_iff,
      List.mem_singleton, exists_eq_left]
    simp
  | step q p hp ih =>
    rw [Hierarchy.ancestors_of_parent hp, reachesShallow, Bool.or_eq_true, Bool.and_eq_true,
      hc.hasShallowHistory_iff, hc.hasContinue_iff, ih]
    constructor
    · rintro (hq | ⟨hcont, r, hr, hsh, hall⟩)
      · exact ⟨q, List.mem_cons_self, hq, by simp⟩
      · refine ⟨r, List.mem_cons_of_mem _ hr, hsh, ?_⟩
        rw [Hierarchy.chain_of_parent hp (Ne.symm (Hierarchy.parent_not_mem_of_mem hp hr))]
        intro x hx
        rcases List.mem_cons.1 hx with rfl | hx
        · exact hcont
        · exact hall x hx
    · rintro ⟨r, hr, hsh, hall⟩
      rcases List.mem_cons.1 hr with rfl | hr
      · exact Or.inl hsh
      · rw [Hierarchy.chain_of_parent hp (Ne.symm (Hierarchy.parent_not_mem_of_mem hp hr))] at hall
        exact Or.inr ⟨hall q List.mem_cons_self, r, hr, hsh,
          fun x hx => hall x (List.mem_cons_of_mem _ hx)⟩

/-- Going up from `s`, only marked states come before a shallow history. -/
def Continued (c : Chart V) (s : StateId) : Prop :=
  ∃ r ∈ (c.hierarchy.ancestors s).tail, c.Owns r (.history .shallow) ∧
    ∀ x ∈ (c.hierarchy.ancestors s).tail, r ∈ (c.hierarchy.ancestors x).tail →
      c.Owns x .historyContinue

theorem Linked.reachesShallow_iff (hc : c.Linked) (s : StateId) :
    c.reachesShallow (c.hierarchy.ancestors s).tail ↔ c.Continued s := by
  cases hp : c.hierarchy.parent s with
  | none =>
    rw [Continued, Hierarchy.ancestors_of_root hp]
    simp [reachesShallow]
  | some q =>
    rw [Continued, Hierarchy.ancestors_of_parent hp, List.tail_cons, hc.reachesShallow_ancestors]
    refine exists_congr fun r => and_congr_right fun hr => and_congr_right fun _ => ?_
    refine forall_congr' fun x => ?_
    rw [Hierarchy.mem_chain hr, Hierarchy.mem_tail_ancestors]
    constructor
    · exact fun h hx hrx => h ⟨hx, hrx.1, Ne.symm hrx.2⟩
    · exact fun h hx => h hx.1 ⟨hx.2.1, Ne.symm hx.2.2⟩

end Chart

/-! ## Slots -/

/-- The tracked states other than the default target. -/
def PseudoNode.others (node : PseudoNode V) (tracked : List StateId) : List StateId :=
  tracked.filter fun s => some s != node.trackedDefault tracked

namespace Chart

variable {c : Chart V} {p : PseudoId} {slot : HistorySlot}

/-- The values of a history: 0 is for its default target, then come the other tracked states. -/
theorem historySlot?_of_history {node : PseudoNode V} {depth : HistoryDepth}
    (hget : c.pseudostates[p]? = some node) (hkind : node.kind = .history depth) :
    c.historySlot? p = some ⟨p, node.container, depth,
      (node.trackedDefault (c.tracked node.container depth) ::
        (node.others (c.tracked node.container depth)).map some).toArray⟩ := by
  simp only [historySlot?, hget, hkind]
  rfl

theorem historySlot?_of_not_history {node : PseudoNode V} (hget : c.pseudostates[p]? = some node)
    (hkind : node.kind.isHistory = false) : c.historySlot? p = none := by
  simp only [historySlot?, hget]
  split
  · next h =>
    rw [h] at hkind
    cases hkind
  · rfl

theorem historySlot?_eq_some_iff :
    c.historySlot? p = some slot ↔
      ∃ node depth, c.pseudostates[p]? = some node ∧ node.kind = .history depth ∧
        slot = ⟨p, node.container, depth,
          (node.trackedDefault (c.tracked node.container depth) ::
            (node.others (c.tracked node.container depth)).map some).toArray⟩ := by
  constructor
  · intro h
    cases hget : c.pseudostates[p]? with
    | none => simp [historySlot?, hget] at h
    | some node =>
      cases hhist : node.kind.isHistory with
      | false =>
        rw [historySlot?_of_not_history hget hhist] at h
        cases h
      | true =>
        obtain ⟨depth, hkind⟩ : ∃ depth, node.kind = .history depth := by
          cases hk : node.kind <;> simp_all [PseudoKind.isHistory]
        rw [historySlot?_of_history hget hkind] at h
        exact ⟨node, depth, rfl, hkind, (Option.some.inj h).symm⟩
  · rintro ⟨node, depth, hget, hkind, rfl⟩
    exact historySlot?_of_history hget hkind

theorem pseudo_of_historySlot? (h : c.historySlot? p = some slot) : slot.pseudo = p := by
  obtain ⟨node, depth, -, -, rfl⟩ := historySlot?_eq_some_iff.1 h
  rfl

theorem mem_historySlots : slot ∈ c.historySlots ↔ c.historySlot? slot.pseudo = some slot := by
  rw [historySlots, List.mem_toArray, List.mem_filterMap]
  constructor
  · rintro ⟨q, -, hq⟩
    rwa [pseudo_of_historySlot? hq]
  · intro h
    obtain ⟨node, depth, hget, -, -⟩ := historySlot?_eq_some_iff.1 h
    obtain ⟨hlt, -⟩ := Array.getElem?_eq_some_iff.1 hget
    exact ⟨slot.pseudo, List.mem_range.2 hlt, h⟩

/-- Each history has its place among the slots. -/
theorem exists_findIdx?_of_historySlot? (h : c.historySlot? p = some slot) :
    ∃ i, c.historySlots.findIdx? (·.pseudo == p) = some i ∧ c.historySlots[i]? = some slot := by
  have hmem : slot ∈ c.historySlots := by
    rw [mem_historySlots, pseudo_of_historySlot? h]
    exact h
  have hsome : (c.historySlots.findIdx? (·.pseudo == p)).isSome := by
    rw [Array.findIdx?_eq_some_of_exists ⟨slot, hmem, by simp [pseudo_of_historySlot? h]⟩]
    rfl
  obtain ⟨i, hi⟩ := Option.isSome_iff_exists.1 hsome
  refine ⟨i, hi, ?_⟩
  obtain ⟨hlt, hkey, -⟩ := Array.findIdx?_eq_some_iff_getElem.1 hi
  have hslot := mem_historySlots.1 (Array.getElem_mem hlt)
  have hkey' : (c.historySlots[i]).pseudo = p := by simpa using hkey
  rw [hkey', h] at hslot
  rw [Array.getElem?_eq_getElem hlt, ← hslot]

theorem findIdx?_of_historySlot?_eq_none (h : c.historySlot? p = none) :
    c.historySlots.findIdx? (·.pseudo == p) = none := by
  rw [Array.findIdx?_eq_none_iff]
  intro slot hslot
  rw [mem_historySlots] at hslot
  rw [beq_eq_false_iff_ne]
  rintro rfl
  rw [h] at hslot
  cases hslot

theorem find?_historySlots (p : PseudoId) :
    c.historySlots.find? (·.pseudo == p) = c.historySlot? p := by
  cases h : c.historySlot? p with
  | none =>
    rw [Array.find?_eq_none]
    intro slot hslot
    rw [mem_historySlots] at hslot
    rw [beq_iff_eq]
    rintro rfl
    rw [h] at hslot
    cases hslot
  | some slot =>
    obtain ⟨i, hi, hget⟩ := exists_findIdx?_of_historySlot? h
    obtain ⟨hlt, hkey, hbefore⟩ := Array.findIdx?_eq_some_iff_getElem.1 hi
    obtain ⟨_, hslot⟩ := Array.getElem?_eq_some_iff.1 hget
    rw [hslot] at hkey
    rw [Array.find?_eq_some_iff_getElem]
    exact ⟨hkey, i, hlt, hslot, fun j hj => by simpa using hbefore j hj⟩

end Chart

namespace HistorySlot

variable {slot : HistorySlot}

theorem mem_tracked_iff {v : Nat} {s : StateId} :
    (v, s) ∈ slot.tracked ↔ slot.values[v]? = some (some s) := by
  rw [tracked, List.mem_filterMap]
  constructor
  · rintro ⟨⟨x, i⟩, hx, hmap⟩
    obtain ⟨t, ht, heq⟩ := Option.map_eq_some_iff.1 hmap
    cases heq
    rw [List.mem_zipIdx_iff_getElem?] at hx
    cases ht
    simpa using hx
  · intro h
    refine ⟨(some s, v), ?_, rfl⟩
    rw [List.mem_zipIdx_iff_getElem?]
    simpa using h

/-- After the first value the others are numbered from 1. -/
theorem mem_zipIdx_one_iff {first : Option StateId} {others : List StateId} {s : StateId}
    {v : Nat} :
    (s, v) ∈ others.zipIdx 1 ↔ 1 ≤ v ∧ (first :: others.map some)[v]? = some (some s) := by
  rw [List.mk_mem_zipIdx_iff_le_and_getElem?_sub]
  refine and_congr_right fun hv => ?_
  obtain ⟨v, rfl⟩ : ∃ i, v = i + 1 := ⟨v - 1, by lia⟩
  simp

/-- Of the tracked states, those with a value other than 0 come after the first value. -/
theorem filterMap_tracked {β : Type} (first : Option StateId) (others : List StateId)
    (hvalues : slot.values = (first :: others.map some).toArray) (g : Nat × StateId → β) :
    (slot.tracked.filterMap fun v => if v.1 = 0 then none else some (g v)) =
      (others.zipIdx 1).map fun x => g (x.2, x.1) := by
  rw [tracked, hvalues, List.filterMap_filterMap, List.toList_toArray, List.zipIdx_cons]
  have hfirst : ((first.map fun s => ((0 : Nat), s)).bind
      fun v => if v.1 = 0 then none else some (g v)) = none := by
    cases first <;> rfl
  rw [List.filterMap_cons, hfirst, List.zipIdx_map, List.filterMap_map, ← List.filterMap_eq_map]
  apply List.filterMap_congr
  rintro ⟨s, i⟩ hx
  have := List.le_snd_of_mem_zipIdx hx
  have hi : i ≠ 0 := by
    simp only at this
    lia
  simp [hi]

end HistorySlot

end Statechart
