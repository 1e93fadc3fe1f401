import Statechart.Proofs.Engine
import Statechart.Proofs.TreeWalk

/-
  The stored values of histories and the states they stand for. Each state that a history tracks has
  exactly one value in it (`exists_value_iff`, `nodup_values`), and entering a state writes just
  these values (`toList_historyWrites`). So what a program recalls after a state was entered is what
  one who walks the tree remembers (`recall_remember`).
-/

namespace Statechart

variable {V : Type}

/-! ## The values of a history -/

namespace Chart

variable {c : Chart V} {r : PseudoId} {slot : HistorySlot} {s : StateId}

theorem mem_of_trackedDefault {node : PseudoNode V} {tracked : List StateId}
    (h : node.trackedDefault tracked = some s) : s ∈ tracked := by
  unfold PseudoNode.trackedDefault at h
  split at h
  · next t _ =>
    split at h
    · next hmem =>
      obtain rfl : t = s := by simpa using h
      simpa using hmem
    · simp at h
  · simp at h

theorem Linked.nodup_values (hc : c.Linked) (h : c.historySlot? r = some slot) :
    slot.values.toList.Nodup := by
  obtain ⟨node, depth, -, -, rfl⟩ := historySlot?_eq_some_iff.1 h
  refine List.nodup_cons.2 ⟨fun hmem => ?_, ?_⟩
  · -- The default is kept out of the other values.
    obtain ⟨t, ht, hdefault⟩ := List.mem_map.1 hmem
    simp [PseudoNode.others, hdefault] at ht
  · refine List.Nodup.map (Option.some_injective _) ?_
    exact (hc.nodup_tracked _ _).filter _

/-- A state has a value in the histories that track it, and in no others. -/
theorem Linked.exists_value_iff (hc : c.Linked) (h : c.historySlot? r = some slot) :
    (∃ v : Nat, slot.values[v]? = some (some s)) ↔ c.remembers r s := by
  obtain ⟨node, depth, hr, hk, rfl⟩ := historySlot?_eq_some_iff.1 h
  have hremembers : c.remembers r s ↔ s ∈ c.tracked node.container depth := by
    simp [remembers, hr, hk, hc.mem_tracked]
  rw [hremembers, ← Array.mem_iff_getElem?, List.mem_toArray, List.mem_cons]
  constructor
  · intro hmem
    rcases hmem with hmem | hmem
    · exact mem_of_trackedDefault hmem.symm
    · obtain ⟨t, ht, heq⟩ := List.mem_map.1 hmem
      obtain rfl := Option.some.inj heq
      exact (List.mem_filter.1 ht).1
  · intro hmem
    by_cases hdefault : some s = node.trackedDefault (c.tracked node.container depth)
    · exact .inl hdefault
    · exact .inr (List.mem_map_of_mem (List.mem_filter.2 ⟨hmem, by simpa using hdefault⟩))

theorem remembers_iff_of_historySlot? (h : c.historySlot? r = some slot) :
    c.remembers r s ↔ c.Tracks slot.container slot.depth s := by
  obtain ⟨node, depth, hr, hk, rfl⟩ := historySlot?_eq_some_iff.1 h
  simp [remembers, hr, hk]

theorem Linked.eq_of_value (hc : c.Linked) (h : c.historySlot? r = some slot) {v w : Nat}
    (hv : slot.values[v]? = some (some s)) (hw : slot.values[w]? = some (some s)) : v = w := by
  rw [← Array.getElem?_toList] at hv hw
  have hlt := (List.getElem?_eq_some_iff.1 hv).1
  exact (List.getElem?_inj hlt (hc.nodup_values h)).1 (hv.trans hw.symm)

/-! ## What entering a state writes -/

theorem size_addWrites (slot : HistorySlot) (h : HistoryId) (writes : Array (Array HistoryWrite)) :
    (slot.addWrites h writes).size = writes.size := by
  unfold HistorySlot.addWrites
  induction slot.tracked generalizing writes with
  | nil => rfl
  | cons v vs ih => rw [List.foldl_cons, ih, Array.size_modify]

/-- A slot adds to the writes of a state one for each value of that state. -/
theorem toList_addWrites {h : HistoryId} {writes : Array (Array HistoryWrite)}
    (hs : s < writes.size) :
    ((slot.addWrites h writes).getD s #[]).toList =
      (writes.getD s #[]).toList ++ (slot.tracked.filter (·.2 == s)).map fun v => ⟨h, v.1⟩ := by
  unfold HistorySlot.addWrites
  induction slot.tracked generalizing writes with
  | nil => simp
  | cons v vs ih =>
    have hfirst : ((writes.modify v.2 (·.push ⟨h, v.1⟩)).getD s #[]).toList =
        (writes.getD s #[]).toList ++ if v.2 = s then [⟨h, v.1⟩] else [] := by
      rw [Array.getD_eq_getD_getElem?, Array.getD_eq_getD_getElem?, Array.getElem?_modify]
      by_cases hv : v.2 = s <;> simp [hv, Array.getElem?_eq_getElem hs]
    rw [List.foldl_cons, ih (by rwa [Array.size_modify]), hfirst, List.filter_cons]
    by_cases hv : v.2 = s <;> simp [hv]

/-- What entering a state writes, history by history. -/
theorem toList_historyWrites {slots : Array HistorySlot} (hs : s < c.states.size) :
    ((c.historyWrites slots).getD s #[]).toList = slots.toList.zipIdx.flatMap fun x =>
      (x.1.tracked.filter (·.2 == s)).map fun v => ⟨x.2, v.1⟩ := by
  have hfold : ∀ items : List (HistorySlot × Nat), ∀ writes : Array (Array HistoryWrite),
      s < writes.size →
        ((items.foldl (fun writes slot => slot.1.addWrites slot.2 writes) writes).getD s #[]).toList =
          (writes.getD s #[]).toList ++ items.flatMap fun x =>
            (x.1.tracked.filter (·.2 == s)).map fun v => ⟨x.2, v.1⟩ := by
    intro items
    induction items with
    | nil => simp
    | cons item items ih =>
      intro writes hs
      rw [List.foldl_cons, ih _ (by rwa [size_addWrites]), toList_addWrites hs,
        List.flatMap_cons, List.append_assoc]
  have hblank : (Array.replicate c.states.size (#[] : Array HistoryWrite)).getD s #[] = #[] := by
    simp [Array.getD_eq_getD_getElem?, hs]
  rw [historyWrites, hfold _ _ (by simpa using hs), hblank]
  rfl

/-- Entering a state writes its value into each history in which it has one. -/
theorem mem_historyWrites {slots : Array HistorySlot} {w : HistoryWrite}
    (hs : s < c.states.size) :
    w ∈ (c.historyWrites slots).getD s #[] ↔
      ∃ slot, slots[w.history]? = some slot ∧ slot.values[w.value]? = some (some s) := by
  rw [← Array.mem_toList_iff, toList_historyWrites hs, List.mem_flatMap]
  constructor
  · rintro ⟨⟨slot, h⟩, hslot, hw⟩
    obtain ⟨⟨v, t⟩, hv, rfl⟩ := List.mem_map.1 hw
    obtain ⟨htracked, ht⟩ := List.mem_filter.1 hv
    obtain rfl : t = s := by simpa using ht
    exact ⟨slot, by simpa [List.mem_zipIdx_iff_getElem?] using hslot,
      HistorySlot.mem_tracked_iff.1 htracked⟩
  · rintro ⟨slot, hslot, hv⟩
    exact ⟨(slot, w.history), by simpa [List.mem_zipIdx_iff_getElem?] using hslot,
      List.mem_map.2 ⟨(w.value, s), List.mem_filter.2
        ⟨HistorySlot.mem_tracked_iff.2 hv, by simp⟩, rfl⟩⟩

end Chart

/-! ## What is recalled -/

namespace HistoryStore

variable {store : HistoryStore} {h : HistoryId} {writes : List HistoryWrite}

theorem get_set_self (value : Nat) (hh : h < store.values.size) :
    (store.set h value).get h = value := by
  simp [get, set, Array.getD_eq_getD_getElem?, hh]

theorem get_set_of_ne {h' : HistoryId} (value : Nat) (hne : h' ≠ h) :
    (store.set h' value).get h = store.get h := by
  simp [get, set, Array.getD_eq_getD_getElem?, hne]

theorem get_foldl_set_of_not_mem (hnot : ∀ w ∈ writes, w.history ≠ h) :
    (writes.foldl (fun store w => store.set w.history w.value) store).get h = store.get h := by
  induction writes generalizing store with
  | nil => rfl
  | cons w writes ih =>
    rw [List.foldl_cons, ih fun w' hw' => hnot w' (List.mem_cons_of_mem _ hw'),
      get_set_of_ne _ (hnot w List.mem_cons_self)]

/-- A history into which a single value is written holds it. -/
theorem get_foldl_set (value : Nat) (hh : h < store.values.size)
    (hmem : ⟨h, value⟩ ∈ writes) (honly : ∀ w ∈ writes, w.history = h → w.value = value) :
    (writes.foldl (fun store w => store.set w.history w.value) store).get h = value := by
  induction writes generalizing store with
  | nil => simp at hmem
  | cons w writes ih =>
    rw [List.foldl_cons]
    by_cases hlater : ∃ w' ∈ writes, w'.history = h
    · obtain ⟨w', hw', rfl⟩ := hlater
      obtain rfl := honly w' (List.mem_cons_of_mem _ hw') rfl
      exact ih (by simpa [set] using hh) hw' fun x hx => honly x (List.mem_cons_of_mem _ hx)
    · rw [get_foldl_set_of_not_mem fun w' hw' heq => hlater ⟨w', hw', heq⟩]
      rcases List.mem_cons.1 hmem with heq | hmem
      · rw [← heq]
        exact get_set_self value hh
      · exact absurd ⟨_, hmem, rfl⟩ hlater

end HistoryStore

/-- The state that a history pseudostate would restore. -/
def Program.recall (p : Program V) (store : HistoryStore) (r : PseudoId) : Option StateId :=
  (p.histories.findIdx? (·.pseudo == r)).bind fun h => p.remembered h (store.get h)

namespace Chart

variable {c : Chart V} {r : PseudoId} {slot : HistorySlot} {s : StateId} {store : HistoryStore}

theorem recall_of_historySlot?_eq_none (h : c.historySlot? r = none) :
    c.program.recall store r = none := by
  rw [Program.recall]
  change (c.historySlots.findIdx? _).bind _ = none
  rw [findIdx?_of_historySlot?_eq_none h]
  rfl

theorem recall_of_historySlot? {h : HistoryId}
    (hfind : c.historySlots.findIdx? (·.pseudo == r) = some h)
    (hslot : c.historySlots[h]? = some slot) :
    c.program.recall store r = (slot.values[store.get h]?).join := by
  have hhist : c.program.histories = c.historySlots := rfl
  rw [Program.recall, hhist, hfind, Option.bind_some, Program.remembered, hhist, hslot,
    Option.bind_some]

theorem remembers_of_historySlot?_eq_none (h : c.historySlot? r = none) :
    c.remembers r s = false := by
  unfold remembers
  cases hr : c.pseudostates[r]? with
  | none => rfl
  | some node =>
    cases hk : node.kind with
    | history depth =>
      rw [historySlot?_of_history hr hk] at h
      cases h
    | _ => simp only [hk]

/-- Entering a state is remembered by the histories that track it. -/
theorem Linked.recall_remember (hc : c.Linked) (hs : s < c.states.size)
    (hstore : store.values.size = c.program.histories.size) :
    c.program.recall (c.program.remember store s) = c.note (c.program.recall store) s := by
  funext r
  have hwrites : c.program.remember store s =
      ((c.historyWrites c.historySlots).getD s #[]).toList.foldl
        (fun store w => store.set w.history w.value) store := by
    rw [Program.remember, getElem?_states_program, Array.getElem?_eq_getElem hs]
    rfl
  cases hslot? : c.historySlot? r with
  | none =>
    rw [recall_of_historySlot?_eq_none hslot?, note, remembers_of_historySlot?_eq_none hslot?,
      recall_of_historySlot?_eq_none hslot?]
    rfl
  | some slot =>
    obtain ⟨h, hfind, hslot⟩ := exists_findIdx?_of_historySlot? hslot?
    have hmem : ∀ w : HistoryWrite, w ∈ ((c.historyWrites c.historySlots).getD s #[]).toList →
        w.history = h → slot.values[w.value]? = some (some s) := by
      intro w hw heq
      obtain ⟨slot', hslot', hvalue⟩ := (mem_historyWrites hs).1 (Array.mem_toList_iff.1 hw)
      rw [heq, hslot] at hslot'
      obtain rfl := Option.some.inj hslot'
      exact hvalue
    rw [recall_of_historySlot? hfind hslot, note, recall_of_historySlot? hfind hslot, hwrites]
    by_cases hv : ∃ v : Nat, slot.values[v]? = some (some s)
    · rw [if_pos ((hc.exists_value_iff hslot?).1 hv)]
      obtain ⟨v, hv⟩ := hv
      have hlt : h < store.values.size := by
        rw [hstore]
        exact (Array.getElem?_eq_some_iff.1 hslot).1
      rw [HistoryStore.get_foldl_set v hlt, hv]
      · rfl
      · exact Array.mem_toList_iff.2 ((mem_historyWrites hs).2 ⟨slot, hslot, hv⟩)
      · exact fun w hw heq => hc.eq_of_value hslot? (hmem w hw heq) hv
    · rw [if_neg (by rwa [← hc.exists_value_iff hslot?]), HistoryStore.get_foldl_set_of_not_mem]
      exact fun w hw heq => hv ⟨w.value, hmem w hw heq⟩

theorem Linked.recall_foldl_remember (hc : c.Linked) {path : List StateId}
    (hpath : ∀ s ∈ path, s < c.states.size) {store : HistoryStore}
    (hstore : store.values.size = c.program.histories.size) :
    c.program.recall (path.foldl c.program.remember store) =
      path.foldl c.note (c.program.recall store) := by
  induction path generalizing store with
  | nil => rfl
  | cons s path ih =>
    rw [List.foldl_cons, List.foldl_cons, ih (fun t ht => hpath t (List.mem_cons_of_mem _ ht))
      ((Program.size_remember _ _ _).trans hstore),
      hc.recall_remember (hpath s List.mem_cons_self) hstore]

/-! ## How a history is left -/

open Program (firstOpen branchOpen choiceAt)

/-- Of the branches of a history, which are numbered from `k`, the one for the stored value is
open. -/
theorem firstOpen_history {plans : Array (Plan V)} {h : HistoryId} {m : Machine V}
    {others : List StateId} {rows : List (BranchRow V)} {k : Nat} (i : Nat)
    (hrows : List.Forall₂
      (fun arm b => b.guard = arm.guard ∧ plans[b.plan]? = some (c.plan arm.request))
      ((others.zipIdx k).map fun x =>
        (⟨.historyIs h x.2, .move (.pseudo r) (.state x.1) none⟩ : Arm V)) rows) :
    (firstOpen r m rows i).2 = [] ∧
      match (firstOpen r m rows i).1 with
      | some (_, q) => ∃ s, k ≤ m.history.get h ∧ others[m.history.get h - k]? = some s ∧
          plans[q]? = some (c.plan (.move (.pseudo r) (.state s) none))
      | none => m.history.get h < k ∨ others.length ≤ m.history.get h - k := by
  induction others generalizing rows k i with
  | nil =>
    cases hrows
    exact ⟨rfl, .inr (Nat.zero_le _)⟩
  | cons t others ih =>
    rw [List.zipIdx_cons, List.map_cons] at hrows
    cases hrows with
    | cons hfirst hrest =>
      next b rows =>
      obtain ⟨hguard, hplan⟩ := hfirst
      rw [firstOpen, hguard]
      by_cases hv : m.history.get h = k
      · simp only [branchOpen, hv, beq_self_eq_true, if_true]
        exact ⟨trivial, t, Nat.le_refl k, by simp, hplan⟩
      · obtain ⟨htested, hfound⟩ := ih (i + 1) hrest
        simp only [branchOpen, beq_iff_eq, hv, if_false, htested, List.append_nil]
        refine ⟨trivial, ?_⟩
        cases hopen : (firstOpen r m rows (i + 1)).1 with
        | some found =>
          rw [hopen] at hfound
          obtain ⟨s, hle, hget, hq⟩ := hfound
          refine ⟨s, by omega, ?_, hq⟩
          rw [show m.history.get h - k = m.history.get h - (k + 1) + 1 by omega]
          exact hget
        | none =>
          rw [hopen] at hfound
          show m.history.get h < k ∨ others.length + 1 ≤ m.history.get h - k
          omega

/-- A history leads back to the state that it recalls, unless its branch leads there anyway. -/
theorem planOf_history {node : PseudoNode V} {depth : HistoryDepth} {b : Branch V}
    {plans : Array (Plan V)} {row : PseudoRow V} (hr : c.pseudostates[r]? = some node)
    (hk : node.kind = .history depth) (hb : node.branches.toList = [b])
    (hrow : node.CompiledTo c plans r row) (m : Machine V) :
    (firstOpen r m row.branches 0).2 = [] ∧
      ∃ request ∈ node.requests r c.historySlots,
        plans[row.planOf (choiceAt row r m)]? = some (c.plan request) ∧
        request =
          match (c.program.recall m.history r).filter fun s => b.target != some (.state s) with
          | some s => .move (.pseudo r) (.state s) none
          | none => node.fallback r := by
  obtain ⟨h, slot, hfind, hslot, hslot?, harms⟩ := PseudoNode.arms_of_history hr hk
  have hbranches := hrow.branches
  rw [harms] at hbranches
  obtain ⟨htested, hfound⟩ := firstOpen_history (m := m) 0 hbranches
  have hrecall : c.program.recall m.history r =
      ((node.trackedDefault (c.tracked node.container depth) ::
        (node.others (c.tracked node.container depth)).map some)[m.history.get h]?).join := by
    rw [historySlot?_of_history hr hk] at hslot?
    rw [recall_of_historySlot? hfind hslot, ← Option.some.inj hslot?, List.getElem?_toArray]
  refine ⟨htested, ?_⟩
  rw [Program.planOf_choiceAt, hrecall, PseudoNode.requests_of_history hr hk]
  cases hopen : (firstOpen r m row.branches 0).1 with
  | some found =>
    rw [hopen] at hfound
    obtain ⟨s, hle, hget, hplan⟩ := hfound
    -- The value is that of another state than the default.
    have hother := (PseudoNode.mem_others hb).1 (List.mem_of_getElem? hget)
    refine ⟨_, List.mem_append_left _ (List.mem_map_of_mem (List.mem_of_getElem? hget)), hplan, ?_⟩
    rw [show m.history.get h = m.history.get h - 1 + 1 by omega, List.getElem?_cons_succ,
      List.getElem?_map, hget]
    simp [Option.filter, hother.2]
  | none =>
    rw [hopen] at hfound
    have hnone : ((node.trackedDefault (c.tracked node.container depth) ::
        (node.others (c.tracked node.container depth)).map some)[m.history.get h]?.join.filter
          fun s => b.target != some (.state s)) = none := by
      rw [Option.filter_eq_none_iff]
      intro s hs
      cases hv : m.history.get h with
      | zero =>
        rw [hv, List.getElem?_cons_zero] at hs
        simp [((PseudoNode.trackedDefault_eq hb).1 hs).1]
      | succ v =>
        rw [hv, List.getElem?_cons_succ, List.getElem?_eq_none (by simp; omega)] at hs
        simp at hs
    rw [hnone]
    exact ⟨_, List.mem_append_right _ (List.mem_singleton_self _), hrow.fallback, rfl⟩

end Chart

end Statechart
