import Mathlib.Data.Set.Function
import Statechart.Proofs.Boundaries
import Statechart.Proofs.Restoring

/-
  How histories are laid out. Each tracked state has one value in its history, the default 0 and the
  others 1, 2, … (`bijOn_valueOf`); the table of remembered states reads this back
  (`remembered_eq_some_iff`). Entering a state writes its value once (`filter_writes`), and the
  pseudostate of the history has one branch for each value but 0, which leads to the state of that
  value (`Prepared.serves_history`).
-/

namespace Statechart

variable {V : Type}

namespace HistorySlot

/-- The value that stands for a state. -/
def valueOf (slot : HistorySlot) (s : StateId) : Nat := slot.values.toList.idxOf (some s)

variable {slot : HistorySlot} {s : StateId} {v : Nat}

/-- A state stands at its value and nowhere else. -/
theorem getElem?_values_eq_iff (hnodup : slot.values.toList.Nodup) :
    slot.values[v]? = some (some s) ↔ some s ∈ slot.values ∧ slot.valueOf s = v := by
  rw [← Array.getElem?_toList, ← Array.mem_toList_iff, valueOf]
  constructor
  · intro h
    obtain ⟨hlt, hget⟩ := List.getElem?_eq_some_iff.1 h
    exact ⟨List.mem_of_getElem? h, by rw [← hget, hnodup.idxOf_getElem]⟩
  · rintro ⟨hmem, rfl⟩
    exact List.getElem?_idxOf hmem

theorem map_snd_tracked (slot : HistorySlot) :
    slot.tracked.map Prod.snd = slot.values.toList.filterMap id := by
  rw [tracked, List.map_filterMap]
  conv_rhs => rw [← List.zipIdx_map_fst 0 slot.values.toList, List.filterMap_map]
  congr 1
  funext x
  obtain ⟨value, i⟩ := x
  cases value <;> rfl

theorem nodup_tracked (hnodup : slot.values.toList.Nodup) : (slot.tracked.map Prod.snd).Nodup := by
  rw [map_snd_tracked]
  refine hnodup.filterMap fun a a' s ha ha' => ?_
  exact ((Option.mem_def.1 ha).trans (Option.mem_def.1 ha').symm)

end HistorySlot

/-- Of pairs with different second components, at most one has a given one. -/
theorem filter_snd_eq_singleton {xs : List (Nat × StateId)} {v : Nat} {s : StateId}
    (hnodup : (xs.map Prod.snd).Nodup) (hmem : (v, s) ∈ xs) :
    xs.filter (·.2 == s) = [(v, s)] := by
  induction xs with
  | nil => cases hmem
  | cons x xs ih =>
    obtain ⟨hx, hnodup⟩ := List.nodup_cons.1 hnodup
    rcases List.mem_cons.1 hmem with rfl | hmem
    · have hrest : xs.filter (·.2 == s) = [] := by
        rw [List.filter_eq_nil_iff]
        intro y hy hys
        exact hx (List.mem_map.2 ⟨y, hy, by simpa using hys⟩)
      simp [hrest]
    · have hne : x.2 ≠ s := fun h => hx (h ▸ List.mem_map_of_mem (f := Prod.snd) hmem)
      rw [List.filter_cons_of_neg (by simpa using hne), ih hnodup hmem]

/-- Of items numbered from `k`, only the one with number `h` counts. -/
theorem flatMap_zipIdx_ite {α β : Type} (xs : List α) (g : α → List β) {k h : Nat} :
    ((xs.zipIdx k).flatMap fun x => if x.2 = h then g x.1 else []) =
      if k ≤ h then (xs[h - k]?).elim [] g else [] := by
  induction xs generalizing k with
  | nil => simp
  | cons x xs ih =>
    rw [List.zipIdx_cons, List.flatMap_cons, ih]
    rcases Nat.lt_trichotomy k h with hlt | rfl | hgt
    · rw [if_neg (by omega), if_pos (by omega), if_pos (by omega),
        show h - k = h - (k + 1) + 1 by omega]
      simp
    · simp
    · rw [if_neg (by omega), if_neg (by omega), if_neg (by omega)]
      rfl

namespace Chart

variable {c : Chart V} {r : PseudoId} {slot : HistorySlot} {h : HistoryId} {s : StateId} {v : Nat}

/-! ## The values of a slot -/

/-- Just the tracked states have a value. -/
theorem Linked.values_eq_iff (hc : c.Linked) (hslot : c.historySlot? r = some slot) :
    slot.values[v]? = some (some s) ↔
      c.Tracks slot.container slot.depth s ∧ slot.valueOf s = v := by
  rw [HistorySlot.getElem?_values_eq_iff (hc.nodup_values hslot), Array.mem_iff_getElem?,
    hc.exists_value_iff hslot, remembers_iff_of_historySlot? hslot]

theorem remembered_eq_some_iff (hslot : c.historySlots[h]? = some slot) :
    c.program.remembered h v = some s ↔ slot.values[v]? = some (some s) := by
  change ((c.historySlots[h]?).bind fun slot => slot.values[v]?).join = some s ↔ _
  rw [hslot, Option.bind_some, Option.join_eq_some_iff]

/-- Entering a state writes its value into a history that tracks it, and nothing into any other. -/
theorem Linked.filter_writes (hc : c.Linked) (hslot : c.historySlots[h]? = some slot)
    {row : StateRow V} (hs : c.program.states[s]? = some row) :
    row.writes.filter (·.history == h) =
      if c.Tracks slot.container slot.depth s then [⟨h, slot.valueOf s⟩] else [] := by
  have hslot? := mem_historySlots.1 (Array.mem_of_getElem? hslot)
  have hlt : s < c.states.size := by simpa using (Array.getElem?_eq_some_iff.1 hs).1
  rw [getElem?_states_program, Option.map_eq_some_iff] at hs
  obtain ⟨node, -, rfl⟩ := hs
  have hone : ∀ x : HistorySlot × Nat,
      ((x.1.tracked.filter (·.2 == s)).map fun v => HistoryWrite.mk x.2 v.1).filter
        (·.history == h) = if x.2 = h then
          (x.1.tracked.filter (·.2 == s)).map fun v => HistoryWrite.mk h v.1 else [] := by
    intro x
    rw [List.filter_map]
    by_cases hx : x.2 = h
    · simp [hx, Function.comp_def]
    · simp [hx, Function.comp_def]
  change ((c.historyWrites c.historySlots).getD s #[]).toList.filter (·.history == h) = _
  rw [toList_historyWrites hlt, List.filter_flatMap]
  simp only [hone]
  rw [flatMap_zipIdx_ite c.historySlots.toList fun slot =>
    (slot.tracked.filter (·.2 == s)).map fun v => HistoryWrite.mk h v.1]
  rw [if_pos (Nat.zero_le h), Nat.sub_zero, Array.getElem?_toList, hslot, Option.elim_some]
  by_cases htracks : c.Tracks slot.container slot.depth s
  · have hmem : (slot.valueOf s, s) ∈ slot.tracked :=
      HistorySlot.mem_tracked_iff.2 ((hc.values_eq_iff hslot?).2 ⟨htracks, rfl⟩)
    rw [if_pos htracks, filter_snd_eq_singleton
      (HistorySlot.nodup_tracked (hc.nodup_values hslot?)) hmem]
    rfl
  · rw [if_neg htracks, List.map_eq_nil_iff, List.filter_eq_nil_iff]
    rintro ⟨v, t⟩ hmem hts
    obtain rfl : t = s := by simpa using hts
    exact htracks ((hc.values_eq_iff hslot?).1 (HistorySlot.mem_tracked_iff.1 hmem)).1

section Values

variable (hc : c.Linked) {node : PseudoNode V} {depth : HistoryDepth} {default : Branch V}
  (hr : c.pseudostates[r]? = some node) (hk : node.kind = .history depth)
  (hdefault : node.branches.toList = [default]) (hslot : c.historySlot? r = some slot)

include hc hr hk hdefault hslot

/-- The value 0 stands for the default if that is a tracked state, and otherwise for nothing. -/
theorem Linked.values_zero_iff :
    slot.values[0]? = some (some s) ↔
      default.target = some (.state s) ∧ c.Tracks slot.container slot.depth s := by
  rw [historySlot?_of_history hr hk] at hslot
  cases hslot
  rw [List.getElem?_toArray, List.getElem?_cons_zero, Option.some_inj,
    PseudoNode.trackedDefault_eq hdefault, hc.mem_tracked]

/-- Tracked states have different values, and every value from 1 on is that of a state. -/
theorem Linked.bijOn_valueOf :
    Set.BijOn slot.valueOf {s | c.Tracks slot.container slot.depth s}
      {v | 1 ≤ v ∧ v ≤ (node.others (c.tracked node.container depth)).length ∨
        v = 0 ∧ ∃ s, default.target = some (.state s) ∧
          c.Tracks slot.container slot.depth s} := by
  have hzero := fun s => hc.values_zero_iff hr hk hdefault hslot (s := s)
  have hvalue := fun v s => hc.values_eq_iff hslot (v := v) (s := s)
  have hvalues : slot.values.toList = node.trackedDefault (c.tracked node.container depth) ::
      (node.others (c.tracked node.container depth)).map some := by
    rw [historySlot?_of_history hr hk] at hslot
    cases hslot
    rfl
  refine ⟨fun s hs => ?_, fun s hs t ht heq => ?_, fun v hv => ?_⟩
  · have hget := (hvalue _ s).2 ⟨hs, rfl⟩
    have hlt := (List.getElem?_eq_some_iff.1 (Array.getElem?_toList ▸ hget)).1
    rw [hvalues, List.length_cons, List.length_map] at hlt
    by_cases hv : slot.valueOf s = 0
    · exact .inr ⟨hv, s, (hzero s).1 (hv ▸ hget)⟩
    · exact .inl ⟨by omega, by omega⟩
  · have hget := ((hvalue _ s).2 ⟨hs, rfl⟩).symm.trans (heq ▸ (hvalue _ t).2 ⟨ht, rfl⟩)
    exact Option.some.inj (Option.some.inj hget)
  · rcases hv with ⟨hpos, hle⟩ | ⟨rfl, s, hs⟩
    · obtain ⟨s, hs⟩ : ∃ s, (node.others (c.tracked node.container depth))[v - 1]? = some s :=
        ⟨_, List.getElem?_eq_getElem (by omega)⟩
      have hmem := List.mk_mem_zipIdx_iff_le_and_getElem?_sub.2 ⟨hpos, hs⟩
      have hget : slot.values[v]? = some (some s) := by
        rw [← Array.getElem?_toList, hvalues]
        exact (HistorySlot.mem_zipIdx_one_iff.1 hmem).2
      exact ⟨s, (hvalue v s).1 hget⟩
    · exact ⟨s, (hvalue 0 s).1 ((hzero s).2 hs)⟩

end Values

/-- Histories are numbered in the order of their pseudostates. -/
theorem map_pseudo_historySlots (c : Chart V) :
    c.historySlots.toList.map (·.pseudo) =
      c.pseudoIds.filter fun r => (c.kind? r).any (·.isHistory) := by
  rw [historySlots, List.toList_toArray, List.map_filterMap, ← List.filterMap_eq_filter]
  congr 1
  funext r
  cases hr : c.pseudostates[r]? with
  | none => simp [historySlot?, kind?, hr, Option.guard]
  | some node =>
    cases hk : node.kind <;>
      simp [historySlot?, kind?, hr, hk, Option.guard, PseudoKind.isHistory]

/-! ## Branches of a history -/

/-- Branches guarded by different values are not open at once. -/
theorem countP_branchOpen_le_one {branches : List (BranchRow V)} {n : Nat}
    (hguards : branches.map (·.guard) = (List.range' 1 n).map (.historyIs h)) (m : Machine V) :
    branches.countP (fun b => (Program.branchOpen r m b.guard).1) ≤ 1 := by
  calc branches.countP (fun b => (Program.branchOpen r m b.guard).1)
      = (branches.map (·.guard)).countP fun guard => (Program.branchOpen r m guard).1 := by
        rw [List.countP_map]
        rfl
    _ = (List.range' 1 n).countP (m.history.get h == ·) := by
        rw [hguards, List.countP_map]
        rfl
    _ = (List.range' 1 n).count (m.history.get h) :=
        List.countP_congr fun v _ => by rw [beq_iff_eq, beq_iff_eq, eq_comm]
    _ ≤ 1 := List.nodup_iff_count_le_one.1 List.nodup_range' _

/-- How the history with number `h` is laid out. Its pseudostate is `node`, whose only branch is
`default`, and the row of that pseudostate is `row`. -/
structure LaidOut (c : Chart V) (p : Program V) (h : HistoryId) (slot : HistorySlot)
    (node : PseudoNode V) (default : Branch V) (row : PseudoRow V) : Prop where
  /-- No state is tracked twice. -/
  nodup : (slot.tracked.map Prod.snd).Nodup
  tracked : ∀ v s, (v, s) ∈ slot.tracked ↔
    c.Tracks slot.container slot.depth s ∧ slot.valueOf s = v
  bijOn : Set.BijOn slot.valueOf {s | c.Tracks slot.container slot.depth s}
    {v | 1 ≤ v ∧ v ≤ row.branches.length ∨ v = 0 ∧ ∃ s, default.target = some (.state s) ∧
      c.Tracks slot.container slot.depth s}
  zero : ∀ s, p.remembered h 0 = some s ↔
    default.target = some (.state s) ∧ c.Tracks slot.container slot.depth s
  remembered : ∀ v s, p.remembered h v = some s ↔
    c.Tracks slot.container slot.depth s ∧ slot.valueOf s = v
  writes : ∀ s stateRow, p.states[s]? = some stateRow →
    stateRow.writes.filter (·.history == h) =
      if c.Tracks slot.container slot.depth s then [⟨h, slot.valueOf s⟩] else []
  /-- There is one branch for each value but 0. -/
  guards : row.branches.map (·.guard) = (List.range' 1 row.branches.length).map (.historyIs h)
  plans : ∀ b ∈ row.branches, ∀ v, b.guard = .historyIs h v →
    ∃ s, p.remembered h v = some s ∧ p.Serves c node b.plan (.state s) none
  /-- Whatever is stored, at most one branch is open. -/
  single : ∀ m : Machine V,
    row.branches.countP (fun b => (Program.branchOpen slot.pseudo m b.guard).1) ≤ 1

/-- A prepared chart lays out its histories so. -/
theorem Prepared.exists_laidOut (hprepared : c.Prepared) (hroot : c.RootUntargeted)
    (hslot : c.historySlots[h]? = some slot) {node : PseudoNode V} {default : Branch V}
    (hr : c.pseudostates[slot.pseudo]? = some node) (hk : node.kind = .history slot.depth)
    (hdefault : node.branches.toList = [default]) :
    ∃ row, c.program.pseudostates[slot.pseudo]? = some row ∧
      c.LaidOut c.program h slot node default row := by
  have hc := hprepared.linked
  have hslot? := mem_historySlots.1 (Array.mem_of_getElem? hslot)
  obtain ⟨b, target, hb, -, ht⟩ :=
    (hprepared.rules node (Array.mem_toList_iff.2 (Array.mem_of_getElem? hr))).exists_sole
      (.inr (by rw [hk]; rfl))
  obtain rfl : b = default := by simpa [hdefault] using hb.symm
  obtain ⟨i, slot', row, hslot', hslot'?, hrow, -, hall⟩ :=
    hprepared.serves_history hroot hr hk hdefault ht
  obtain rfl : slot = slot' := Option.some.inj (hslot?.symm.trans hslot'?)
  obtain rfl : h = i := by
    rw [← Array.getElem?_toList] at hslot hslot'
    exact (List.getElem?_inj (List.getElem?_eq_some_iff.1 hslot).1 c.nodup_historySlots).1
      (hslot.trans hslot'.symm)
  have hlength : row.branches.length =
      (node.others (c.tracked node.container slot.depth)).length := by
    rw [← hall.length_eq, List.length_zipIdx]
  have hguards : row.branches.map (·.guard) =
      (List.range' 1 row.branches.length).map (.historyIs h) := by
    rw [hlength, ← List.zipIdx_map_snd, List.map_map]
    apply Eq.symm
    rw [← List.forall₂_eq_eq_eq, List.forall₂_map_left_iff, List.forall₂_map_right_iff]
    exact hall.imp fun x b hb => hb.1.symm
  have hvalue := fun v s => hc.values_eq_iff hslot? (v := v) (s := s)
  refine ⟨row, hrow, HistorySlot.nodup_tracked (hc.nodup_values hslot?), fun v s => ?_, ?_,
    fun s => ?_, fun v s => ?_, fun s stateRow hs => hc.filter_writes hslot hs, hguards,
    fun b hb v hguard => ?_, countP_branchOpen_le_one hguards⟩
  · rw [HistorySlot.mem_tracked_iff, hvalue]
  · rw [hlength]
    exact hc.bijOn_valueOf hr hk hdefault hslot?
  · rw [remembered_eq_some_iff hslot, hc.values_zero_iff hr hk hdefault hslot?]
  · rw [remembered_eq_some_iff hslot, hvalue]
  · obtain ⟨⟨s, v'⟩, -, hguard', hremembered, hserves⟩ := exists_of_forall₂_of_mem hall hb
    obtain ⟨-, rfl⟩ := BranchGuard.historyIs.inj (hguard'.symm.trans hguard)
    exact ⟨s, hremembered, hserves⟩

variable {p : Program V}

theorem LaidOut.of_ordered {node : PseudoNode V} {default : Branch V} {row : PseudoRow V}
    (hlaid : c.ordered.LaidOut p h slot node.ordered default row) :
    c.LaidOut p h slot node default row where
  nodup := hlaid.nodup
  tracked := by simpa using hlaid.tracked
  bijOn := by simpa using hlaid.bijOn
  zero := by simpa using hlaid.zero
  remembered := by simpa using hlaid.remembered
  writes := by simpa using hlaid.writes
  guards := hlaid.guards
  plans b hb v hguard := by simpa [serves_ordered] using hlaid.plans b hb v hguard
  single := hlaid.single

/-- The layout of histories is exact. Histories are numbered in the order of their pseudostates.
Each tracks just the states that its depth and the history continues ask for, each of them once and
under a value of its own; the values are those from 1 on, and 0 if the default is tracked. What is
remembered, written and compared agrees with these values. -/
theorem history_layout_exact (hc : c.Drafted) (hcompile : c.compile = .ok p) :
    p.histories.toList.map (·.pseudo) =
      (c.pseudoIds.filter fun r => (c.kind? r).any (·.isHistory)) ∧
    ∀ h slot, p.histories[h]? = some slot → ∃ node default row,
      c.pseudostates[slot.pseudo]? = some node ∧ node.kind = .history slot.depth ∧
      node.container = slot.container ∧ node.branches.toList = [default] ∧
      p.pseudostates[slot.pseudo]? = some row ∧ c.LaidOut p h slot node default row := by
  have hw := hc.linked.wellFormed_of_compile hcompile
  have hprepared := hw.prepared hc.linked
  obtain ⟨-, -, rfl⟩ := compile_eq_ok_iff.1 hcompile
  refine ⟨(map_pseudo_historySlots c.ordered).trans (by simp [pseudoIds]),
    fun h slot hslot => ?_⟩
  have hslot? := mem_historySlots.1 (Array.mem_of_getElem? hslot)
  obtain ⟨node, default, hnode, hk, hcont, hbranches, hsole⟩ := hprepared.exists_default hslot?
  have hr := c.getElem?_pseudostates_ordered_eq_some hnode
  obtain ⟨row, hrow, hlaid⟩ := hprepared.exists_laidOut (rootUntargeted_ordered.2 hw.root) hslot hr
    hk hsole
  exact ⟨node, default, row, hnode, hk, hcont, hbranches, hrow, hlaid.of_ordered⟩

theorem harbor_slot :
    (harbor.ordered.historySlots[0]?).map (fun slot => (slot.pseudo, slot.tracked)) =
      some (2, [(0, 5), (1, 3), (2, 4)]) := by decide +kernel

theorem harbor_history_layout_exact :
    ∃ p slot node default row, harbor.compile = .ok p ∧ p.histories[0]? = some slot ∧
      slot.tracked = [(0, 5), (1, 3), (2, 4)] ∧ harbor.pseudostates[2]? = some node ∧
      p.pseudostates[2]? = some row ∧ harbor.LaidOut p 0 slot node default row := by
  obtain ⟨p, hcompile⟩ := exists_ok_of_isOk harbor_compile_isOk
  obtain ⟨slot, hfound, hpair⟩ := Option.map_eq_some_iff.1 harbor_slot
  obtain ⟨hpseudo, htracked⟩ := Prod.mk.inj hpair
  have hslot : p.histories[0]? = some slot := by
    obtain ⟨-, -, rfl⟩ := compile_eq_ok_iff.1 hcompile
    exact hfound
  obtain ⟨node, default, row, hnode, -, -, -, hrow, hlaid⟩ :=
    (history_layout_exact harbor_drafted hcompile).2 0 slot hslot
  rw [hpseudo] at hnode hrow
  exact ⟨p, slot, node, default, row, hcompile, hslot, htracked, hnode, hrow, hlaid⟩

end Chart

end Statechart
