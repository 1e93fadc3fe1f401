import Statechart.Proofs.DeepPair
import Statechart.Proofs.TreeRuns

/-
  Runs of the two deep chains. A flip leads from the innermost state of one chain to that of the
  other and turns at the root (`Innermost.exists_react`), so each flip leaves and enters as many
  states as a chain has. `Flipped` is what holds of a machine so many flips after its start.
-/

namespace Statechart

/-- Of equal priority, all are tried as declared. -/
theorem byPriority_eq_self {α : Type} {priority : α → Priority} {xs : List α} {p : Priority}
    (h : ∀ x ∈ xs, priority x = p) : byPriority priority xs = xs := by
  refine List.mergeSort_of_pairwise (List.pairwise_iff_forall_sublist.2 fun {a b} hab => ?_)
  rw [h a (hab.subset (by simp)), h b (hab.subset (by simp))]
  exact decide_eq_true p.not_before_self

namespace Samples.DeepPair

variable {side : String} {first target : StateId} {depth i : Nat} {c : Chart Counters}

/-! ## Behaviors -/

theorem Spans.behaviorsOn (h : Spans c side first depth target) (hi : i < depth)
    (trigger : Trigger) :
    c.behaviorsOn (first + i) trigger =
      (counting ++ if i + 1 = depth then [jump target] else []).filter
        (·.trigger == trigger) := by
  obtain ⟨node, hnode, -⟩ := Option.map_eq_some_iff.1 (h i hi)
  have hbehaviors := h.behaviors hi hnode
  have hpriority : ∀ b ∈ node.behaviors.toList, b.priority = .unordered := by
    rw [hbehaviors]
    split <;> simp [counting, jump, Behavior.ofClauses, Behavior.amend, Branch.amend]
  rw [Chart.behaviorsOn, hnode]
  simp only
  rw [byPriority_eq_self hpriority, hbehaviors]

/-- What a state of a chain does on a boundary does not depend on where in the chain it is. -/
theorem Spans.behaviorsOn_boundary (h : Spans c side first depth target) (hi : i < depth)
    (b : Boundary) :
    c.behaviorsOn (first + i) (.boundary b) = counting.filter (·.trigger == .boundary b) := by
  rw [h.behaviorsOn hi, List.filter_append]
  split
  · exact List.append_nil _
  · exact List.append_nil _

/-- The innermost state of a chain, below all others of it. -/
structure Innermost (c : Chart Counters) (depth : Nat) (leaf target : StateId)
    (chain : List StateId) : Prop where
  ancestors : c.hierarchy.ancestors leaf = chain ++ [rootState]
  length : chain.length = depth
  root : rootState ∉ chain
  counts : ∀ s ∈ chain, ∀ b,
    c.behaviorsOn s (.boundary b) = counting.filter (·.trigger == .boundary b)
  jumps : c.behaviorsOn leaf (.event 1) = [jump target]
  leaf : c.initialOf leaf = none

theorem Spans.innermost (h : Spans c side first depth target) (hc : c.Linked) (hfirst : 0 < first)
    (hdepth : 0 < depth) (hinitial : c.initialOf (first + (depth - 1)) = none) :
    Innermost c depth (first + (depth - 1)) target (List.range' first depth).reverse where
  ancestors := by
    rw [h.ancestors hc (Nat.sub_lt hdepth Nat.one_pos), Nat.sub_add_cancel hdepth]
  length := by simp
  root := by
    simp only [List.mem_reverse, List.mem_range'_1, rootState]
    lia
  counts s hs b := by
    rw [List.mem_reverse, List.mem_range'_1] at hs
    obtain ⟨i, rfl⟩ := Nat.exists_eq_add_of_le hs.1
    exact h.behaviorsOn_boundary (by lia) b
  jumps := by
    rw [h.behaviorsOn (Nat.sub_lt hdepth Nat.one_pos), if_pos (Nat.sub_add_cancel hdepth)]
    rfl
  leaf := hinitial

namespace Paired

variable (h : Paired depth c) (hdepth : 0 < depth)

include h

/-- Only the root has a way in. -/
theorem initialOf_eq_none {s : StateId} (hs : s ≠ rootState) : c.initialOf s = none := by
  rw [← Option.not_isSome_iff_eq_none, h.linked.initialOf_isSome_iff]
  rintro ⟨node, hnode, hcontainer, -⟩
  obtain rfl := Chart.eq_wayIn_of_mem h.pseudostates hnode
  exact hs hcontainer.symm

include hdepth

theorem innermost_left :
    Innermost c depth depth (2 * depth) (List.range' 1 depth).reverse := by
  have hleaf : 1 + (depth - 1) = depth := by lia
  have hleft := h.left.innermost h.linked Nat.one_pos hdepth
    (h.initialOf_eq_none (by rw [hleaf]; exact Nat.ne_of_gt hdepth))
  rwa [hleaf] at hleft

theorem innermost_right :
    Innermost c depth (2 * depth) depth (List.range' (depth + 1) depth).reverse := by
  have hleaf : depth + 1 + (depth - 1) = 2 * depth := by lia
  have hright := h.right.innermost h.linked (Nat.succ_pos depth) hdepth
    (h.initialOf_eq_none (by rw [hleaf, rootState]; lia))
  rwa [hleaf] at hright

end Paired

/-! ## Walks -/

/-- One step for each state of a path, each of which counts. -/
theorem vars_foldl {step : Walker Counters → StateId → Walker Counters} {path : List StateId}
    (count : Nat → Counters → Counters) (hzero : ∀ x, count 0 x = x)
    (hsucc : ∀ k x, count k (count 1 x) = count (k + 1) x)
    (hstep : ∀ s ∈ path, ∀ w, (step w s).vars = count 1 w.vars) (w : Walker Counters) :
    (path.foldl step w).vars = count path.length w.vars := by
  induction path generalizing w with
  | nil => exact (hzero w.vars).symm
  | cons s path ih =>
    rw [List.foldl_cons, ih (fun t ht => hstep t (List.mem_cons_of_mem s ht)),
      hstep s List.mem_cons_self, hsucc, List.length_cons]

theorem vars_foldl_enter {path : List StateId}
    (hcounts : ∀ s ∈ path, c.behaviorsOn s (.boundary .enter) =
      counting.filter (·.trigger == .boundary .enter)) (w : Walker Counters) :
    (path.foldl c.enter w).vars = { w.vars with enters := w.vars.enters + path.length } := by
  refine vars_foldl (fun k x => { x with enters := x.enters + k }) (fun x => rfl) (fun k x => ?_)
    (fun s hs w => ?_) w
  · simp only [Nat.add_assoc, Nat.add_comm 1]
  · rw [Chart.enter, hcounts s hs]
    rfl

theorem vars_foldl_leave {path : List StateId}
    (hcounts : ∀ s ∈ path, c.behaviorsOn s (.boundary .exit) =
      counting.filter (·.trigger == .boundary .exit)) (w : Walker Counters) :
    (path.foldl c.leave w).vars = { w.vars with exits := w.vars.exits + path.length } := by
  refine vars_foldl (fun k x => { x with exits := x.exits + k }) (fun x => rfl) (fun k x => ?_)
    (fun s hs w => ?_) w
  · simp only [Nat.add_assoc, Nat.add_comm 1]
  · rw [Chart.leave, hcounts s hs]
    rfl

namespace Innermost

variable {leaf other target' : StateId} {chain chain' : List StateId}

theorem chain_eq (h : Innermost c depth leaf target chain) :
    c.hierarchy.chain leaf rootState = chain := by
  rw [Hierarchy.chain, h.ancestors, List.takeWhile_append_of_pos]
  · simp
  · intro s hs
    simpa using fun heq : s = rootState => h.root (heq ▸ hs)

/-- From wherever a walk turns at the root, it leaves what is below and enters the whole chain. -/
theorem exists_follow (h : Innermost c depth leaf target chain) {source : Vertex} {n : Nat}
    {w : Walker Counters} (hstays : c.stays source (.state leaf) = some rootState)
    (hcounts : ∀ s ∈ c.hierarchy.chain w.place rootState,
      c.behaviorsOn s (.boundary .exit) = counting.filter (·.trigger == .boundary .exit)) :
    ∃ w', c.follow (n + 1) source (.state leaf) none w = some w' ∧ w'.place = leaf ∧
      w'.vars = ⟨w.vars.enters + depth,
        w.vars.exits + (c.hierarchy.chain w.place rootState).length⟩ := by
  have honward : c.onward (.state leaf) = none := h.leaf
  refine ⟨_, by simp only [Chart.follow, Chart.go, hstays, honward]; rfl, rfl, ?_⟩
  change ((c.hierarchy.chain leaf rootState).reverse.foldl c.enter
    ((c.hierarchy.chain w.place rootState).foldl c.leave w)).vars = _
  rw [h.chain_eq, vars_foldl_enter fun s hs => h.counts s (List.mem_reverse.1 hs) .enter,
    vars_foldl_leave hcounts, List.length_reverse, h.length]

/-- Between the innermost states of two chains a walk turns at the root. -/
theorem stays_eq (h : Innermost c depth leaf target chain)
    (h' : Innermost c depth other target' chain') (hdepth : 0 < depth)
    (hdisjoint : ∀ s ∈ chain, s ∉ chain') :
    c.stays (.state leaf) (.state other) = some rootState := by
  obtain ⟨x, chain', rfl⟩ := List.exists_cons_of_length_pos (h'.length.symm ▸ hdepth)
  have hholders : c.holders (.state other) = chain' ++ [rootState] := by
    rw [Chart.holders, h'.ancestors]
    rfl
  have hnone : chain.find? (c.holders (.state other)).contains = none := by
    rw [List.find?_eq_none]
    intro s hs
    rw [hholders]
    have hroot : s ≠ rootState := fun heq => h.root (heq ▸ hs)
    have hother := hdisjoint s hs
    simp_all
  change (c.hierarchy.ancestors leaf).find? _ = _
  rw [h.ancestors, List.find?_append, hnone, hholders]
  simp

/-- A flip leaves one whole chain and enters the other. -/
theorem exists_react (h : Innermost c depth leaf other chain)
    (h' : Innermost c depth other target' chain') (hdepth : 0 < depth)
    (hdisjoint : ∀ s ∈ chain, s ∉ chain') {w : Walker Counters} (hplace : w.place = leaf) :
    ∃ w', c.react 1 w = some (w', .transitioned) ∧ w'.place = other ∧
      w'.vars = ⟨w.vars.enters + depth, w.vars.exits + depth⟩ := by
  have hchain : c.hierarchy.chain w.place rootState = chain := hplace ▸ h.chain_eq
  obtain ⟨w', hfollow, hplace', hvars⟩ :=
    h'.exists_follow (w := w.log [.fired leaf true]) (n := c.pseudostates.size)
      (h.stays_eq h' hdepth hdisjoint)
      (fun s hs => h.counts s (hchain ▸ hs) .exit)
  refine ⟨w', ?_, hplace', ?_⟩
  · have hoffer : c.offer leaf 1 [jump other] w .noMatch false =
        some (w', .transitioned, true) := by
      change (c.follow (c.pseudostates.size + 1) (.state leaf) (.state other) none
        (w.log [.fired leaf true])).bind _ = _
      rw [hfollow]
      rfl
    rw [Chart.react, hplace, ← Hierarchy.cons_tail_ancestors, Chart.visit, h.jumps, hoffer]
    rfl
  · rw [hvars]
    change (⟨_, w.vars.exits + (c.hierarchy.chain w.place rootState).length⟩ : Counters) = _
    rw [hchain, h.length]
    rfl

end Innermost

namespace Paired

variable (h : Paired depth c)

include h

theorem initialOf_rootState : c.initialOf rootState = some 0 := by
  have howns : c.Owns rootState .initial :=
    ⟨_, by rw [h.pseudostates]; exact List.mem_singleton_self _, rfl, rfl⟩
  obtain ⟨r, hr⟩ := Option.isSome_iff_exists.1 (h.linked.initialOf_isSome_iff.2 howns)
  obtain ⟨node, hnode, -⟩ := h.linked.find?_some hr
  rw [hr, (Chart.eq_wayIn_of_getElem? h.pseudostates hnode).1]

/-- There is no history. -/
theorem note_eq (memory : PseudoId → Option StateId) (s : StateId) : c.note memory s = memory := by
  funext r
  have hremembers : c.remembers r s = false := by
    rw [Chart.remembers]
    split
    · next node hnode =>
      obtain ⟨-, rfl⟩ := Chart.eq_wayIn_of_getElem? h.pseudostates hnode
      rfl
    · rfl
  rw [Chart.note, hremembers]
  rfl

theorem enter_rootState (w : Walker Counters) :
    c.enter w rootState = w.log [.entered rootState] := by
  have hnone : c.behaviorsOn rootState (.boundary .enter) = [] := by
    obtain ⟨node, hnode, heq⟩ := Option.map_eq_some_iff.1 h.root
    have hbehaviors : node.behaviors.toList = [] := congrArg Declaration.behaviors heq
    rw [Chart.behaviorsOn, hnode]
    simp [hbehaviors, byPriority]
  rw [Chart.enter, hnone, h.note_eq]
  rfl

theorem wayOut_eq {w : Walker Counters} (hmemory : w.memory 0 = none) :
    c.wayOut 0 w = some (.state depth, none, w.log [.passed 0]) := by
  have hbranches : c.branchesOf 0 = [{ target := some (.state depth) }] := by
    simp [Chart.branchesOf, h.pseudostates, byPriority]
  rw [Chart.wayOut, hmemory, hbranches]
  rfl

theorem stays_initial (hdepth : 0 < depth) :
    c.stays (.pseudo 0) (.state depth) = some rootState := by
  have hlanding : c.landing (.pseudo 0) = rootState := by
    simp [Chart.landing, Chart.containerOf, h.pseudostates]
  have hinside : (c.holders (.state depth)).contains rootState = true :=
    List.contains_iff_mem.2 (h.inside hdepth)
  rw [Chart.stays, hlanding, h.linked.ancestors_rootState, List.find?_cons_of_pos hinside]

/-- The way in leads from the root to the innermost state of the left chain. -/
theorem exists_begin (hdepth : 0 < depth) {w : Walker Counters} (hmemory : w.memory 0 = none) :
    ∃ w', c.begin w = some w' ∧ w'.place = depth ∧
      w'.vars = ⟨w.vars.enters + depth, w.vars.exits⟩ := by
  let inRoot : Walker Counters := { w with place := rootState }
  obtain ⟨w', hfollow, hplace, hvars⟩ :=
    (h.innermost_left hdepth).exists_follow (n := c.pseudostates.size)
      (w := (inRoot.log [.entered rootState]).log [.passed 0]) (h.stays_initial hdepth) (by
        change ∀ s ∈ c.hierarchy.chain rootState rootState, _
        simp [Hierarchy.chain_self])
  refine ⟨w', ?_, hplace, hvars.trans ?_⟩
  · rw [Chart.begin, h.initialOf_rootState]
    change (c.wayOut 0 (c.enter inRoot rootState)).bind _ = _
    rw [h.enter_rootState, h.wayOut_eq (w := inRoot.log [.entered rootState]) hmemory]
    exact hfollow
  · change (⟨w.vars.enters + depth,
      w.vars.exits + (c.hierarchy.chain rootState rootState).length⟩ : Counters) = _
    rw [Hierarchy.chain_self]
    rfl

end Paired

/-! ## Runs -/

/-- Where a machine is after `n` flips. -/
def leafAfter (depth n : Nat) : StateId := if n % 2 = 0 then depth else 2 * depth

/-- A machine `n` flips after its start. -/
structure Flipped (c : Chart Counters) (depth n : Nat) (m : Machine Counters) : Prop where
  settled : m.Settled c.ordered.program (leafAfter depth n)
  vars : m.vars = ⟨depth * (n + 1), depth * n⟩

namespace Paired

variable (h : Paired depth c)

include h

theorem recall_eq_none (store : HistoryStore) : c.ordered.program.recall store 0 = none := by
  have hget := c.getElem?_pseudostates_ordered_eq_some (p := 0) (by rw [h.pseudostates]; rfl)
  exact Chart.recall_of_historySlot?_eq_none (Chart.historySlot?_of_not_history hget rfl)

variable (hdepth : 0 < depth)

include hdepth

/-- From either leaf a flip leads to the other. -/
theorem exists_react_leafAfter (n : Nat) {w : Walker Counters}
    (hplace : w.place = leafAfter depth n) :
    ∃ w', c.react 1 w = some (w', .transitioned) ∧ w'.place = leafAfter depth (n + 1) ∧
      w'.vars = ⟨w.vars.enters + depth, w.vars.exits + depth⟩ := by
  have hdisjoint : ∀ s ∈ (List.range' 1 depth).reverse,
      s ∉ (List.range' (depth + 1) depth).reverse := by
    simp only [List.mem_reverse, List.mem_range'_1]
    lia
  rw [leafAfter] at hplace ⊢
  split at hplace
  · rw [if_neg (by lia)]
    exact (h.innermost_left hdepth).exists_react (h.innermost_right hdepth) hdepth hdisjoint hplace
  · rw [if_pos (by lia)]
    exact (h.innermost_right hdepth).exists_react (h.innermost_left hdepth) hdepth
      (fun s hs hs' => hdisjoint s hs' hs) hplace

variable (hcompile : c.compile = .ok c.ordered.program)

include hcompile

theorem exists_start :
    ∃ m journal, c.ordered.program.start (c.ordered.program.machine {}) = some (m, journal) ∧
      Flipped c depth 0 m := by
  obtain ⟨m, journal, leaf, hstart, hm, hbegin⟩ := h.linked.exists_start hcompile
    (c.ordered.program.idle_machine {}).ready rootState []
  obtain ⟨w, hbegin', hplace, hvars⟩ := h.exists_begin hdepth
    (w := c.ordered.program.walker (c.ordered.program.machine {}) rootState [])
    (h.recall_eq_none _)
  obtain rfl := Option.some.inj (hbegin.symm.trans hbegin')
  obtain rfl : leaf = depth := hplace
  refine ⟨m, journal, hstart, hm, hvars.trans ?_⟩
  change (⟨0 + leaf, 0⟩ : Counters) = ⟨leaf * (0 + 1), leaf * 0⟩
  rw [Nat.zero_add, Nat.zero_add, Nat.mul_one, Nat.mul_zero]

/-- One flip. -/
theorem exists_flip {m : Machine Counters} {n : Nat} (hm : Flipped c depth n m) :
    ∃ m' journal, c.ordered.program.dispatch m 1 = some (m', journal, .transitioned) ∧
      Flipped c depth (n + 1) m' := by
  obtain ⟨m', journal, result, leaf, hdispatch, hm', hreact⟩ :=
    h.linked.exists_dispatch hcompile hm.settled (e := 1) (by rw [h.events]; decide) []
  obtain ⟨w, hreact', hplace, hvars⟩ := h.exists_react_leafAfter hdepth n
    (w := c.ordered.program.walker m (leafAfter depth n) []) rfl
  obtain ⟨rfl, rfl⟩ := Prod.mk.inj (Option.some.inj (hreact.symm.trans hreact'))
  obtain rfl : leaf = leafAfter depth (n + 1) := hplace
  refine ⟨m', journal, hdispatch, hm', hvars.trans ?_⟩
  change (⟨m.vars.enters + depth, m.vars.exits + depth⟩ : Counters) = _
  rw [hm.vars]
  rfl

/-- Any number of flips. -/
theorem exists_flips {m : Machine Counters} {k : Nat} (hm : Flipped c depth k m) (n : Nat) :
    ∃ m', c.ordered.program.performAll m (List.replicate n (.dispatch 1)) = some m' ∧
      Flipped c depth (k + n) m' := by
  induction n generalizing m k with
  | zero => exact ⟨m, rfl, hm⟩
  | succ n ih =>
    obtain ⟨m₁, journal, hdispatch, hm₁⟩ := h.exists_flip hdepth hcompile hm
    obtain ⟨m', hrest, hm'⟩ := ih hm₁
    refine ⟨m', ?_, by rwa [Nat.add_right_comm] at hm'⟩
    simp [List.replicate_succ, Program.performAll, Program.perform, hdispatch, hrest]

end Paired

end Samples.DeepPair

namespace Samples

open DeepPair

/-- Two chains can be built for each depth up to 31 and for no other. A flip leaves one whole chain
and enters the other, each time. -/
theorem deepPair_flips_forever (depth : Nat) :
    ((∃ pair, deepPair depth = .ok pair) ↔ 1 ≤ depth ∧ depth ≤ 31) ∧
    ((∃ error, deepPair depth = .error error) ↔ depth = 0 ∨ 32 ≤ depth) ∧
    ∀ pair, deepPair depth = .ok pair → pair.leftLeaf ≠ pair.rightLeaf ∧
      ∀ n, ∃ m, pair.program.performAll (pair.program.machine {})
          (.start :: List.replicate n (.dispatch pair.flip)) = some m ∧
        m.table.settled = some (if n % 2 = 0 then pair.leftLeaf else pair.rightLeaf) ∧
        m.vars = { enters := depth * (n + 1), exits := depth * n } ∧
        ∃ m' journal, pair.program.dispatch m pair.flip = some (m', journal, .transitioned) := by
  have hok : (∃ pair, deepPair depth = .ok pair) ↔ 1 ≤ depth ∧ depth ≤ 31 := by
    simp only [deepPair_eq_ok_iff, exists_and_left, exists_eq, and_true, maxDepth]
    lia
  refine ⟨hok, ?_, fun pair hpair => ?_⟩
  · have herror : (∃ error, deepPair depth = .error error) ↔
        ¬ ∃ pair, deepPair depth = .ok pair := by
      cases deepPair depth <;> simp
    rw [herror, hok]
    lia
  · obtain ⟨⟨hdepth, hlt⟩, rfl⟩ := deepPair_eq_ok_iff.1 hpair
    have hmax : 2 * depth + 1 ≤ maxNodes := by
      simp only [maxDepth, maxNodes] at hlt ⊢
      lia
    obtain ⟨-, h⟩ := paired_draft hdepth hmax
    have hcompile := ((h.wellFormed_iff hdepth).2 hlt).compile_eq h.linked (h.spansFit hmax)
    refine ⟨?_, fun n => ?_⟩
    · change depth ≠ 2 * depth
      lia
    · obtain ⟨m₀, journal₀, hstart, hm₀⟩ := h.exists_start hdepth hcompile
      obtain ⟨m, hflips, hm⟩ := h.exists_flips hdepth hcompile hm₀ n
      obtain ⟨m', journal, hdispatch, -⟩ := h.exists_flip hdepth hcompile hm
      rw [Nat.zero_add] at hm
      refine ⟨m, ?_, hm.settled.settled, hm.vars, m', journal, hdispatch⟩
      simp [Program.performAll, Program.perform, hstart, hflips]

theorem deepPair_flips_at_limit :
    ∃ pair m, deepPair 31 = .ok pair ∧
      pair.program.performAll (pair.program.machine {})
        (.start :: List.replicate 5 (.dispatch pair.flip)) = some m ∧
      m.table.settled = some pair.rightLeaf ∧ m.vars = { enters := 186, exits := 155 } ∧
      ∃ error, deepPair 32 = .error error := by
  obtain ⟨hok, -, hruns⟩ := deepPair_flips_forever 31
  obtain ⟨pair, hpair⟩ := hok.2 (by decide)
  obtain ⟨-, hflips⟩ := hruns pair hpair
  obtain ⟨m, hrun, hsettled, hvars, -⟩ := hflips 5
  exact ⟨pair, m, hpair, hrun, hsettled, hvars, (deepPair_flips_forever 32).2.1.2 (by decide)⟩

end Samples

end Statechart
