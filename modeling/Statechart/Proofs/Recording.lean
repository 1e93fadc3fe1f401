import Statechart.Proofs.Commands
import Statechart.Proofs.InRange

/-
  Histories record where the machine is. Values are stored only when states are entered, so in the
  midst of a transition a history may hold a state that has been left since. What holds at every
  moment is that no active state is forgotten: a history that tracks it remembers it or a state
  below it (`Chart.Covers`). A transition that settles has just entered the state in which it does,
  and then the innermost tracked state is remembered exactly (`Keeps.memory_eq`).
-/

namespace Statechart

variable {V : Type}

namespace Chart

/-! ## Tracked states -/

section Tracked

variable {c : Chart V} {container leaf q s t : StateId} {depth : HistoryDepth} {r : PseudoId}

/-- Of the states at or above `leaf`, `t` is the innermost that a history of this depth in
`container` tracks. -/
structure Innermost (c : Chart V) (container : StateId) (depth : HistoryDepth)
    (leaf t : StateId) : Prop where
  mem : t ∈ c.hierarchy.ancestors leaf
  tracks : c.Tracks container depth t
  below : ∀ x ∈ c.hierarchy.ancestors leaf, c.Tracks container depth x →
    x ∈ c.hierarchy.ancestors t

/-- Children of the container are tracked, whatever the depth. -/
theorem tracks_child (hq : c.hierarchy.parent q = some container) :
    c.Tracks container depth q := by
  unfold Tracks
  rw [Hierarchy.ancestors_of_parent hq, List.tail_cons]
  refine ⟨Hierarchy.self_mem_ancestors _ _, fun _ x hx hcontainer => ?_⟩
  obtain ⟨habove, hne⟩ := Hierarchy.mem_tail_ancestors.1 hcontainer
  exact absurd (Hierarchy.mem_ancestors_antisymm habove hx) hne

/-- Inside the container there is always a tracked state. -/
theorem exists_innermost (h : container ∈ (c.hierarchy.ancestors leaf).tail) :
    ∃ t, c.Innermost container depth leaf t := by
  induction leaf using c.hierarchy.parent_induction with
  | root s hs =>
    rw [Hierarchy.ancestors_of_root hs] at h
    cases h
  | step s q hs ih =>
    by_cases htracks : c.Tracks container depth s
    · exact ⟨s, Hierarchy.self_mem_ancestors _ s, htracks, fun x hx _ => hx⟩
    · rw [Hierarchy.ancestors_of_parent hs, List.tail_cons] at h
      by_cases hq : container = q
      · exact absurd (tracks_child (hq ▸ hs)) htracks
      · obtain ⟨t, hmem, ht, hbelow⟩ := ih (Hierarchy.mem_tail_ancestors.2 ⟨h, hq⟩)
        refine ⟨t, (Hierarchy.mem_ancestors_of_parent hs).2 (.inr hmem), ht, fun x hx hxt => ?_⟩
        rcases (Hierarchy.mem_ancestors_of_parent hs).1 hx with rfl | hx
        · exact absurd hxt htracks
        · exact hbelow x hx hxt

/-- A deep history tracks the settled state itself. -/
theorem Innermost.eq_of_deep (h : c.Innermost container depth leaf t) (hdepth : depth = .deep) :
    t = leaf := by
  obtain ⟨habove, hne⟩ := Hierarchy.mem_tail_ancestors.1 h.tracks.1
  have hleaf : c.Tracks container depth leaf := by
    refine ⟨Hierarchy.mem_tail_ancestors.2
      ⟨Hierarchy.mem_ancestors_trans habove h.mem, fun heq => ?_⟩, by simp [hdepth]⟩
    exact hne (Hierarchy.mem_ancestors_antisymm habove (heq ▸ h.mem))
  exact Hierarchy.mem_ancestors_antisymm h.mem
    (h.below leaf (Hierarchy.self_mem_ancestors _ leaf) hleaf)

/-- A shallow history goes no further down than a child that is not marked. -/
theorem Innermost.eq_of_shallow (h : c.Innermost container depth leaf t)
    (hdepth : depth = .shallow) (hq : q ∈ c.hierarchy.ancestors leaf)
    (hchild : c.hierarchy.parent q = some container) (hmarked : ¬ c.Owns q .historyContinue) :
    t = q := by
  have hq' : c.Tracks container depth q := tracks_child hchild
  by_contra hne
  have hbetween := Hierarchy.mem_tail_ancestors.2 ⟨h.below q hq hq', Ne.symm hne⟩
  exact hmarked (h.tracks.2 hdepth q hbetween hq'.1)

/-- The histories that remember a state are those that track it. -/
theorem remembers_iff : c.remembers r s ↔
    ∃ slot, c.historySlot? r = some slot ∧ c.Tracks slot.container slot.depth s := by
  cases h : c.historySlot? r with
  | none => simp [remembers_of_historySlot?_eq_none h]
  | some slot => simp [remembers_iff_of_historySlot? h]

end Tracked

/-! ## No active state is forgotten -/

section Covers

variable {c : Chart V} {memory : PseudoId → Option StateId} {a b leaf s t : StateId} {r : PseudoId}

/-- While `a` is innermost, every history that tracks an active state remembers it or another
tracked state below it. -/
def Covers (c : Chart V) (memory : PseudoId → Option StateId) (a : StateId) : Prop :=
  ∀ r, ∀ y ∈ c.hierarchy.ancestors a, c.remembers r y →
    ∃ x, memory r = some x ∧ c.remembers r x ∧ y ∈ c.hierarchy.ancestors x

/-- No active state is forgotten, and `leaf` itself is remembered exactly. -/
structure Keeps (c : Chart V) (memory : PseudoId → Option StateId) (leaf : StateId) : Prop where
  covers : c.Covers memory leaf
  own : ∀ r, c.remembers r leaf → memory r = some leaf

/-- No history tracks the root. -/
theorem Linked.covers_root (hc : c.Linked) (memory : PseudoId → Option StateId) :
    c.Covers memory rootState := by
  intro r y hy hremembers
  obtain ⟨slot, -, hcontainer, -⟩ := remembers_iff.1 hremembers
  have hroot : c.hierarchy.ancestors rootState = [rootState] :=
    Hierarchy.ancestors_of_root ((hc.parent_eq_none_iff hc.nonempty).2 rfl)
  rw [hroot, List.mem_singleton] at hy
  rw [hy, hroot] at hcontainer
  cases hcontainer

theorem Covers.up (h : c.Covers memory a) (hb : b ∈ c.hierarchy.ancestors a) :
    c.Covers memory b :=
  fun r y hy => h r y (Hierarchy.mem_ancestors_trans hy hb)

theorem Covers.enter (h : c.Covers memory a) (hb : c.hierarchy.parent b = some a) :
    c.Covers (c.note memory b) b := by
  intro r y hy hremembers
  unfold note
  by_cases hown : c.remembers r b
  · exact ⟨b, if_pos hown, hown, hy⟩
  · rw [if_neg hown]
    rcases (Hierarchy.mem_ancestors_of_parent hb).1 hy with rfl | hy
    · exact absurd hremembers hown
    · exact h r y hy hremembers

theorem Covers.descend {path : List StateId} (h : c.Covers memory a)
    (hpath : c.hierarchy.Descends a path) :
    c.Covers (path.foldl c.note memory) (path.getLastD a) := by
  induction path generalizing memory a with
  | nil => exact h
  | cons b path ih =>
    rw [List.getLastD_cons]
    exact ih (h.enter hpath.1) hpath.2

/-- What was entered last is remembered by all that track it. -/
theorem own_of_getLast? {path : List StateId} (hlast : path.getLast? = some s)
    (hr : c.remembers r s) : path.foldl c.note memory r = some s := by
  obtain ⟨front, rfl⟩ := List.getLast?_eq_some_iff.1 hlast
  rw [List.foldl_append]
  exact if_pos hr

/-- At rest, a history remembers the innermost state that it tracks. Were it a state further down,
the innermost would be marked, and its child on the way to `leaf` would be tracked as well. -/
theorem Keeps.memory_eq {slot : HistorySlot} (h : c.Keeps memory leaf)
    (hslot : c.historySlot? r = some slot)
    (ht : c.Innermost slot.container slot.depth leaf t) : memory r = some t := by
  have hremembers : ∀ {s}, c.remembers r s ↔ c.Tracks slot.container slot.depth s :=
    remembers_iff_of_historySlot? hslot
  obtain ⟨x, hx, hxr, htx⟩ := h.covers r t ht.mem (hremembers.2 ht.tracks)
  by_cases hleaf : t = leaf
  · exact hleaf ▸ h.own r (hremembers.2 (hleaf ▸ ht.tracks))
  · rw [hx, Option.some.injEq]
    by_contra hne
    obtain ⟨b, hb, hparent⟩ := Hierarchy.exists_child ht.mem hleaf
    have htracks : c.Tracks slot.container slot.depth b := by
      refine ht.tracks.child hparent fun hdepth => ?_
      exact (hremembers.1 hxr).2 hdepth t (Hierarchy.mem_tail_ancestors.2 ⟨htx, Ne.symm hne⟩)
        ht.tracks.1
    have hle := Hierarchy.le_of_mem_ancestors (ht.below b hb htracks)
    have hlt := c.hierarchy.parent_lt hparent
    lia

end Covers

end Chart

/-! ## In a machine -/

/-- A plan that settles has just entered the state in which it does. -/
def Plan.Lands (plan : Plan V) : Prop :=
  ∀ s, plan.next = .settle s → plan.enter.getLast? = some s

namespace Chart

variable {c : Chart V} {m m' : Machine V} {active leaf : StateId} {q : PlanId} {plan : Plan V}
  {journal : Journal V}

theorem Prepared.lands_move (h : c.Prepared) {source target : Vertex} (ha : c.Admits source target)
    (action : Option (Action V)) : (c.plan (.move source target action)).Lands := by
  intro s hs
  rw [h.next_move ha action] at hs
  obtain rfl : target = .state s := by
    cases target with
    | pseudo r => cases hs
    | state t =>
      unfold continuation at hs
      cases hinitial : c.initialOf t <;> simp_all
  obtain ⟨way, hway, hplan, -⟩ := h.exists_way ha action
  have hj := h.linked.joined ha.lt (h.linked.landing_lt ha.isTarget)
  rw [← c.holder_sourceAnchor, ← c.holder_targetAnchor] at hj
  -- The turn lies strictly above the target, so at least the target is entered.
  obtain ⟨-, -, hturn⟩ := Hierarchy.turn_mem hj (Hierarchy.path_ok_inv hway).1
  obtain ⟨-, -, hlast⟩ := Hierarchy.descends_path hj hway
  rw [c.holder_targetAnchor, List.getLastD_eq_getLast?] at hlast
  rw [hplan]
  show way.enter.getLast? = some s
  cases henter : way.enter.getLast? with
  | some t =>
    rw [henter] at hlast
    exact congrArg some hlast
  | none =>
    rw [henter] at hlast
    exact absurd (congrArg Anchor.state hlast.symm) hturn

/-- So does every plan of a pseudostate through which a way may lead. -/
theorem Prepared.lands_of_row (h : c.Prepared) (hroot : c.RootUntargeted) {row : PseudoRow V}
    (hrow : row ∈ c.program.pseudostates) (hk : row.kind ≠ .historyContinue)
    (hq : q ∈ row.planIds) (hplan : c.program.plans[q]? = some plan) : plan.Lands := by
  obtain ⟨r, node, hr, -, hcompiled⟩ := exists_node_of_mem_pseudostates hrow
  obtain ⟨request, hrequest, hget⟩ := exists_request_of_mem_planIds hcompiled hq
  obtain ⟨t, a, rfl, ha⟩ := h.admits_of_mem_requests hroot hr (hcompiled.kind ▸ hk) hrequest
  obtain rfl := Option.some.inj (hget.symm.trans hplan)
  exact h.lands_move ha a

/-- Running a plan forgets no active state. -/
theorem Linked.covers_travels (hc : c.Linked) {m₁ : Machine V}
    (ht : c.program.Travels m active q plan m₁)
    (h : c.Covers (c.program.recall m.history) active) :
    c.Covers (c.program.recall m₁.history) (plan.arrival active) ∧
      c.program.recall m₁.history = plan.enter.foldl c.note (c.program.recall m.history) := by
  have hpath := Program.lt_of_descends ht.fits.enter
  rw [size_states_program] at hpath
  have hrecall := hc.recall_foldl_remember hpath ht.start.store
  rw [← ht.history] at hrecall
  have hup : plan.exitTo.getD active ∈ c.hierarchy.ancestors active := by
    rw [← hierarchy_program]
    cases hexit : plan.exitTo with
    | none => exact Hierarchy.self_mem_ancestors _ _
    | some t => exact ht.fits.turn t hexit
  have henter := ht.fits.enter
  rw [hierarchy_program] at henter
  rw [hrecall]
  exact ⟨(h.up hup).descend henter, rfl⟩

/-- A transition settles with its state remembered: the last plan has just entered it, or there was
but one plan and it stayed where it was. -/
theorem Prepared.keeps_of_executes (h : c.Prepared) (hroot : c.RootUntargeted) {n : Nat}
    (hexec : c.program.Executes n m active q m' journal)
    (hcovers : c.Covers (c.program.recall m.history) active)
    (hq : ∀ plan, c.program.plans[q]? = some plan → plan.Lands ∨
      plan.exitTo = none ∧ plan.enter = [] ∧ c.Keeps (c.program.recall m.history) active) :
    ∃ s, m'.table.settled = some s ∧ c.Keeps (c.program.recall m'.history) s := by
  induction hexec with
  | @settle n m active q plan m₁ s ht hnext =>
    obtain ⟨hcovers₁, hrecall⟩ := h.linked.covers_travels ht hcovers
    have harrives := ht.fits.next
    rw [hnext] at harrives
    obtain rfl := harrives.1
    refine ⟨_, rfl, hcovers₁, fun r hr => ?_⟩
    show c.program.recall m₁.history r = _
    rw [hrecall]
    rcases hq plan ht.plan_eq with hlands | ⟨hexit, henter, hkeeps⟩
    · exact own_of_getLast? (hlands _ hnext) hr
    · have hstay : plan.arrival active = active := by
        unfold Plan.arrival
        rw [hexit, henter]
        rfl
      rw [hstay] at hr ⊢
      rw [henter]
      exact hkeeps.own r hr
  | @pass n m active q plan m₁ r row m' rest ht hnext hr hrest ih =>
    obtain ⟨hcovers₁, -⟩ := h.linked.covers_travels ht hcovers
    have harrives := ht.fits.next
    rw [hnext] at harrives
    obtain ⟨row', hr', -, hk⟩ := harrives
    obtain rfl := Option.some.inj (hr'.symm.trans hr)
    exact ih hcovers₁ fun plan' hplan' => .inl
      (h.lands_of_row hroot (Array.mem_of_getElem? hr) hk (PseudoRow.planOf_mem_planIds _ _) hplan')

/-- The histories of a machine at rest record where it is. -/
def Recorded (c : Chart V) (m : Machine V) : Prop :=
  ∀ leaf, m.table.settled = some leaf → c.Keeps (c.program.recall m.history) leaf

theorem Prepared.recorded_performs (h : c.Prepared) (hroot : c.RootUntargeted)
    {command : Command V} (hclear : ¬ command.clears) (hm : c.Recorded m)
    (hperforms : c.program.Performs m command m' journal) : c.Recorded m' := by
  have hdone : (∃ s, m'.table.settled = some s ∧ c.Keeps (c.program.recall m'.history) s) →
      c.Recorded m' := by
    rintro ⟨s, hs, hkeeps⟩ leaf hleaf
    exact Option.some.inj (hs.symm.trans hleaf) ▸ hkeeps
  cases hperforms with
  | start _ hstarts =>
    cases hstarts with
    | intro _ _ _ hr hk hexec =>
      exact hdone (h.keeps_of_executes hroot hexec (h.linked.covers_root _) fun plan hplan => .inl
        (h.lands_of_row hroot (Array.mem_of_getElem? hr) hk (PseudoRow.planOf_mem_planIds _ _)
          hplan))
  | unheard => exact hm
  | dispatch e hsettled houtcome =>
    cases houtcome with
    | stay => exact hm
    | move vars _ hexec =>
      have hkeeps := hm _ hsettled.settled
      refine hdone (h.keeps_of_executes hroot hexec hkeeps.covers fun plan hplan => ?_)
      rcases h.of_mem_plans hroot (Array.mem_of_getElem? hplan) with
        ⟨s, -, rfl⟩ | ⟨source, target, action, ha, rfl⟩
      · exact .inr ⟨rfl, rfl, hkeeps⟩
      · exact .inl (h.lands_move ha action)
  | clear => simp [Command.clears] at hclear
  | assign => exact hm

theorem Prepared.recorded_performsAll (h : c.Prepared) (hroot : c.RootUntargeted)
    {commands : List (Command V)} (hclear : ∀ x ∈ commands, ¬ x.clears) (hm : c.Recorded m)
    (hperforms : c.program.PerformsAll m commands m' journal) : c.Recorded m' := by
  induction hperforms with
  | nil => exact hm
  | cons hfirst hrest ih =>
    exact ih (fun x hx => hclear x (List.mem_cons_of_mem _ hx))
      (h.recorded_performs hroot (hclear _ List.mem_cons_self) hm hfirst)

end Chart

/-! ## Stored values -/

/-- Every stored value stands for something. -/
def Program.Holds (p : Program V) (store : HistoryStore) : Prop :=
  ∀ (h : HistoryId) (slot : HistorySlot), p.histories[h]? = some slot →
    store.get h < slot.values.size

namespace Program

variable {p : Program V} {store : HistoryStore}

theorem Holds.set (hs : p.Holds store) {w : HistoryWrite} (hw : p.HasValue w.history w.value) :
    p.Holds (store.set w.history w.value) := by
  intro h slot hslot
  by_cases hne : w.history = h
  · subst hne
    obtain ⟨slot', hslot', hlt⟩ := hw
    obtain rfl := Option.some.inj (hslot'.symm.trans hslot)
    by_cases hin : w.history < store.values.size
    · rwa [HistoryStore.get_set_self _ hin]
    · rw [HistoryStore.set, Array.setIfInBounds_eq_of_size_le (Nat.le_of_not_lt hin)]
      exact hs _ _ hslot
  · rw [HistoryStore.get_set_of_ne _ hne]
    exact hs h slot hslot

theorem Holds.remember (hin : p.InRange) (hs : p.Holds store) (s : StateId) :
    p.Holds (p.remember store s) := by
  unfold Program.remember
  cases hrow : p.states[s]? with
  | none => exact hs
  | some row =>
    have hwrites := hin.writes row (Array.mem_of_getElem? hrow)
    rw [Option.map_some, Option.getD_some]
    generalize row.writes = writes at hwrites
    induction writes generalizing store with
    | nil => exact hs
    | cons w writes ih =>
      exact ih (hs.set (hwrites w List.mem_cons_self))
        fun w' hw' => hwrites w' (List.mem_cons_of_mem _ hw')

theorem Holds.stored (hin : p.InRange) (hs : p.Holds store) (journal : Journal V) :
    p.Holds (p.stored store journal) := by
  unfold Program.stored
  generalize journal.filterMap Occurrence.entered? = path
  induction path generalizing store with
  | nil => exact hs
  | cons s path ih => exact ih (hs.remember hin s)

end Program

namespace Chart

variable {c : Chart V} {p : Program V} {slot : HistorySlot} {h : HistoryId}

theorem nodup_historySlots (c : Chart V) : c.historySlots.toList.Nodup := by
  rw [historySlots, List.toList_toArray]
  refine List.Nodup.filterMap (fun r r' slot hr hr' => ?_) List.nodup_range
  exact (pseudo_of_historySlot? hr).symm.trans (pseudo_of_historySlot? hr')

/-- A history is recalled by its own value. -/
theorem recall_pseudo (hslot : c.historySlots[h]? = some slot) (store : HistoryStore) :
    c.program.recall store slot.pseudo = c.program.remembered h (store.get h) := by
  have hslot? := mem_historySlots.1 (Array.mem_of_getElem? hslot)
  obtain ⟨h', hfind, hslot'⟩ := exists_findIdx?_of_historySlot? hslot?
  have hlt : h' < c.historySlots.toList.length := (Array.getElem?_eq_some_iff.1 hslot').1
  obtain rfl : h' = h := by
    rw [← Array.getElem?_toList] at hslot hslot'
    exact (List.getElem?_inj hlt c.nodup_historySlots).1 (hslot'.trans hslot.symm)
  show (c.historySlots.findIdx? (·.pseudo == slot.pseudo)).bind _ = _
  rw [hfind]
  rfl

theorem holds_new (c : Chart V) : c.program.Holds (.new c.program.histories.size) := by
  intro h slot hslot
  obtain ⟨node, depth, -, -, heq⟩ :=
    historySlot?_eq_some_iff.1 (mem_historySlots.1 (Array.mem_of_getElem? hslot))
  have hzero : (HistoryStore.new c.program.histories.size).get h = 0 := by
    unfold HistoryStore.new HistoryStore.get
    rw [Array.getD_eq_getD_getElem?, Array.getElem?_replicate]
    split <;> rfl
  rw [hzero, heq]
  exact Nat.succ_pos _

/-- The tracked states that a slot lists are those that its history is to track. -/
theorem Linked.exists_mem_tracked_iff (hc : c.Linked) (hslot : slot ∈ c.historySlots)
    (s : StateId) : (∃ v, (v, s) ∈ slot.tracked) ↔ c.Tracks slot.container slot.depth s := by
  have hslot? := mem_historySlots.1 hslot
  rw [← remembers_iff_of_historySlot? hslot?, ← hc.exists_value_iff hslot?]
  simp only [HistorySlot.mem_tracked_iff]

theorem innermost_ordered {container leaf t : StateId} {depth : HistoryDepth} :
    c.ordered.Innermost container depth leaf t ↔ c.Innermost container depth leaf t := by
  constructor
  · rintro ⟨hmem, ht, hbelow⟩
    exact ⟨by simpa using hmem, by simpa using ht, by simpa using hbelow⟩
  · rintro ⟨hmem, ht, hbelow⟩
    exact ⟨by simpa using hmem, by simpa using ht, by simpa using hbelow⟩

/-- What a machine remembers between two commands. -/
theorem Linked.recorded_of_compile (hc : c.Linked) (hcompile : c.compile = .ok p) {vars : V}
    {commands : List (Command V)} {m : Machine V} (hclear : ∀ x ∈ commands, ¬ x.clears)
    (hrun : p.performAll (p.machine vars) commands = some m) :
    c.ordered.Recorded m ∧ p.Holds m.history := by
  have hp := hc.sound_of_compile hcompile
  have hin := hc.inRange_of_compile hcompile
  have hw := hc.wellFormed_of_compile hcompile
  obtain ⟨-, -, rfl⟩ := compile_eq_ok_iff.1 hcompile
  obtain ⟨⟨journal, hperforms⟩, -⟩ := hp.exists_performsAll hrun
  refine ⟨(hw.prepared hc).recorded_performsAll (rootUntargeted_ordered.2 hw.root) hclear ?_
    hperforms, ?_⟩
  · intro leaf hleaf
    cases hleaf
  · rw [hperforms.history_eq hclear]
    exact (holds_new c.ordered).stored hin journal

/-- History always records where the machine is. Whatever was done to a machine short of clearing
its histories, each of them that lies strictly above the settled state would restore the innermost
state that it tracks there: the settled state itself if it is deep, the child of its container if it
is shallow and the child is not marked. And all stored values are values of their histories. -/
theorem histories_record (hc : c.Drafted) (hcompile : c.compile = .ok p) (vars : V)
    (commands : List (Command V)) (hclear : ∀ x ∈ commands, ¬ x.clears) :
    ∃ m, p.performAll (p.machine vars) commands = some m ∧
      ∀ (h : HistoryId) (slot : HistorySlot), p.histories[h]? = some slot →
        m.history.get h < slot.values.size ∧
        (∀ s, (∃ v, (v, s) ∈ slot.tracked) ↔ c.Tracks slot.container slot.depth s) ∧
        ∀ leaf, m.table.settled = some leaf →
          slot.container ∈ (c.hierarchy.ancestors leaf).tail →
          ∃ t, p.restores m h = some t ∧ c.Innermost slot.container slot.depth leaf t ∧
            (slot.depth = .deep → t = leaf) ∧
            (slot.depth = .shallow → ∀ q ∈ c.hierarchy.ancestors leaf,
              c.hierarchy.parent q = some slot.container → ¬ c.Owns q .historyContinue →
                t = q) := by
  have hp := hc.linked.sound_of_compile hcompile
  obtain ⟨m, hrun, -⟩ := hp.exists_performAll_idle (p.idle_machine vars) commands
  obtain ⟨hrecorded, hholds⟩ := hc.linked.recorded_of_compile hcompile hclear hrun
  refine ⟨m, hrun, fun h slot hslot => ⟨hholds h slot hslot, fun s => ?_,
    fun leaf hleaf hcontainer => ?_⟩⟩
  · obtain ⟨-, -, rfl⟩ := compile_eq_ok_iff.1 hcompile
    rw [hc.linked.ordered.exists_mem_tracked_iff (Array.mem_of_getElem? hslot), tracks_ordered]
  obtain ⟨t, ht⟩ : ∃ t, c.Innermost slot.container slot.depth leaf t :=
    exists_innermost hcontainer
  refine ⟨t, ?_, ht, ht.eq_of_deep, fun hdepth q hq hchild hmarked =>
    ht.eq_of_shallow hdepth hq hchild hmarked⟩
  obtain ⟨-, -, rfl⟩ := compile_eq_ok_iff.1 hcompile
  have hslot? := mem_historySlots.1 (Array.mem_of_getElem? hslot)
  rw [Program.restores, ← recall_pseudo hslot]
  exact (hrecorded leaf hleaf).memory_eq hslot? (innermost_ordered.2 ht)

/-- The second command leads into the nested state that is not the default. -/
theorem relay_second :
    (do
      let p ← relay.compile.toOption
      let m ← p.performAll (p.machine 0) [.start, .dispatch 1]
      let slot ← p.histories[0]?
      return (m.table.settled, slot.container, slot.depth)) = some (some 4, 2, .shallow) := by
  decide +kernel

theorem relay_histories_record :
    ∃ p m slot, relay.compile = .ok p ∧
      p.performAll (p.machine 0) [.start, .dispatch 1] = some m ∧
      m.table.settled = some 4 ∧ p.histories[0]? = some slot ∧
      m.history.get 0 < slot.values.size ∧ p.restores m 0 = some 4 := by
  have h := relay_second
  simp only [Option.bind_eq_bind, Option.bind_eq_some_iff, Option.pure_def, Option.some.injEq,
    Prod.mk.injEq] at h
  obtain ⟨p, hp, m, hrun, slot, hslot, hleaf, hcontainer, hdepth⟩ := h
  have hcompile := eq_ok_of_toOption hp
  obtain ⟨m', hrun', hall⟩ := histories_record relay_drafted hcompile 0 [.start, .dispatch 1]
    (by simp [Command.clears])
  obtain rfl : m = m' := Option.some.inj (hrun.symm.trans hrun')
  obtain ⟨hvalue, -, hrestores⟩ := hall 0 slot hslot
  have habove : slot.container ∈ (relay.hierarchy.ancestors 4).tail := by
    rw [hcontainer]
    decide +kernel
  have hchild : relay.hierarchy.parent 4 = some slot.container := by
    rw [hcontainer]
    decide +kernel
  obtain ⟨t, ht, -, -, hshallow⟩ := hrestores 4 hleaf habove
  obtain rfl := hshallow hdepth 4 (Hierarchy.self_mem_ancestors _ 4) hchild (by decide +kernel)
  exact ⟨p, m, slot, hcompile, hrun, hleaf, hslot, hvalue, ht⟩

end Chart

end Statechart
