import Statechart.Proofs.Acceptance

/-
  The way of a transition on every tree that can be drafted, however deep. `Hierarchy.Turns` says
  where a way turns without searching for it: above a target state that is left and entered again,
  in the container of a pseudostate that is reached from within, else in the innermost state that
  holds both ends. The search finds that state (`turns_of_turn`), and what is entered below it is
  the one way down to the target, unless that is too long (`path_finds_way`).
-/

namespace Statechart

variable {V : Type}

namespace Hierarchy

variable {h : Hierarchy} {source target : Anchor} {s t : StateId}

/-! ## Where a way turns -/

/-- A way from `source` to a target turns in this state. -/
inductive Turns (h : Hierarchy) (source : Anchor) : Anchor → StateId → Prop
  /-- The target is the source or holds it: it is left and entered again. -/
  | again {t q : StateId} (ht : t ∈ h.ancestors source.holder) (hq : h.parent t = some q) :
      Turns h source (.state t) q
  /-- The target is a pseudostate of a state that is or holds the source. -/
  | held {s : StateId} (hs : s ∈ h.ancestors source.holder) : Turns h source (.inside s) s
  | meet {target : Anchor} {m : StateId} (hout : target.holder ∉ h.ancestors source.holder)
      (hm : h.Meets source.holder target.holder m) : Turns h source target m

/-- A state above another is where the two meet. -/
theorem meets_of_mem (hs : s ∈ h.ancestors t) : h.Meets s t s :=
  ⟨self_mem_ancestors h s, hs, fun _ hx _ => hx⟩

theorem Meets.unique {a b m m' : StateId} (hm : h.Meets a b m) (hm' : h.Meets a b m') : m = m' :=
  mem_ancestors_antisymm (hm'.greatest m hm.left hm.right) (hm.greatest m' hm'.left hm'.right)

theorem turns_of_turn (hj : h.Joined source.holder target.holder)
    (ht : h.turn source target = .ok t) : h.Turns source target t := by
  -- Outside the target, both the shortcut and the search give the state where the ends meet.
  have hbelow : h.Meets source.holder target.holder
      (if h.isAbove source.holder target.holder then source.holder
        else h.lca source.holder target.holder) := by
    split
    · next habove => exact meets_of_mem (isAbove_iff.1 habove).1
    · exact lca_spec hj.left hj.right hj.common
  unfold turn at ht
  cases target with
  | state u =>
    simp only at ht
    split at ht
    · next hw =>
      cases hp : h.parent u with
      | none => simp [hp] at ht
      | some q =>
        obtain rfl : q = t := by simpa [hp] using ht
        exact .again (isWithin_iff.1 hw) hp
    · next hw =>
      cases ht
      exact .meet (fun hmem => hw (isWithin_iff.2 hmem)) hbelow
  | inside u =>
    simp only [Except.ok.injEq] at ht
    split at ht
    · next hw =>
      subst ht
      exact .held (isWithin_iff.1 hw)
    · next hw =>
      subst ht
      exact .meet (fun hmem => hw (isWithin_iff.2 hmem)) hbelow

/-- From a state strictly above the target the way only leads down. -/
theorem Turns.eq_source (ht : h.Turns source target t)
    (hs : source.holder ∈ (h.ancestors target.holder).tail) : t = source.holder := by
  obtain ⟨habove, hne⟩ := mem_tail_ancestors.1 hs
  cases ht with
  | again hu hq => exact absurd (mem_ancestors_antisymm habove hu) hne
  | held hu => exact absurd (mem_ancestors_antisymm habove hu) hne
  | meet hout hm => exact hm.unique (meets_of_mem habove)

/-! ## What is entered below -/

theorem chain_eq_nil_iff (ht : t ∈ h.ancestors s) : h.chain s t = [] ↔ s = t := by
  constructor
  · intro hnil
    obtain ⟨-, hlast⟩ := descends_chain ht
    simpa [hnil] using hlast.symm
  · rintro rfl
    exact chain_self h s

/-- A chain is as long as its ends are apart. -/
theorem depth_eq_add_chain (hs : h.Counted s) (ht : h.Counted t) (hmem : t ∈ h.ancestors s) :
    h.depth s = h.depth t + (h.chain s t).length := by
  have hlength := congrArg List.length (ancestors_eq_chain_append hmem)
  rw [List.length_append, ← hs, ← ht] at hlength
  omega

theorem path_eq_tooDeep (ht : h.turn source target = .ok t)
    (hl : maxDepth < (h.chain target.holder t).length) :
    h.path source target = .error (.tooDeep (h.label target.holder)) := by
  rw [path, ht]
  simp [bind, Except.bind, chainUpTo_eq, if_neg (Nat.not_le.2 hl)]

end Hierarchy

namespace Chart

variable {c : Chart V} {source target : Anchor}

/-- The chart of some draft, finished or not, with mistakes or without. -/
def Sketched (c : Chart V) : Prop := ∃ name calls, (Draft.ofCalls name calls).chart = c

theorem Sketched.linked (hc : c.Sketched) : c.Linked := by
  obtain ⟨name, calls, rfl⟩ := hc
  exact Draft.linked_foldl_call (Draft.linked_new name) calls

/-- The way from one declared state or pseudostate to another. Only to the root there is none. It
turns at or above its source, where it should, and leads down from there to its target through
children of children; these are entered if there are at most `maxDepth` of them. -/
theorem path_finds_way (hc : c.Sketched) (hs : source.holder < c.states.size)
    (ht : target.holder < c.states.size) :
    (∀ label, c.hierarchy.path source target = .error (.transitionToRoot label) ↔
      target = .state rootState ∧ label = c.label source.holder) ∧
    (target ≠ .state rootState → ∃ turn enter,
      c.hierarchy.Turns source target turn ∧
      turn ∈ c.hierarchy.ancestors source.holder ∧
      (source.holder ∈ (c.hierarchy.ancestors target.holder).tail → turn = source.holder) ∧
      c.hierarchy.Descends turn enter ∧ enter.getLastD turn = target.holder ∧
      c.hierarchy.depth target.holder = c.hierarchy.depth turn + enter.length ∧
      (enter = [] ↔ target.holder = turn) ∧ (target.holder = turn → target = .inside turn) ∧
      (enter.length ≤ maxDepth → c.hierarchy.path source target = .ok ⟨turn, enter⟩) ∧
      (maxDepth < enter.length →
        c.hierarchy.path source target = .error (.tooDeep (c.label target.holder)))) := by
  have hl := hc.linked
  by_cases hroot : target = .state rootState
  · subst hroot
    refine ⟨fun label => ?_, fun hne => absurd rfl hne⟩
    rw [Hierarchy.path_eq_error (hl.turn_root hs)]
    simp [eq_comm]
  · obtain ⟨turn, hturn⟩ := hl.exists_turn source ht hroot
    have hj := hl.joined hs ht
    have hturns := Hierarchy.turns_of_turn hj hturn
    obtain ⟨hleft, hright, hne⟩ := Hierarchy.turn_mem hj hturn
    obtain ⟨hdescends, hlast⟩ := Hierarchy.descends_chain hright
    have hok := Hierarchy.path_eq_ok hturn
    have hdeep := Hierarchy.path_eq_tooDeep hturn
    refine ⟨fun label => ⟨fun herror => ?_, fun h => absurd h.1 hroot⟩, fun _ =>
      ⟨turn, _, hturns, hleft, hturns.eq_source, hdescends, hlast, ?_, ?_, fun heq => ?_, ?_, ?_⟩⟩
    · rcases Nat.lt_or_ge maxDepth (c.hierarchy.chain target.holder turn).length with hlt | hle
      · rw [hdeep hlt] at herror
        cases herror
      · rw [hok hle] at herror
        cases herror
    · rw [List.length_reverse]
      exact Hierarchy.depth_eq_add_chain hj.right (c.counted turn) hright
    · rw [List.reverse_eq_nil_iff]
      exact Hierarchy.chain_eq_nil_iff hright
    · cases target with
      | state t => exact absurd (congrArg Anchor.state heq) hne
      | inside t => exact congrArg Anchor.inside heq
    · rw [List.length_reverse]
      exact hok
    · rw [List.length_reverse]
      exact hdeep

/-- A chart with one state inside the other, one more than can be entered at once. -/
def tower : Chart Nat :=
  (Draft.ofCalls "tower" ((List.range 33).map fun i => .state "floor" i)).chart

theorem tower_path_finds_way :
    (∃ enter, tower.hierarchy.path (.state rootState) (.state 32) = .ok ⟨rootState, enter⟩ ∧
      enter.length = 32 ∧ tower.hierarchy.Descends rootState enter) ∧
    tower.hierarchy.path (.state rootState) (.state 33) = .error (.tooDeep "floor") ∧
    tower.hierarchy.path (.state 33) (.state rootState) = .error (.transitionToRoot "floor") := by
  have hc : tower.Sketched := ⟨"tower", _, rfl⟩
  have hlt : ∀ a : Anchor, a.holder ≤ 33 → a.holder < tower.states.size := by
    intro a ha
    have hsize : tower.states.size = 34 := by decide +kernel
    lia
  have hbelow : ∀ s ∈ [32, 33], rootState ∈ (tower.hierarchy.ancestors s).tail ∧
      tower.hierarchy.depth s = tower.hierarchy.depth rootState + s := by decide +kernel
  have hlabel : tower.label 33 = "floor" := by decide +kernel
  refine ⟨?_, ?_, ?_⟩
  · obtain ⟨turn, enter, -, -, hturn, hdescends, -, hdepth, -, -, hok, -⟩ :=
      (path_finds_way hc (hlt (.state rootState) (by decide)) (hlt (.state 32) (by decide))).2
        (by decide)
    obtain ⟨habove, hdeep⟩ := hbelow 32 (by decide)
    obtain rfl : turn = rootState := hturn habove
    have hlength : enter.length = 32 := by
      rw [Anchor.holder, hdeep] at hdepth
      exact (Nat.add_left_cancel hdepth).symm
    exact ⟨enter, hok (by rw [hlength]; decide), hlength, hdescends⟩
  · obtain ⟨turn, enter, -, -, hturn, -, -, hdepth, -, -, -, herror⟩ :=
      (path_finds_way hc (hlt (.state rootState) (by decide)) (hlt (.state 33) (by decide))).2
        (by decide)
    obtain ⟨habove, hdeep⟩ := hbelow 33 (by decide)
    obtain rfl : turn = rootState := hturn habove
    have hlength : enter.length = 33 := by
      rw [Anchor.holder, hdeep] at hdepth
      exact (Nat.add_left_cancel hdepth).symm
    exact hlabel ▸ herror (by rw [hlength]; decide)
  · exact ((path_finds_way hc (hlt (.state 33) (by decide)) (hlt (.state rootState)
      (by decide))).1 "floor").2 ⟨rfl, hlabel.symm⟩

end Chart

end Statechart
