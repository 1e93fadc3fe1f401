import Statechart.Proofs.Completion

/-
  What a resolution lists is a walk through the tree of states. `Program.walk` replays steps from
  the innermost active state: one can leave only that state, enter only a child of it and pass only
  a pseudostate in it. The steps of a plan that fits can be taken (`Plan.Fits.walk_eq`), whatever is
  answered the way can be walked to the state where it settles (`Sound.walk_follow`), and so can
  every transition that `resolve` works out, which it does unless there is no such transition
  (`resolve_walks`).
-/

namespace Statechart

variable {V : Type}

namespace Program

variable {p : Program V} {active s t : StateId}

/-! ## Replaying steps -/

/-- The innermost active state after one step; none if it cannot be taken while `active` is
innermost. -/
def stride (p : Program V) (active : StateId) : Step → Option StateId
  | .exit s => if s = active then p.hierarchy.parent s else none
  | .action _ => some active
  | .enter s => if p.hierarchy.parent s = some active then some s else none
  | .pseudo r => if (p.pseudostates[r]?).map (·.container) = some active then some active else none

/-- The innermost active state after some steps, if each of them can be taken. -/
def walk (p : Program V) (active : StateId) (steps : List Step) : Option StateId :=
  steps.foldlM p.stride active

@[simp] theorem walk_nil (p : Program V) (active : StateId) : p.walk active [] = some active := rfl

theorem walk_cons (p : Program V) (active : StateId) (x : Step) (steps : List Step) :
    p.walk active (x :: steps) = (p.stride active x).bind fun next => p.walk next steps :=
  List.foldlM_cons

theorem walk_append (p : Program V) (active : StateId) (first rest : List Step) :
    p.walk active (first ++ rest) = (p.walk active first).bind fun next => p.walk next rest :=
  List.foldlM_append

/-- Leaving states one after the other leads up. -/
theorem walk_exits (ht : t ∈ p.hierarchy.ancestors s) :
    p.walk s ((p.hierarchy.chain s t).map .exit) = some t := by
  induction s using p.hierarchy.parent_induction with
  | root s hq =>
    rw [Hierarchy.ancestors_of_root hq, List.mem_singleton] at ht
    rw [ht, Hierarchy.chain_self, List.map_nil, walk_nil]
  | step s q hq ih =>
    rcases (Hierarchy.mem_ancestors_of_parent hq).1 ht with rfl | ht
    · rw [Hierarchy.chain_self, List.map_nil, walk_nil]
    · rw [Hierarchy.chain_of_parent hq (Ne.symm (Hierarchy.parent_not_mem_of_mem hq ht)),
        List.map_cons, walk_cons, stride, if_pos rfl, hq, Option.bind_some, ih ht]

/-- Entering children of children leads down. -/
theorem walk_enters {path : List StateId} (hpath : p.hierarchy.Descends s path) :
    p.walk s (path.map .enter) = some (path.getLastD s) := by
  induction path generalizing s with
  | nil => rfl
  | cons t path ih =>
    rw [List.map_cons, walk_cons, stride, if_pos hpath.1, Option.bind_some, ih hpath.2,
      List.getLastD_cons]

end Program

/-- A plan that fits can be walked to where it arrives. -/
theorem Plan.Fits.walk_eq {p : Program V} {plan : Plan V} {active : StateId}
    (h : plan.Fits p active) (q : PlanId) :
    p.walk active ((p.exits plan active).map .exit ++
      (if plan.action.isSome then [.action q] else []) ++ plan.enter.map .enter) =
        some (plan.arrival active) := by
  have hexits : p.walk active ((p.exits plan active).map .exit) =
      some (plan.exitTo.getD active) := by
    unfold Program.exits
    cases hexit : plan.exitTo with
    | none => rfl
    | some turn => exact Program.walk_exits (h.turn turn hexit)
  have haction : ∀ s, p.walk s (if plan.action.isSome then [.action q] else []) = some s := by
    intro s
    split <;> rfl
  rw [Program.walk_append, Program.walk_append, hexits, Option.bind_some, haction,
    Option.bind_some, Program.walk_enters h.enter]
  rfl

namespace Program

variable {p : Program V} {active : StateId}

/-- Passing a pseudostate of the innermost active state. -/
theorem stride_pseudo {r : PseudoId} {row : PseudoRow V} (hr : p.pseudostates[r]? = some row) :
    p.stride row.container (.pseudo r) = some row.container := by
  rw [stride, hr, Option.map_some, if_pos rfl]

/-- Whatever is answered, the way can be walked to the state where it settles. -/
theorem Sound.walk_follow (hp : p.Sound) (hin : p.InRange) {decide : Decider} {n i : Nat}
    {next : Continuation} {rest : Resolution} (hlt : active < p.states.size)
    (hnext : p.Arrives active next) (hfollow : p.follow decide n active i next = .ok rest) :
    p.walk active rest.steps = some rest.finalLeaf ∧ p.initialOf rest.finalLeaf = none := by
  induction n using Nat.strongRecOn generalizing active i next rest with
  | ind n ih =>
    obtain ⟨s, rfl, rfl⟩ | ⟨r, row, k, steps, arrival, next', rest', rfl, rfl, hr, hsteps, hrest,
      rfl⟩ := follow_inv hfollow
    · obtain ⟨rfl, hleaf⟩ := hnext
      exact ⟨rfl, hleaf⟩
    · obtain ⟨row', hr', rfl, hk⟩ := hnext
      obtain rfl := Option.some.inj (hr'.symm.trans hr)
      have hmem := row'.planOf_mem_planIds (decide i ⟨r, row'.branches.length⟩)
      obtain ⟨plan, hq, hfits⟩ := hp.pseudostates hr hk _ hmem
      have hrange := hin.plans plan (Array.mem_of_getElem? hq)
      have harrival := plan.arrival_lt hrange.exitTo hrange.enter hlt
      cases (hp.planSteps_eq hlt hq).symm.trans hsteps
      obtain ⟨hwalk, hleaf⟩ := ih k (Nat.lt_succ_self k) harrival hfits.next hrest
      refine ⟨?_, hleaf⟩
      rw [List.cons_append, walk_cons, stride_pseudo hr, Option.bind_some, walk_append,
        hfits.walk_eq, Option.bind_some, hwalk]

/-- A source or a target that is not there is reported. -/
theorem resolve_unknown {leaf : StateId} {target : Vertex}
    (h : ¬ (leaf < p.states.size ∧ p.Names target)) (decide : Decider) :
    ∃ table index, p.resolve leaf target decide = .error (.unknownId table index) := by
  unfold resolve
  split
  · next hlt =>
    have htarget : ¬ p.Names target := fun htarget => h ⟨hlt, htarget⟩
    cases target with
    | state s =>
      have herror : p.targetAnchor (.state s) = .error (.unknownId .state s) := if_neg htarget
      exact ⟨_, _, by rw [herror]; rfl⟩
    | pseudo r =>
      have hnone : p.pseudostates[r]? = none := Array.getElem?_eq_none (Nat.le_of_not_lt htarget)
      exact ⟨_, _, by simp only [targetAnchor, hnone]; rfl⟩
  · exact ⟨_, _, rfl⟩

end Program

namespace Chart

variable {c : Chart V} {p : Program V}

/-- To the root there is no way. -/
theorem Linked.resolve_root (hc : c.Linked) {leaf : StateId} (hlt : leaf < c.program.states.size)
    (decide : Decider) : ∃ label,
      c.program.resolve leaf (.state rootState) decide = .error (.transitionToRoot label) := by
  have hleaf : (Anchor.state leaf).holder < c.states.size := by
    rw [← size_states_program]
    exact hlt
  have hnames : c.program.Names (.state rootState) := Nat.lt_of_le_of_lt (Nat.zero_le leaf) hlt
  have hpath := Hierarchy.path_eq_error (hc.turn_root hleaf)
  refine ⟨c.label leaf, ?_⟩
  rw [Program.resolve, if_pos hlt, targetAnchor_program hnames]
  simp only [bind, Except.bind, hierarchy_program, targetAnchor, hpath, Anchor.holder]

/-- A target that is there and no history continue is one that branches may lead to. -/
theorem isTarget_of_names {target : Vertex} (hnames : c.program.Names target)
    (hmarker : ∀ r, target = .pseudo r → c.kind? r ≠ some .historyContinue) :
    c.IsTarget target := by
  cases target with
  | state s =>
    rw [IsTarget, ← size_states_program]
    exact hnames
  | pseudo r =>
    have hr : r < c.pseudostates.size := by
      rw [← size_pseudostates_program]
      exact hnames
    have hnode := Array.getElem?_eq_getElem hr
    refine ⟨_, hnode, fun hkind => hmarker r rfl ?_⟩
    rw [kind?, hnode, Option.map_some, hkind]

/-- A transition that is there is worked out, and it can be walked. -/
theorem Prepared.exists_walk (h : c.Prepared) (hp : c.program.Sound) (hin : c.program.InRange)
    {leaf : StateId} {target : Vertex} (hlt : leaf < c.program.states.size)
    (htarget : c.program.Names target) (hroot : target ≠ .state rootState) (decide : Decider) :
    ∃ r, c.program.resolve leaf target decide = .ok r ∧ (c.IsTarget target →
      c.program.walk leaf r.steps = some r.finalLeaf ∧
        c.program.initialOf r.finalLeaf = none) := by
  obtain ⟨way, rest, -, hturn, hdescends, hlast, hfollow, -, hresolve⟩ :=
    h.exists_resolve_eq hp hin hlt htarget hroot decide
  refine ⟨_, hresolve, fun hmarker => ?_⟩
  have hlanding := h.linked.landing_lt_of_names htarget
  rw [← size_states_program] at hlanding
  obtain ⟨hwalk, hleaf⟩ := hp.walk_follow hin hlanding (h.arrives hmarker) hfollow
  refine ⟨?_, hleaf⟩
  rw [Program.walk_append, Program.walk_append, Program.walk_exits hturn, Option.bind_some,
    Program.walk_enters hdescends, Option.bind_some, hlast, hwalk]

/-- Working out a transition fails only on a source or a target that is not there, and on the root.
What it gives can be walked: every state left was the innermost active one, every state entered a
child of it, every pseudostate passed in it, and the walk ends in a state without an initial
pseudostate. -/
theorem resolve_walks (hc : c.Drafted) (h : c.compile = .ok p) (leaf : StateId) (target : Vertex)
    (decide : Decider) :
    ((∃ table index, p.resolve leaf target decide = .error (.unknownId table index)) ↔
      ¬ (leaf < p.states.size ∧ p.Names target)) ∧
    ((∃ label, p.resolve leaf target decide = .error (.transitionToRoot label)) ↔
      leaf < p.states.size ∧ p.Names target ∧ target = .state rootState) ∧
    ((∃ r, p.resolve leaf target decide = .ok r) ↔
      leaf < p.states.size ∧ p.Names target ∧ target ≠ .state rootState) ∧
    (∀ label, p.resolve leaf target decide ≠ .error (.tooDeep label)) ∧
    ∀ r, p.resolve leaf target decide = .ok r →
      (∀ q, target = .pseudo q → c.kind? q ≠ some .historyContinue) →
        p.walk leaf r.steps = some r.finalLeaf ∧ ¬ c.Owns r.finalLeaf .initial := by
  have hp := hc.linked.sound_of_compile h
  have hin := hc.linked.inRange_of_compile h
  have hprepared := (hc.linked.wellFormed_of_compile h).prepared hc.linked
  have hroot : leaf < p.states.size →
      ∃ label, p.resolve leaf (.state rootState) decide = .error (.transitionToRoot label) := by
    intro hlt
    obtain ⟨-, -, rfl⟩ := compile_eq_ok_iff.1 h
    exact hprepared.linked.resolve_root hlt decide
  have hother : leaf < p.states.size → p.Names target → target ≠ .state rootState →
      ∃ r, p.resolve leaf target decide = .ok r ∧
        ((∀ q, target = .pseudo q → c.kind? q ≠ some .historyContinue) →
          p.walk leaf r.steps = some r.finalLeaf ∧ ¬ c.Owns r.finalLeaf .initial) := by
    intro hlt htarget hne
    obtain ⟨-, -, rfl⟩ := compile_eq_ok_iff.1 h
    obtain ⟨r, hresolve, hwalks⟩ := hprepared.exists_walk hp hin hlt htarget hne decide
    refine ⟨r, hresolve, fun hmarker => ?_⟩
    obtain ⟨hwalk, hleaf⟩ := hwalks (isTarget_of_names htarget (by simpa using hmarker))
    rw [← owns_ordered, ← hprepared.linked.initialOf_isSome_iff, ← initialOf_program, hleaf]
    exact ⟨hwalk, by simp⟩
  by_cases hthere : leaf < p.states.size ∧ p.Names target
  · by_cases heq : target = .state rootState
    · subst heq
      obtain ⟨label, herror⟩ := hroot hthere.1
      rw [herror]
      simp [hthere]
    · obtain ⟨r, hresolve, hwalks⟩ := hother hthere.1 hthere.2 heq
      rw [hresolve]
      simpa [hthere, heq] using hwalks
  · obtain ⟨table, index, herror⟩ := Program.resolve_unknown hthere decide
    rw [herror]
    have hnot : ∀ {a : Prop}, ¬ (leaf < p.states.size ∧ p.Names target ∧ a) :=
      fun h => hthere ⟨h.1, h.2.1⟩
    exact ⟨iff_of_true ⟨table, index, rfl⟩ hthere, iff_of_false (by simp) hnot,
      iff_of_false (by simp) hnot, by simp, by simp⟩

/-- To the choice, through the history behind its first branch and down to the default of that. -/
theorem relay_resolve_walks :
    ∃ p r, relay.compile = .ok p ∧ p.resolve 1 (.pseudo 3) (fun _ _ => some 0) = .ok r ∧
      p.walk 1 r.steps = some r.finalLeaf ∧ ¬ relay.Owns r.finalLeaf .initial ∧
      (∃ label, p.resolve 1 (.state rootState) (fun _ _ => none) =
        .error (.transitionToRoot label)) ∧
      ∃ table index, p.resolve 1 (.pseudo 4) (fun _ _ => none) =
        .error (.unknownId table index) := by
  obtain ⟨p, hp, hsizes⟩ := Option.map_eq_some_iff.1 relay_sizes
  have hcompile := eq_ok_of_toOption hp
  obtain ⟨hstates, hpseudostates, -⟩ : p.states.size = 5 ∧ p.pseudostates.size = 4 ∧
      p.plans.size = 8 := by simpa using hsizes
  have hleaf : 1 < p.states.size := by omega
  have hchoice : p.Names (.pseudo 3) := show 3 < p.pseudostates.size by omega
  have hroot : p.Names (.state rootState) := Nat.lt_trans Nat.zero_lt_one hleaf
  have hbeyond : ¬ p.Names (.pseudo 4) := show ¬ 4 < p.pseudostates.size by omega
  obtain ⟨-, -, hok, -, hwalks⟩ :=
    resolve_walks relay_drafted hcompile 1 (.pseudo 3) fun _ _ => some 0
  obtain ⟨r, hr⟩ := hok.2 ⟨hleaf, hchoice, by simp⟩
  obtain ⟨hwalk, hinitial⟩ := hwalks r hr fun q hq => by
    obtain rfl := Vertex.pseudo.inj hq
    decide +kernel
  exact ⟨p, r, hcompile, hr, hwalk, hinitial,
    (resolve_walks relay_drafted hcompile 1 _ _).2.1.2 ⟨hleaf, hroot, rfl⟩,
    (resolve_walks relay_drafted hcompile 1 _ _).1.2 fun h => hbeyond h.2⟩

end Chart

end Statechart
