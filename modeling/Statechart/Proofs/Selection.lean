import Statechart.Proofs.Boundaries
import Statechart.Proofs.PriorityOrder

/-
  How a machine leaves a pseudostate that is not a history. Its branches are tried in the order of
  their priorities, and the first open one is taken; the last one is always open
  (`select_takes_first_open`). The compiled row holds the last branch as its fallback, so a scan of
  the others that finds nothing ends there (`firstOpen_cases`).
-/

namespace Statechart

variable {V : Type}

/-- The branch has no guard, or its guard is true. -/
def Branch.isOpen (b : Branch V) (vars : V) : Bool := b.guard.all (·.test vars)

/-- What is told when a branch of `r` is tried: how its guard was tested, if it has one. -/
def Branch.trial? (b : Branch V) (r : PseudoId) (vars : V) : Option (Occurrence V) :=
  b.guard.map fun g => .tested (.pseudo r) g (g.test vars) (g.remarks vars)

theorem Branch.testGuard_eq (b : Branch V) (r : PseudoId) (vars : V) :
    testGuard (.pseudo r) b.guard vars = (b.isOpen vars, (b.trial? r vars).toList) := by
  unfold testGuard isOpen trial?
  cases b.guard <;> rfl

/-! ## Trying branches in turn -/

namespace Program

variable {r : PseudoId} {m : Machine V}

/-- Branches are tried up to the first open one, or all of them if none is open. -/
theorem firstOpen_cases {bs : List (Branch V)} {rows : List (BranchRow V)}
    (hrows : List.Forall₂
      (fun b row => branchOpen r m row.guard = testGuard (.pseudo r) b.guard m.vars) bs rows)
    (i : Nat) :
    (∃ before b after row, bs = before ++ b :: after ∧ (∀ x ∈ before, x.isOpen m.vars = false) ∧
      b.isOpen m.vars ∧ rows[before.length]? = some row ∧
      firstOpen r m rows i = (some (i + before.length, row.plan),
        (before ++ [b]).filterMap (·.trial? r m.vars))) ∨
    ((∀ x ∈ bs, x.isOpen m.vars = false) ∧
      firstOpen r m rows i = (none, bs.filterMap (·.trial? r m.vars))) := by
  induction hrows generalizing i with
  | nil => exact .inr ⟨by simp, rfl⟩
  | @cons b row bs rows hb _ ih =>
    have htrial : ∀ xs : List (Branch V), (b :: xs).filterMap (·.trial? r m.vars) =
        (b.trial? r m.vars).toList ++ xs.filterMap (·.trial? r m.vars) := by
      intro xs
      rw [List.filterMap_cons]
      cases b.trial? r m.vars <;> rfl
    rw [firstOpen, hb, b.testGuard_eq]
    cases hopen : b.isOpen m.vars with
    | true =>
      refine .inl ⟨[], b, bs, row, rfl, by simp, hopen, rfl, ?_⟩
      rw [List.nil_append, htrial]
      simp
    | false =>
      have hcons : ∀ xs : List (Branch V), (∀ x ∈ xs, x.isOpen m.vars = false) →
          ∀ x ∈ b :: xs, x.isOpen m.vars = false :=
        fun xs hxs => List.forall_mem_cons.2 ⟨hopen, hxs⟩
      rcases ih (i + 1) with ⟨before, b', after, row', hsplit, hclosed, hfound, hget, hfirst⟩ |
        ⟨hclosed, hfirst⟩
      · refine .inl ⟨b :: before, b', after, row', by rw [hsplit, List.cons_append],
          hcons before hclosed, hfound, hget, ?_⟩
        rw [hfirst, List.cons_append, htrial, List.length_cons, Nat.add_assoc,
          Nat.add_comm 1 before.length]
        rfl
      · refine .inr ⟨hcons bs hclosed, ?_⟩
        rw [hfirst, htrial]
        rfl

end Program

namespace Chart

variable {c : Chart V} {p : Program V} {r : PseudoId} {node : PseudoNode V}

/-- The row of a pseudostate tries all branches but the last, which is always open. -/
theorem Drafted.tries_branches (hc : c.Drafted) (h : c.compile = .ok p)
    (hr : c.pseudostates[r]? = some node) (hk : node.kind ≠ .historyContinue)
    (hhistory : node.kind.isHistory = false) {row : PseudoRow V}
    (hrow : p.pseudostates[r]? = some row) :
    ∃ last, c.branchesOf r = (c.branchesOf r).dropLast ++ [last] ∧ last.guard = none ∧
      ∀ m : Machine V, List.Forall₂
        (fun b row => Program.branchOpen r m row.guard = testGuard (.pseudo r) b.guard m.vars)
        (c.branchesOf r).dropLast row.branches := by
  have hw := hc.linked.wellFormed_of_compile h
  obtain ⟨-, -, rfl⟩ := compile_eq_ok_iff.1 h
  have hr' := c.getElem?_pseudostates_ordered_eq_some hr
  obtain ⟨row', hrow', hcompiled⟩ := exists_pseudoRow hr' c.ordered.getElem?_plans
  obtain rfl := Option.some.inj (hrow'.symm.trans hrow)
  have hrules := (hw.prepared hc.linked).rules node.ordered
    (Array.mem_toList_iff.2 (Array.mem_of_getElem? hr'))
  obtain ⟨last, hlast, hguard⟩ := hrules.last hk
  have harms := hcompiled.branches
  rw [PseudoNode.arms_of_not_history hr' hhistory, List.forall₂_map_left_iff] at harms
  rw [branchesOf_eq hr]
  refine ⟨last, (List.dropLast_append_getLast? last hlast).symm, hguard, fun m => ?_⟩
  refine harms.imp fun b row hrow => ?_
  rw [hrow.1]
  cases b.guard <;> rfl

/-- A pseudostate that is not a history is left by the first of its branches, in the stable order of
their priorities, that has no guard or one that is true. There is always such a branch. Just the
guards up to it are tested, each once, and the plan is the one with the action and the target of the
branch. -/
theorem select_takes_first_open (hc : c.Drafted) (h : c.compile = .ok p)
    (hr : c.pseudostates[r]? = some node)
    (hk : node.kind = .initial ∨ node.kind = .choice ∨ node.kind = .entryPoint ∨
      node.kind = .exitPoint) :
    StablyOrdered (·.priority) node.branches.toList (c.branchesOf r) ∧
    ∃ row, p.pseudostates[r]? = some row ∧ ∀ m : Machine V, ∃ before b after q target,
      c.branchesOf r = before ++ b :: after ∧ (∀ x ∈ before, x.isOpen m.vars = false) ∧
      b.isOpen m.vars ∧ row.planIds[before.length]? = some q ∧
      p.select m r = some (q, (before ++ [b]).filterMap (·.trial? r m.vars) ++
        [.passed r (if after.isEmpty then none else some before.length)]) ∧
      b.target = some target ∧ p.Serves c node q target b.action := by
  have hcont : node.kind ≠ .historyContinue := by
    intro hkind
    simp [hkind] at hk
  have hhistory : node.kind.isHistory = false := by
    rcases hk with hk | hk | hk | hk <;> rw [hk] <;> rfl
  have hordered : c.branchesOf r = byPriority (·.priority) node.branches.toList := by
    rw [branchesOf, hr]
  refine ⟨hordered ▸ stablyOrdered_byPriority _ _, ?_⟩
  obtain ⟨row, hrow, -, hserves⟩ := hc.serves_branches h hr hcont hhistory
  obtain ⟨last, hbranches, hlast, htries⟩ := hc.tries_branches h hr hcont hhistory hrow
  refine ⟨row, hrow, fun m => ?_⟩
  rcases Program.firstOpen_cases (htries m) 0 with
    ⟨before, b, after, found, hsplit, hclosed, hopen, hget, hfirst⟩ | ⟨hclosed, hfirst⟩
  · have hsplit' : c.branchesOf r = before ++ b :: (after ++ [last]) := by
      rw [hbranches, hsplit, List.append_assoc, List.cons_append]
    have hplan : row.planIds[before.length]? = some found.plan := by
      rw [PseudoRow.planIds, List.getElem?_append_left, List.getElem?_map, hget]
      · rfl
      · simpa using (List.getElem?_eq_some_iff.1 hget).1
    have hb : (c.branchesOf r)[before.length]? = some b := by
      rw [hsplit']
      simp
    obtain ⟨target, ht, hserved⟩ := forall₂_getElem? hserves hb hplan
    refine ⟨before, b, after ++ [last], found.plan, target, hsplit', hclosed, hopen, hplan, ?_, ht,
      hserved⟩
    rw [Program.select_eq m hrow, Program.planOf_choiceAt, Program.choiceAt, hfirst]
    simp
  · -- No other branch is open, so the last one is taken as the fallback.
    have hlength := (htries m).length_eq
    have hplan : row.planIds[(c.branchesOf r).dropLast.length]? = some row.fallback := by
      rw [PseudoRow.planIds, hlength, List.getElem?_append_right (by simp)]
      simp
    have hget : (c.branchesOf r)[(c.branchesOf r).dropLast.length]? = some last := by
      conv_lhs => rw [hbranches]
      simp
    obtain ⟨target, ht, hserved⟩ := forall₂_getElem? hserves hget hplan
    refine ⟨(c.branchesOf r).dropLast, last, [], row.fallback, target, hbranches, hclosed, ?_, hplan,
      ?_, ht, hserved⟩
    · rw [Branch.isOpen, hlast]
      rfl
    · rw [Program.select_eq m hrow, Program.planOf_choiceAt, Program.choiceAt, hfirst,
        List.filterMap_append]
      simp [Branch.trial?, hlast]

/-- The branches of the exit point were declared in another order. -/
theorem harbor_lock_branches :
    (harbor.branchesOf 4).map (fun b => (b.priority, b.isOpen 7)) =
      [(.explicit [2, 1], false), (.explicit [10], true), (.unordered, true)] := by
  have hsorted : (harbor.pseudostates[4]?).map (fun node =>
      node.ordered.branches.toList.map fun b => (b.priority, b.isOpen 7)) =
        some [(.explicit [2, 1], false), (.explicit [10], true), (.unordered, true)] := by
    decide +kernel
  obtain ⟨node, hnode, hlist⟩ := Option.map_eq_some_iff.1 hsorted
  rw [branchesOf_eq hnode]
  exact hlist

theorem harbor_select_takes_first_open :
    ∃ p node row first b rest q target, harbor.compile = .ok p ∧
      harbor.pseudostates[4]? = some node ∧ node.kind = .exitPoint ∧
      p.pseudostates[4]? = some row ∧ harbor.branchesOf 4 = first :: b :: rest ∧
      b.priority = .explicit [10] ∧ row.planIds[1]? = some q ∧
      p.select (p.machine 7) 4 = some (q,
        [first, b].filterMap (·.trial? 4 7) ++ [.passed 4 (some 1)]) ∧
      b.target = some target ∧ p.Serves harbor node q target b.action := by
  obtain ⟨p, hcompile⟩ := exists_ok_of_isOk harbor_compile_isOk
  obtain ⟨node, hnode, hlock⟩ := Option.map_eq_some_iff.1 harbor_lock
  obtain ⟨hkind, -⟩ := Prod.mk.inj hlock
  obtain ⟨-, row, hrow, hselect⟩ := select_takes_first_open harbor_drafted hcompile hnode
    (.inr (.inr (.inr hkind)))
  obtain ⟨before, b, after, q, target, hsplit, hclosed, hopen, hplan, hselected, ht, hserves⟩ :=
    hselect (p.machine 7)
  change ∀ x ∈ before, x.isOpen 7 = false at hclosed
  change b.isOpen 7 = true at hopen
  have hlist := harbor_lock_branches
  rw [hsplit, List.map_append, List.map_cons] at hlist
  -- The first branch is closed and the second one is open.
  rcases before with _ | ⟨first, _ | ⟨second, before⟩⟩
  · simp [hopen] at hlist
  · obtain ⟨-, hb, hafter⟩ : _ ∧ b.priority = .explicit [10] ∧ after.length = 1 := by
      have hlength := congrArg List.length hlist
      simp at hlist hlength
      exact ⟨hlist.1, hlist.2.1.1, by lia⟩
    obtain ⟨last, rfl⟩ := List.length_eq_one_iff.1 hafter
    exact ⟨p, node, row, first, b, [last], q, target, hcompile, hnode, hkind, hrow, hsplit, hb,
      hplan, hselected, ht, hserves⟩
  · have hsecond := hclosed second (by simp)
    simp [hsecond] at hlist

end Chart

end Statechart
