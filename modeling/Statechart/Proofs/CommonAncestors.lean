import Statechart.Proofs.Boundaries
import Statechart.Proofs.Paths

/-
  Which states enclose which, said by the declared parents alone (`Chart.Encloses`), and what the
  two hierarchies of a chart make of it: the one that counts its depths by walking up, and the one
  of the compiled program, which keeps the depths that were counted. In both, `lca` is the greatest
  state that encloses two others, and both give the same answer to every question
  (`lca_is_greatest_common`).
-/

namespace Statechart

variable {V : Type}

namespace Hierarchy

variable {h : Hierarchy} {a b s x : StateId}

/-- The states above a state are those that its parent links lead to. -/
theorem reflTransGen_parent_iff :
    Relation.ReflTransGen (fun s q => h.parent s = some q) s x ↔ x ∈ h.ancestors s := by
  constructor
  · intro hx
    induction hx using Relation.ReflTransGen.head_induction_on with
    | refl => exact self_mem_ancestors h x
    | head hp _ ih => exact (mem_ancestors_of_parent hp).2 (.inr ih)
  · intro hx
    induction s using h.parent_induction with
    | root s hp =>
      rw [ancestors_of_root hp, List.mem_singleton] at hx
      rw [hx]
    | step s q hp ih =>
      rcases (mem_ancestors_of_parent hp).1 hx with rfl | hx
      · rfl
      · exact .head hp (ih hx)

theorem Meets.symm {m : StateId} (hm : h.Meets a b m) : h.Meets b a m :=
  ⟨hm.right, hm.left, fun x hxb hxa => hm.greatest x hxa hxb⟩

/-- The search answers from the side of the state given first. Below a common state this makes no
difference, since the place where two states meet is unique. -/
theorem lca_comm (hj : h.Joined a b) : h.lca a b = h.lca b a := by
  obtain ⟨r, hra, hrb⟩ := hj.common
  have hab := lca_spec hj.left hj.right hj.common
  have hba := lca_spec hj.right hj.left ⟨r, hrb, hra⟩
  exact hab.unique hba.symm

/-- Both answer every question alike, also about states that are not declared. -/
structure Agrees (h h' : Hierarchy) : Prop where
  parent : ∀ s, h.parent s = h'.parent s
  depth : ∀ s, h.depth s = h'.depth s
  ancestors : ∀ s, h.ancestors s = h'.ancestors s
  isAbove : ∀ outer s, h.isAbove outer s = h'.isAbove outer s
  isWithin : ∀ s outer, h.isWithin s outer = h'.isWithin s outer
  lca : ∀ a b, h.lca a b = h'.lca a b
  chainUpTo : ∀ s upto, h.chainUpTo s upto = h'.chainUpTo s upto
  path : ∀ source target, h.path source target = h'.path source target

theorem Agrees.refl (h : Hierarchy) : h.Agrees h := by
  constructor <;> intros <;> rfl

end Hierarchy

namespace Chart

/-- `outer` is `s` or holds it, directly or through other states. -/
def Encloses (c : Chart V) (outer s : StateId) : Prop :=
  Relation.ReflTransGen (fun s q => c.parentOf s = some q) s outer

variable {c : Chart V} {a b s x : StateId}

theorem Linked.encloses_iff (hc : c.Linked) : c.Encloses x s ↔ x ∈ c.hierarchy.ancestors s := by
  simp only [← Hierarchy.reflTransGen_parent_iff, hc.parent_eq, Encloses]

/-- What `h` finds for two states of a chart is the greatest state that encloses both, whichever of
them is given first. -/
structure GreatestCommon (c : Chart V) (h : Hierarchy) (a b : StateId) : Prop where
  left : c.Encloses (h.lca a b) a
  right : c.Encloses (h.lca a b) b
  greatest : ∀ x, c.Encloses x a → c.Encloses x b → c.Encloses x (h.lca a b)
  comm : h.lca a b = h.lca b a

theorem Linked.greatestCommon (hc : c.Linked) (ha : a < c.states.size) (hb : b < c.states.size) :
    c.GreatestCommon c.hierarchy a b := by
  have hj := hc.joined ha hb
  have hm := Hierarchy.lca_spec hj.left hj.right hj.common
  refine ⟨hc.encloses_iff.2 hm.left, hc.encloses_iff.2 hm.right, fun x hxa hxb => ?_,
    Hierarchy.lca_comm hj⟩
  exact hc.encloses_iff.2 (hm.greatest x (hc.encloses_iff.1 hxa) (hc.encloses_iff.1 hxb))

/-- In the hierarchy of a chart and in that of its program alike, `lca` gives the greatest state
that encloses two declared states. The program keeps the number of states above each state, and
answers all questions as the chart does, which counts them anew. -/
theorem lca_is_greatest_common (hc : c.Sketched) :
    (∀ a < c.states.size, ∀ b < c.states.size, c.GreatestCommon c.hierarchy a b) ∧
    ∀ p, c.compile = .ok p →
      (∀ a < p.states.size, ∀ b < p.states.size, c.GreatestCommon p.hierarchy a b) ∧
      (∀ s, p.hierarchy.Counted s) ∧ p.hierarchy.Agrees c.hierarchy := by
  have hgreatest : ∀ a < c.states.size, ∀ b < c.states.size, c.GreatestCommon c.hierarchy a b :=
    fun a ha b hb => hc.linked.greatestCommon ha hb
  refine ⟨hgreatest, fun p hcompile => ?_⟩
  rw [hierarchy_of_compile hcompile, size_states_of_compile hcompile]
  exact ⟨hgreatest, c.counted, .refl _⟩

/-- A berth lies one level deeper than a dock, so the search has to lift it first. -/
theorem harbor_lca_is_greatest_common :
    ∃ p, harbor.compile = .ok p ∧ harbor.hierarchy.lca 4 5 = 2 ∧
      harbor.GreatestCommon harbor.hierarchy 4 5 ∧ harbor.GreatestCommon p.hierarchy 5 4 ∧
      p.hierarchy.lca 5 4 = 2 ∧ p.hierarchy.depth 4 = 3 ∧ p.hierarchy.depth 5 = 2 ∧
      p.hierarchy.path (.state 4) (.inside 5) = .ok ⟨2, [5]⟩ := by
  obtain ⟨p, hp⟩ := exists_ok_of_isOk harbor_compile_isOk
  have hsize : harbor.states.size = 6 := by decide +kernel
  have hdepths : harbor.hierarchy.depth 4 = 3 ∧ harbor.hierarchy.depth 5 = 2 := by decide +kernel
  have hlca : harbor.hierarchy.lca 4 5 = 2 := by decide +kernel
  have hpath : (harbor.hierarchy.path (.state 4) (.inside 5)).toOption = some ⟨2, [5]⟩ := by
    decide +kernel
  obtain ⟨hchart, hprogram⟩ := lca_is_greatest_common (c := harbor) ⟨"harbor", harborCalls, rfl⟩
  obtain ⟨hgreatest, -, hagrees⟩ := hprogram p hp
  rw [hsize] at hchart
  rw [size_states_of_compile hp, hsize] at hgreatest
  have hforth := hchart 4 (by decide) 5 (by decide)
  refine ⟨p, hp, hlca, hforth, hgreatest 5 (by decide) 4 (by decide), ?_, ?_, ?_, ?_⟩
  · rw [hagrees.lca, ← hforth.comm, hlca]
  · rw [hagrees.depth, hdepths.1]
  · rw [hagrees.depth, hdepths.2]
  · rw [hagrees.path, eq_ok_of_toOption hpath]

end Chart

end Statechart
