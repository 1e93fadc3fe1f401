import Mathlib.Algebra.GroupWithZero.Nat
import Mathlib.Algebra.Order.BigOperators.Group.Finset
import Mathlib.Data.Finset.Card
import Mathlib.Logic.Relation
import Statechart.Program.Loop

/-
  The search for pseudostates that lead back to themselves is right: it finds nothing exactly if no
  way is closed (`findLoop_eq_none_iff`), and what it finds lies on a closed way
  (`leads_of_findLoop`). While it runs, the pseudostates on its stack are a way and all that is done
  has only ways that end (`LoopSearch.Inv`); every step uses up a unit of the work that is left.
  Without closed ways, pseudostates can be ranked so that every way goes down (`exists_rank`).
-/

namespace Statechart

/-- `v` may go on to `w`. -/
def Leads (next : Array (List PseudoId)) (v w : PseudoId) : Prop := w ∈ next.getD v []

/-- Every way from `v` ends. -/
def Ends (next : Array (List PseudoId)) (v : PseudoId) : Prop :=
  Acc (fun w v => Leads next v w) v

theorem Ends.not_leads_self {next : Array (List PseudoId)} {v : PseudoId} (hv : Ends next v) :
    ¬ Relation.TransGen (Leads next) v v := by
  induction hv with
  | intro v _ ih =>
    intro hcycle
    obtain ⟨w, hvw, hwv⟩ := Relation.TransGen.head'_iff.1 hcycle
    exact ih w hvw (Relation.TransGen.tail' hwv hvw)

namespace LoopSearch

variable {next : Array (List PseudoId)} {marks : Array Mark} {v w : PseudoId}

def markOf (marks : Array Mark) (v : PseudoId) : Mark := marks.getD v .done

theorem markOf_set (marks : Array Mark) {v : PseudoId} (hv : v < marks.size) (x : Mark)
    (w : PseudoId) :
    markOf (marks.setIfInBounds v x) w = if v = w then x else markOf marks w := by
  unfold markOf
  by_cases h : v = w
  · subst h
    simp [hv]
  · simp [h]

theorem lt_size_of_markOf (hm : markOf marks v ≠ .done) : v < marks.size := by
  by_contra hge
  refine hm ?_
  unfold markOf
  simp [Nat.le_of_not_lt hge]

/-! ## The work that is left -/

/-- What an unvisited pseudostate will cost: each of its successors and taking it off the stack. -/
def cost (next : Array (List PseudoId)) (marks : Array Mark) (v : PseudoId) : Nat :=
  if markOf marks v = .unvisited then (next.getD v []).length + 1 else 0

def work (next : Array (List PseudoId)) (search : LoopSearch) : Nat :=
  ∑ v ∈ Finset.range next.size, cost next search.marks v +
    (search.stack.map fun frame => frame.2.length + 1).sum

theorem sum_cost_visit (hv : v < next.size) (hsize : marks.size = next.size)
    (hm : markOf marks v = .unvisited) :
    ∑ w ∈ Finset.range next.size, cost next (marks.setIfInBounds v .onPath) w +
        ((next.getD v []).length + 1) =
      ∑ w ∈ Finset.range next.size, cost next marks w := by
  have hvm : v < marks.size := by rwa [hsize]
  have hmem : v ∈ Finset.range next.size := Finset.mem_range.2 hv
  rw [← Finset.sum_erase_add _ _ hmem, ← Finset.sum_erase_add (Finset.range next.size) _ hmem]
  have hself : cost next (marks.setIfInBounds v .onPath) v = 0 := by
    simp [cost, markOf_set marks hvm]
  have hold : cost next marks v = (next.getD v []).length + 1 := by
    simp [cost, hm]
  have hrest : ∑ w ∈ (Finset.range next.size).erase v, cost next (marks.setIfInBounds v .onPath) w =
      ∑ w ∈ (Finset.range next.size).erase v, cost next marks w := by
    apply Finset.sum_congr rfl
    intro w hw
    have hne : v ≠ w := fun e => (Finset.mem_erase.1 hw).1 e.symm
    simp [cost, markOf_set marks hvm, hne]
  rw [hself, hold, hrest, Nat.add_zero]

theorem sum_cost_done (hvm : v < marks.size) (hm : markOf marks v = .onPath) :
    ∑ w ∈ Finset.range next.size, cost next (marks.setIfInBounds v .done) w =
      ∑ w ∈ Finset.range next.size, cost next marks w := by
  apply Finset.sum_congr rfl
  intro w _
  rw [cost, cost, markOf_set marks hvm]
  by_cases h : v = w
  · subst h
    simp [hm]
  · simp [h]

/-! ## The invariant -/

/-- Each pseudostate of the stack leads to the one above it, and each of its successors is still to
be visited, done, or the one above it. -/
def Way (next : Array (List PseudoId)) (marks : Array Mark) :
    Option PseudoId → List (PseudoId × List PseudoId) → Prop
  | _, [] => True
  | above, (v, ws) :: rest =>
    (∀ w, above = some w → Leads next v w) ∧
    (∀ w ∈ ws, Leads next v w) ∧
    (∀ w, Leads next v w → w ∈ ws ∨ markOf marks w = .done ∨ above = some w) ∧
    Way next marks (some v) rest

structure Inv (next : Array (List PseudoId)) (search : LoopSearch) : Prop where
  size : search.marks.size = next.size
  onPath : ∀ v, markOf search.marks v = .onPath ↔ v ∈ search.stack.map Prod.fst
  nodup : (search.stack.map Prod.fst).Nodup
  ends : ∀ v, markOf search.marks v = .done → Ends next v
  way : Way next search.marks none search.stack

/-- A stack stays a way as long as what is done stays done. -/
theorem Way.mono {marks' : Array Mark} (hd : ∀ w, markOf marks w = .done → markOf marks' w = .done)
    {above : Option PseudoId} {stack : List (PseudoId × List PseudoId)}
    (h : Way next marks above stack) : Way next marks' above stack := by
  induction stack generalizing above with
  | nil => trivial
  | cons frame rest ih =>
    obtain ⟨habove, hws, hsucc, hrest⟩ := h
    refine ⟨habove, hws, fun w hw => ?_, ih hrest⟩
    rcases hsucc w hw with h1 | h2 | h3
    · exact Or.inl h1
    · exact Or.inr (Or.inl (hd w h2))
    · exact Or.inr (Or.inr h3)

/-- From every pseudostate of a stack a way leads to what is above the stack. -/
theorem Way.leads {top : PseudoId} {stack : List (PseudoId × List PseudoId)}
    (h : Way next marks (some top) stack) (hv : v ∈ stack.map Prod.fst) :
    Relation.TransGen (Leads next) v top := by
  induction stack generalizing top with
  | nil => cases hv
  | cons frame rest ih =>
    obtain ⟨u, us⟩ := frame
    obtain ⟨habove, -, -, hrest⟩ := h
    have hu : Relation.TransGen (Leads next) u top := .single (habove top rfl)
    rcases List.mem_cons.1 hv with rfl | hv
    · exact hu
    · exact (ih hrest hv).trans hu

/-! ## One step -/

section Step

variable {ws : List PseudoId} {rest : List (PseudoId × List PseudoId)}

/-- A pseudostate without successors left is done. -/
theorem Inv.pop (h : Inv next ⟨marks, (v, []) :: rest⟩) :
    Inv next ⟨marks.setIfInBounds v .done, rest⟩ ∧
      work next ⟨marks.setIfInBounds v .done, rest⟩ + 1 = work next ⟨marks, (v, []) :: rest⟩ := by
  obtain ⟨hsize, honPath, hnodup, hends, -, -, hsucc, hrest⟩ := h
  have hmark : markOf marks v = .onPath := (honPath v).2 List.mem_cons_self
  have hv : v < marks.size := lt_size_of_markOf (by rw [hmark]; decide)
  have hnot : v ∉ rest.map Prod.fst := (List.nodup_cons.1 hnodup).1
  refine ⟨⟨by simpa using hsize, ?_, (List.nodup_cons.1 hnodup).2, ?_, ?_⟩, ?_⟩
  · intro w
    rw [markOf_set marks hv]
    by_cases hvw : v = w
    · subst hvw
      simp [hnot]
    · have hw := honPath w
      rw [List.map_cons, List.mem_cons, or_iff_right (Ne.symm hvw)] at hw
      rw [if_neg hvw]
      exact hw
  · intro w hw
    rw [markOf_set marks hv] at hw
    by_cases hvw : v = w
    · subst hvw
      refine Acc.intro v fun u hu => ?_
      rcases hsucc u hu with h1 | h2 | h3
      · cases h1
      · exact hends u h2
      · cases h3
    · rw [if_neg hvw] at hw
      exact hends w hw
  · cases rest with
    | nil => trivial
    | cons frame rest =>
      obtain ⟨u, us⟩ := frame
      obtain ⟨-, hus, husucc, hbelow⟩ := hrest
      refine ⟨nofun, hus, fun w hw => ?_, hbelow.mono fun w hw => ?_⟩
      · rw [markOf_set marks hv]
        rcases husucc w hw with h1 | h2 | h3
        · exact Or.inl h1
        · refine Or.inr (Or.inl ?_)
          split
          · rfl
          · exact h2
        · exact Or.inr (Or.inl (by rw [if_pos (Option.some.inj h3)]))
      · rw [markOf_set marks hv]
        split
        · rfl
        · exact hw
  · simp only [work, sum_cost_done hv hmark, List.map_cons, List.sum_cons, List.length_nil]
    lia

/-- A successor that is done is passed over. -/
theorem Inv.skip (h : Inv next ⟨marks, (v, w :: ws) :: rest⟩) (hw : markOf marks w = .done) :
    Inv next ⟨marks, (v, ws) :: rest⟩ ∧
      work next ⟨marks, (v, ws) :: rest⟩ + 1 = work next ⟨marks, (v, w :: ws) :: rest⟩ := by
  obtain ⟨hsize, honPath, hnodup, hends, habove, hws, hsucc, hrest⟩ := h
  refine ⟨⟨hsize, honPath, hnodup, hends, habove, fun u hu => hws u (List.mem_cons_of_mem _ hu),
    fun u hu => ?_, hrest⟩, ?_⟩
  · rcases hsucc u hu with h1 | h2 | h3
    · rcases List.mem_cons.1 h1 with rfl | h1
      · exact Or.inr (Or.inl hw)
      · exact Or.inl h1
    · exact Or.inr (Or.inl h2)
    · exact Or.inr (Or.inr h3)
  · simp only [work, List.map_cons, List.sum_cons, List.length_cons]
    lia

/-- A successor that was not visited is put on the stack. -/
theorem Inv.push (h : Inv next ⟨marks, (v, w :: ws) :: rest⟩)
    (hw : markOf marks w = .unvisited) :
    Inv next ⟨marks.setIfInBounds w .onPath, (w, next.getD w []) :: (v, ws) :: rest⟩ ∧
      work next ⟨marks.setIfInBounds w .onPath, (w, next.getD w []) :: (v, ws) :: rest⟩ + 1 =
        work next ⟨marks, (v, w :: ws) :: rest⟩ := by
  obtain ⟨hsize, honPath, hnodup, hends, habove, hws, hsucc, hrest⟩ := h
  have hwm : w < marks.size := lt_size_of_markOf (by rw [hw]; decide)
  have hwn : w < next.size := hsize ▸ hwm
  have hnot : w ∉ ((v, w :: ws) :: rest).map Prod.fst := by
    rw [← honPath w]
    simp [hw]
  -- What was done is still done, since `w` was not.
  have hdone : ∀ u, markOf marks u = .done → markOf (marks.setIfInBounds w .onPath) u = .done := by
    intro u hu
    rw [markOf_set marks hwm, if_neg]
    · exact hu
    · rintro rfl
      rw [hw] at hu
      cases hu
  refine ⟨⟨by simpa using hsize, ?_, List.nodup_cons.2 ⟨hnot, hnodup⟩, ?_, nofun, fun u hu => hu,
    fun u hu => Or.inl hu, ?_, fun u hu => hws u (List.mem_cons_of_mem _ hu), fun u hu => ?_,
    hrest.mono hdone⟩, ?_⟩
  · intro u
    rw [markOf_set marks hwm, List.map_cons, List.mem_cons]
    by_cases hwu : w = u
    · simp [hwu]
    · rw [if_neg hwu, or_iff_right (Ne.symm hwu)]
      exact honPath u
  · intro u hu
    rw [markOf_set marks hwm] at hu
    split at hu
    · cases hu
    · exact hends u hu
  · intro u hu
    cases hu
    exact hws w List.mem_cons_self
  · rcases hsucc u hu with h1 | h2 | h3
    · rcases List.mem_cons.1 h1 with rfl | h1
      · exact Or.inr (Or.inr rfl)
      · exact Or.inl h1
    · exact Or.inr (Or.inl (hdone u h2))
    · cases h3
  · have := sum_cost_visit hwn hsize hw
    simp only [work, List.map_cons, List.sum_cons, List.length_cons]
    lia

/-- A successor on the stack closes a way. -/
theorem Inv.leads_self (h : Inv next ⟨marks, (v, w :: ws) :: rest⟩)
    (hw : markOf marks w = .onPath) : Relation.TransGen (Leads next) w w := by
  obtain ⟨-, honPath, -, -, -, hws, -, hrest⟩ := h
  have hvw : Leads next v w := hws w List.mem_cons_self
  have hmem := (honPath w).1 hw
  rw [List.map_cons, List.mem_cons] at hmem
  rcases hmem with hwv | hmem
  · rw [hwv] at hvw ⊢
    exact .single hvw
  · exact (hrest.leads hmem).tail hvw

end Step

/-! ## A whole search -/

/-- What a search may answer: marks with nothing left to do and everything still visited that was
visited before, or a pseudostate on a closed way. -/
def Answers (next : Array (List PseudoId)) (marks : Array Mark) :
    Except PseudoId (Array Mark) → Prop
  | .ok marks' => Inv next ⟨marks', []⟩ ∧
      ∀ v, markOf marks v ≠ .unvisited → markOf marks' v ≠ .unvisited
  | .error w => Relation.TransGen (Leads next) w w

theorem Answers.weaken {marks' : Array Mark} {answer : Except PseudoId (Array Mark)}
    (h : Answers next marks' answer)
    (hm : ∀ v, markOf marks v ≠ .unvisited → markOf marks' v ≠ .unvisited) :
    Answers next marks answer := by
  cases answer with
  | error w => exact h
  | ok marks'' => exact ⟨h.1, fun v hv => h.2 v (hm v hv)⟩

theorem markOf_set_ne_unvisited {x : Mark} (hx : x ≠ .unvisited) (hv : v < marks.size)
    (hw : markOf marks w ≠ .unvisited) :
    markOf (marks.setIfInBounds v x) w ≠ .unvisited := by
  rw [markOf_set marks hv]
  split
  · exact hx
  · exact hw

theorem run_answers {n : Nat} {search : LoopSearch} (h : Inv next search)
    (hn : work next search ≤ n) : Answers next search.marks (run next n search) := by
  induction n generalizing search with
  | zero =>
    obtain ⟨marks, stack⟩ := search
    cases stack with
    | nil => exact ⟨h, fun v hv => hv⟩
    | cons frame rest =>
      simp only [work, List.map_cons, List.sum_cons] at hn
      lia
  | succ n ih =>
    obtain ⟨marks, stack⟩ := search
    match stack with
    | [] => exact ⟨h, fun v hv => hv⟩
    | (v, []) :: rest =>
      obtain ⟨hinv, hwork⟩ := h.pop
      have hv : v < marks.size := by
        refine lt_size_of_markOf ?_
        rw [(h.onPath v).2 List.mem_cons_self]
        decide
      rw [run]
      exact (ih hinv (by lia)).weaken fun w hw => markOf_set_ne_unvisited (by decide) hv hw
    | (v, w :: ws) :: rest =>
      rw [run]
      split
      · next hw => exact h.leads_self hw
      · next hw =>
        obtain ⟨hinv, hwork⟩ := h.push hw
        have hwm : w < marks.size := lt_size_of_markOf (by rw [markOf, hw]; decide)
        exact (ih hinv (by lia)).weaken fun u hu => markOf_set_ne_unvisited (by decide) hwm hu
      · next hw =>
        obtain ⟨hinv, hwork⟩ := h.skip hw
        exact ih hinv (by lia)

/-- The steps that are allowed for one visit. -/
def allowance (next : Array (List PseudoId)) : Nat :=
  next.foldl (fun n ws => n + ws.length + 1) 1

theorem foldl_length_eq (xs : List (List PseudoId)) (n : Nat) :
    xs.foldl (fun n ws => n + ws.length + 1) n =
      n + ∑ v ∈ Finset.range xs.length, ((xs.getD v []).length + 1) := by
  induction xs generalizing n with
  | nil => simp
  | cons x xs ih =>
    rw [List.foldl_cons, ih, List.length_cons, Finset.sum_range_succ']
    simp only [List.getD_cons_succ, List.getD_cons_zero]
    lia

/-- What is allowed covers the work of visiting everything once. -/
theorem sum_cost_lt_allowance (next : Array (List PseudoId)) (marks : Array Mark) :
    ∑ v ∈ Finset.range next.size, cost next marks v < allowance next := by
  have ha : allowance next = 1 + ∑ v ∈ Finset.range next.size, ((next.getD v []).length + 1) := by
    rw [allowance, ← Array.foldl_toList, foldl_length_eq, Array.length_toList]
    congr 1
    apply Finset.sum_congr rfl
    intro v _
    simp
  have hle : ∑ v ∈ Finset.range next.size, cost next marks v ≤
      ∑ v ∈ Finset.range next.size, ((next.getD v []).length + 1) := by
    apply Finset.sum_le_sum
    intro v _
    unfold cost
    split
    · exact Nat.le_refl _
    · exact Nat.zero_le _
  lia

/-- A visit begins with a way of one pseudostate, and what is allowed covers its work. -/
theorem Inv.begin (h : Inv next ⟨marks, []⟩) (hv : markOf marks v = .unvisited) :
    Inv next ⟨marks.setIfInBounds v .onPath, [(v, next.getD v [])]⟩ ∧
      work next ⟨marks.setIfInBounds v .onPath, [(v, next.getD v [])]⟩ ≤ allowance next := by
  have hvm : v < marks.size := lt_size_of_markOf (by rw [hv]; decide)
  have hvn : v < next.size := h.size ▸ hvm
  refine ⟨⟨by simpa using h.size, ?_, by simp, ?_, nofun, fun u hu => hu, fun u hu => Or.inl hu,
    trivial⟩, ?_⟩
  · intro u
    have hnone := h.onPath u
    rw [markOf_set marks hvm]
    by_cases hvu : v = u
    · simp [hvu]
    · rw [if_neg hvu, hnone]
      simp [Ne.symm hvu]
  · intro u hu
    rw [markOf_set marks hvm] at hu
    split at hu
    · cases hu
    · exact h.ends u hu
  · have h1 := sum_cost_visit hvn h.size hv
    have h2 := sum_cost_lt_allowance next marks
    simp only [work, List.map_cons, List.map_nil, List.sum_cons, List.sum_nil]
    lia

theorem visit_answers (h : Inv next ⟨marks, []⟩) (v : PseudoId) :
    Answers next marks (visit next (allowance next) marks v) ∧
      ∀ marks', visit next (allowance next) marks v = .ok marks' →
        markOf marks' v ≠ .unvisited := by
  unfold visit
  split
  · next hv =>
    have hvm : v < marks.size := lt_size_of_markOf (by rw [markOf, hv]; decide)
    obtain ⟨hinv, hwork⟩ := h.begin hv
    have hrun := run_answers hinv hwork
    refine ⟨hrun.weaken fun u hu => markOf_set_ne_unvisited (by decide) hvm hu, ?_⟩
    intro marks' heq
    rw [heq] at hrun
    apply hrun.2
    rw [markOf_set marks hvm, if_pos rfl]
    decide
  · next hv =>
    refine ⟨⟨h, fun u hu => hu⟩, ?_⟩
    intro marks' heq
    cases heq
    exact hv

theorem foldlM_answers (vs : List PseudoId) (h : Inv next ⟨marks, []⟩) :
    Answers next marks (vs.foldlM (visit next (allowance next)) marks) ∧
      ∀ marks', vs.foldlM (visit next (allowance next)) marks = .ok marks' →
        ∀ v ∈ vs, markOf marks' v ≠ .unvisited := by
  induction vs generalizing marks with
  | nil => exact ⟨⟨h, fun v hv => hv⟩, nofun⟩
  | cons v vs ih =>
    rw [List.foldlM_cons]
    obtain ⟨hans, hvisited⟩ := visit_answers h v
    cases hvisit : visit next (allowance next) marks v with
    | error w =>
      rw [hvisit] at hans
      exact ⟨hans, nofun⟩
    | ok marks1 =>
      rw [hvisit] at hans
      obtain ⟨hrest, hall⟩ := ih hans.1
      refine ⟨hrest.weaken hans.2, ?_⟩
      intro marks' heq u hu
      rcases List.mem_cons.1 hu with rfl | hu
      · change vs.foldlM (visit next (allowance next)) marks1 = .ok marks' at heq
        rw [heq] at hrest
        exact hrest.2 u (hvisited marks1 hvisit)
      · exact hall marks' heq u hu

theorem inv_unvisited (next : Array (List PseudoId)) :
    Inv next ⟨Array.replicate next.size .unvisited, []⟩ := by
  have hmark : ∀ v, v < next.size →
      markOf (Array.replicate next.size .unvisited) v = .unvisited := by
    intro v hv
    simp [markOf, hv]
  refine ⟨by simp, fun v => ?_, by simp, fun v hv => ?_, trivial⟩
  · constructor
    · intro hv
      have hlt : v < (Array.replicate next.size Mark.unvisited).size :=
        lt_size_of_markOf (by rw [hv]; decide)
      rw [hmark v (by simpa using hlt)] at hv
      cases hv
    · intro hv
      cases hv
  · by_cases hlt : v < next.size
    · rw [hmark v hlt] at hv
      cases hv
    · refine Acc.intro v fun w hw => ?_
      simp [Leads, Nat.le_of_not_lt hlt] at hw

end LoopSearch

variable {next : Array (List PseudoId)}

theorem leads_of_findLoop {v : PseudoId} (h : findLoop next = some v) :
    Relation.TransGen (Leads next) v v := by
  have hans := (LoopSearch.foldlM_answers (List.range next.size)
    (LoopSearch.inv_unvisited next)).1
  unfold findLoop at h
  simp only at h
  split at h
  · cases h
  · next w heq =>
    cases h
    change (List.range next.size).foldlM (LoopSearch.visit next (LoopSearch.allowance next)) _ = _
      at heq
    rw [heq] at hans
    exact hans

theorem ends_of_findLoop (h : findLoop next = none) (v : PseudoId) : Ends next v := by
  obtain ⟨hans, hall⟩ := LoopSearch.foldlM_answers (List.range next.size)
    (LoopSearch.inv_unvisited next)
  unfold findLoop at h
  simp only at h
  split at h
  · next marks heq =>
    change (List.range next.size).foldlM (LoopSearch.visit next (LoopSearch.allowance next)) _ = _
      at heq
    rw [heq] at hans
    by_cases hv : v < next.size
    · have hvisited := hall marks heq v (List.mem_range.2 hv)
      have hnot : LoopSearch.markOf marks v ≠ .onPath := fun hon => by
        cases (hans.1.onPath v).1 hon
      apply hans.1.ends v
      cases hm : LoopSearch.markOf marks v with
      | unvisited => exact absurd hm hvisited
      | onPath => exact absurd hm hnot
      | done => rfl
    · refine Acc.intro v fun w hw => ?_
      simp [Leads, Nat.le_of_not_lt hv] at hw
  · cases h

/-- The search finds nothing exactly if no pseudostate leads back to itself. -/
theorem findLoop_eq_none_iff :
    findLoop next = none ↔ ∀ v, ¬ Relation.TransGen (Leads next) v v := by
  constructor
  · intro h v
    exact (ends_of_findLoop h v).not_leads_self
  · intro h
    cases hf : findLoop next with
    | none => rfl
    | some v => exact absurd (leads_of_findLoop hf) (h v)

/-! ## Ranks -/

/-- Without closed ways, every way goes down in rank. A pseudostate is ranked by how many others can
be reached from it. -/
theorem exists_rank (hin : ∀ v w, Leads next v w → w < next.size)
    (hac : ∀ v, ¬ Relation.TransGen (Leads next) v v) :
    ∃ rank : PseudoId → Nat, (∀ v < next.size, rank v < next.size) ∧
      ∀ v w, Leads next v w → rank w < rank v := by
  classical
  refine ⟨fun v => ((Finset.range next.size).filter
    fun w => Relation.TransGen (Leads next) v w).card, ?_, ?_⟩
  · intro v hv
    have hss : (Finset.range next.size).filter (fun w => Relation.TransGen (Leads next) v w) ⊂
        Finset.range next.size := by
      refine Finset.filter_ssubset.2 ⟨v, Finset.mem_range.2 hv, hac v⟩
    simpa using Finset.card_lt_card hss
  · intro v w hvw
    apply Finset.card_lt_card
    rw [Finset.ssubset_iff_of_subset]
    · refine ⟨w, ?_, ?_⟩
      · rw [Finset.mem_filter, Finset.mem_range]
        exact ⟨hin v w hvw, .single hvw⟩
      · rw [Finset.mem_filter]
        exact fun hw => hac w hw.2
    · intro u hu
      rw [Finset.mem_filter] at hu ⊢
      exact ⟨hu.1, .head hvw hu.2⟩

end Statechart
