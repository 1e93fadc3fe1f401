import Statechart.Proofs.Sound

/-
  Whether pseudostates lead back to themselves is decided for any table of pseudostates and plans
  whose references are in range (`RefersWithin`), whatever chart it comes from. The search is a loop
  that takes one step after another (`LoopSearch.Step`) and looks up only what is there. Its work
  goes down with every step, so it comes to a halt (`run_halts`, `foldlM_sweeps`), and what it
  reports is read off the ways between pseudostates (`GoesInto`).
-/

namespace Statechart

variable {V : Type}

/-- The plans of pseudostates are there, and so are the pseudostates through which plans go on. -/
structure RefersWithin (rows : Array (PseudoRow V)) (plans : List (Plan V)) : Prop where
  planIds : ∀ row ∈ rows, ∀ q ∈ row.planIds, q < plans.length
  next : ∀ plan ∈ plans, ∀ r, plan.next = .pseudo r → r < rows.size

/-- The plan of a branch of `r`, or that of its fallback, goes on through `s`. -/
def GoesInto (rows : Array (PseudoRow V)) (plans : List (Plan V)) (r s : PseudoId) : Prop :=
  ∃ row q plan, rows[r]? = some row ∧ q ∈ row.planIds ∧ plans[q]? = some plan ∧
    plan.next = .pseudo s

section Ways

variable {rows : Array (PseudoRow V)} {plans : List (Plan V)} {r s : PseudoId}

theorem Continuation.pseudo?_eq_some_iff {next : Continuation} :
    next.pseudo? = some r ↔ next = .pseudo r := by
  cases next <;> simp [Continuation.pseudo?]

theorem leads_successors_iff :
    Leads (successors rows plans.toArray) r s ↔ GoesInto rows plans r s := by
  rw [Leads, successors_eq, Array.getD_eq_getD_getElem?, Array.getElem?_map]
  unfold GoesInto
  cases rows[r]? with
  | none => simp
  | some row =>
    simp only [Option.map_some, Option.getD_some, List.mem_filterMap, Option.bind_eq_some_iff,
      Continuation.pseudo?_eq_some_iff, List.getElem?_toArray, Option.some.injEq]
    constructor
    · rintro ⟨q, hq, plan, hplan, hnext⟩
      exact ⟨row, q, plan, rfl, hq, hplan, hnext⟩
    · rintro ⟨_, q, plan, rfl, hq, hplan, hnext⟩
      exact ⟨q, hq, plan, hplan, hnext⟩

theorem leads_successors : Leads (successors rows plans.toArray) = GoesInto rows plans :=
  funext fun _ => funext fun _ => propext leads_successors_iff

theorem RefersWithin.lt_of_goesInto (h : RefersWithin rows plans) (hs : GoesInto rows plans r s) :
    s < rows.size := by
  obtain ⟨row, q, plan, -, -, hplan, hnext⟩ := hs
  exact h.next plan (List.mem_of_getElem? hplan) s hnext

end Ways

/-! ## The search comes to a halt -/

namespace LoopSearch

variable {next : Array (List PseudoId)} {marks : Array Mark} {v w : PseudoId}

/-- One step of the search. Every number that it looks up is there. -/
inductive Step (next : Array (List PseudoId)) : LoopSearch → LoopSearch → Prop
  | pop {marks v rest} (hv : v < marks.size) :
    Step next ⟨marks, (v, []) :: rest⟩ ⟨marks.setIfInBounds v .done, rest⟩
  | push {marks v w ws us rest} (hw : marks[w]? = some .unvisited) (hus : next[w]? = some us) :
    Step next ⟨marks, (v, w :: ws) :: rest⟩
      ⟨marks.setIfInBounds w .onPath, (w, us) :: (v, ws) :: rest⟩
  | skip {marks v w ws rest} (hw : marks[w]? = some .done) :
    Step next ⟨marks, (v, w :: ws) :: rest⟩ ⟨marks, (v, ws) :: rest⟩

/-- Step by step the search comes to its answer, however many steps that takes: the stack is empty,
or the way meets itself. -/
inductive Halts (next : Array (List PseudoId)) : LoopSearch → Except PseudoId (Array Mark) → Prop
  | empty (marks : Array Mark) : Halts next ⟨marks, []⟩ (.ok marks)
  | closed {marks v w ws rest} (hw : marks[w]? = some .onPath) :
    Halts next ⟨marks, (v, w :: ws) :: rest⟩ (.error w)
  | step {search search' answer} (hstep : Step next search search')
    (hrest : Halts next search' answer) : Halts next search answer

/-- Searching from one pseudostate after another, unless it was visited before, comes to an
answer. -/
inductive Sweeps (next : Array (List PseudoId)) :
    List PseudoId → Array Mark → Except PseudoId (Array Mark) → Prop
  | nil (marks : Array Mark) : Sweeps next [] marks (.ok marks)
  | visited {v vs marks mark answer} (hv : marks[v]? = some mark) (hmark : mark ≠ .unvisited)
    (hrest : Sweeps next vs marks answer) : Sweeps next (v :: vs) marks answer
  | visit {v vs ws marks marks' answer} (hv : marks[v]? = some .unvisited)
    (hws : next[v]? = some ws)
    (hhalts : Halts next ⟨marks.setIfInBounds v .onPath, [(v, ws)]⟩ (.ok marks'))
    (hrest : Sweeps next vs marks' answer) : Sweeps next (v :: vs) marks answer
  | closed {v vs ws marks w} (hv : marks[v]? = some .unvisited) (hws : next[v]? = some ws)
    (hhalts : Halts next ⟨marks.setIfInBounds v .onPath, [(v, ws)]⟩ (.error w)) :
    Sweeps next (v :: vs) marks (.error w)

theorem getElem?_marks (hv : v < marks.size) : marks[v]? = some (markOf marks v) := by
  rw [markOf, Array.getD_eq_getD_getElem?, Array.getElem?_eq_getElem hv, Option.getD_some]

theorem getElem?_next (hv : v < next.size) : next[v]? = some (next.getD v []) := by
  rw [Array.getD_eq_getD_getElem?, Array.getElem?_eq_getElem hv, Option.getD_some]

/-- Within its work the search has come to a halt. -/
theorem run_halts (hnext : ∀ v w, Leads next v w → w < next.size) {n : Nat} {search : LoopSearch}
    (h : Inv next search) (hn : work next search ≤ n) :
    Halts next search (run next n search) := by
  induction n generalizing search with
  | zero =>
    obtain ⟨marks, stack⟩ := search
    cases stack with
    | nil => exact .empty marks
    | cons frame rest =>
      simp only [work, List.map_cons, List.sum_cons] at hn
      lia
  | succ n ih =>
    obtain ⟨marks, stack⟩ := search
    cases stack with
    | nil => exact .empty marks
    | cons frame rest =>
      obtain ⟨v, ws⟩ := frame
      cases ws with
      | nil =>
        have hv : v < marks.size := by
          refine lt_size_of_markOf ?_
          rw [(h.onPath v).2 List.mem_cons_self]
          decide
        obtain ⟨hinv, hwork⟩ := h.pop
        rw [run]
        exact .step (.pop hv) (ih hinv (by lia))
      | cons w ws =>
        have hw : w < next.size := hnext v w (h.way.2.1 w List.mem_cons_self)
        have hmark := getElem?_marks (h.size.symm ▸ hw : w < marks.size)
        rw [run]
        cases hcase : markOf marks w with
        | onPath =>
          rw [hcase] at hmark
          simp only [show marks.getD w .done = .onPath from hcase]
          exact .closed hmark
        | unvisited =>
          rw [hcase] at hmark
          obtain ⟨hinv, hwork⟩ := h.push hcase
          simp only [show marks.getD w .done = .unvisited from hcase]
          exact .step (.push hmark (getElem?_next hw)) (ih hinv (by lia))
        | done =>
          rw [hcase] at hmark
          obtain ⟨hinv, hwork⟩ := h.skip hcase
          simp only [show marks.getD w .done = .done from hcase]
          exact .step (.skip hmark) (ih hinv (by lia))

theorem foldlM_sweeps (hnext : ∀ v w, Leads next v w → w < next.size) {vs : List PseudoId}
    (hvs : ∀ v ∈ vs, v < next.size) (h : Inv next ⟨marks, []⟩) :
    Sweeps next vs marks (vs.foldlM (visit next (allowance next)) marks) := by
  induction vs generalizing marks with
  | nil => exact .nil marks
  | cons v vs ih =>
    have hvn : v < next.size := hvs v List.mem_cons_self
    have hmark := getElem?_marks (h.size.symm ▸ hvn : v < marks.size)
    have hrest := fun x hx => hvs x (List.mem_cons_of_mem v hx)
    have hanswers := (visit_answers h v).1
    rw [List.foldlM_cons]
    by_cases hv : markOf marks v = .unvisited
    · obtain ⟨hinv, hwork⟩ := h.begin hv
      have hvisit : visit next (allowance next) marks v =
          run next (allowance next) ⟨marks.setIfInBounds v .onPath, [(v, next.getD v [])]⟩ :=
        if_pos hv
      have hhalts := run_halts hnext hinv hwork
      rw [hv] at hmark
      rw [hvisit] at hanswers ⊢
      cases hrun : run next (allowance next)
          ⟨marks.setIfInBounds v .onPath, [(v, next.getD v [])]⟩ with
      | error w =>
        rw [hrun] at hhalts
        exact .closed hmark (getElem?_next hvn) hhalts
      | ok marks' =>
        rw [hrun] at hhalts hanswers
        exact .visit hmark (getElem?_next hvn) hhalts (ih hrest hanswers.1)
    · have hvisit : visit next (allowance next) marks v = .ok marks := if_neg hv
      rw [hvisit]
      exact .visited hmark hv (ih hrest h)

end LoopSearch

/-- Where an answer says that the way met itself. -/
def LoopSearch.meeting? : Except PseudoId (Array Mark) → Option PseudoId
  | .ok _ => none
  | .error r => some r

/-- The search as a whole comes to the answer from which its finding is taken. -/
theorem exists_sweeps {next : Array (List PseudoId)}
    (hnext : ∀ v w, Leads next v w → w < next.size) :
    ∃ answer,
      LoopSearch.Sweeps next (List.range next.size) (Array.replicate next.size .unvisited) answer ∧
      findLoop next = LoopSearch.meeting? answer := by
  refine ⟨_, LoopSearch.foldlM_sweeps hnext (fun v hv => List.mem_range.1 hv)
    (LoopSearch.inv_unvisited next), ?_⟩
  unfold findLoop LoopSearch.meeting?
  rfl

/-! ## What is reported -/

namespace Chart

/-- What is reported of the answer of a search: the pseudostate at which the way met itself. -/
def loopReport (c : Chart V) (rows : Array (PseudoRow V)) :
    Except PseudoId (Array Mark) → Option ModelError
  | .ok _ => none
  | .error r => (rows[r]?).map fun row => .pseudostateLoop row.kind (c.label row.container)

variable {rows : Array (PseudoRow V)} {plans : List (Plan V)}

/-- What is found lies on a closed way, and so it is reported. -/
theorem exists_of_findLoop (c : Chart V) (h : RefersWithin rows plans) {r : PseudoId}
    (hr : findLoop (successors rows plans.toArray) = some r) :
    ∃ row, rows[r]? = some row ∧ Relation.TransGen (GoesInto rows plans) r r ∧
      c.loopFault rows plans = some (.pseudostateLoop row.kind (c.label row.container)) := by
  have hcycle := leads_of_findLoop hr
  rw [leads_successors] at hcycle
  obtain ⟨s, -, hsr⟩ := Relation.TransGen.tail'_iff.1 hcycle
  have hrow := Array.getElem?_eq_getElem (h.lt_of_goesInto hsr)
  refine ⟨_, hrow, hcycle, ?_⟩
  rw [loopFault, hr, Option.map_some, hrow]

/-- For any pseudostates and plans with references in range, the search comes to a halt, finds
nothing exactly if no pseudostate leads back to itself, and reports only pseudostates that do. -/
theorem loopFault_decides_acyclicity (c : Chart V) (h : RefersWithin rows plans) :
    (∃ answer, LoopSearch.Sweeps (successors rows plans.toArray) (List.range rows.size)
        (Array.replicate rows.size .unvisited) answer ∧
      c.loopFault rows plans = c.loopReport rows answer) ∧
    (c.loopFault rows plans = none ↔ ∀ r, ¬ Relation.TransGen (GoesInto rows plans) r r) ∧
    ∀ error, c.loopFault rows plans = some error →
      ∃ r row, rows[r]? = some row ∧ Relation.TransGen (GoesInto rows plans) r r ∧
        error = .pseudostateLoop row.kind (c.label row.container) := by
  have hsize : (successors rows plans.toArray).size = rows.size := by
    rw [successors_eq, Array.size_map]
  have hnext : ∀ v w, Leads (successors rows plans.toArray) v w →
      w < (successors rows plans.toArray).size := by
    intro v w hvw
    rw [hsize]
    exact h.lt_of_goesInto (leads_successors_iff.1 hvw)
  obtain ⟨answer, hsweeps, hanswer⟩ := exists_sweeps hnext
  rw [hsize] at hsweeps
  have hnone : c.loopFault rows plans = none ↔
      findLoop (successors rows plans.toArray) = none := Option.map_eq_none_iff
  refine ⟨⟨answer, hsweeps, ?_⟩, ?_, fun error herror => ?_⟩
  · cases answer with
    | ok marks => exact hnone.2 hanswer
    | error r =>
      obtain ⟨row, hrow, -, hfault⟩ := c.exists_of_findLoop h hanswer
      rw [hfault, loopReport, hrow, Option.map_some]
  · rw [hnone, findLoop_eq_none_iff, leads_successors]
  · cases hr : findLoop (successors rows plans.toArray) with
    | none =>
      rw [hnone.2 hr] at herror
      cases herror
    | some r =>
      obtain ⟨row, hrow, hcycle, hfault⟩ := c.exists_of_findLoop h hr
      exact ⟨r, row, hrow, hcycle, Option.some.inj (herror.symm.trans hfault)⟩

/-- The branch and the fallback of the first pseudostate meet again in the last one. -/
def crossroads : Array (PseudoRow Nat) :=
  #[⟨.choice, 0, none, [⟨.always, 0⟩], 1⟩, ⟨.choice, 1, none, [], 2⟩, ⟨.choice, 1, none, [], 3⟩,
    ⟨.exitPoint, 2, none, [⟨.always, 4⟩], 5⟩]

/-- The plans of `crossroads`; the last pseudostate goes on as its fallback says. -/
def crossroadsPlans (last : Continuation) : List (Plan Nat) :=
  [.pseudo 1, .pseudo 2, .pseudo 3, .pseudo 3, .settle 0, last].map fun next =>
    { exitTo := none, action := none, enter := [], next }

theorem crossroads_refersWithin {last : Continuation} (hlast : ∀ r, last = .pseudo r → r < 4) :
    RefersWithin crossroads (crossroadsPlans last) where
  planIds := by
    have hlength : (crossroadsPlans last).length = 6 := rfl
    rw [hlength]
    decide
  next plan hplan r hr := by
    obtain ⟨next, hnext, rfl⟩ := List.mem_map.1 hplan
    have hall : ∀ next ∈ [.pseudo 1, .pseudo 2, .pseudo 3, .pseudo 3, .settle 0, last],
        ∀ r, next = .pseudo r → r < 4 := by
      simpa using hlast
    exact hall next hnext r hr

/-- Two ways to one pseudostate are no closed way; a way back from there is one. -/
theorem crossroads_loopFault_decides_acyclicity :
    RefersWithin crossroads (crossroadsPlans (.settle 0)) ∧
    (∀ r, ¬ Relation.TransGen (GoesInto crossroads (crossroadsPlans (.settle 0))) r r) ∧
    RefersWithin crossroads (crossroadsPlans (.pseudo 2)) ∧
    relay.loopFault crossroads (crossroadsPlans (.pseudo 2)) =
      some (.pseudostateLoop .exitPoint "Work") ∧
    ∃ r row, crossroads[r]? = some row ∧
      Relation.TransGen (GoesInto crossroads (crossroadsPlans (.pseudo 2))) r r ∧
      ModelError.pseudostateLoop .exitPoint "Work" =
        .pseudostateLoop row.kind (relay.label row.container) := by
  have hsettle : RefersWithin crossroads (crossroadsPlans (.settle 0)) :=
    crossroads_refersWithin (by simp)
  have hback : RefersWithin crossroads (crossroadsPlans (.pseudo 2)) :=
    crossroads_refersWithin (by simp)
  have hnone : relay.loopFault crossroads (crossroadsPlans (.settle 0)) = none := by
    decide +kernel
  have hsome : relay.loopFault crossroads (crossroadsPlans (.pseudo 2)) =
      some (.pseudostateLoop .exitPoint "Work") := by decide +kernel
  exact ⟨hsettle, (loopFault_decides_acyclicity relay hsettle).2.1.1 hnone, hback, hsome,
    (loopFault_decides_acyclicity relay hback).2.2 _ hsome⟩

end Chart

end Statechart
