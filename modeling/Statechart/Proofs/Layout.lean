import Mathlib.Algebra.GroupWithZero.Nat
import Mathlib.Data.List.Forall2
import Statechart.Program.Compile
import Statechart.Proofs.Tracking

/-
  Where things stand in the tables of a program. Reading a table by number gives what was put there
  for the node: the plans of a pseudostate (`exists_pseudoRow`), the behaviors of a state on an
  event in their order (`exists_behaviors`), and the nearest states that handle an event
  (`handlerRow?_program`, `nextAncestor?_program`). Behaviors are found by spans, which count up to
  `maxSpan`; `SpansFit` says in terms of the chart that this is enough (`forall_span_iff`).
-/

namespace Statechart

/-! ## Parts put one after the other -/

/-- Where the part with number `r` starts. -/
def offset {α : Type} (parts : List (List α)) (r : Nat) : Nat :=
  ((parts.take r).map List.length).sum

section Parts

variable {α : Type} {parts : List (List α)} {part : List α} {r i : Nat}

theorem offset_cons_succ (part : List α) (parts : List (List α)) (r : Nat) :
    offset (part :: parts) (r + 1) = part.length + offset parts r := by
  simp [offset]

/-- Cutting a part out of the whole. -/
theorem take_drop_flatten (h : parts[r]? = some part) :
    (parts.flatten.drop (offset parts r)).take part.length = part := by
  induction parts generalizing r with
  | nil => simp at h
  | cons first parts ih =>
    cases r with
    | zero =>
      obtain rfl : first = part := by simpa using h
      simp [offset]
    | succ r =>
      rw [offset_cons_succ, List.flatten_cons, List.drop_append, List.drop_eq_nil_of_le (by simp)]
      simpa using ih (by simpa using h)

theorem offset_add_length_le (h : parts[r]? = some part) :
    offset parts r + part.length ≤ parts.flatten.length := by
  induction parts generalizing r with
  | nil => simp at h
  | cons first parts ih =>
    cases r with
    | zero =>
      obtain rfl : first = part := by simpa using h
      simp [offset]
    | succ r =>
      have := ih (r := r) (by simpa using h)
      rw [offset_cons_succ, List.flatten_cons, List.length_append]
      lia

theorem getElem?_flatten (h : parts[r]? = some part) (hi : i < part.length) :
    parts.flatten[offset parts r + i]? = part[i]? := by
  have hcut := take_drop_flatten h
  rw [← List.getElem?_drop, ← List.getElem?_take_of_lt hi, hcut]

theorem foldl_starts (sizes : List Nat) (out : Array Nat) (n : Nat) :
    (sizes.foldl (fun acc size => (acc.1.push acc.2, acc.2 + size)) (out, n)).1.toList =
      out.toList ++ (List.range sizes.length).map fun r => n + (sizes.take r).sum := by
  induction sizes generalizing out n with
  | nil => simp
  | cons size sizes ih =>
    rw [List.foldl_cons, ih, List.length_cons, List.range_succ_eq_map]
    simp [Function.comp_def, Nat.add_assoc]

theorem starts_getD (parts : List (List α)) (hr : r < parts.length) :
    (starts (parts.map List.length)).getD r 0 = offset parts r := by
  have h := foldl_starts (parts.map List.length) #[] 0
  have hget : (starts (parts.map List.length)).toList[r]? = some (offset parts r) := by
    rw [starts, h]
    simp [hr, offset, List.map_take]
  rw [Array.getD_eq_getD_getElem?, ← Array.getElem?_toList, hget]
  rfl

/-- Parts of the same size start at the multiples of that size. -/
theorem offset_of_length_eq {n : Nat} (hn : ∀ part ∈ parts, part.length = n)
    (hr : r ≤ parts.length) : offset parts r = r * n := by
  have hconst : (parts.take r).map List.length = List.replicate r n := by
    rw [List.eq_replicate_iff]
    refine ⟨by simp [hr], fun k hk => ?_⟩
    obtain ⟨part, hpart, rfl⟩ := List.mem_map.1 hk
    exact hn part (List.mem_of_mem_take hpart)
  rw [offset, hconst, List.sum_replicate_nat]

variable {β : Type} {xs : List β} {x : β} {f : β → List α} {n e : Nat}

theorem take_drop_flatMap (hf : ∀ x, (f x).length = n) (hx : xs[r]? = some x) :
    ((xs.flatMap f).drop (r * n)).take n = f x := by
  have hpart : (xs.map f)[r]? = some (f x) := by simp [hx]
  have hr : r < (xs.map f).length := (List.getElem?_eq_some_iff.1 hpart).1
  have hcut := take_drop_flatten hpart
  rwa [offset_of_length_eq (by simpa using fun x _ => hf x) (Nat.le_of_lt hr), hf,
    ← List.flatMap_def] at hcut

/-- The entry with number `e` of the part with number `r`. -/
theorem getElem?_flatMap (hf : ∀ x, (f x).length = n) (hx : xs[r]? = some x) (he : e < n) :
    (xs.flatMap f)[r * n + e]? = (f x)[e]? := by
  have hcut := take_drop_flatMap hf hx
  rw [← List.getElem?_drop, ← List.getElem?_take_of_lt he, hcut]

theorem take_flatMap (hf : ∀ x, (f x).length = n) (hx : xs[r]? = some x) (he : e ≤ n) :
    (xs.flatMap f).take (r * n + e) = (xs.take r).flatMap f ++ (f x).take e := by
  induction r generalizing xs with
  | zero =>
    obtain ⟨rest, rfl⟩ := List.head?_eq_some_iff.1 (List.head?_eq_getElem? ▸ hx)
    rw [List.flatMap_cons, List.take_append_of_le_length (by rw [hf]; omega)]
    simp
  | succ r ih =>
    cases xs with
    | nil => simp at hx
    | cons y ys =>
      have hsize : (r + 1) * n + e = (f y).length + (r * n + e) := by
        rw [hf, Nat.succ_mul]
        omega
      rw [List.flatMap_cons, hsize, List.take_length_add_append, ih (by simpa using hx),
        List.take_succ_cons, List.flatMap_cons, List.append_assoc]

theorem exists_of_forall₂_of_mem {R : α → β → Prop} {ys : List β} {as : List α} {y : β}
    (h : List.Forall₂ R as ys) (hy : y ∈ ys) : ∃ a ∈ as, R a y := by
  induction h with
  | nil => simp at hy
  | cons hab _ ih =>
    rcases List.mem_cons.1 hy with rfl | hy
    · exact ⟨_, List.mem_cons_self, hab⟩
    · obtain ⟨a, ha, hR⟩ := ih hy
      exact ⟨a, List.mem_cons_of_mem _ ha, hR⟩

theorem forall₂_getElem? {R : α → β → Prop} {ys : List β} {as : List α} {i : Nat} {a : α} {y : β}
    (h : List.Forall₂ R as ys) (ha : as[i]? = some a) (hy : ys[i]? = some y) : R a y := by
  induction h generalizing i with
  | nil => simp at ha
  | cons hab _ ih =>
    cases i with
    | zero =>
      obtain rfl := by simpa using ha
      obtain rfl := by simpa using hy
      exact hab
    | succ i => exact ih (by simpa using ha) (by simpa using hy)

end Parts

variable {V : Type}

/-! ## The plans of pseudostates -/

/-- What the table holds for the pseudostate `r`: its branches, each with the plan of what it asks
for, and the plan of its fallback. -/
structure PseudoNode.CompiledTo (node : PseudoNode V) (c : Chart V) (plans : Array (Plan V))
    (r : PseudoId) (row : PseudoRow V) : Prop where
  kind : row.kind = node.kind
  container : row.container = node.container
  branches : List.Forall₂
    (fun arm b => b.guard = arm.guard ∧ plans[b.plan]? = some (c.plan arm.request))
    (node.arms r c.historySlots) row.branches
  fallback : plans[row.fallback]? = some (c.plan (node.fallback r))

namespace Chart

section Pseudostates

variable (c : Chart V)

/-- What all pseudostates ask for. -/
def pseudoParts : List (List (Request V)) := c.pseudoRequests c.historySlots

/-- The plans of all pseudostates, which come first. -/
def pseudoPlans : List (Plan V) := c.pseudoParts.flatten.map c.plan

variable {c} {r : PseudoId} {node : PseudoNode V}

theorem getElem?_pseudoParts (h : c.pseudostates[r]? = some node) :
    c.pseudoParts[r]? = some (node.requests r c.historySlots) := by
  have : c.pseudostates.toList[r]? = some node := by simpa using h
  simp [pseudoParts, pseudoRequests, List.getElem?_zipIdx, this]

/-- A part of the requests of pseudostates stands in the plans from its offset on. -/
theorem getElem?_pseudoPlans (h : c.pseudostates[r]? = some node) {i : Nat} {request : Request V}
    (hi : (node.requests r c.historySlots)[i]? = some request) :
    c.pseudoPlans[offset c.pseudoParts r + i]? = some (c.plan request) := by
  have hlt : i < (node.requests r c.historySlots).length := (List.getElem?_eq_some_iff.1 hi).1
  rw [pseudoPlans, List.getElem?_map, getElem?_flatten (getElem?_pseudoParts h) hlt, hi]
  rfl

theorem getElem?_plans (c : Chart V) {q : PlanId} {plan : Plan V}
    (h : c.pseudoPlans[q]? = some plan) : c.program.plans[q]? = some plan := by
  change (c.pseudoPlans ++ c.cells.requests.map c.plan).toArray[q]? = _
  rw [List.getElem?_toArray, List.getElem?_append_left (List.getElem?_eq_some_iff.1 h).1, h]

@[simp] theorem size_pseudostates_program (c : Chart V) :
    c.program.pseudostates.size = c.pseudostates.size := by
  simp [program, pseudoRows]

/-- The row of a pseudostate numbers its plans from its offset on. -/
theorem getElem?_pseudostates_program (h : c.pseudostates[r]? = some node) :
    c.program.pseudostates[r]? =
      some (node.row r c.historySlots (offset c.pseudoParts r)) := by
  have hr : r < c.pseudoParts.length := by
    simpa [pseudoParts, pseudoRequests] using (Array.getElem?_eq_some_iff.1 h).1
  change (c.pseudostates.mapIdx fun p node => node.row p c.historySlots
    ((starts (c.pseudoParts.map List.length)).getD p 0))[r]? = _
  rw [Array.getElem?_mapIdx, h, Option.map_some, starts_getD c.pseudoParts hr]

/-- A pseudostate has a row, with the plans of what it asks for. -/
theorem exists_pseudoRow (h : c.pseudostates[r]? = some node) {plans : Array (Plan V)}
    (hplans : ∀ {q : PlanId} {plan}, c.pseudoPlans[q]? = some plan → plans[q]? = some plan) :
    ∃ row, c.program.pseudostates[r]? = some row ∧ node.CompiledTo c plans r row := by
  refine ⟨_, getElem?_pseudostates_program h, rfl, rfl, ?_, ?_⟩
  · rw [PseudoNode.row, List.forall₂_map_right_iff, List.forall₂_iff_get]
    refine ⟨by simp, fun i h₁ h₂ => ⟨by simp, hplans ?_⟩⟩
    have harm : (node.requests r c.historySlots)[i]? =
        some ((node.arms r c.historySlots).get ⟨i, h₁⟩).request := by
      rw [PseudoNode.requests, List.getElem?_append_left (by simpa using h₁)]
      simp [h₁]
    simpa using getElem?_pseudoPlans h harm
  · refine hplans (getElem?_pseudoPlans h ?_)
    rw [PseudoNode.requests, List.getElem?_append_right (by simp)]
    simp

end Pseudostates

end Chart

/-! ## The behaviors of a cell -/

/-- What the table holds for a behavior of `s`: its guard, and either its action and policy or the
plan of its transition. -/
def Behavior.CompiledTo (b : Behavior V) (c : Chart V) (plans : Array (Plan V)) (s : StateId)
    (row : BehaviorRow V) : Prop :=
  row.guard = b.guard ∧
    match b.target with
    | some target => ∃ q, row.effect = .transition q ∧
        plans[q]? = some (c.plan (.move (.state s) target b.action))
    | none => row.effect = .internal b.action b.consume

/-- The rows of behaviors, plans being numbered from `q`. -/
def compiledRows : PlanId → List (StateId × Behavior V) → List (BehaviorRow V)
  | _, [] => []
  | q, b :: bs =>
    match b.2.target with
    | some _ => ⟨b.2.guard, .transition q⟩ :: compiledRows (q + 1) bs
    | none => ⟨b.2.guard, .internal b.2.action b.2.consume⟩ :: compiledRows q bs

theorem foldl_addTo (bs : List (StateId × Behavior V)) (out : Array (BehaviorRow V)) (q : PlanId) :
    (bs.foldl (fun table b => b.2.addTo table) (out, q)).1.toList =
      out.toList ++ compiledRows q bs := by
  induction bs generalizing out q with
  | nil => simp [compiledRows]
  | cons b bs ih =>
    rw [List.foldl_cons, Behavior.addTo, compiledRows]
    cases b.2.target with
    | none => simp [ih]
    | some target => simp [ih]

/-- The rows hold what their behaviors say, if the plans of those that lead somewhere stand in a
table from `q` on. -/
theorem forall₂_compiledRows (c : Chart V) (plans : Array (Plan V))
    (bs : List (StateId × Behavior V)) (q : PlanId)
    (hplans : ∀ (i : Nat) (request : Request V),
      (bs.filterMap fun b => b.2.request b.1)[i]? = some request →
        plans[q + i]? = some (c.plan request)) :
    List.Forall₂ (fun b row => b.2.CompiledTo c plans b.1 row) bs (compiledRows q bs) := by
  induction bs generalizing q with
  | nil => exact .nil
  | cons b bs ih =>
    rw [compiledRows]
    cases htarget : b.2.target with
    | none =>
      refine .cons ⟨rfl, by rw [htarget]⟩ (ih q fun i request hi => hplans i request ?_)
      simpa [Behavior.request, htarget] using hi
    | some target =>
      have hreq : b.2.request b.1 = some (.move (.state b.1) target b.2.action) := by
        rw [Behavior.request, htarget]
        rfl
      rw [List.filterMap_cons, hreq] at hplans
      refine .cons ⟨rfl, ?_⟩ (ih (q + 1) fun i request hi => ?_)
      · rw [htarget]
        exact ⟨q, rfl, hplans 0 _ rfl⟩
      · rw [Nat.add_assoc, Nat.add_comm 1 i]
        exact hplans (i + 1) request (by simpa using hi)

/-! ## Where the cells go -/

/-- A span is noted exactly if it can hold both numbers. -/
theorem Span.of_eq_ok_iff {start size : Nat} {span : Span} :
    Span.of start size = .ok span ↔ span.start.toNat = start ∧ span.size.toNat = size := by
  unfold Span.of
  constructor
  · intro h
    split at h
    · rename_i hfit
      cases h
      exact ⟨UInt32.toNat_ofNat_of_lt' (Nat.lt_succ_of_le hfit.1),
        UInt32.toNat_ofNat_of_lt' (Nat.lt_succ_of_le hfit.2)⟩
    · cases h
  · rintro ⟨rfl, rfl⟩
    rw [if_pos ⟨Nat.le_of_lt_succ span.start.toNat_lt, Nat.le_of_lt_succ span.size.toNat_lt⟩,
      UInt32.ofNat_toNat, UInt32.ofNat_toNat]

theorem Span.of_eq_error {start size : Nat} {error : ModelError}
    (h : Span.of start size = .error error) : error = .tooMany .behavior := by
  unfold Span.of at h
  split at h
  · cases h
  · exact (Except.error.inj h).symm

theorem Span.exists_of_iff {start size : Nat} :
    (∃ span, Span.of start size = .ok span) ↔ start ≤ maxSpan ∧ size ≤ maxSpan := by
  unfold Span.of
  split <;> simp_all

/-- Items that are read one by one are all read, each as itself. -/
theorem mapM_eq_ok_iff {α β ε : Type} {f : α → Except ε β} {xs : List α} {ys : List β} :
    xs.mapM f = .ok ys ↔ List.Forall₂ (fun x y => f x = .ok y) xs ys := by
  induction xs generalizing ys with
  | nil =>
    rw [List.mapM_nil, List.forall₂_nil_left_iff]
    exact ⟨fun h => (Except.ok.inj h).symm, fun h => congrArg Except.ok h.symm⟩
  | cons x xs ih =>
    rw [List.mapM_cons, List.forall₂_cons_left_iff]
    constructor
    · intro h
      cases hx : f x with
      | error e => simp [hx, bind, Except.bind] at h
      | ok y =>
        cases hxs : xs.mapM f with
        | error e => simp [hx, hxs, bind, Except.bind] at h
        | ok rest =>
          simp only [hx, hxs, bind, Except.bind, pure, Except.pure, Except.ok.injEq] at h
          exact ⟨y, rest, rfl, ih.1 hxs, h.symm⟩
    · rintro ⟨y, rest, hx, hrest, rfl⟩
      rw [hx, ih.2 hrest]
      rfl

theorem exists_mapM_iff {α β ε : Type} {f : α → Except ε β} {xs : List α} :
    (∃ ys, xs.mapM f = .ok ys) ↔ ∀ x ∈ xs, ∃ y, f x = .ok y := by
  simp only [mapM_eq_ok_iff]
  induction xs with
  | nil => simp
  | cons x xs ih =>
    simp only [List.forall₂_cons_left_iff, List.forall_mem_cons, ← ih]
    constructor
    · rintro ⟨_, y, ys, hx, hxs, rfl⟩
      exact ⟨⟨y, hx⟩, ys, hxs⟩
    · rintro ⟨⟨y, hx⟩, ys, hxs⟩
      exact ⟨y :: ys, y, ys, hx, hxs, rfl⟩

/-- The places of parts, from the row `start` and the plan `first` on. -/
def placementsFrom (start : Nat) (first : PlanId) :
    List (List (StateId × Behavior V)) → List (Placement V)
  | [] => []
  | part :: parts =>
    let requests := part.filterMap fun b => b.2.request b.1
    ⟨start, part.length, first, requests⟩ ::
      placementsFrom (start + part.length) (first + requests.length) parts

theorem foldl_placement (cells : List (StateId × List (Behavior V)))
    (placed : Array (Placement V) × Nat × PlanId) :
    (cells.foldl (fun placed cell => Placement.addTo cell.1 placed cell.2) placed).1.toList =
      placed.1.toList ++ placementsFrom placed.2.1 placed.2.2
        (cells.map fun cell => cell.2.map fun b => (cell.1, b)) := by
  induction cells generalizing placed with
  | nil => simp [placementsFrom]
  | cons cell cells ih =>
    rw [List.foldl_cons, ih]
    simp [Placement.addTo, placementsFrom, List.filterMap_map]

/-- The rows of a part start where the parts before it end. -/
theorem getElem?_placementsFrom {parts : List (List (StateId × Behavior V))} {r : Nat}
    {part : List (StateId × Behavior V)} (hpart : parts[r]? = some part) (start : Nat)
    (first : PlanId) :
    ∃ place, (placementsFrom start first parts)[r]? = some place ∧
      place.start = start + offset parts r ∧ place.size = part.length := by
  induction parts generalizing r start first with
  | nil => simp at hpart
  | cons head parts ih =>
    cases r with
    | zero =>
      obtain rfl : head = part := by simpa using hpart
      exact ⟨_, rfl, rfl, rfl⟩
    | succ r =>
      rw [offset_cons_succ, ← Nat.add_assoc]
      exact ih (by simpa using hpart) _ _

/-- What is noted of the spans does not depend on the numbers of plans. -/
theorem mapM_span_placementsFrom (parts : List (List (StateId × Behavior V))) (start : Nat)
    (first first' : PlanId) :
    (placementsFrom start first parts).mapM Placement.span =
      (placementsFrom start first' parts).mapM Placement.span := by
  induction parts generalizing start first first' with
  | nil => rfl
  | cons part parts ih =>
    rw [placementsFrom, placementsFrom, List.mapM_cons, List.mapM_cons, ih]
    rfl

theorem flatMap_requests_placementsFrom (parts : List (List (StateId × Behavior V))) (start : Nat)
    (first : PlanId) :
    (placementsFrom start first parts).flatMap (·.requests) =
      parts.flatten.filterMap fun b => b.2.request b.1 := by
  induction parts generalizing start first with
  | nil => rfl
  | cons part parts ih =>
    rw [placementsFrom, List.flatMap_cons, ih, List.flatten_cons, List.filterMap_append]

theorem length_placementsFrom (parts : List (List (StateId × Behavior V))) (start : Nat)
    (first : PlanId) : (placementsFrom start first parts).length = parts.length := by
  induction parts generalizing start first with
  | nil => rfl
  | cons part parts ih => rw [placementsFrom, List.length_cons, ih, List.length_cons]

namespace Cells

variable (cells : Cells V)

/-- The cells of all states, one after the other, each behavior with its state. -/
def parts : List (List (StateId × Behavior V)) :=
  cells.flatMap fun row => row.cells.toList.map fun cell => cell.map fun b => (row.state, b)

theorem behaviors_eq_flatten : cells.behaviors = cells.parts.flatten := by
  unfold behaviors parts
  induction cells with
  | nil => rfl
  | cons row cells ih =>
    rw [List.flatMap_cons, List.flatMap_cons, List.flatten_append, ← ih, CellRow.behaviors,
      ← Array.foldr_toList]
    congr 1
    induction row.cells.toList with
    | nil => rfl
    | cons cell rest ihc => rw [List.foldr_cons, List.map_append, ihc, List.map_cons,
        List.flatten_cons]

theorem placements_eq (first : PlanId) :
    cells.placements first = placementsFrom 0 first cells.parts := by
  have hfold := foldl_placement
    (cells.flatMap fun row => row.cells.toList.map fun cell => (row.state, cell)) (#[], 0, first)
  simp only [List.foldl_flatMap, List.foldl_map, Array.foldl_toList, List.map_flatMap,
    List.map_map, Function.comp_def, List.nil_append] at hfold
  exact hfold

end Cells

namespace StateNode

theorem size_byEvent (node : StateNode V) (n : Nat) :
    (node.byEvent (Array.replicate n [])).size = n := by
  have hfold : ∀ bs : List (Behavior V),
      (bs.foldr Behavior.intoRow (Array.replicate n [])).size = n := by
    intro bs
    induction bs with
    | nil => simp
    | cons b bs ih =>
      rw [List.foldr_cons, Behavior.intoRow]
      split <;> simpa using ih
  exact hfold _

theorem byEvent_eq (node : StateNode V) (n : Nat) :
    node.byEvent (Array.replicate n []) = ((List.range n).map node.onEvent).toArray := by
  apply Array.ext
  · simp [size_byEvent]
  · intro e h1 h2
    have he : e < n := by simpa using h2
    have := node.getElem?_byEvent he
    rw [Array.getElem?_eq_getElem h1] at this
    simpa using this

end StateNode

namespace Chart

/-- A transition runs its action whatever its way. -/
theorem action_plan_move (c : Chart V) (source target : Vertex) (action : Option (Action V)) :
    (c.plan (.move source target action)).action = action := by
  simp only [plan]
  split <;> rfl

section Cells

variable {c : Chart V} {s : StateId} {e : EventId} {node : StateNode V}

theorem parts_cells (c : Chart V) :
    c.cells.parts = c.states.toList.zipIdx.flatMap fun node =>
      (List.range c.events.size).map fun e => (node.1.onEvent e).map fun b => (node.2, b) := by
  rw [Cells.parts, cells, List.flatMap_map]
  congr 1
  funext node
  rw [StateNode.byEvent_eq, List.toList_toArray, List.map_map]
  rfl

theorem getElem?_parts_cells (hs : c.states[s]? = some node) (he : e < c.events.size) :
    c.cells.parts[s * c.events.size + e]? = some ((node.onEvent e).map fun b => (s, b)) := by
  have hs' : c.states.toList[s]? = some node := by simpa using hs
  rw [parts_cells, getElem?_flatMap (x := (node, s)) (by simp)
    (by simp [List.getElem?_zipIdx, hs']) he]
  simp [he]

/-- The behavior table numbers the plans of behaviors after those of pseudostates. -/
theorem toList_behaviors_program (c : Chart V) :
    c.program.behaviors.toList = compiledRows c.pseudoPlans.length c.cells.parts.flatten := by
  change (c.cells.rows c.pseudoPlans.length).toList = _
  rw [Cells.rows, foldl_addTo, Cells.behaviors_eq_flatten]
  rfl

/-- The behavior table holds the behaviors of all cells. -/
theorem forall₂_behaviors (c : Chart V) :
    List.Forall₂ (fun b row => b.2.CompiledTo c c.program.plans b.1 row)
      c.cells.parts.flatten c.program.behaviors.toList := by
  rw [toList_behaviors_program]
  apply forall₂_compiledRows
  intro i request hi
  change (c.pseudoPlans ++ c.cells.requests.map c.plan).toArray[_]? = _
  rw [List.getElem?_toArray, List.getElem?_append_right (Nat.le_add_right _ _),
    Nat.add_sub_cancel_left, List.getElem?_map, Cells.requests, Cells.behaviors_eq_flatten, hi]
  rfl

variable (c) in
/-- The behaviors of a state with a certain trigger, in the order in which they were declared. -/
def declaredOn (s : StateId) (trigger : Trigger) : List (Behavior V) :=
  match c.states[s]? with
  | some node => node.behaviors.toList.filter (·.trigger == trigger)
  | none => []

variable (c) in
/-- How many behaviors of a state are on one of the first `n` events. -/
def rowsUpTo (s : StateId) (n : Nat) : Nat :=
  ((List.range n).map fun e => (c.declaredOn s (.event e)).length).sum

variable (c) in
/-- How many behaviors go before those of `s` on `e`: those of the states before `s`, and those of
`s` on the events before `e`. -/
def rowsBefore (s : StateId) (e : EventId) : Nat :=
  ((List.range s).map fun x => c.rowsUpTo x c.events.size).sum + c.rowsUpTo s e

variable (c) in
/-- For each state and event a span can hold how many behaviors there are and how many go before
them. -/
def SpansFit : Prop :=
  ∀ s < c.states.size, ∀ e < c.events.size,
    c.rowsBefore s e ≤ maxSpan ∧ (c.declaredOn s (.event e)).length ≤ maxSpan

theorem declaredOn_event (hs : c.states[s]? = some node) (e : EventId) :
    c.declaredOn s (.event e) = node.onEvent e := by
  rw [declaredOn, hs]
  rfl

theorem length_parts_cells (c : Chart V) :
    c.cells.parts.length = c.states.size * c.events.size := by
  rw [parts_cells, List.length_flatMap]
  simp [List.map_const']

/-- Every cell is that of a state and an event. -/
theorem exists_cell {r : Nat} (hr : r < c.cells.parts.length) :
    ∃ s < c.states.size, ∃ e < c.events.size, r = s * c.events.size + e := by
  rw [length_parts_cells] at hr
  have hpos : 0 < c.events.size := Nat.pos_of_lt_mul_left hr
  exact ⟨r / c.events.size, Nat.div_lt_of_lt_mul (Nat.mul_comm _ _ ▸ hr), r % c.events.size,
    Nat.mod_lt _ hpos, (Nat.div_add_mod' r _).symm⟩

/-- The rows of a cell start after those of the cells before it. -/
theorem offset_parts_cells (hs : c.states[s]? = some node) (he : e ≤ c.events.size) :
    offset c.cells.parts (s * c.events.size + e) = c.rowsBefore s e := by
  have hs' : c.states.toList.zipIdx[s]? = some (node, s) := by
    simpa [List.getElem?_zipIdx] using hs
  rw [offset, parts_cells, take_flatMap (by simp) hs' he, List.map_append, List.sum_append,
    rowsBefore]
  congr 1
  · rw [List.map_flatMap, List.flatMap_def, List.sum_flatten, List.map_map]
    congr 1
    have hlt : s < c.states.size := (Array.getElem?_eq_some_iff.1 hs).1
    apply List.ext_getElem (by simp [Nat.min_eq_left (Nat.le_of_lt hlt)])
    intro x h₁ h₂
    have hx : x < c.states.size := Nat.lt_trans (by simpa using h₂) hlt
    simp [rowsUpTo, declaredOn_event (Array.getElem?_eq_getElem hx), Function.comp_def]
  · rw [← List.map_take, List.take_range, Nat.min_eq_left he, List.map_map, rowsUpTo]
    simp [declaredOn_event hs, Function.comp_def]

theorem exists_placement (hs : c.states[s]? = some node) (he : e < c.events.size)
    (first : PlanId) :
    ∃ place, (c.cells.placements first)[s * c.events.size + e]? = some place ∧
      place.start = c.rowsBefore s e ∧ place.size = (c.declaredOn s (.event e)).length := by
  obtain ⟨place, hplace, hstart, hsize⟩ :=
    getElem?_placementsFrom (getElem?_parts_cells hs he) 0 first
  rw [offset_parts_cells hs (Nat.le_of_lt he), Nat.zero_add] at hstart
  rw [List.length_map, ← declaredOn_event hs] at hsize
  exact ⟨place, Cells.placements_eq c.cells first ▸ hplace, hstart, hsize⟩

/-- Every cell has a span exactly if the spans fit. -/
theorem forall_span_iff (first : PlanId) :
    (∀ place ∈ c.cells.placements first, ∃ span, place.span = .ok span) ↔ c.SpansFit := by
  constructor
  · intro h s hs e he
    obtain ⟨place, hplace, hstart, hsize⟩ :=
      exists_placement (Array.getElem?_eq_getElem hs) he first
    rw [← hstart, ← hsize]
    exact Span.exists_of_iff.1 (h place (List.mem_of_getElem? hplace))
  · intro h place hmem
    obtain ⟨r, hr⟩ := List.getElem?_of_mem hmem
    have hlt : r < c.cells.parts.length := by
      rw [← length_placementsFrom c.cells.parts 0 first, ← Cells.placements_eq]
      exact (List.getElem?_eq_some_iff.1 hr).1
    obtain ⟨s, hs, e, he, rfl⟩ := exists_cell hlt
    obtain ⟨place', hplace, hstart, hsize⟩ :=
      exists_placement (Array.getElem?_eq_getElem hs) he first
    obtain rfl : place' = place := Option.some.inj (hplace.symm.trans hr)
    apply Span.exists_of_iff.2
    rw [hstart, hsize]
    exact h s hs e he

theorem spans_program (c : Chart V) (first : PlanId) : c.program.spans =
    (((c.cells.placements first).mapM Placement.span).toOption.getD []).toArray := by
  change (((c.cells.placements 0).mapM Placement.span).map List.toArray).toOption.getD #[] = _
  rw [Cells.placements_eq, Cells.placements_eq, mapM_span_placementsFrom c.cells.parts 0 0 first]
  cases (placementsFrom 0 first c.cells.parts).mapM Placement.span <;> rfl

/-- The table of spans holds those of the cells. -/
theorem SpansFit.forall₂_spans (h : c.SpansFit) :
    List.Forall₂ (fun place span => place.span = .ok span) (placementsFrom 0 0 c.cells.parts)
      c.program.spans.toList := by
  obtain ⟨spans, hspans⟩ := exists_mapM_iff.2 ((forall_span_iff 0).2 h)
  rw [← Cells.placements_eq, spans_program c 0, hspans]
  exact mapM_eq_ok_iff.1 hspans

theorem SpansFit.size_spans (h : c.SpansFit) : c.program.spans.size = c.cells.parts.length := by
  rw [← Array.length_toList, ← h.forall₂_spans.length_eq, length_placementsFrom]

/-- A span tells where the rows of its cell start and how many they are. -/
theorem SpansFit.exists_span (h : c.SpansFit) {r : Nat} {part : List (StateId × Behavior V)}
    (hpart : c.cells.parts[r]? = some part) :
    ∃ span, c.program.spans[r]? = some span ∧ span.start.toNat = offset c.cells.parts r ∧
      span.size.toNat = part.length := by
  obtain ⟨place, hplace, hstart, hsize⟩ := getElem?_placementsFrom hpart 0 0
  have hr : r < c.program.spans.size := h.size_spans ▸ (List.getElem?_eq_some_iff.1 hpart).1
  have hspan := Array.getElem?_eq_getElem hr
  have hof := forall₂_getElem? h.forall₂_spans hplace (Array.getElem?_toList ▸ hspan)
  obtain ⟨hstart', hsize'⟩ := Span.of_eq_ok_iff.1 hof
  exact ⟨_, hspan, by rw [hstart', hstart, Nat.zero_add], by rw [hsize', hsize]⟩

/-- A cell holds the behaviors of its state on its event, in their order. -/
theorem exists_behaviors (hfit : c.SpansFit) (hs : c.states[s]? = some node)
    (he : e < c.events.size) :
    ∃ rows, c.program.behaviors? s e = some rows ∧
      List.Forall₂ (fun b row => b.CompiledTo c c.program.plans s row) (node.onEvent e) rows := by
  have hpart := getElem?_parts_cells hs he
  have hmine := take_drop_flatten hpart
  have hle := offset_add_length_le hpart
  have hall := forall₂_behaviors c
  obtain ⟨span, hspan, hstart, hsize⟩ := hfit.exists_span hpart
  have hcell : c.program.cell s e = s * c.events.size + e := rfl
  have hstop : span.stop ≤ c.program.behaviors.size := by
    rw [Span.stop, hstart, hsize]
    rwa [hall.length_eq] at hle
  refine ⟨_, by rw [Program.behaviors?, hcell, hspan, Option.bind_some, if_pos hstop], ?_⟩
  -- Both tables are cut at the same place.
  have hcut := List.forall₂_take span.size.toNat (List.forall₂_drop span.start.toNat hall)
  rw [hstart, hsize, hmine, List.forall₂_map_left_iff, ← hstart, ← hsize] at hcut
  rw [Array.toList_extract, List.extract_eq_take_drop, Span.stop, Nat.add_sub_cancel_left]
  exact hcut

end Cells

/-! ## Who handles an event -/

section Handlers

variable (c : Chart V)

/-- A state handles an event if it has a behavior on it. -/
def handles (e : EventId) (s : StateId) : Bool :=
  (c.states[s]?).any fun node => !(node.onEvent e).isEmpty

/-- For each event the first of these states that handles it. -/
def handlersOn (states : List StateId) : List (Option StateId) :=
  c.eventIds.map fun e => states.find? (c.handles e)

theorem length_handlersOn (states : List StateId) :
    (c.handlersOn states).length = c.events.size := by
  simp [handlersOn, eventIds]

variable {c} {s : StateId} {e : EventId} {node : StateNode V}

theorem getElem?_handlersOn (states : List StateId) (he : e < c.events.size) :
    (c.handlersOn states)[e]? = some (states.find? (c.handles e)) := by
  simp [handlersOn, eventIds, he]

theorem cells_getElem? (hs : c.states[s]? = some node) :
    c.cells[s]? = some ⟨s, ((List.range c.events.size).map node.onEvent).toArray⟩ := by
  have hs' : c.states.toList[s]? = some node := by simpa using hs
  simp [cells, List.getElem?_zipIdx, hs', StateNode.byEvent_eq]

/-- Cutting the row of `q` out of those of the states before `n`. -/
theorem extract_handlersOn {n q : Nat} (hq : q < n) (f : StateId → List StateId) :
    ((List.range n).flatMap fun s => c.handlersOn (f s)).toArray.extract
      (q * c.events.size) ((q + 1) * c.events.size) = (c.handlersOn (f q)).toArray := by
  have hcut := take_drop_flatMap (f := fun s => c.handlersOn (f s))
    (fun x => c.length_handlersOn _) (List.getElem?_range hq)
  apply Array.toList_inj.1
  rw [Array.toList_extract, List.extract_eq_take_drop, Nat.succ_mul, Nat.add_sub_cancel_left]
  exact hcut

/-- A state inherits the handlers of the states above it, whose rows are there before its own. -/
theorem inherited_eq (c : Chart V) (s : StateId) :
    c.inherited ((List.range s).flatMap fun q => c.handlersOn (c.hierarchy.ancestors q)).toArray s =
      (c.handlersOn (c.hierarchy.ancestors s).tail).toArray := by
  unfold inherited
  cases hp : c.hierarchy.parent s with
  | none =>
    rw [Hierarchy.ancestors_of_root hp]
    simp [handlersOn, eventIds, List.map_const']
  | some q =>
    rw [Hierarchy.ancestors_of_parent hp]
    exact extract_handlersOn (c.hierarchy.parent_lt hp) _

theorem handlers_eq (hs : c.states[s]? = some node) (states : List StateId) :
    CellRow.handlers ⟨s, ((List.range c.events.size).map node.onEvent).toArray⟩
      (c.handlersOn states).toArray = (c.handlersOn (s :: states)).toArray := by
  apply Array.toList_inj.1
  rw [CellRow.handlers, Array.toList_zipWith, handlersOn, eventIds, List.zipWith_map,
    List.zipWith_self]
  apply List.map_congr_left
  intro e _
  rw [List.find?_cons]
  cases hb : node.onEvent e <;> simp [handles, hs, hb]

/-- The two tables after the states before `n`. -/
theorem foldl_handlerTables (c : Chart V) {n : Nat} (hn : n ≤ c.states.size) :
    c.handlerTables (c.cells.take n) =
      (((List.range n).flatMap fun s => c.handlersOn (c.hierarchy.ancestors s)).toArray,
        ((List.range n).flatMap fun s => c.handlersOn (c.hierarchy.ancestors s).tail).toArray) := by
  induction n with
  | zero => rfl
  | succ n ih =>
    have hnode := Array.getElem?_eq_getElem (show n < c.states.size from hn)
    rw [List.take_add_one, cells_getElem? hnode, handlerTables, List.foldl_append,
      ← handlerTables, ih (Nat.le_of_succ_le hn)]
    simp only [Option.toList_some, List.foldl_cons, List.foldl_nil, inherited_eq,
      handlers_eq hnode, List.range_succ, List.flatMap_append]
    simp [Hierarchy.cons_tail_ancestors]

theorem handlerTables_cells (c : Chart V) :
    c.handlerTables c.cells =
      ((c.stateIds.flatMap fun s => c.handlersOn (c.hierarchy.ancestors s)).toArray,
        (c.stateIds.flatMap fun s => c.handlersOn (c.hierarchy.ancestors s).tail).toArray) := by
  have hlen : c.cells.length = c.states.size := by simp [cells]
  have h := foldl_handlerTables c (Nat.le_refl c.states.size)
  rwa [← hlen, List.take_length, hlen] at h

/-- In force are the nearest states that handle the events. -/
theorem handlerRow?_program (hs : s < c.states.size) :
    c.program.handlerRow? s = some (c.handlersOn (c.hierarchy.ancestors s)) := by
  have hrows : c.program.handlerRows =
      (c.stateIds.flatMap fun s => c.handlersOn (c.hierarchy.ancestors s)).toArray :=
    congrArg Prod.fst (handlerTables_cells c)
  have hsize : c.program.handlerRows.size = c.states.size * c.events.size := by
    rw [hrows, List.size_toArray, List.length_flatMap]
    simp [length_handlersOn, stateIds, List.map_const']
  have hfit : s * c.events.size + c.events.size ≤ c.program.handlerRows.size := by
    rw [hsize, ← Nat.succ_mul]
    exact Nat.mul_le_mul_right _ hs
  have hcell : c.program.cell s doEvent = s * c.events.size := rfl
  have hevents : c.program.events = c.events := rfl
  rw [Program.handlerRow?]
  simp only [hcell, hevents, if_pos hfit]
  rw [hrows, ← Nat.succ_mul, stateIds, extract_handlersOn hs]

/-- Next is the nearest state further up. -/
theorem nextAncestor?_program (hs : s < c.states.size) (he : e < c.events.size) :
    c.program.nextAncestor? s e =
      some ((c.hierarchy.ancestors s).tail.find? (c.handles e)) := by
  have hrows : c.program.nextAncestors =
      (c.stateIds.flatMap fun s => c.handlersOn (c.hierarchy.ancestors s).tail).toArray :=
    congrArg Prod.snd (handlerTables_cells c)
  have hcell : c.program.cell s e = s * c.events.size + e := rfl
  rw [Program.nextAncestor?, hrows, hcell, List.getElem?_toArray, stateIds,
    getElem?_flatMap (fun x => c.length_handlersOn _) (List.getElem?_range hs) he,
    getElem?_handlersOn _ he]

end Handlers

end Chart

end Statechart
