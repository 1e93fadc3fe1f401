import Statechart.Proofs.Mistakes
import Statechart.Proofs.PriorityText
import Statechart.Proofs.Refinement
import Statechart.Samples.DeepPair

/-
  The chart of the two deep chains, for every depth. What states are declared with is followed from
  call to call (`Chart.declared?`), level by level (`Chained`), up to the whole chart (`Paired`).
  The chart is well formed as long as its chains are not too deep (`Paired.wellFormed_iff`), and so
  it is known which depths can be built (`deepPair_eq_ok_iff`).
-/

namespace Statechart

variable {V : Type}

/-! ## What states are declared with -/

/-- What a state says of itself; its children and pseudostates are not its own saying. -/
structure Declaration (V : Type) where
  name : String
  parent : Option StateId
  behaviors : List (Behavior V) := []

/-- What `s` was declared with, if it was. -/
def Chart.declared? (c : Chart V) (s : StateId) : Option (Declaration V) :=
  (c.states[s]?).map fun node => ⟨node.name, node.parent, node.behaviors.toList⟩

theorem Chart.declared?_addPseudostate (c : Chart V) (container : StateId) (kind : PseudoKind)
    (name : Option String) (t : StateId) :
    (c.addPseudostate container kind name).declared? t = c.declared? t := by
  rw [declared?, getElem?_states_addPseudostate]
  split
  · rw [Option.map_map]
    rfl
  · rfl

theorem Chart.Linked.ancestors_rootState {c : Chart V} (hc : c.Linked) :
    c.hierarchy.ancestors rootState = [rootState] :=
  Hierarchy.ancestors_of_root ((hc.parent_eq rootState).trans hc.root)

/-- The spans of a chart fit if no state has too many behaviors. -/
theorem Chart.spansFit_of_le {c : Chart V} {k : Nat}
    (h : ∀ node ∈ c.states.toList, node.behaviors.size ≤ k)
    (hk : c.states.size * (c.events.size * k) ≤ maxSpan) : c.SpansFit := by
  have hon : ∀ s e, (c.declaredOn s (.event e)).length ≤ k := by
    intro s e
    unfold declaredOn
    split
    · next node hs =>
      exact (List.length_filter_le _ _).trans
        (h node (Array.mem_toList_iff.2 (Array.mem_of_getElem? hs)))
    · exact Nat.zero_le k
  have hrows : ∀ s n, c.rowsUpTo s n ≤ n * k := by
    intro s n
    simpa [rowsUpTo] using List.sum_le_card_nsmul
      ((List.range n).map fun e => (c.declaredOn s (.event e)).length) k (by simp [hon])
  intro s hs e he
  have hstates : ((List.range s).map fun x => c.rowsUpTo x c.events.size).sum ≤
      s * (c.events.size * k) := by
    simpa using List.sum_le_card_nsmul ((List.range s).map fun x => c.rowsUpTo x c.events.size)
      (c.events.size * k) (by simp [hrows])
  have hcells : e * k + k ≤ c.events.size * k := by
    rw [← Nat.succ_mul]
    exact Nat.mul_le_mul_right k he
  have htotal : s * (c.events.size * k) + c.events.size * k ≤ maxSpan := by
    rw [← Nat.succ_mul]
    exact (Nat.mul_le_mul_right _ hs).trans hk
  have hup := hrows s e
  have hlast := hon s e
  rw [rowsBefore]
  constructor <;> lia

namespace Draft

variable {d : Draft V}

theorem state_eq (name : String) {parent : StateId} (hmax : d.chart.states.size < maxNodes)
    (hparent : parent < d.chart.states.size) :
    d.state name parent =
      (d.chart.states.size, { d with chart := d.chart.addState name parent }) := by
  simp only [state, if_neg (Nat.not_le.2 hmax), if_pos hparent]
  rfl

theorem declared?_state {name : String} {parent : StateId} (hmax : d.chart.states.size < maxNodes)
    (hparent : parent < d.chart.states.size) (t : StateId) :
    (d.state name parent).2.chart.declared? t =
      if t = d.chart.states.size then some ⟨name, some parent, []⟩ else d.chart.declared? t := by
  rw [state_eq name hmax hparent, Chart.declared?, Chart.getElem?_addState]
  split
  · rfl
  · split
    · rw [Option.map_map]
      rfl
    · rfl

theorem declared?_behavior {s : StateId} (hs : s < d.chart.states.size) (trigger : Trigger)
    (clauses : List (Clause V)) (t : StateId) :
    (d.behavior s trigger clauses).chart.declared? t =
      if s = t then (d.chart.declared? t).map fun x =>
        { x with behaviors := x.behaviors ++ [Behavior.ofClauses trigger clauses] }
      else d.chart.declared? t := by
  simp only [behavior, if_pos hs, chart_noteAll, Chart.declared?, Array.getElem?_modify]
  split
  · simp [Function.comp_def]
  · rfl

@[simp] theorem size_states_behavior (s : StateId) (trigger : Trigger)
    (clauses : List (Clause V)) :
    (d.behavior s trigger clauses).chart.states.size = d.chart.states.size := by
  rw [behavior, chart_noteAll]
  split <;> simp [note]

@[simp] theorem pseudostates_behavior (s : StateId) (trigger : Trigger)
    (clauses : List (Clause V)) :
    (d.behavior s trigger clauses).chart.pseudostates = d.chart.pseudostates := by
  rw [behavior, chart_noteAll]
  split <;> rfl

@[simp] theorem events_behavior (s : StateId) (trigger : Trigger)
    (clauses : List (Clause V)) :
    (d.behavior s trigger clauses).chart.events = d.chart.events := by
  rw [behavior, chart_noteAll]
  split <;> rfl

theorem pseudostate_eq {container : StateId} {kind : PseudoKind} {name : Option String}
    (hmax : d.chart.pseudostates.size < maxNodes) (hcontainer : container < d.chart.states.size) :
    d.pseudostate container kind name = (d.chart.pseudostates.size,
      { d with chart := d.chart.addPseudostate container kind name }) := by
  simp only [pseudostate, if_neg (Nat.not_le.2 hmax), if_pos hcontainer]
  rfl

theorem on_eq (d : Draft V) {e : EventId} (he : e < d.chart.events.size) (s : StateId)
    (clauses : List (Clause V)) : d.on s e clauses = d.behavior s (.event e) clauses := by
  rw [on, if_pos he]

theorem fault_behavior {s : StateId} (hs : s < d.chart.states.size) {trigger : Trigger}
    {clauses : List (Clause V)} (hclauses : clauses.findSome? Clause.fault = none) :
    (d.behavior s trigger clauses).fault = d.fault := by
  simp [behavior, hs, noteAll, hclauses]

theorem isSome_fault_call (h : d.fault.isSome) (call : Call V) : (d.call call).fault.isSome := by
  rw [fault_call]
  simp [h]

theorem compile_eq_ok_iff {p : Program V} (hc : d.chart.Linked) :
    d.compile = .ok p ↔ d.fault = none ∧ (d.chart.WellFormed ∧ d.chart.SpansFit) ∧
      d.chart.ordered.program = p := by
  rw [compile, finish]
  cases d.fault with
  | some error =>
    constructor
    · intro h
      cases h
    · rintro ⟨h, -⟩
      cases h
  | none =>
    constructor
    · intro h
      have hw := hc.wellFormed_of_compile h
      have hfit := d.chart.spansFit_ordered.1 (Chart.spansFit_of_compile h)
      exact ⟨rfl, ⟨hw, hfit⟩, Except.ok.inj ((hw.compile_eq hc hfit).symm.trans h)⟩
    · rintro ⟨-, ⟨hw, hfit⟩, rfl⟩
      exact hw.compile_eq hc hfit

end Draft

namespace Samples

namespace DeepPair

/-! ## Chains -/

/-- A state of a chain counts how often it is entered and left. -/
def counting : List (Behavior Counters) :=
  [.ofClauses (.boundary .enter) [.action countEnter],
    .ofClauses (.boundary .exit) [.action countExit]]

/-- The state `i` levels into a chain that begins with the state `first`. -/
def level (side : String) (first : StateId) (i : Nat) : Declaration Counters :=
  ⟨side ++ Text.decimal (i + 1), some (if i = 0 then rootState else first + i - 1), counting⟩

/-- A draft `d` with a chain of `k` levels, and the innermost state of the chain. -/
structure Chained (side : String) (k : Nat) (d : Draft Counters) (r : StateId × Draft Counters) :
    Prop where
  size : r.2.chart.states.size = d.chart.states.size + k
  leaf : r.1 = if k = 0 then rootState else d.chart.states.size + k - 1
  old : ∀ t < d.chart.states.size, r.2.chart.declared? t = d.chart.declared? t
  new : ∀ i < k, r.2.chart.declared? (d.chart.states.size + i) =
    some (level side d.chart.states.size i)
  events : r.2.chart.events = d.chart.events
  pseudostates : r.2.chart.pseudostates = d.chart.pseudostates
  fault : r.2.fault = d.fault

variable {side : String} {d : Draft Counters} {acc : StateId × Draft Counters} {k : Nat}

theorem addChain_succ (side : String) (k : Nat) (d : Draft Counters) :
    addChain side (k + 1) d = addLevel side (addChain side k d) (k + 1) := by
  simp [addChain, List.range_succ]

theorem linked_addLevel (h : acc.2.chart.Linked) (n : Nat) :
    (addLevel side acc n).2.chart.Linked :=
  Draft.linked_behavior (Draft.linked_behavior (Draft.linked_state h _ _) _ _ _) _ _ _

theorem linked_addChain (h : d.chart.Linked) (k : Nat) : (addChain side k d).2.chart.Linked := by
  induction k with
  | zero => exact h
  | succ k ih =>
    rw [addChain_succ]
    exact linked_addLevel ih (k + 1)

theorem isSome_fault_addLevel {n : Nat}
    (h : (acc.2.state (side ++ Text.decimal n) acc.1).2.fault.isSome) :
    (addLevel side acc n).2.fault.isSome :=
  Draft.isSome_fault_call (Draft.isSome_fault_call h (.behavior _ _ _)) (.behavior _ _ _)

/-- One more level, while there is room. -/
theorem Chained.addLevel (h : Chained side k d acc) (hd : 0 < d.chart.states.size)
    (hmax : d.chart.states.size + k < maxNodes) :
    Chained side (k + 1) d (addLevel side acc (k + 1)) := by
  have hroom : acc.2.chart.states.size < maxNodes := h.size ▸ hmax
  have hparent : acc.1 < acc.2.chart.states.size := by
    have hzero : rootState = 0 := rfl
    rw [h.leaf, h.size]
    split <;> lia
  have hstate := Draft.state_eq (side ++ Text.decimal (k + 1)) hroom hparent
  have hdeclared : ∀ t, (DeepPair.addLevel side acc (k + 1)).2.chart.declared? t =
      if t = acc.2.chart.states.size then
        some ⟨side ++ Text.decimal (k + 1), some acc.1, counting⟩
      else acc.2.chart.declared? t := by
    intro t
    simp only [DeepPair.addLevel, Draft.onEnter, Draft.onExit]
    rw [Draft.declared?_behavior (by simp [hstate]), Draft.declared?_behavior (by simp [hstate]),
      Draft.declared?_state hroom hparent, hstate]
    by_cases ht : t = acc.2.chart.states.size
    · simp [ht, counting]
    · simp [ht, Ne.symm ht]
  refine ⟨?_, ?_, ?_, ?_, ?_, ?_, ?_⟩
  · simp [DeepPair.addLevel, Draft.onEnter, Draft.onExit, hstate, h.size, Nat.add_assoc]
  · simp [DeepPair.addLevel, hstate, h.size, Nat.add_sub_assoc]
  · intro t ht
    have hne : t ≠ acc.2.chart.states.size := by
      rw [h.size]
      lia
    rw [hdeclared, if_neg hne, h.old t ht]
  · intro i hi
    rw [hdeclared, h.size]
    rcases Nat.lt_succ_iff_lt_or_eq.1 hi with hlt | rfl
    · rw [if_neg (by lia), h.new i hlt]
    · rw [if_pos rfl, level, h.leaf]
  · simp [DeepPair.addLevel, Draft.onEnter, Draft.onExit, hstate, h.events, Chart.addState]
  · simp [DeepPair.addLevel, Draft.onEnter, Draft.onExit, hstate, h.pseudostates, Chart.addState]
  · simp only [DeepPair.addLevel, Draft.onEnter, Draft.onExit]
    rw [Draft.fault_behavior (by simp [hstate]) rfl, Draft.fault_behavior (by simp [hstate]) rfl,
      hstate, h.fault]

theorem chained (side : String) (hd : 0 < d.chart.states.size)
    (hmax : d.chart.states.size + k ≤ maxNodes) : Chained side k d (addChain side k d) := by
  induction k with
  | zero => exact ⟨rfl, rfl, fun _ _ => rfl, by simp, rfl, rfl, rfl⟩
  | succ k ih =>
    rw [addChain_succ]
    exact (ih (by lia)).addLevel hd (by lia)

/-- Without room for all its levels a chain is a mistake, and a mistake made before stays one. -/
theorem isSome_fault_addChain (hd : d.chart.Linked)
    (h : d.fault.isSome ∨ maxNodes < d.chart.states.size + k) :
    (addChain side k d).2.fault.isSome := by
  have hle := hd.fewStates
  induction k with
  | zero => exact h.resolve_right (by lia)
  | succ k ih =>
    rw [addChain_succ]
    apply isSome_fault_addLevel
    by_cases hbefore : d.fault.isSome ∨ maxNodes < d.chart.states.size + k
    · exact Draft.isSome_fault_call (ih hbefore) (.state _ _)
    · rw [not_or] at hbefore
      have hlast := h.resolve_left hbefore.1
      have hsize := (chained (k := k) side hd.nonempty (by lia)).size
      have hfull : maxNodes ≤ (addChain side k d).2.chart.states.size := by lia
      simp [Draft.state, hfull, Draft.note]

/-! ## The chart of a pair -/

/-- Jumps to another state. -/
def jump (target : StateId) : Behavior Counters := .ofClauses (.event 1) [.to (.state target)]

/-- The states of a chain, the innermost of which jumps to `target`. -/
def Spans (c : Chart Counters) (side : String) (first : StateId) (depth : Nat) (target : StateId) :
    Prop :=
  ∀ i < depth, c.declared? (first + i) = some { level side first i with
    behaviors := counting ++ if i + 1 = depth then [jump target] else [] }

/-- Two chains under the root, and the way into the first. -/
structure Paired (depth : Nat) (c : Chart Counters) : Prop where
  linked : c.Linked
  size : c.states.size = 2 * depth + 1
  events : c.events = #["DO", "FLIP"]
  pseudostates : c.pseudostates =
    #[⟨.initial, rootState, none, #[{ target := some (.state depth) }]⟩]
  root : c.declared? rootState = some ⟨"ROOT", none, []⟩
  left : Spans c "L" 1 depth (2 * depth)
  right : Spans c "R" (depth + 1) depth depth

def leftChain (depth : Nat) : StateId × Draft Counters :=
  addChain "L" depth ((Draft.new "deep_pair").event "FLIP").2

def rightChain (depth : Nat) : StateId × Draft Counters :=
  addChain "R" depth (leftChain depth).2

/-- Makes a pair of two states: the way in leads to the first, and each jumps to the other. -/
def join (d : Draft Counters) (left right : StateId) : Draft Counters :=
  let (start, d) := d.initial rootState
  ((d.branch start [.to (.state left)]).on left 1 [.to (.state right)]).on right 1
    [.to (.state left)]

def draft (depth : Nat) : Draft Counters :=
  join (rightChain depth).2 (leftChain depth).1 (rightChain depth).1

theorem deepPair_eq (depth : Nat) :
    deepPair depth = (draft depth).compile.map fun program =>
      ⟨program, 1, (leftChain depth).1, (rightChain depth).1⟩ := by
  have hflip : ((Draft.new "deep_pair" : Draft Counters).event "FLIP").1 = 1 := rfl
  simp only [deepPair, hflip]
  change (draft depth).compile.bind _ = _
  cases (draft depth).compile <;> rfl

theorem linked_draft (depth : Nat) : (draft depth).chart.Linked := by
  have hbase := Draft.linked_event (Draft.linked_new (V := Counters) "deep_pair") "FLIP"
  have hleft : (leftChain depth).2.chart.Linked := linked_addChain hbase depth
  have hright : (rightChain depth).2.chart.Linked := linked_addChain hleft depth
  unfold draft join
  apply Draft.linked_on
  apply Draft.linked_on
  apply Draft.linked_branch
  exact Draft.linked_pseudostate hright _ _ _

/-- What joining two states adds to a draft. -/
structure Joined (d : Draft Counters) (left right : StateId) (r : Draft Counters) : Prop where
  size : r.chart.states.size = d.chart.states.size
  declared : ∀ t, r.chart.declared? t = (d.chart.declared? t).map fun x =>
    { x with behaviors := x.behaviors ++ (if left = t then [jump right] else []) ++
        if right = t then [jump left] else [] }
  events : r.chart.events = d.chart.events
  pseudostates : r.chart.pseudostates =
    #[⟨.initial, rootState, none, #[{ target := some (.state left) }]⟩]
  fault : r.fault = d.fault

theorem joined {left right : StateId} (hevents : d.chart.events.size = 2)
    (hpseudos : d.chart.pseudostates = #[]) (hleft : left < d.chart.states.size)
    (hright : right < d.chart.states.size) : Joined d left right (join d left right) := by
  have hroot : rootState < d.chart.states.size := Nat.lt_of_le_of_lt (Nat.zero_le _) hleft
  have hinitial : d.initial rootState =
      (0, { d with chart := d.chart.addPseudostate rootState .initial none }) := by
    rw [Draft.initial, Draft.pseudostate_eq (by simp [hpseudos, maxNodes]) hroot, hpseudos]
    rfl
  -- The way in changes no declaration.
  obtain ⟨d₁, hjoin, hsize, hdeclared, hev, hps, hfault⟩ : ∃ d₁ : Draft Counters,
      join d left right = (d₁.on left 1 [.to (.state right)]).on right 1 [.to (.state left)] ∧
      d₁.chart.states.size = d.chart.states.size ∧
      (∀ t, d₁.chart.declared? t = d.chart.declared? t) ∧
      d₁.chart.events = d.chart.events ∧
      d₁.chart.pseudostates =
        #[⟨.initial, rootState, none, #[{ target := some (.state left) }]⟩] ∧
      d₁.fault = d.fault := by
    refine ⟨Draft.branch { d with chart := d.chart.addPseudostate rootState .initial none } 0
      [.to (.state left)], ?_, ?_, fun t => ?_, ?_, ?_, ?_⟩
    · rw [join, hinitial]
    · simp [Draft.branch]
    · rw [← d.chart.declared?_addPseudostate rootState .initial none t]
      simp [Draft.branch, Chart.declared?]
    · simp [Draft.branch, Chart.addPseudostate]
    · simp [Draft.branch, Chart.addPseudostate, hpseudos, Branch.ofClauses, Branch.amend]
    · simp [Draft.branch, Draft.noteAll, Clause.fault]
  have hright₁ : right <
      (d₁.behavior left (.event 1) [.to (.state right)]).chart.states.size := by simpa [hsize]
  rw [d₁.on_eq (by rw [hev, hevents]; decide), Draft.on_eq _ (by simp [hev, hevents])] at hjoin
  rw [hjoin]
  refine ⟨by simp [hsize], fun t => ?_, by simp [hev], by simp [hps], ?_⟩
  · rw [Draft.declared?_behavior hright₁, Draft.declared?_behavior (hsize ▸ hleft), hdeclared]
    cases d.chart.declared? t with
    | none => simp
    | some x => split <;> split <;> simp [*, jump]
  · rw [Draft.fault_behavior hright₁ rfl, Draft.fault_behavior (hsize ▸ hleft) rfl, hfault]

theorem isSome_fault_join (h : d.fault.isSome) (left right : StateId) :
    (join d left right).fault.isSome := by
  have hstart := Draft.isSome_fault_call h (.pseudostate rootState .initial none)
  have hbranch := Draft.isSome_fault_call hstart
    (.branch (d.initial rootState).1 [.to (.state left)])
  have hleft := Draft.isSome_fault_call hbranch (.on left 1 [.to (.state right)])
  exact Draft.isSome_fault_call hleft (.on right 1 [.to (.state left)])

variable {depth : Nat} {c : Chart Counters}

theorem chained_leftChain (hmax : 1 + depth ≤ maxNodes) :
    Chained "L" depth ((Draft.new "deep_pair").event "FLIP").2 (leftChain depth) :=
  chained "L" Nat.zero_lt_one hmax

theorem chained_rightChain (hmax : 2 * depth + 1 ≤ maxNodes) :
    Chained "R" depth (leftChain depth).2 (rightChain depth) := by
  have hsize : (leftChain depth).2.chart.states.size = 1 + depth :=
    (chained_leftChain (by lia)).size
  exact chained "R" (by lia) (by lia)

/-- The innermost states, while there is room for both chains. -/
theorem leaves_eq (hdepth : 0 < depth) (hmax : 2 * depth + 1 ≤ maxNodes) :
    (leftChain depth).1 = depth ∧ (rightChain depth).1 = 2 * depth := by
  have hl : Chained "L" depth _ (leftChain depth) := chained_leftChain (by lia)
  have hsize : (leftChain depth).2.chart.states.size = 1 + depth := hl.size
  have hleft : (leftChain depth).1 = 1 + depth - 1 := by
    rw [hl.leaf, if_neg (Nat.ne_of_gt hdepth)]
    rfl
  have hright : (rightChain depth).1 = 1 + depth + depth - 1 := by
    rw [(chained_rightChain hmax).leaf, if_neg (Nat.ne_of_gt hdepth), hsize]
  exact ⟨by lia, by lia⟩

/-- With room for both chains the draft has no mistake, and its chart is that of a pair. -/
theorem paired_draft (hdepth : 0 < depth) (hmax : 2 * depth + 1 ≤ maxNodes) :
    (draft depth).fault = none ∧ Paired depth (draft depth).chart := by
  have hl : Chained "L" depth _ (leftChain depth) := chained_leftChain (by lia)
  have hr := chained_rightChain hmax
  have hlsize : (leftChain depth).2.chart.states.size = 1 + depth := hl.size
  have hsize : (rightChain depth).2.chart.states.size = 2 * depth + 1 := by
    rw [hr.size, hlsize]
    lia
  have hevents : (rightChain depth).2.chart.events = #["DO", "FLIP"] :=
    hr.events.trans hl.events
  have hlinked := linked_draft depth
  obtain ⟨hleft, hright⟩ := leaves_eq hdepth hmax
  rw [draft, hleft, hright] at hlinked ⊢
  have hj : Joined (rightChain depth).2 depth (2 * depth) _ :=
    joined (by rw [hevents]; rfl) (hr.pseudostates.trans hl.pseudostates) (by lia) (by lia)
  refine ⟨hj.fault.trans (hr.fault.trans hl.fault), hlinked, hj.size.trans hsize,
    hj.events.trans hevents, hj.pseudostates, ?_, fun i hi => ?_, fun i hi => ?_⟩
  · have hroot : (rightChain depth).2.chart.declared? rootState = some ⟨"ROOT", none, []⟩ :=
      (hr.old rootState (by rw [hlsize, rootState]; lia)).trans (hl.old rootState Nat.zero_lt_one)
    rw [hj.declared, hroot]
    simp [rootState, Nat.ne_of_gt hdepth]
  · have hlevel : (rightChain depth).2.chart.declared? (1 + i) = some (level "L" 1 i) :=
      (hr.old (1 + i) (by lia)).trans (hl.new i hi)
    have hne : 2 * depth ≠ 1 + i := by lia
    have hiff : depth = 1 + i ↔ i + 1 = depth := by lia
    rw [hj.declared, hlevel]
    simp [level, hne, hiff]
  · have hlevel : (rightChain depth).2.chart.declared? (depth + 1 + i) =
        some (level "R" (depth + 1) i) := by
      rw [Nat.add_comm depth 1, ← hlsize]
      exact hr.new i hi
    have hne : depth ≠ depth + 1 + i := by lia
    have hiff : 2 * depth = depth + 1 + i ↔ i + 1 = depth := by lia
    rw [hj.declared, hlevel]
    simp [level, hne, hiff]

/-- Without room for both chains the draft is a mistake. -/
theorem isSome_fault_draft (hmax : maxNodes < 2 * depth + 1) : (draft depth).fault.isSome := by
  have hbase := Draft.linked_event (Draft.linked_new (V := Counters) "deep_pair") "FLIP"
  have hleft : (leftChain depth).2.chart.Linked := linked_addChain hbase depth
  have hchains : (rightChain depth).2.fault.isSome := by
    apply isSome_fault_addChain hleft
    by_cases hroom : 1 + depth ≤ maxNodes
    · have hsize : (leftChain depth).2.chart.states.size = 1 + depth :=
        (chained_leftChain hroom).size
      exact .inr (by lia)
    · exact .inl (isSome_fault_addChain hbase (.inr (Nat.not_le.1 hroom)))
  exact isSome_fault_join hchains _ _

/-! ## Well-formed pairs -/

/-- Above a state of a chain there are the states before it, and the root. -/
theorem Spans.ancestors {first target : StateId} (h : Spans c side first depth target)
    (hc : c.Linked) {i : Nat} (hi : i < depth) :
    c.hierarchy.ancestors (first + i) = (List.range' first (i + 1)).reverse ++ [rootState] := by
  have hparent : ∀ {j}, j < depth → c.hierarchy.parent (first + j) =
      some (if j = 0 then rootState else first + j - 1) := by
    intro j hj
    obtain ⟨node, hnode, heq⟩ := Option.map_eq_some_iff.1 (h j hj)
    rw [hc.parent_eq, Chart.parentOf, hnode]
    exact congrArg Declaration.parent heq
  induction i with
  | zero =>
    rw [Hierarchy.ancestors_of_parent (hparent hi), if_pos rfl, hc.ancestors_rootState]
    rfl
  | succ i ih =>
    have hprevious : first + (i + 1) - 1 = first + i := rfl
    rw [Hierarchy.ancestors_of_parent (hparent hi), if_neg (Nat.succ_ne_zero i), hprevious,
      ih (by lia), List.range'_concat (n := i + 1)]
    simp

theorem Spans.behaviors {first target : StateId} (h : Spans c side first depth target) {i : Nat}
    (hi : i < depth) {node : StateNode Counters} (hnode : c.states[first + i]? = some node) :
    node.behaviors.toList = counting ++ if i + 1 = depth then [jump target] else [] := by
  have hdeclared := h i hi
  rw [Chart.declared?, hnode, Option.map_some] at hdeclared
  exact congrArg Declaration.behaviors (Option.some.inj hdeclared)

namespace Paired

variable (h : Paired depth c)

include h

theorem cases_of_lt {s : StateId} (hs : s < c.states.size) :
    s = rootState ∨ (∃ i < depth, s = 1 + i) ∨ ∃ i < depth, s = depth + 1 + i := by
  rw [h.size] at hs
  rcases Nat.eq_zero_or_pos s with hzero | hpos
  · exact .inl hzero
  · by_cases hle : s ≤ depth
    · exact .inr (.inl ⟨s - 1, by lia, by lia⟩)
    · exact .inr (.inr ⟨s - (depth + 1), by lia, by lia⟩)

/-- The root does nothing, all others count, and two of them jump besides. -/
theorem behaviors_cases {node : StateNode Counters} (hnode : node ∈ c.states.toList) :
    node.behaviors.toList = [] ∨ ∃ jumps, node.behaviors.toList = counting ++ jumps ∧
      (jumps = [] ∨ jumps = [jump depth] ∨ jumps = [jump (2 * depth)]) := by
  obtain ⟨s, hs⟩ := List.getElem?_of_mem hnode
  rw [Array.getElem?_toList] at hs
  rcases h.cases_of_lt (Array.getElem?_eq_some_iff.1 hs).1 with rfl | ⟨i, hi, rfl⟩ | ⟨i, hi, rfl⟩
  · have hroot := h.root
    rw [Chart.declared?, hs, Option.map_some] at hroot
    exact .inl (congrArg Declaration.behaviors (Option.some.inj hroot))
  · refine .inr ⟨_, h.left.behaviors hi hs, ?_⟩
    split
    · exact .inr (.inr rfl)
    · exact .inl rfl
  · refine .inr ⟨_, h.right.behaviors hi hs, ?_⟩
    split
    · exact .inr (.inl rfl)
    · exact .inl rfl

/-- A behavior counts on a boundary, or it jumps to one of the innermost states. -/
theorem behavior_cases {node : StateNode Counters} (hnode : node ∈ c.states.toList)
    {b : Behavior Counters} (hb : b ∈ node.behaviors.toList) :
    b ∈ counting ∨ b = jump depth ∨ b = jump (2 * depth) := by
  rcases h.behaviors_cases hnode with hnil | ⟨jumps, heq, rfl | rfl | rfl⟩
  · simp [hnil] at hb
  all_goals
    simp only [heq, List.mem_append, List.mem_singleton, List.not_mem_nil] at hb
    tauto

theorem behaviorRules {node : StateNode Counters} (hnode : node ∈ c.states.toList)
    {b : Behavior Counters} (hb : b ∈ node.behaviors.toList) : c.BehaviorRules b := by
  have hsize := h.size
  have hjump : ∀ {target : StateId}, target ≤ 2 * depth → c.BehaviorRules (jump target) := by
    intro target hle
    refine ⟨nofun, fun e he => ?_, fun t ht => ?_⟩
    · cases he
      rw [h.events]
      decide
    · cases ht
      change target < c.states.size
      lia
  rcases h.behavior_cases hnode hb with hb | rfl | rfl
  · simp only [counting, List.mem_cons, List.not_mem_nil, or_false] at hb
    rcases hb with rfl | rfl
    · exact ⟨fun _ _ => rfl, nofun, nofun⟩
    · exact ⟨fun _ _ => rfl, nofun, nofun⟩
  · exact hjump (by lia)
  · exact hjump (by lia)

theorem behavior_target_ne_root (hdepth : 0 < depth) {node : StateNode Counters}
    (hnode : node ∈ c.states.toList) {b : Behavior Counters} (hb : b ∈ node.behaviors.toList) :
    b.target ≠ some (.state rootState) := by
  have hjump : ∀ {target : StateId}, 0 < target →
      (jump target).target ≠ some (.state rootState) := by
    rintro target hpos heq
    cases heq
    exact Nat.lt_irrefl 0 hpos
  rcases h.behavior_cases hnode hb with hb | rfl | rfl
  · simp only [counting, List.mem_cons, List.not_mem_nil, or_false] at hb
    rcases hb with rfl | rfl
    · exact nofun
    · exact nofun
  · exact hjump hdepth
  · exact hjump (by lia)

theorem names_eq : c.states.toList.map (·.name) =
    "ROOT" :: (List.range depth).map (fun i => "L" ++ Text.decimal (i + 1)) ++
      (List.range depth).map fun i => "R" ++ Text.decimal (i + 1) := by
  have hname : ∀ s, (c.states.toList.map (·.name))[s]? = (c.declared? s).map (·.name) := by
    intro s
    rw [List.getElem?_map, Array.getElem?_toList, Chart.declared?, Option.map_map]
    rfl
  apply List.ext_getElem?
  intro s
  rw [hname]
  by_cases hs : s < c.states.size
  · rcases h.cases_of_lt hs with rfl | ⟨i, hi, rfl⟩ | ⟨i, hi, rfl⟩
    · rw [h.root]
      rfl
    · rw [h.left i hi, Nat.add_comm 1 i, List.cons_append, List.getElem?_cons_succ,
        List.getElem?_append_left (by simpa using hi), List.getElem?_map, List.getElem?_range hi]
      rfl
    · have hlength : ((List.range depth).map fun i => "L" ++ Text.decimal (i + 1)).length =
          depth := by simp
      rw [h.right i hi, Nat.add_right_comm, List.cons_append, List.getElem?_cons_succ,
        List.getElem?_append_right (by lia), hlength, Nat.add_sub_cancel_left, List.getElem?_map,
        List.getElem?_range hi]
      rfl
  · have hnone : c.states[s]? = none := Array.getElem?_eq_none (Nat.not_lt.1 hs)
    rw [h.size] at hs
    rw [Chart.declared?, hnone, Option.map_none, Option.map_none, List.getElem?_eq_none]
    simp only [List.cons_append, List.length_cons, List.length_append, List.length_map,
      List.length_range]
    lia

end Paired

/-- No two states share a name. -/
theorem nodup_names (depth : Nat) :
    ("ROOT" :: (List.range depth).map (fun i => "L" ++ Text.decimal (i + 1)) ++
      (List.range depth).map fun i => "R" ++ Text.decimal (i + 1)).Nodup := by
  have hside : ∀ side : String,
      ((List.range depth).map fun i => side ++ Text.decimal (i + 1)).Nodup := by
    intro side
    refine List.nodup_range.map fun i j hij => ?_
    have hdigits : Nat.toDigits 10 (i + 1) = Nat.toDigits 10 (j + 1) := by
      simpa [Priority.toList_decimal] using congrArg String.toList hij
    have hvalue := congrArg (Nat.ofDigitChars 10 · 0) hdigits
    simpa using hvalue
  have hleft : ∀ {n : Nat}, "L" ++ Text.decimal n ≠ "ROOT" := fun heq => by
    simpa using congrArg String.toList heq
  have hright : ∀ {n : Nat}, "R" ++ Text.decimal n ≠ "ROOT" := by
    intro n heq
    have hdigits : Nat.toDigits 10 n = ['O', 'O', 'T'] := by
      simpa [Priority.toList_decimal] using congrArg String.toList heq
    have hletter : 'O' ∈ Nat.toDigits 10 n := by simp [hdigits]
    exact absurd (Nat.isDigit_of_mem_toDigits (by decide) (by decide) hletter) (by decide)
  have hsides : ∀ {i j : Nat}, "L" ++ Text.decimal i ≠ "R" ++ Text.decimal j := fun heq => by
    simpa using congrArg String.toList heq
  rw [List.cons_append, List.nodup_cons, List.nodup_append]
  refine ⟨?_, hside "L", hside "R", ?_⟩
  · simp [hleft, hright]
  · simp [hsides]

namespace Paired

variable (h : Paired depth c)

include h

/-- No state is nested deeper than the innermost ones. -/
theorem nesting {s : StateId} (hs : s < c.states.size) :
    (c.hierarchy.ancestors s).tail.length ≤ depth := by
  have hlength : ∀ {i first : Nat}, i < depth →
      ((List.range' first (i + 1)).reverse ++ [rootState]).tail.length ≤ depth := by
    intro i first hi
    simp only [List.length_tail, List.length_append, List.length_reverse, List.length_range',
      List.length_singleton]
    lia
  rcases h.cases_of_lt hs with rfl | ⟨i, hi, rfl⟩ | ⟨i, hi, rfl⟩
  · rw [h.linked.ancestors_rootState]
    exact Nat.zero_le depth
  · rw [h.left.ancestors h.linked hi]
    exact hlength hi
  · rw [h.right.ancestors h.linked hi]
    exact hlength hi

theorem ancestors_leftLeaf (hdepth : 0 < depth) :
    c.hierarchy.ancestors depth = (List.range' 1 depth).reverse ++ [rootState] := by
  have hleft := h.left.ancestors h.linked (Nat.sub_lt hdepth Nat.one_pos)
  rwa [Nat.sub_add_cancel hdepth, Nat.add_sub_cancel' hdepth] at hleft

theorem inside (hdepth : 0 < depth) : c.Inside rootState (.state depth) := by
  rw [Chart.Inside, Hierarchy.mem_tail_ancestors, h.ancestors_leftLeaf hdepth]
  exact ⟨by simp, Nat.ne_of_lt hdepth⟩

/-- One plan for the way in, and at most one for each state. -/
theorem planCount_le : c.planCount ≤ 1 + c.states.size := by
  have hstate : ∀ n ∈ c.states.toList.map fun node =>
      node.behaviors.toList.countP fun b => b.target.isSome, n ≤ 1 := by
    intro n hn
    obtain ⟨node, hnode, rfl⟩ := List.mem_map.1 hn
    rcases h.behaviors_cases hnode with hnil | ⟨jumps, heq, rfl | rfl | rfl⟩
    · simp [hnil]
    · rw [heq]
      decide
    · exact heq ▸ Nat.le_refl 1
    · exact heq ▸ Nat.le_refl 1
  have hsum := List.sum_le_card_nsmul _ 1 hstate
  rw [List.length_map, Array.length_toList, Nat.nsmul_eq_mul, Nat.mul_one] at hsum
  rw [Chart.planCount, h.pseudostates]
  exact Nat.add_le_add_left hsum 1

theorem spansFit (hmax : 2 * depth + 1 ≤ maxNodes) : c.SpansFit := by
  refine Chart.spansFit_of_le (k := 3) (fun node hnode => ?_) ?_
  · rw [← Array.length_toList]
    rcases h.behaviors_cases hnode with hnil | ⟨jumps, heq, rfl | rfl | rfl⟩
    · simp [hnil]
    all_goals simp [heq, counting]
  · rw [h.size, h.events]
    simp only [maxNodes, maxSpan] at hmax ⊢
    simp only [List.size_toArray, List.length_cons, List.length_nil]
    lia

theorem wellFormed_iff (hdepth : 0 < depth) : c.WellFormed ↔ depth < maxDepth := by
  constructor
  · intro hw
    have hnesting := hw.nesting depth (by rw [h.size]; lia)
    rw [h.ancestors_leftLeaf hdepth] at hnesting
    simpa using hnesting
  · intro hmax
    refine Chart.wellFormed_of_wayIn h.pseudostates (h.names_eq ▸ nodup_names depth) ?_
      (fun s hs => Nat.lt_of_le_of_lt (h.nesting hs) hmax)
      (fun node hnode b hb =>
        ⟨h.behaviorRules hnode hb, h.behavior_target_ne_root hdepth hnode hb⟩)
      (by rw [h.size]; lia) (h.inside hdepth) ?_
    · rw [h.events]
      decide
    · have hle := h.planCount_le
      rw [h.size] at hle
      simp only [maxDepth, maxNodes] at hmax ⊢
      lia

end Paired

/-! ## Which depths can be built -/

/-- Two chains are well formed unless they are empty or too deep. -/
theorem wellFormed_draft_iff :
    ((draft depth).fault = none ∧ (draft depth).chart.WellFormed ∧ (draft depth).chart.SpansFit) ↔
      0 < depth ∧ depth < maxDepth := by
  rcases Nat.eq_zero_or_pos depth with rfl | hdepth
  · -- The way in leads to the root itself.
    have hfails : (draft 0).compile.isOk = false := by decide +kernel
    refine ⟨fun ⟨hfault, hw⟩ => ?_, fun h => absurd h.1 (Nat.lt_irrefl 0)⟩
    rw [(Draft.compile_eq_ok_iff (linked_draft 0)).2 ⟨hfault, hw, rfl⟩] at hfails
    cases hfails
  · by_cases hmax : 2 * depth + 1 ≤ maxNodes
    · obtain ⟨hfault, hpaired⟩ := paired_draft hdepth hmax
      rw [hpaired.wellFormed_iff hdepth, and_iff_left (hpaired.spansFit hmax)]
      exact and_congr_left fun _ => iff_of_true hfault hdepth
    · -- There are too many states for one chart.
      have hfault := isSome_fault_draft (Nat.lt_of_not_le hmax)
      refine iff_of_false (fun h => ?_) fun h => ?_
      · rw [h.1] at hfault
        cases hfault
      · simp only [maxDepth, maxNodes] at h hmax
        lia

theorem deepPair_eq_ok_iff {pair : DeepPair} :
    deepPair depth = .ok pair ↔ (0 < depth ∧ depth < maxDepth) ∧
      pair = ⟨(draft depth).chart.ordered.program, 1, depth, 2 * depth⟩ := by
  have hleaves : 0 < depth ∧ depth < maxDepth →
      (leftChain depth).1 = depth ∧ (rightChain depth).1 = 2 * depth := by
    intro h
    refine leaves_eq h.1 ?_
    simp only [maxDepth, maxNodes] at h ⊢
    lia
  rw [deepPair_eq]
  constructor
  · intro h
    cases hcompile : (draft depth).compile with
    | error error =>
      rw [hcompile] at h
      cases h
    | ok p =>
      obtain ⟨hfault, hw, rfl⟩ := (Draft.compile_eq_ok_iff (linked_draft depth)).1 hcompile
      have hdepth := wellFormed_draft_iff.1 ⟨hfault, hw⟩
      rw [hcompile, (hleaves hdepth).1, (hleaves hdepth).2] at h
      exact ⟨hdepth, (Except.ok.inj h).symm⟩
  · rintro ⟨hdepth, rfl⟩
    obtain ⟨hfault, hw⟩ := wellFormed_draft_iff.2 hdepth
    rw [(Draft.compile_eq_ok_iff (linked_draft depth)).2 ⟨hfault, hw, rfl⟩, (hleaves hdepth).1,
      (hleaves hdepth).2]
    rfl

end DeepPair

end Samples

end Statechart
