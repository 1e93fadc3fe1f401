import Statechart.Proofs.Memory

/-
  Checking a chart once more, with nothing to fall back on. Where the checks of `Chart.compile` look
  up a node by number, they have a default for a number that names nothing; here such a look-up ends
  everything (`none`). It never does for a linked chart: names, nesting and references
  (`structureFault_eq`), then the branches of pseudostates, whose targets are there by now
  (`branchFault_eq`), then histories and what they track (`historySlots_eq`, `historyWrites_eq`).
-/

namespace Statechart

namespace Strict

/-- What a check finds, if all that it looks up is there. -/
abbrev Finding := Option (Option ModelError)

/-- One check, then the next unless the first found a fault. -/
def Finding.andThen (first : Finding) (second : Unit → Finding) : Finding :=
  first.bind fun
    | some e => some (some e)
    | none => second ()

theorem Finding.andThen_eq {fault fault' : Option ModelError} {first : Finding}
    {second : Unit → Finding} (hfirst : first = some fault)
    (hsecond : fault = none → second () = some fault') :
    first.andThen second = some (fault <|> fault') := by
  subst hfirst
  cases fault with
  | some e => rfl
  | none => exact hsecond rfl

/-- What is made, unless there is a fault. -/
def barring {α : Type} (fault : Option ModelError) (x : α) : Except ModelError α :=
  match fault with
  | some e => .error e
  | none => .ok x

section Lists

variable {α β : Type} {xs : List α}

theorem exists_mapM {f : α → Option β} {R : α → β → Prop}
    (h : ∀ x ∈ xs, ∃ y, f x = some y ∧ R x y) :
    ∃ ys, xs.mapM f = some ys ∧ List.Forall₂ R xs ys := by
  induction xs with
  | nil => exact ⟨[], rfl, .nil⟩
  | cons x xs ih =>
    obtain ⟨y, hy, hR⟩ := h x List.mem_cons_self
    obtain ⟨ys, hys, hall⟩ := ih fun z hz => h z (List.mem_cons_of_mem _ hz)
    refine ⟨y :: ys, ?_, .cons hR hall⟩
    rw [List.mapM_cons, hy, hys]
    rfl

theorem mapM_eq {f : α → Option β} {g : α → β} (h : ∀ x ∈ xs, f x = some (g x)) :
    xs.mapM f = some (xs.map g) := by
  obtain ⟨ys, hys, hall⟩ := exists_mapM (R := fun x y => g x = y) fun x hx => ⟨_, h x hx, rfl⟩
  rw [← List.forall₂_map_left_iff, List.forall₂_eq_eq_eq] at hall
  rw [hys, hall]

theorem findSomeM?_eq {f : α → Option (Option β)} {g : α → Option β}
    (h : ∀ x ∈ xs, f x = some (g x)) : xs.findSomeM? f = some (xs.findSome? g) := by
  induction xs with
  | nil => rfl
  | cons x xs ih =>
    rw [List.findSomeM?, h x List.mem_cons_self, List.findSome?_cons]
    cases g x with
    | some b => rfl
    | none => exact ih fun y hy => h y (List.mem_cons_of_mem _ hy)

theorem findM?_eq {α : Type} {xs : List α} {f : α → Option Bool} {g : α → Bool}
    (h : ∀ x ∈ xs, f x = some (g x)) : xs.findM? f = some (xs.find? g) := by
  induction xs with
  | nil => rfl
  | cons x xs ih =>
    rw [List.findM?, h x List.mem_cons_self, List.find?_cons]
    cases g x with
    | true => rfl
    | false => exact ih fun y hy => h y (List.mem_cons_of_mem _ hy)

end Lists

variable {V : Type} (c : Chart V)

/-! ## The pseudostates of a state -/

/-- The kinds of the pseudostates of `s`. -/
def kinds (s : StateId) : Option (List (PseudoId × PseudoKind)) := do
  let node ← c.states[s]?
  node.pseudostates.toList.mapM fun p => do
    let pseudo ← c.pseudostates[p]?
    return (p, pseudo.kind)

def find (s : StateId) (kind : PseudoKind → Bool) : Option (Option PseudoId) := do
  let kinds ← kinds c s
  return (kinds.find? fun k => kind k.2).map Prod.fst

def count (s : StateId) (kind : PseudoKind → Bool) : Option Nat := do
  let kinds ← kinds c s
  return kinds.countP fun k => kind k.2

variable {c} {s : StateId}

/-- A state lists pseudostates that are there. -/
theorem exists_kinds (hc : c.Linked) (hs : s < c.states.size) :
    ∃ ks, kinds c s = some ks ∧
      List.Forall₂ (fun p k => k.1 = p ∧ c.kind? p = some k.2) (c.owned s) ks := by
  have hnode := Array.getElem?_eq_getElem hs
  have howned : c.owned s = c.states[s].pseudostates.toList := by
    rw [Chart.owned_eq, hnode]
    rfl
  simp only [kinds, hnode, howned, Option.bind_eq_bind, Option.bind_some]
  apply exists_mapM
  intro p hp
  obtain ⟨hlt, -⟩ := hc.mem_owned.1 (howned ▸ hp)
  have hpseudo := Array.getElem?_eq_getElem hlt
  exact ⟨(p, c.pseudostates[p].kind), by rw [hpseudo]; rfl, rfl, by rw [Chart.kind?, hpseudo]; rfl⟩

theorem find_eq (hc : c.Linked) (hs : s < c.states.size) (kind : PseudoKind → Bool) :
    find c s kind = some (c.find? s kind) := by
  obtain ⟨ks, hks, hall⟩ := exists_kinds hc hs
  rw [find, hks, Chart.find?_eq]
  refine congrArg some ?_
  clear hks
  generalize c.owned s = owned at hall
  induction hall with
  | nil => rfl
  | cons hk _ ih =>
    rw [List.find?_cons, List.find?_cons, hk.2, Option.any_some]
    cases kind _ with
    | true => exact congrArg some hk.1
    | false => exact ih

theorem count_eq (hc : c.Linked) (hs : s < c.states.size) (kind : PseudoKind → Bool) :
    count c s kind = some (c.countOwned s kind) := by
  obtain ⟨ks, hks, hall⟩ := exists_kinds hc hs
  rw [count, hks, Chart.countOwned]
  refine congrArg some ?_
  clear hks
  generalize c.owned s = owned at hall
  induction hall with
  | nil => rfl
  | cons hk _ ih => rw [List.countP_cons, List.countP_cons, ih, hk.2, Option.any_some]

variable (c)

/-! ## Names, nesting and references -/

def stateFault (s : StateId) : Finding := do
  let node ← c.states[s]?
  let initials ← count c s (· == .initial)
  let histories ← count c s (·.isHistory)
  return node.parent.bind (fun q => Chart.faultIf (s ≤ q) (.unknownId .state q)) <|>
    Chart.faultIf (maxDepth ≤ c.hierarchy.depth s) (.tooDeep (c.label s)) <|>
    Chart.faultIf (1 < initials) (.multipleInitials (c.label s)) <|>
    Chart.faultIf (1 < histories) (.multipleHistories (c.label s)) <|>
    node.behaviors.toList.findSome? (c.behaviorFault s)

def rootFault : Finding := do
  let initial ← find c rootState (· == .initial)
  return Chart.faultIf initial.isNone .missingRootInitial

def structureFault : Finding :=
  Finding.andThen (some ((firstRepeat (c.states.toList.map (·.name))).map .duplicateState)) fun _ =>
  Finding.andThen (some ((firstRepeat c.events.toList).map .duplicateEvent)) fun _ =>
  (rootFault c).andThen fun _ =>
  Finding.andThen (c.stateIds.findSomeM? (stateFault c)) fun _ =>
  some (c.pseudostates.toList.findSome? fun node =>
    node.branches.toList.findSome? fun b => b.target.bind c.targetFault)

variable {c}

theorem stateFault_eq (hc : c.Linked) (hs : s < c.states.size) :
    stateFault c s = some (c.stateFault s) := by
  have hnode := Array.getElem?_eq_getElem hs
  simp only [stateFault, count_eq hc hs, hnode, Option.bind_eq_bind, Option.bind_some,
    Option.pure_def, Chart.stateFault, Chart.parentFault]

theorem rootFault_eq (hc : c.Linked) :
    rootFault c = some (Chart.faultIf (c.initialOf rootState).isNone .missingRootInitial) := by
  rw [rootFault, find_eq (s := rootState) hc hc.nonempty]
  rfl

theorem structureFault_eq (hc : c.Linked) : structureFault c = some c.structureFault := by
  refine Finding.andThen_eq rfl fun _ => Finding.andThen_eq rfl fun _ =>
    Finding.andThen_eq (rootFault_eq hc) fun _ => Finding.andThen_eq ?_ fun _ => rfl
  exact findSomeM?_eq fun s hs => stateFault_eq hc (List.mem_range.1 hs)

variable (c)

/-! ## Branches -/

def container (p : PseudoId) : Option StateId := (c.pseudostates[p]?).map (·.container)

def landing : Vertex → Option StateId
  | .state s => some s
  | .pseudo p => container c p

def landsInside (q : StateId) : Vertex → Option Bool
  | .state s => some (c.hierarchy.isAbove q s)
  | .pseudo p => (container c p).map fun s => c.hierarchy.isWithin s q

def targetName : Vertex → Option String
  | .state s => some (c.label s)
  | .pseudo p => (c.pseudostates[p]?).map fun node =>
    c.label node.container ++ "." ++ node.name.getD node.kind.label

/-- The error about the first target that passes a test. -/
def offender (test : Vertex → Option Bool) (error : String → ModelError) (targets : List Vertex) :
    Finding := do
  match ← targets.findM? test with
  | some t => return some (error (← targetName c t))
  | none => return none

def kindFault (node : PseudoNode V) (targets : List Vertex) : Finding :=
  let state := c.label node.container
  let point := node.name.getD ""
  let endsInElse := (node.branches.toList.getLast?).any Branch.isElse
  let soleElse := node.branches.size == 1 && endsInElse
  let outside := fun t => (landsInside c node.container t).map (!·)
  let inside := fun t => (landing c t).map fun s => c.hierarchy.isWithin s node.container
  match node.kind with
  | .initial =>
    Finding.andThen (some (Chart.faultIf (!soleElse) (.invalidInitial state))) fun _ =>
      (targets[0]?).bind fun t => offender c outside (.initialOutside state) [t]
  | .choice => some (Chart.faultIf (!endsInElse) (.choiceWithoutElse state))
  | .history _ =>
    Finding.andThen (some (Chart.faultIf (!soleElse) (.historyWithoutDefault state))) fun _ =>
      (targets[0]?).bind fun t => offender c outside (.historyOutside state) [t]
  | .entryPoint =>
    Finding.andThen (some (Chart.faultIf (!endsInElse) (.noFallback node.kind point state)))
      fun _ => offender c outside (.entryOutside point state) targets
  | .exitPoint =>
    Finding.andThen (some (Chart.faultIf (!endsInElse) (.noFallback node.kind point state)))
      fun _ => offender c inside (.exitInside point state) targets
  | .historyContinue => some none

def branchFault (node : PseudoNode V) : Finding :=
  let state := c.label node.container
  if node.kind = .historyContinue then
    some (Chart.faultIf (!node.branches.isEmpty) (.continueLinked state))
  else
    Finding.andThen (some (Chart.faultIf (node.branches.any (·.target.isNone))
      (.branchWithoutTarget node.kind state))) fun _ =>
      kindFault c node (node.branches.toList.filterMap (·.target))

variable {c} {t : Vertex}

theorem container_eq {p : PseudoId} (hp : p < c.pseudostates.size) :
    container c p = some (c.containerOf p) := by
  have hnode := Array.getElem?_eq_getElem hp
  rw [container, hnode, Chart.containerOf_eq_of_getElem? hnode]
  rfl

/-- The pseudostate that a target is, if it is one, is there. -/
def Found (c : Chart V) : Vertex → Prop
  | .state _ => True
  | .pseudo p => p < c.pseudostates.size

theorem found_of_isTarget (ht : c.IsTarget t) : Found c t := by
  cases t with
  | state s => trivial
  | pseudo p =>
    obtain ⟨node, hnode, -⟩ := ht
    exact (Array.getElem?_eq_some_iff.1 hnode).1

theorem landing_eq (ht : Found c t) : landing c t = some (c.landing t) := by
  cases t with
  | state s => rfl
  | pseudo p => exact container_eq ht

theorem landsInside_eq (ht : Found c t) (q : StateId) :
    landsInside c q t = some (c.landsInside q t) := by
  cases t with
  | state s => rfl
  | pseudo p =>
    rw [landsInside, container_eq ht]
    rfl

theorem targetName_eq (ht : Found c t) : targetName c t = some (c.targetName t) := by
  cases t with
  | state s => rfl
  | pseudo p =>
    have hnode := Array.getElem?_eq_getElem (show p < c.pseudostates.size from ht)
    simp only [targetName, Chart.targetName, hnode, Option.map_some]

theorem offender_eq {test : Vertex → Option Bool} {test' : Vertex → Bool}
    {error : String → ModelError} {targets : List Vertex} (hfound : ∀ t ∈ targets, Found c t)
    (htest : ∀ t ∈ targets, test t = some (test' t)) :
    offender c test error targets =
      some ((targets.find? test').map fun t => error (c.targetName t)) := by
  rw [offender, findM?_eq htest]
  cases hfind : targets.find? test' with
  | none => rfl
  | some t =>
    simp only [Option.bind_eq_bind, Option.bind_some,
      targetName_eq (hfound t (List.mem_of_find?_eq_some hfind)), Option.map_some, Option.pure_def]

/-- If the only branch leads somewhere, there is a first target. -/
theorem targets_of_sole {branches : Array (Branch V)} {isElse : Bool}
    (hlead : branches.any (·.target.isNone) = false)
    (hsole : (!(branches.size == 1 && isElse)) = false) :
    ∃ t, branches.toList.filterMap (·.target) = [t] := by
  have hsize : branches.toList.length = 1 := by
    rw [Bool.not_eq_false', Bool.and_eq_true, beq_iff_eq] at hsole
    exact hsole.1
  obtain ⟨b, hb⟩ := List.length_eq_one_iff.1 hsize
  cases ht : b.target with
  | none => simp [← Array.any_toList, hb, ht] at hlead
  | some t => exact ⟨t, by simp [hb, ht]⟩

theorem branchFault_eq {node : PseudoNode V}
    (htargets : ∀ b ∈ node.branches.toList, ∀ t, b.target = some t → c.IsTarget t) :
    branchFault c node = some (c.branchFault node) := by
  have hfound : ∀ t ∈ node.branches.toList.filterMap (·.target), Found c t := by
    intro t ht
    obtain ⟨b, hb, hbt⟩ := List.mem_filterMap.1 ht
    exact found_of_isTarget (htargets b hb t hbt)
  have houtside : ∀ t ∈ node.branches.toList.filterMap (·.target),
      (landsInside c node.container t).map (!·) = some (!c.landsInside node.container t) := by
    intro t ht
    rw [landsInside_eq (hfound t ht)]
    rfl
  have hinside : ∀ t ∈ node.branches.toList.filterMap (·.target),
      ((landing c t).map fun s => c.hierarchy.isWithin s node.container) =
        some (c.hierarchy.isWithin (c.landing t) node.container) := by
    intro t ht
    rw [landing_eq (hfound t ht)]
    rfl
  unfold branchFault Chart.branchFault
  split
  · rfl
  · refine Finding.andThen_eq rfl fun hlead => ?_
    rw [Chart.faultIf_eq_none_iff] at hlead
    -- The only target of an initial pseudostate or a history is looked up by number.
    have hfirst : ∀ (error : String → ModelError) (fault : ModelError) (isElse : Bool),
        Finding.andThen (some (Chart.faultIf (!(node.branches.size == 1 && isElse)) fault))
            (fun _ => ((node.branches.toList.filterMap (·.target))[0]?).bind fun t =>
              offender c (fun t => (landsInside c node.container t).map (!·)) error [t]) =
          some (Chart.faultIf (!(node.branches.size == 1 && isElse)) fault <|>
            ((node.branches.toList.filterMap (·.target)).find? fun t =>
              !c.landsInside node.container t).map fun t => error (c.targetName t)) := by
      intro error fault isElse
      refine Finding.andThen_eq rfl fun hsole => ?_
      obtain ⟨t, ht⟩ := targets_of_sole hlead (Chart.faultIf_eq_none_iff.1 hsole)
      rw [ht] at hfound houtside ⊢
      exact offender_eq hfound houtside
    unfold kindFault Chart.kindFault
    cases node.kind with
    | initial => exact hfirst _ _ _
    | choice => rfl
    | history depth => exact hfirst _ _ _
    | historyContinue => rfl
    | entryPoint => exact Finding.andThen_eq rfl fun _ => offender_eq hfound houtside
    | exitPoint => exact Finding.andThen_eq rfl fun _ => offender_eq hfound hinside

variable (c)

/-! ## Histories -/

/-- Going up from `s`, at most `n` states, a shallow history comes before a state that is not
marked. -/
def reachesShallow : Nat → StateId → Option Bool
  | 0, _ => some false
  | n + 1, s => do
    let node ← c.states[s]?
    match node.parent with
    | none => return false
    | some q =>
      if (← find c q (· == .history .shallow)).isSome then return true
      else if (← find c q (· == .historyContinue)).isSome then reachesShallow n q
      else return false

def continueFault (p : PseudoId) : Finding := do
  let node ← c.pseudostates[p]?
  if node.kind = .historyContinue then
    let reaches ← reachesShallow c (node.container + 1) node.container
    return Chart.faultIf (!reaches) (.orphanContinue (c.label node.container))
  else return none

def historyFault (slots : Array HistorySlot) (p : PseudoId) : Finding :=
  (continueFault c p).andThen fun _ =>
    some ((slots.find? (·.pseudo == p)).bind fun slot =>
      if slot.fits then none else some (.tooMany .tracked))

def below (opens : StateId → Option Bool) : Nat → StateId → Option (List StateId)
  | 0, _ => some []
  | n + 1, s => do
    let node ← c.states[s]?
    let parts ← node.children.toList.mapM fun q => do
      if ← opens q then return q :: (← below opens n q) else return [q]
    return parts.flatten

def tracked (q : StateId) : HistoryDepth → Option (List StateId)
  | .shallow =>
    below c (fun s => (find c s (· == .historyContinue)).map Option.isSome) c.states.size q
  | .deep => below c (fun _ => some true) c.states.size q

def historySlot (p : PseudoId) : Option (Option HistorySlot) := do
  let node ← c.pseudostates[p]?
  match node.kind with
  | .history depth =>
    let tracked ← tracked c node.container depth
    let default := node.trackedDefault tracked
    let others := tracked.filter fun s => some s != default
    return some { pseudo := p, container := node.container, depth,
                  values := (default :: others.map some).toArray }
  | _ => return none

def historySlots : Option (Array HistorySlot) := do
  let slots ← c.pseudoIds.mapM (historySlot c)
  return (slots.filterMap id).toArray

/-- A tracked state has its place among the writes. -/
def addWrites (slot : HistorySlot) (h : HistoryId) (writes : Array (Array HistoryWrite)) :
    Option (Array (Array HistoryWrite)) :=
  slot.tracked.foldlM (fun writes v => (writes[v.2]?).map fun _ =>
    writes.modify v.2 (·.push { history := h, value := v.1 })) writes

def historyWrites (slots : Array HistorySlot) : Option (Array (Array HistoryWrite)) :=
  slots.toList.zipIdx.foldlM (fun writes slot => addWrites slot.1 slot.2 writes)
    (Array.replicate c.states.size #[])

variable {c} {p : PseudoId}

theorem reachesShallow_eq (hc : c.Linked) {n : Nat} (hs : s < c.states.size) (hn : s < n) :
    reachesShallow c n s = some (c.reachesShallow (c.hierarchy.ancestors s).tail) := by
  induction n generalizing s with
  | zero => exact absurd hn (Nat.not_lt_zero s)
  | succ n ih =>
    have hnode := Array.getElem?_eq_getElem hs
    have hparent : c.states[s].parent = c.hierarchy.parent s := by
      rw [hc.parent_eq, Chart.parentOf, hnode]
      rfl
    simp only [reachesShallow, hnode, hparent, Option.bind_eq_bind, Option.bind_some]
    cases hp : c.hierarchy.parent s with
    | none =>
      rw [Hierarchy.ancestors_of_root hp]
      rfl
    | some q =>
      have hlt := c.hierarchy.parent_lt hp
      have hq : q < c.states.size := Nat.lt_trans hlt hs
      have hrest : (c.hierarchy.ancestors s).tail =
          q :: (c.hierarchy.ancestors q).tail := by
        rw [Hierarchy.ancestors_of_parent hp, List.tail_cons, Hierarchy.cons_tail_ancestors]
      simp only [find_eq hc hq, Option.bind_some, hrest, Chart.reachesShallow,
        Chart.hasShallowHistory, Chart.hasContinue, ih hq (show q < n by lia), Option.pure_def]
      cases (c.find? q (· == .history .shallow)).isSome <;>
        cases (c.find? q (· == .historyContinue)).isSome <;> rfl

theorem continueFault_eq (hc : c.Linked) (hp : p < c.pseudostates.size) :
    continueFault c p = some (c.continueFault p) := by
  have hnode := Array.getElem?_eq_getElem hp
  have hlt : c.pseudostates[p].container < c.states.size := by
    rw [← Chart.containerOf_eq_of_getElem? hnode]
    exact hc.container p hp
  simp only [continueFault, Chart.continueFault, hnode, Option.bind_eq_bind, Option.bind_some,
    reachesShallow_eq hc hlt (Nat.lt_succ_self _), Option.pure_def]
  by_cases hk : c.pseudostates[p].kind = .historyContinue
  · cases hreach : c.reachesShallow (c.hierarchy.ancestors c.pseudostates[p].container).tail <;>
      simp [hk, Chart.faultIf]
  · simp [hk]

theorem historyFault_eq (hc : c.Linked) (slots : Array HistorySlot) (hp : p < c.pseudostates.size) :
    historyFault c slots p = some (c.historyFault slots p) :=
  Finding.andThen_eq (continueFault_eq hc hp) fun _ => rfl

theorem below_eq (hc : c.Linked) {opens : StateId → Option Bool} {opens' : StateId → Bool}
    (hopens : ∀ q < c.states.size, opens q = some (opens' q)) {n : Nat} (hs : s < c.states.size) :
    below c opens n s = some (c.below opens' n s) := by
  induction n generalizing s with
  | zero => rfl
  | succ n ih =>
    have hnode := Array.getElem?_eq_getElem hs
    have hchildren : c.children s = c.states[s].children.toList := by
      rw [Chart.children_eq, hnode]
      rfl
    have hparts := mapM_eq (g := fun q => q :: if opens' q then c.below opens' n q else [])
      (f := fun q => do if ← opens q then return q :: (← below c opens n q) else return [q])
      fun q (hq : q ∈ c.children s) => ?_
    · rw [below, hnode, Option.bind_eq_bind, Option.bind_some, ← hchildren, hparts, Chart.below,
        List.flatMap_def]
      rfl
    · have hlt : q < c.states.size := (Chart.parentOf_lt hc
        (hc.parent_eq q ▸ hc.mem_children.1 hq)).1
      simp only [hopens q hlt, ih hlt, Option.bind_eq_bind, Option.bind_some, Option.pure_def]
      cases opens' q <;> rfl

theorem tracked_eq (hc : c.Linked) (hs : s < c.states.size) (depth : HistoryDepth) :
    tracked c s depth = some (c.tracked s depth) := by
  cases depth with
  | deep => exact below_eq hc (fun _ _ => rfl) hs
  | shallow =>
    refine below_eq hc (fun q hq => ?_) hs
    rw [find_eq hc hq]
    rfl

theorem historySlot_eq (hc : c.Linked) (hp : p < c.pseudostates.size) :
    historySlot c p = some (c.historySlot? p) := by
  have hnode := Array.getElem?_eq_getElem hp
  have hlt : c.pseudostates[p].container < c.states.size := by
    rw [← Chart.containerOf_eq_of_getElem? hnode]
    exact hc.container p hp
  simp only [historySlot, Chart.historySlot?, hnode, Option.bind_eq_bind, Option.bind_some]
  cases c.pseudostates[p].kind with
  | history depth =>
    simp only [tracked_eq hc hlt, Option.bind_some]
    rfl
  | _ => rfl

theorem historySlots_eq (hc : c.Linked) : historySlots c = some c.historySlots := by
  have hread : c.pseudoIds.mapM (historySlot c) = some (c.pseudoIds.map c.historySlot?) :=
    mapM_eq fun p hp => historySlot_eq hc (List.mem_range.1 hp)
  rw [historySlots, hread, Chart.historySlots]
  simp [List.filterMap_map]

/-- A history tracks states that are there. -/
theorem lt_of_mem_tracked (hc : c.Linked) {slot : HistorySlot} (hslot : slot ∈ c.historySlots)
    {v : Nat × StateId} (hv : v ∈ slot.tracked) : v.2 < c.states.size := by
  have hslot? := Chart.mem_historySlots.1 hslot
  have hremembers := (hc.exists_value_iff hslot?).1 ⟨v.1, HistorySlot.mem_tracked_iff.1 hv⟩
  exact (hc.lt_of_mem_tail ((Chart.remembers_iff_of_historySlot? hslot?).1 hremembers).1).1

theorem addWrites_eq {slot : HistorySlot} (h : HistoryId) {w : Array (Array HistoryWrite)}
    (hlt : ∀ v ∈ slot.tracked, v.2 < w.size) : addWrites slot h w = some (slot.addWrites h w) := by
  unfold addWrites HistorySlot.addWrites
  generalize slot.tracked = tracked at hlt
  induction tracked generalizing w with
  | nil => rfl
  | cons v tracked ih =>
    have hget := Array.getElem?_eq_getElem (hlt v List.mem_cons_self)
    rw [List.foldlM_cons, hget, Option.map_some, List.foldl_cons]
    exact ih fun v' hv' => by simpa using hlt v' (List.mem_cons_of_mem _ hv')

theorem historyWrites_eq (hc : c.Linked) :
    historyWrites c c.historySlots = some (c.historyWrites c.historySlots) ∧
      (c.historyWrites c.historySlots).size = c.states.size := by
  have hfold : ∀ (slots : List (HistorySlot × Nat)) (w : Array (Array HistoryWrite)),
      (∀ slot ∈ slots, slot.1 ∈ c.historySlots) → w.size = c.states.size →
      slots.foldlM (fun w slot => addWrites slot.1 slot.2 w) w =
          some (slots.foldl (fun w slot => slot.1.addWrites slot.2 w) w) ∧
        (slots.foldl (fun w slot => slot.1.addWrites slot.2 w) w).size = c.states.size := by
    intro slots
    induction slots with
    | nil => exact fun w _ hsize => ⟨rfl, hsize⟩
    | cons slot slots ih =>
      intro w hmem hsize
      have hadd := addWrites_eq (w := w) slot.2 fun v hv =>
        hsize ▸ lt_of_mem_tracked hc (hmem slot List.mem_cons_self) hv
      rw [List.foldlM_cons, hadd, List.foldl_cons]
      exact ih _ (fun x hx => hmem x (List.mem_cons_of_mem _ hx))
        ((Chart.size_addWrites _ _ _).trans hsize)
  refine hfold _ _ (fun slot hslot => ?_) (by simp)
  exact Array.mem_toList_iff.1 (List.fst_mem_of_mem_zipIdx hslot)

end Strict

end Statechart
