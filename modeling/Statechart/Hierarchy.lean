import Statechart.ModelError

/-
  Nested states as a forest of parent links. A parent is always declared before its children, so the
  links lead to smaller and smaller states and every walk upwards ends: `ancestors_eq` is the
  equation one would like to define `ancestors` by.
-/

namespace Statechart

/-- `s`, the state its link leads to, and so on, at most `n` states. -/
def walkUp (link : StateId → Option StateId) : Nat → StateId → List StateId
  | 0, _ => []
  | n + 1, s =>
    s :: match link s with
      | none => []
      | some q => walkUp link n q

/-- The same links without those that do not lead to an earlier state. -/
def backward (link : StateId → Option StateId) (s : StateId) : Option StateId :=
  (link s).filter (· < s)

theorem backward_lt {link : StateId → Option StateId} {s q : StateId}
    (h : backward link s = some q) : q < s := by
  simpa using (Option.filter_eq_some_iff.mp h).2

structure Hierarchy where
  /-- The state that directly holds another; none for a root. -/
  parent : StateId → Option StateId
  parent_lt : ∀ {s q}, parent s = some q → q < s
  /-- The name a state has in messages. -/
  label : StateId → String
  /-- The number of states above a state. -/
  depth : StateId → Nat := fun s => (walkUp parent (s + 1) s).length - 1

namespace Hierarchy

/-- `s` and the states above it, innermost first. -/
def ancestors (h : Hierarchy) (s : StateId) : List StateId := walkUp h.parent (s + 1) s

/-- More steps than the state's number add nothing to a walk. -/
theorem walkUp_eq_ancestors (h : Hierarchy) {n : Nat} {s : StateId} (hn : s < n) :
    walkUp h.parent n s = h.ancestors s := by
  induction s using Nat.strongRecOn generalizing n with
  | ind s ih =>
    obtain ⟨m, rfl⟩ : ∃ m, n = m + 1 := ⟨n - 1, by lia⟩
    simp only [ancestors, walkUp]
    cases hp : h.parent s with
    | none => rfl
    | some q =>
      have hq := h.parent_lt hp
      simp only [ih q hq (show q < m by lia), ih q hq hq]

theorem ancestors_eq (h : Hierarchy) (s : StateId) :
    h.ancestors s = s :: match h.parent s with
      | none => []
      | some q => h.ancestors q := by
  rw [ancestors, walkUp]
  cases hp : h.parent s with
  | none => rfl
  | some q => simp only [h.walkUp_eq_ancestors (h.parent_lt hp)]

/-- `outer` lies strictly above `s`. -/
def isAbove (h : Hierarchy) (outer s : StateId) : Bool := (h.ancestors s).tail.contains outer

/-- `s` is `outer` or lies below it. -/
def isWithin (h : Hierarchy) (s outer : StateId) : Bool := (h.ancestors s).contains outer

/-- Takes `n` steps up; a root stays where it is. -/
def lift (h : Hierarchy) : Nat → StateId → StateId
  | 0, s => s
  | n + 1, s => h.lift n ((h.parent s).getD s)

/-- Steps up from both states until they meet or one of them is a root, at most `n` times. -/
def meet (h : Hierarchy) : Nat → StateId → StateId → StateId
  | 0, a, _ => a
  | n + 1, a, b =>
    if a = b then a
    else
      match h.parent a, h.parent b with
      | some qa, some qb => h.meet n qa qb
      | _, _ => a

/-- The innermost state that holds both, each state holding itself. -/
def lca (h : Hierarchy) (a b : StateId) : StateId :=
  let a' := h.lift (h.depth a - h.depth b) a
  let b' := h.lift (h.depth b - h.depth a) b
  h.meet (a' + 1) a' b'

/-- `s` and the states above it up to, not including, `upto`. A chain has at most `maxDepth`
states. -/
def chainUpTo (h : Hierarchy) (s upto : StateId) : Except ModelError (List StateId) :=
  let chain := (h.ancestors s).takeWhile (· != upto)
  if chain.length ≤ maxDepth then .ok chain else .error (.tooDeep (h.label s))

end Hierarchy

end Statechart
