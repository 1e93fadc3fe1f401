import Mathlib.Data.List.Lex
import Statechart.Chart

/-
  The order in which behaviors and branches are tried. `Priority.Before` says it without comparing:
  explicit orders come first, in the lexicographic order of their segments, then what has no order,
  then `else`. Sorting by it puts nothing before what comes before it and leaves the rest as it was
  declared (`stablyOrdered_byPriority`). This is how a chart is brought into order
  (`byPriority_eq_stableSort`).
-/

namespace Statechart

namespace Priority

/-- `a` comes before `b`. -/
def Before : Priority → Priority → Prop
  | explicit a, explicit b => a < b
  | explicit _, _ => True
  | unordered, otherwise => True
  | _, _ => False

instance decidableBefore : DecidableRel Before
  | explicit a, explicit b => List.decidableLT a b
  | explicit _, unordered => .isTrue trivial
  | explicit _, otherwise => .isTrue trivial
  | unordered, explicit _ => .isFalse id
  | unordered, unordered => .isFalse id
  | unordered, otherwise => .isTrue trivial
  | otherwise, explicit _ => .isFalse id
  | otherwise, unordered => .isFalse id
  | otherwise, otherwise => .isFalse id

theorem compareSegments_eq_gt_iff {as bs : List Nat} :
    compareSegments as bs = .gt ↔ bs < as := by
  induction as generalizing bs with
  | nil => cases bs <;> simp [compareSegments]
  | cons a as ih =>
    cases bs with
    | nil => simp [compareSegments]
    | cons b bs =>
      rw [compareSegments, Ordering.then_eq_gt, ih, List.cons_lt_cons_iff, Nat.compare_eq_gt,
        Nat.compare_eq_eq, eq_comm]

/-- Of two priorities the first one may stand first unless the other comes before it. -/
theorem le_iff_not_before {a b : Priority} : a.le b ↔ ¬ b.Before a := by
  unfold le
  rw [bne_iff_ne]
  cases a with
  | explicit as =>
    cases b with
    | explicit bs => exact not_congr compareSegments_eq_gt_iff
    | _ => simp [compare, Before, rank, Nat.compare_eq_gt]
  | unordered => cases b <;> simp [compare, Before, rank, Nat.compare_eq_gt]
  | otherwise => cases b <;> simp [compare, Before, rank, Nat.compare_eq_gt]

theorem not_before_self (a : Priority) : ¬ a.Before a := by
  cases a <;> simp [Before]

theorem not_before_trans {a b c : Priority} (hab : ¬ b.Before a) (hbc : ¬ c.Before b) :
    ¬ c.Before a := by
  cases a <;> cases b <;> cases c <;> simp_all [Before]
  exact hab.trans hbc

theorem not_before_total (a b : Priority) : ¬ b.Before a ∨ ¬ a.Before b := by
  cases a <;> cases b <;> simp [Before]
  exact (lt_or_ge _ _).imp_left le_of_lt

end Priority

section Order

variable {α : Type} (priority : α → Priority) (xs : List α)

/-- In the order in which they are tried: by priority, those of equal priority as declared. -/
def byPriority : List α := xs.mergeSort fun a b => ¬ (priority b).Before (priority a)

theorem byPriority_eq_stableSort :
    byPriority priority xs = stableSort (fun a b => (priority a).le (priority b)) xs := by
  have hle : (fun a b => decide (¬ (priority b).Before (priority a))) =
      fun a b => (priority a).le (priority b) := by
    funext a b
    rw [Bool.eq_iff_iff, decide_eq_true_eq, Priority.le_iff_not_before]
  rw [stableSort_eq_mergeSort, byPriority, hle]

theorem byPriority_perm : (byPriority priority xs).Perm xs := List.mergeSort_perm xs _

@[simp] theorem mem_byPriority {x : α} : x ∈ byPriority priority xs ↔ x ∈ xs :=
  (byPriority_perm priority xs).mem_iff

/-- `sorted` holds what was declared, by priority. What has the same priority is in the order in
which it was declared. -/
structure StablyOrdered (declared sorted : List α) : Prop where
  perm : sorted.Perm declared
  ordered : sorted.Pairwise fun a b => ¬ (priority b).Before (priority a)
  stable : ∀ k, sorted.filter (priority · = k) = declared.filter (priority · = k)

/-- Sorting by priority is stable. -/
theorem stablyOrdered_byPriority : StablyOrdered priority xs (byPriority priority xs) := by
  have htrans : ∀ a b c : α, decide (¬ (priority b).Before (priority a)) →
      decide (¬ (priority c).Before (priority b)) →
      decide (¬ (priority c).Before (priority a)) := by
    intro a b c hab hbc
    exact decide_eq_true (Priority.not_before_trans (of_decide_eq_true hab) (of_decide_eq_true hbc))
  have htotal : ∀ a b : α, decide (¬ (priority b).Before (priority a)) ||
      decide (¬ (priority a).Before (priority b)) := by
    intro a b
    rw [Bool.or_eq_true, decide_eq_true_eq, decide_eq_true_eq]
    exact Priority.not_before_total _ _
  have hperm := byPriority_perm priority xs
  refine ⟨hperm, ?_, fun k => ?_⟩
  · exact (List.pairwise_mergeSort htrans htotal xs).imp fun h => of_decide_eq_true h
  · -- What has the same priority is in order already, so sorting keeps it as it is.
    have hsame : (xs.filter (priority · = k)).Pairwise fun a b =>
        decide (¬ (priority b).Before (priority a)) := by
      refine List.pairwise_of_forall_mem_list fun a ha b hb => ?_
      have hak : priority a = k := by simpa using (List.mem_filter.1 ha).2
      have hbk : priority b = k := by simpa using (List.mem_filter.1 hb).2
      rw [hak, hbk]
      exact decide_eq_true k.not_before_self
    have hkept : (xs.filter (priority · = k)).Sublist (byPriority priority xs) :=
      List.sublist_mergeSort htrans htotal hsame List.filter_sublist
    have hfiltered := hkept.filter (priority · = k)
    rw [List.filter_filter] at hfiltered
    simp only [Bool.and_self] at hfiltered
    exact (hfiltered.eq_of_length (hperm.filter _).length_eq.symm).symm

end Order

end Statechart
