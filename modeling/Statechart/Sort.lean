/-
  A stable sort that is quick and can also be evaluated inside a proof: halving with the length as a
  bound, merging by a fold over one list. `stableSort_eq_mergeSort` says that it is the sort of the
  core library, whose order, permutation and stability lemmas then apply.
-/

namespace Statechart

variable {α : Type} (le : α → α → Bool)

/-- Puts `x` after those entries at the head of the rest that come before it. -/
def mergeStep (state : Array α × List α) (x : α) : Array α × List α :=
  ((state.1 ++ state.2.takeWhile fun y => !le x y).push x, state.2.dropWhile fun y => !le x y)

/-- Merges two sorted lists; of equal entries those of `xs` come first. -/
def merge (xs ys : List α) : List α :=
  let state := xs.foldl (mergeStep le) (#[], ys)
  state.1.toList ++ state.2

/-- Sorts by halving, at most `n` times. -/
def sortWithin : Nat → List α → List α
  | 0, xs => xs
  | n + 1, xs =>
    let half := (xs.length + 1) / 2
    if xs.length ≤ 1 then xs
    else merge le (sortWithin n (xs.take half)) (sortWithin n (xs.drop half))

/-- Sorts; entries of which neither comes after the other keep their order. -/
def stableSort (xs : List α) : List α := sortWithin le xs.length xs

theorem foldl_mergeStep (xs ys : List α) (out : Array α) :
    (xs.foldl (mergeStep le) (out, ys)).1.toList ++ (xs.foldl (mergeStep le) (out, ys)).2 =
      out.toList ++ xs.merge ys le := by
  induction xs generalizing ys out with
  | nil => simp
  | cons x xs ih =>
    rw [List.foldl_cons, mergeStep, ih]
    simp only [Array.toList_push, Array.toList_appendList, List.append_assoc]
    congr 1
    induction ys with
    | nil => simp
    | cons y ys ihy =>
      rw [List.cons_merge_cons]
      cases h : le x y with
      | true => simp [h]
      | false => simpa [h] using ihy

theorem merge_eq (xs ys : List α) : merge le xs ys = xs.merge ys le := by
  simpa [merge] using foldl_mergeStep le xs ys #[]

theorem sortWithin_eq {n : Nat} {xs : List α} (h : xs.length ≤ n) :
    sortWithin le n xs = xs.mergeSort le := by
  induction n generalizing xs with
  | zero =>
    have hx : xs = [] := by simpa using h
    simp [hx, sortWithin]
  | succ n ih =>
    match xs, h with
    | [], _ => simp [sortWithin]
    | [x], _ => simp [sortWithin]
    | x :: y :: xs, h =>
      have hlen : ¬ (x :: y :: xs).length ≤ 1 := by simp
      rw [sortWithin, List.mergeSort]
      simp only [hlen, if_false, merge_eq, List.MergeSort.Internal.splitInTwo_fst,
        List.MergeSort.Internal.splitInTwo_snd]
      rw [ih (by simp only [List.length_take, List.length_cons] at *; omega),
        ih (by simp only [List.length_drop, List.length_cons] at *; omega)]

theorem stableSort_eq_mergeSort (xs : List α) : stableSort le xs = xs.mergeSort le :=
  sortWithin_eq le (Nat.le_refl _)

end Statechart
