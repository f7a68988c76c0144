import Mathlib

/-! # Histograms of a list

The counts of a list of points in the buckets `0 … n-1` of a bucket function,
and their prefix sums: the sum of the first `j` counts is the number of points
in a bucket below `j`. Adding a point adds one to its bucket's count.
-/

namespace Hist

variable {α : Type} (f : α → ℕ) (n : ℕ)

/-- The number of points of `xs` in each bucket `b < n` under `f`. -/
def counts (xs : List α) : List ℕ := (List.range n).map fun b => xs.countP (f · = b)

variable {f n} {xs : List α}

@[simp]
theorem length_counts : (counts f n xs).length = n := by
  simp [counts]

theorem counts_nil : counts f n ([] : List α) = List.replicate n 0 := by
  simp [counts, List.map_const']

theorem getD_counts {b : ℕ} (hb : b < n) : (counts f n xs).getD b 0 = xs.countP (f · = b) := by
  simp [counts, List.getD_eq_getElem?_getD, hb]

theorem counts_append_singleton (x : α) :
    counts f n (xs ++ [x]) = (counts f n xs).modify (f x) (· + 1) := by
  apply List.ext_getElem (by simp)
  intro b hb _
  simp only [length_counts] at hb
  simp only [counts, List.getElem_modify, List.getElem_map, List.getElem_range,
    List.countP_append, List.countP_singleton]
  split_ifs <;> simp_all

theorem counts_take {j : ℕ} (hj : j ≤ n) : (counts f n xs).take j = counts f j xs := by
  simp [counts, ← List.map_take, List.take_range, Nat.min_eq_left hj]

theorem countP_lt_succ (xs : List α) (j : ℕ) :
    xs.countP (f · < j + 1) = xs.countP (f · < j) + xs.countP (f · = j) := by
  induction xs with
  | nil => rfl
  | cons x xs ih =>
    simp only [List.countP_cons, ih, decide_eq_true_eq]
    split_ifs <;> omega

theorem sum_counts (j : ℕ) : (counts f j xs).sum = xs.countP (f · < j) := by
  induction j with
  | zero => simp [counts]
  | succ j ih =>
    rw [counts, List.range_succ, List.map_append, List.sum_append, ← counts, ih,
      countP_lt_succ]
    simp

theorem sum_take_counts {j : ℕ} (hj : j ≤ n) :
    ((counts f n xs).take j).sum = xs.countP (f · < j) := by
  rw [counts_take hj, sum_counts]

theorem sum_counts_of_lt (h : ∀ x ∈ xs, f x < n) : (counts f n xs).sum = xs.length := by
  rw [sum_counts, List.countP_eq_length]
  simpa using h

end Hist
