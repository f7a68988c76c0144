import Aerospike.Lib.Scan

/-! # The rank of a map element in its value index

A map's value index lists its element indexes by value. `order_index_set_sorted`
builds it by sorting `0 … n - 1` with `qsort_r` and a comparator that returns
`0` for equal values, and `packed_map_find_rank_indexed` finds the rank of an
element by a binary search that, among equal values, steers by the element
index, going over to a linear scan below `LINEAR_FIND_RANK_MAX_COUNT`
candidates.

The search is exact when equal values stand in ascending index order. The C
library does not promise that order: `qsort_r` may leave elements that compare
equal in any order. On an index it may produce for sixteen equal values the
search reports the value found with the rank it was given, the element count.
-/

namespace Aerospike.Cdt

variable {κ ν : Type}

/-- The fields of `map_ele_find` the rank lookup reads and writes: whether the
value was found, the element's index and its rank. -/
structure MapRankFind where
  foundValue : Bool
  idx : ℕ
  rank : ℕ
deriving DecidableEq, Repr

def linearFindRankMaxCount : ℕ := 16

/-- `order_index_find_idx`: the first rank in `[start, start + len)` holding
`idx`, or `start + len`. -/
def orderIndexFindIdx (ordidx : List ℕ) (idx start len : ℕ) : ℕ :=
  Scan.findFrom (fun i => ordidx.getD i 0 == idx) start (start + len)

/-- `packed_map_find_rank_indexed_linear`: the rank of `find.idx` among
`[start, start + len)`, the find left as it was when it is not there. -/
def packedMapFindRankIndexedLinear (valueIdx : List ℕ) (find : MapRankFind) (start len : ℕ) : MapRankFind :=
  let rank := orderIndexFindIdx valueIdx find.idx start len
  if rank < start + len then { find with foundValue := true, rank := rank } else find

section Search

variable [LinearOrder κ] (valueAt : ℕ → κ) (valueIdx : List ℕ)

/-- How the search compares the element's value with the value of element
`idx`: equal values are ordered by index, and mark the value found. -/
def rankCompare (find : MapRankFind) (idx : ℕ) : Ordering × MapRankFind :=
  match compare (valueAt find.idx) (valueAt idx) with
  | .eq =>
    (if find.idx < idx then .lt else if find.idx > idx then .gt else .eq, { find with foundValue := true })
  | cmp => (cmp, find)

/-- The `while` loop of `packed_map_find_rank_indexed` on `[lower, upper)` with
the probe at `rank`, for at most `fuel` rounds. -/
def findRankLoop : ℕ → MapRankFind → ℕ → ℕ → ℕ → Option MapRankFind
  | 0, _, _, _, _ => none
  | fuel + 1, find, lower, upper, rank =>
    if upper - lower < linearFindRankMaxCount then
      some (packedMapFindRankIndexedLinear valueIdx find lower (upper - lower))
    else
      let idx := valueIdx.getD rank 0
      if find.idx = idx then some { find with foundValue := true, rank := rank }
      else
        match rankCompare valueAt find idx with
        | (.eq, find) => some { find with rank := rank }
        | (.gt, find) =>
          if rank ≥ upper - 1 then some { find with rank := rank + 1 }
          else findRankLoop fuel find (rank + 1) upper ((rank + upper) / 2)
        | (.lt, find) =>
          if rank = lower then some { find with rank := rank }
          else findRankLoop fuel find lower rank ((rank + lower) / 2)

/-- `packed_map_find_rank_indexed`: the rank of element `find.idx` in the value
index of a map of `eleCount` elements, whose value is `valueAt find.idx`. -/
def packedMapFindRankIndexed (eleCount : ℕ) (find : MapRankFind) : Option MapRankFind :=
  if eleCount = 0 then some find
  else if find.idx ≥ eleCount then some { find with foundValue := false }
  else findRankLoop valueAt valueIdx eleCount { find with foundValue := false } 0 eleCount (eleCount / 2)

end Search

/-! ### Building the index -/

/-- What `map_packer_fill_index_sort_compare` sorts by. -/
inductive SortBy
  | key
  | value
deriving DecidableEq, Repr

/-- `map_packer_fill_index_sort_compare` on elements `x` and `y`: by key, then
value, for `SORT_BY_KEY`; by value alone for `SORT_BY_VALUE`; equal elements
compare `0`. -/
def mapPackerFillIndexSortCompare [LinearOrder κ] [LinearOrder ν] (keyAt : ℕ → κ) (valueAt : ℕ → ν)
    (sortBy : SortBy) (x y : ℕ) : Ordering :=
  match sortBy with
  | .value => compare (valueAt x) (valueAt y)
  | .key =>
    match compare (keyAt x) (keyAt y) with
    | .eq => compare (valueAt x) (valueAt y)
    | cmp => cmp

/-- What `order_index_set_sorted` may leave: `0 … eleCount - 1` in an order
`qsort_r` may produce with comparator `cmp`, a permutation sorted by it; the C
library leaves the order of elements that compare equal unspecified. -/
def OrderIndexSetSorted (cmp : ℕ → ℕ → Ordering) (eleCount : ℕ) (ordidx : List ℕ) : Prop :=
  ordidx.Perm (List.range eleCount) ∧ ordidx.Pairwise fun x y => cmp x y ≠ .gt

instance (cmp : ℕ → ℕ → Ordering) (eleCount : ℕ) (ordidx : List ℕ) :
    Decidable (OrderIndexSetSorted cmp eleCount ordidx) :=
  inferInstanceAs (Decidable (_ ∧ _))

/-- A value index whose equal values stand in ascending index order: it lists
the elements by value, then index. -/
def ValueIndexOrdered [LinearOrder κ] (valueAt : ℕ → κ) (ordidx : List ℕ) : Prop :=
  ordidx.Pairwise fun x y => valueAt x < valueAt y ∨ (valueAt x = valueAt y ∧ x < y)

instance [LinearOrder κ] (valueAt : ℕ → κ) (ordidx : List ℕ) : Decidable (ValueIndexOrdered valueAt ordidx) :=
  inferInstanceAs (Decidable (List.Pairwise _ _))

/-! ### One round of the search -/

section Round

variable [LinearOrder κ] (valueAt : ℕ → κ) (valueIdx : List ℕ) {fuel lower upper rank : ℕ}
  {find : MapRankFind}

theorem idx_rankCompare (find : MapRankFind) (idx : ℕ) : (rankCompare valueAt find idx).2.idx = find.idx := by
  unfold rankCompare
  split <;> rfl

theorem findRankLoop_linear (h : upper - lower < linearFindRankMaxCount) :
    findRankLoop valueAt valueIdx (fuel + 1) find lower upper rank =
      some (packedMapFindRankIndexedLinear valueIdx find lower (upper - lower)) := by
  rw [findRankLoop, if_pos h]

theorem findRankLoop_hit (h : ¬upper - lower < linearFindRankMaxCount) (hj : find.idx = valueIdx.getD rank 0) :
    findRankLoop valueAt valueIdx (fuel + 1) find lower upper rank =
      some { find with foundValue := true, rank := rank } := by
  rw [findRankLoop, if_neg h]
  dsimp only
  rw [if_pos hj]

theorem findRankLoop_up (h : ¬upper - lower < linearFindRankMaxCount) (hj : find.idx ≠ valueIdx.getD rank 0)
    {find' : MapRankFind} (hc : rankCompare valueAt find (valueIdx.getD rank 0) = (.gt, find'))
    (hlast : ¬rank ≥ upper - 1) :
    findRankLoop valueAt valueIdx (fuel + 1) find lower upper rank =
      findRankLoop valueAt valueIdx fuel find' (rank + 1) upper ((rank + upper) / 2) := by
  rw [findRankLoop, if_neg h]
  dsimp only
  rw [if_neg hj, hc]
  dsimp only
  rw [if_neg hlast]

theorem findRankLoop_down (h : ¬upper - lower < linearFindRankMaxCount) (hj : find.idx ≠ valueIdx.getD rank 0)
    {find' : MapRankFind} (hc : rankCompare valueAt find (valueIdx.getD rank 0) = (.lt, find'))
    (hfirst : rank ≠ lower) :
    findRankLoop valueAt valueIdx (fuel + 1) find lower upper rank =
      findRankLoop valueAt valueIdx fuel find' lower rank ((rank + lower) / 2) := by
  rw [findRankLoop, if_neg h]
  dsimp only
  rw [if_neg hj, hc]
  dsimp only
  rw [if_neg hfirst]

end Round

/-! ### The search on an ordered index -/

section Exact

variable [LinearOrder κ] {valueAt : ℕ → κ} {valueIdx : List ℕ}

theorem rankCompare_of_lt (hord : ValueIndexOrdered valueAt valueIdx) {r q : ℕ} (hr : r < valueIdx.length)
    (hq : q < valueIdx.length) (hrq : q < r) (find : MapRankFind) (hfind : find.idx = valueIdx[r]) :
    (rankCompare valueAt find valueIdx[q]).1 = .gt := by
  rcases List.pairwise_iff_getElem.mp hord q r hq hr hrq with hlt | ⟨heq, hlt⟩
  · rw [rankCompare, hfind, compare_gt_iff_gt.mpr hlt]
  · rw [rankCompare, hfind, heq, compare_eq_iff_eq.mpr rfl]
    simp [hlt, Nat.not_lt_of_gt hlt]

theorem rankCompare_of_gt (hord : ValueIndexOrdered valueAt valueIdx) {r q : ℕ} (hr : r < valueIdx.length)
    (hq : q < valueIdx.length) (hrq : r < q) (find : MapRankFind) (hfind : find.idx = valueIdx[r]) :
    (rankCompare valueAt find valueIdx[q]).1 = .lt := by
  rcases List.pairwise_iff_getElem.mp hord r q hr hq hrq with hlt | ⟨heq, hlt⟩
  · rw [rankCompare, hfind, compare_lt_iff_lt.mpr hlt]
  · rw [rankCompare, hfind, heq, compare_eq_iff_eq.mpr rfl]
    simp [hlt]

theorem packedMapFindRankIndexedLinear_exact (hnd : valueIdx.Nodup) {r : ℕ} (hr : r < valueIdx.length)
    {find : MapRankFind} (hfind : find.idx = valueIdx[r]) {lower upper : ℕ} (h1 : lower ≤ r) (h2 : r < upper) :
    packedMapFindRankIndexedLinear valueIdx find lower (upper - lower) = ⟨true, valueIdx[r], r⟩ := by
  have hscan : orderIndexFindIdx valueIdx find.idx lower (upper - lower) = r := by
    refine Scan.findFrom_eq_of h1 (by omega) (fun j hj hjr => ?_) fun _ => ?_
    · by_cases hjn : j < valueIdx.length
      · rw [List.getD_eq_getElem?_getD, List.getElem?_eq_getElem hjn, Option.getD_some, hfind]
        exact beq_false_of_ne fun heq => Nat.ne_of_lt hjr ((hnd.getElem_inj_iff).mp heq)
      · omega
    · rw [List.getD_eq_getElem?_getD, List.getElem?_eq_getElem hr, Option.getD_some, hfind, beq_self_eq_true]
  rw [packedMapFindRankIndexedLinear, hscan, if_pos (by omega), ← hfind]

theorem findRankLoop_exact (hnd : valueIdx.Nodup) (hord : ValueIndexOrdered valueAt valueIdx) {r : ℕ}
    (hr : r < valueIdx.length) :
    ∀ (fuel : ℕ) (find : MapRankFind) (lower upper rank : ℕ), find.idx = valueIdx[r] →
      lower ≤ r → r < upper → lower ≤ rank → rank < upper → upper ≤ valueIdx.length → upper - lower ≤ fuel →
      findRankLoop valueAt valueIdx fuel find lower upper rank = some ⟨true, valueIdx[r], r⟩
  | 0, _, _, _, _, _, h1, h2, _, _, _, hfuel => absurd hfuel (by omega)
  | fuel + 1, find, lower, upper, rank, hfind, h1, h2, h3, h4, h5, hfuel => by
    by_cases hlin : upper - lower < linearFindRankMaxCount
    · rw [findRankLoop_linear _ _ hlin, packedMapFindRankIndexedLinear_exact hnd hr hfind h1 h2]
    have hq : rank < valueIdx.length := by omega
    have hget : valueIdx.getD rank 0 = valueIdx[rank] := by
      rw [List.getD_eq_getElem?_getD, List.getElem?_eq_getElem hq, Option.getD_some]
    by_cases hj : find.idx = valueIdx[rank]
    · have hrank : rank = r := (hnd.getElem_inj_iff).mp (hj.symm.trans hfind)
      subst hrank
      rw [findRankLoop_hit _ _ hlin (hget ▸ hj), ← hfind]
    rcases Nat.lt_or_gt_of_ne (fun h : rank = r => hj (by subst h; exact hfind)) with hlt | hgt
    · have hc : rankCompare valueAt find (valueIdx.getD rank 0) =
          (.gt, (rankCompare valueAt find (valueIdx.getD rank 0)).2) :=
        Prod.ext (by rw [hget]; exact rankCompare_of_lt hord hr hq hlt find hfind) rfl
      rw [findRankLoop_up _ _ hlin (hget ▸ hj) hc (by omega)]
      exact findRankLoop_exact hnd hord hr fuel _ (rank + 1) upper ((rank + upper) / 2)
        (by rw [idx_rankCompare, hfind]) (by omega) h2 (by omega) (by omega) h5 (by omega)
    · have hc : rankCompare valueAt find (valueIdx.getD rank 0) =
          (.lt, (rankCompare valueAt find (valueIdx.getD rank 0)).2) :=
        Prod.ext (by rw [hget]; exact rankCompare_of_gt hord hr hq hgt find hfind) rfl
      rw [findRankLoop_down _ _ hlin (hget ▸ hj) hc (by omega)]
      exact findRankLoop_exact hnd hord hr fuel _ lower rank ((rank + lower) / 2)
        (by rw [idx_rankCompare, hfind]) h1 hgt (by omega) (by omega) (by omega) (by omega)

theorem packedMapFindRankIndexed_exact {n : ℕ} (hperm : valueIdx.Perm (List.range n))
    (hord : ValueIndexOrdered valueAt valueIdx) (find : MapRankFind) (hidx : find.idx < n) :
    ∃ (r : ℕ) (hr : r < valueIdx.length), valueIdx[r] = find.idx ∧
      packedMapFindRankIndexed valueAt valueIdx n find = some ⟨true, find.idx, r⟩ := by
  have hnd : valueIdx.Nodup := hperm.nodup_iff.mpr List.nodup_range
  have hlen : valueIdx.length = n := by rw [hperm.length_eq, List.length_range]
  obtain ⟨r, hr, hget⟩ := List.getElem_of_mem (hperm.mem_iff.mpr (List.mem_range.mpr hidx))
  refine ⟨r, hr, hget, ?_⟩
  rw [packedMapFindRankIndexed, if_neg (by omega), if_neg (by omega), ← hget]
  exact findRankLoop_exact hnd hord hr n _ 0 n (n / 2) rfl (Nat.zero_le r) (by omega) (Nat.zero_le _)
    (by omega) (by omega) (by omega)

end Exact

/-! ### Sixteen equal values -/

def sixteenEqual (_ : ℕ) : ℕ := 0

/-- A value index of the sixteen elements with the ties in descending index
order. -/
def descendingTies : List ℕ := (List.range 16).reverse

/-- `qsort_r` may sort the sixteen equal values of a map in descending index
order; on that value index `packed_map_find_rank_indexed`, looking for element
`0` with the rank `map_ele_find_init` gave it, reports the value found at rank
`16`, one past the last. -/
theorem find_rank_indexed_unstable_sort_misses :
    OrderIndexSetSorted (mapPackerFillIndexSortCompare id sixteenEqual .value) 16 descendingTies ∧
      ¬ValueIndexOrdered sixteenEqual descendingTies ∧
      packedMapFindRankIndexed sixteenEqual descendingTies 16 ⟨false, 0, 16⟩ = some ⟨true, 0, 16⟩ := by
  refine ⟨by decide, by decide, ?_⟩
  have hc : rankCompare sixteenEqual ⟨false, 0, 16⟩ (descendingTies.getD 8 0) = (.lt, ⟨true, 0, 16⟩) := by
    decide
  have hscan : orderIndexFindIdx descendingTies 0 0 (8 - 0) = 8 :=
    Scan.findFrom_eq_of (Nat.zero_le 8) (Nat.le_refl 8) (fun j _ hj => by
      have : ∀ j < 8, (descendingTies.getD j 0 == 0) = false := by decide
      exact this j hj) (fun h => absurd h (Nat.lt_irrefl 8))
  rw [packedMapFindRankIndexed, if_neg (by decide), if_neg (by decide)]
  rw [findRankLoop_down _ _ (by decide) (by decide) hc (by decide),
    findRankLoop_linear _ _ (by decide), packedMapFindRankIndexedLinear]
  dsimp only
  rw [hscan, if_neg (Nat.lt_irrefl 8)]

end Aerospike.Cdt
