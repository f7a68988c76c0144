import Aerospike.Lib.BinHeap
import Aerospike.Cdt.IndexSearch

/-! # Order heaps and the partial select by rank range

An `order_heap` (`cdt.c`) is an order index used as a binary heap of element
indexes: a min-heap when `cmp` is `MSGPACK_COMPARE_LESS`, a max-heap when it is
`MSGPACK_COMPARE_GREATER`. `order_heap_init_build_by_range` picks the shorter
side of the rank range `[idx, idx + count)`, builds the whole heap, and pops
`count` plus that side's length to the end of the array. The range's elements
then sit at `[filled, filled + count)`: in decreasing rank for a min-heap and
in increasing rank for a max-heap. The callers reverse a min-heap's positions
with `order_heap_reverse_end`; reversing a max-heap's would leave them in
decreasing rank. Child indexes are `uint32_t` sums, so the proofs keep
`ele_count` at most `2^31`; over `2^31 + 1` elements `2 * index + 1` wraps, and
the first sift of `order_heap_build` can go round forever.
-/

namespace Aerospike.Cdt

open BinHeap

/-- `order_heap`: the order index's entries by position, its `ele_count`, the
number of entries in the heap, and the heap's direction. -/
structure OrderHeap where
  entries : ℕ → ℕ
  eleCount : UInt32
  filled : UInt32
  cmp : MsgpackCompare

def orderHeapGet (heap : OrderHeap) (index : UInt32) : ℕ := heap.entries index.toNat

def orderHeapSet (heap : OrderHeap) (index : UInt32) (value : ℕ) : OrderHeap :=
  { heap with entries := Function.update heap.entries index.toNat value }

def orderHeapSwap (heap : OrderHeap) (index1 index2 : UInt32) : OrderHeap :=
  let temp := orderHeapGet heap index1
  orderHeapSet (orderHeapSet heap index1 (orderHeapGet heap index2)) index2 temp

/-- The child `order_heap_heapify` compares with `index`, whose first child is
in the heap: the first unless the second is in the heap and `cmp_fn` puts the
first after it; `none` for a `MSGPACK_COMPARE_ERROR`. -/
def heapifyChild (cmpFn : ℕ → ℕ → MsgpackCompare) (heap : OrderHeap) (index : UInt32) :
    Option UInt32 :=
  let child1 := 2 * index + 1
  let child2 := 2 * index + 2
  if child2 ≥ heap.filled then some child1
  else
    let cmp := cmpFn (orderHeapGet heap child1) (orderHeapGet heap child2)
    if cmp = .error then none
    else if cmp = heap.cmp ∨ cmp = .equal then some child1
    else some child2

/-- The `while (true)` loop of `order_heap_heapify` from `index`, for at most
`fuel` rounds: whether no comparison failed, and the heap as left; `none` when
the rounds run out. -/
def heapifyLoop (cmpFn : ℕ → ℕ → MsgpackCompare) : ℕ → OrderHeap → UInt32 → Option (Bool × OrderHeap)
  | 0, _, _ => none
  | fuel + 1, heap, index =>
    if 2 * index + 1 ≥ heap.filled then some (true, heap)
    else
      match heapifyChild cmpFn heap index with
      | none => some (false, heap)
      | some child =>
        let cmp := cmpFn (orderHeapGet heap child) (orderHeapGet heap index)
        if cmp = .error then some (false, heap)
        else if cmp = heap.cmp then heapifyLoop cmpFn fuel (orderHeapSwap heap index child) child
        else some (true, heap)

/-- `order_heap_heapify`, given `filled + 1` rounds: the index grows each round
and stays in the heap while child indexes do not wrap. -/
def orderHeapHeapify (cmpFn : ℕ → ℕ → MsgpackCompare) (heap : OrderHeap) (index : UInt32) :
    Option (Bool × OrderHeap) :=
  heapifyLoop cmpFn (heap.filled.toNat + 1) heap index

def orderHeapReplaceTop (cmpFn : ℕ → ℕ → MsgpackCompare) (heap : OrderHeap) (value : ℕ) :
    Option (Bool × OrderHeap) :=
  orderHeapHeapify cmpFn (orderHeapSet heap 0 value) 0

def orderHeapRemoveTop (cmpFn : ℕ → ℕ → MsgpackCompare) (heap : OrderHeap) :
    Option (Bool × OrderHeap) :=
  if heap.filled = 0 then some (true, heap)
  else
    let index := orderHeapGet heap (heap.filled - 1)
    orderHeapReplaceTop cmpFn { heap with filled := heap.filled - 1 } index

/-- The `init` loop of `order_heap_build`: entry `i` set to `i` for `i < k`. -/
def buildInitLoop : ℕ → OrderHeap → OrderHeap
  | 0, heap => heap
  | i + 1, heap => orderHeapSet (buildInitLoop i heap) i.toUInt32 i

/-- The sifting loop of `order_heap_build`: `order_heap_heapify` at `i - 1`,
…, `0`, stopping at the first failure. -/
def buildHeapifyLoop (cmpFn : ℕ → ℕ → MsgpackCompare) : ℕ → OrderHeap → Option (Bool × OrderHeap)
  | 0, heap => some (true, heap)
  | i + 1, heap =>
    match orderHeapHeapify cmpFn heap i.toUInt32 with
    | none => none
    | some (false, heap) => some (false, heap)
    | some (true, heap) => buildHeapifyLoop cmpFn i heap

/-- `order_heap_build`: the loop from `start = filled / 2 - 1` down to `0`
makes `filled / 2` rounds. -/
def orderHeapBuild (cmpFn : ℕ → ℕ → MsgpackCompare) (heap : OrderHeap) (init : Bool) :
    Option (Bool × OrderHeap) :=
  let heap := if init then buildInitLoop heap.eleCount.toNat { heap with filled := heap.eleCount }
    else heap
  buildHeapifyLoop cmpFn (heap.filled.toNat / 2) heap

/-- The loop of `order_heap_order_at_end` with `k` rounds left: the root's
value goes to `end_index` once `order_heap_remove_top` has taken it off. -/
def orderAtEndLoop (cmpFn : ℕ → ℕ → MsgpackCompare) :
    ℕ → OrderHeap → UInt32 → Option (Bool × OrderHeap × UInt32)
  | 0, heap, endIndex => some (true, heap, endIndex)
  | k + 1, heap, endIndex =>
    let value := orderHeapGet heap 0
    match orderHeapRemoveTop cmpFn heap with
    | none => none
    | some (false, heap) => some (false, heap, endIndex)
    | some (true, heap) => orderAtEndLoop cmpFn k (orderHeapSet heap endIndex value) (endIndex - 1)

/-- `order_heap_order_at_end`; a failed `cf_assert` is `none`. -/
def orderHeapOrderAtEnd (cmpFn : ℕ → ℕ → MsgpackCompare) (heap : OrderHeap) (count : UInt32) :
    Option (Bool × OrderHeap) :=
  match orderAtEndLoop cmpFn count.toNat heap (heap.filled - 1) with
  | none => none
  | some (false, heap, _) => some (false, heap)
  | some (true, heap, endIndex) =>
    if heap.filled = endIndex + 1 then some (true, { heap with filled := endIndex + 1 }) else none

/-- The loop of `order_heap_reverse_end` from `i` while `i < stop`, with at
most `k` rounds left. -/
def reverseEndLoop (stop : UInt32) : ℕ → OrderHeap → UInt32 → UInt32 → OrderHeap
  | 0, heap, _, _ => heap
  | k + 1, heap, i, endIndex =>
    if i < stop then
      let left := orderHeapGet heap i
      let right := orderHeapGet heap endIndex
      reverseEndLoop stop k (orderHeapSet (orderHeapSet heap endIndex left) i right) (i + 1)
        (endIndex - 1)
    else heap

/-- `order_heap_reverse_end`: `i` climbs from `start` to `stop`, so the loop
makes `stop - start` rounds. -/
def orderHeapReverseEnd (heap : OrderHeap) (count : UInt32) : OrderHeap :=
  let start := heap.filled
  let endIndex := start + count
  let stop := (start + endIndex) / 2
  reverseEndLoop stop (stop.toNat - start.toNat) heap start (endIndex - 1)

/-- `order_heap_init_build_by_range` on the order heap memory `heapMem`: the
result of `order_heap_build` is not checked. -/
def orderHeapInitBuildByRange (cmpFn : ℕ → ℕ → MsgpackCompare) (heapMem : ℕ → ℕ)
    (idx count eleCount : UInt32) : Option (Bool × OrderHeap) :=
  let tailDistance := eleCount - idx - count
  let cmp := if idx ≤ tailDistance then MsgpackCompare.less else .greater
  let discard := if idx ≤ tailDistance then idx else tailDistance
  match orderHeapBuild cmpFn ⟨heapMem, eleCount, 0, cmp⟩ true with
  | none => none
  | some (_, heap) => orderHeapOrderAtEnd cmpFn heap (count + discard)

/-! ### The heap's direction as a key -/

/-- `cmp_fn` compares element indexes by `key`, as `as_unpack_compare` compares
values. -/
def ComparesByKey {κ : Type} [LE κ] [DecidableLE κ] (cmpFn : ℕ → ℕ → MsgpackCompare)
    (key : ℕ → κ) : Prop :=
  ∀ a b, cmpFn a b = msgpackCompareOf (key a) (key b)

section Oriented

variable {β κ : Type} [Preorder β] [DecidableLE β] [Preorder κ] [DecidableLE κ]
  {cmpFn : ℕ → ℕ → MsgpackCompare}

/-- `cmp_fn` read in the heap's direction `cmp` as the key `hkey`: `cmp` says
that the second's key is not at most the first's, `cmp` or `EQUAL` that the
first's is at most the second's, and no comparison fails. -/
structure Oriented (cmpFn : ℕ → ℕ → MsgpackCompare) (cmp : MsgpackCompare) (hkey : ℕ → β) :
    Prop where
  ne_error : ∀ a b, cmpFn a b ≠ .error
  eq_cmp_iff : ∀ a b, cmpFn a b = cmp ↔ ¬ hkey b ≤ hkey a
  eq_cmp_or_equal_iff : ∀ a b, cmpFn a b = cmp ∨ cmpFn a b = .equal ↔ hkey a ≤ hkey b

variable {x y : κ}

theorem msgpackCompareOf_ne_error : msgpackCompareOf x y ≠ .error := by
  unfold msgpackCompareOf
  split_ifs <;> simp

theorem msgpackCompareOf_eq_greater_iff : msgpackCompareOf x y = .greater ↔ ¬ x ≤ y := by
  unfold msgpackCompareOf
  by_cases hxy : x ≤ y <;> by_cases hyx : y ≤ x <;> simp [hxy, hyx]

theorem msgpackCompareOf_eq_less_or_equal_iff :
    msgpackCompareOf x y = .less ∨ msgpackCompareOf x y = .equal ↔ x ≤ y := by
  unfold msgpackCompareOf
  by_cases hxy : x ≤ y <;> by_cases hyx : y ≤ x <;> simp [hxy, hyx]

variable (total : ∀ a b : κ, a ≤ b ∨ b ≤ a) {key : ℕ → κ}
include total

theorem msgpackCompareOf_eq_less_iff : msgpackCompareOf x y = .less ↔ ¬ y ≤ x := by
  unfold msgpackCompareOf
  rcases total x y with hxy | hyx
  · by_cases hyx : y ≤ x <;> simp [hxy, hyx]
  · by_cases hxy : x ≤ y <;> simp [hxy, hyx]

theorem msgpackCompareOf_eq_greater_or_equal_iff :
    msgpackCompareOf x y = .greater ∨ msgpackCompareOf x y = .equal ↔ y ≤ x := by
  unfold msgpackCompareOf
  rcases total x y with hxy | hyx
  · by_cases hyx : y ≤ x <;> simp [hxy, hyx]
  · by_cases hxy : x ≤ y <;> simp [hxy, hyx]

theorem ComparesByKey.oriented_less (hcmp : ComparesByKey cmpFn key) :
    Oriented cmpFn .less key where
  ne_error a b := by
    rw [hcmp a b]
    exact msgpackCompareOf_ne_error
  eq_cmp_iff a b := by
    rw [hcmp a b]
    exact msgpackCompareOf_eq_less_iff total
  eq_cmp_or_equal_iff a b := by
    rw [hcmp a b]
    exact msgpackCompareOf_eq_less_or_equal_iff

theorem ComparesByKey.oriented_greater (hcmp : ComparesByKey cmpFn key) :
    Oriented cmpFn .greater (fun a => OrderDual.toDual (key a)) where
  ne_error a b := by
    rw [hcmp a b]
    exact msgpackCompareOf_ne_error
  eq_cmp_iff a b := by
    rw [hcmp a b, OrderDual.toDual_le_toDual]
    exact msgpackCompareOf_eq_greater_iff
  eq_cmp_or_equal_iff a b := by
    rw [hcmp a b, OrderDual.toDual_le_toDual]
    exact msgpackCompareOf_eq_greater_or_equal_iff total

end Oriented

/-! ### `order_heap_heapify` sifts down -/

section Heapify

variable {β : Type} [Preorder β] [DecidableLE β] {cmpFn : ℕ → ℕ → MsgpackCompare} {hkey : ℕ → β}

theorem orderHeapSwap_eq (heap : OrderHeap) (i j : UInt32) :
    orderHeapSwap heap i j = { heap with entries := swapAt heap.entries i.toNat j.toNat } := rfl

theorem toNat_two_mul_add {index : UInt32} {c : ℕ} (hc : c ≤ 2) (h : 2 * index.toNat + c < 2 ^ 32) :
    (2 * index + c.toUInt32).toNat = 2 * index.toNat + c := by
  simp only [UInt32.toNat_add, UInt32.toNat_mul, Nat.toUInt32_eq, UInt32.toNat_ofNat']
  have h2 : (2 : UInt32).toNat = 2 := rfl
  rw [h2]
  omega

theorem heapifyChild_eq {heap : OrderHeap} (ho : Oriented cmpFn heap.cmp hkey)
    (hn : heap.filled.toNat ≤ 2 ^ 31) {index : UInt32}
    (h1 : 2 * index.toNat + 1 < heap.filled.toNat) :
    ∃ child : UInt32, heapifyChild cmpFn heap index = some child ∧
      child.toNat = minChild hkey heap.entries heap.filled.toNat index.toNat := by
  have hc1 : (2 * index + 1).toNat = 2 * index.toNat + 1 :=
    toNat_two_mul_add (c := 1) (by omega) (by omega)
  have hc2 : (2 * index + 2).toNat = 2 * index.toNat + 2 :=
    toNat_two_mul_add (c := 2) le_rfl (by omega)
  unfold heapifyChild minChild
  simp only [ge_iff_le, UInt32.le_iff_toNat_le, hc2, orderHeapGet, hc1]
  by_cases h2 : heap.filled.toNat ≤ 2 * index.toNat + 2
  · rw [if_pos h2, if_neg (by omega)]
    exact ⟨_, rfl, hc1⟩
  · rw [if_neg h2, if_neg (ho.ne_error _ _)]
    by_cases hle : hkey (heap.entries (2 * index.toNat + 1)) ≤ hkey (heap.entries (2 * index.toNat + 2))
    · rw [if_pos ((ho.eq_cmp_or_equal_iff _ _).mpr hle), if_neg (fun h => h.2 hle)]
      exact ⟨_, rfl, hc1⟩
    · rw [if_neg (mt (ho.eq_cmp_or_equal_iff _ _).mp hle), if_pos ⟨by omega, hle⟩]
      exact ⟨_, rfl, hc2⟩

theorem heapifyLoop_eq : ∀ (fuel : ℕ) (heap : OrderHeap) (index : UInt32),
    Oriented cmpFn heap.cmp hkey → heap.filled.toNat ≤ 2 ^ 31 → index.toNat < 2 ^ 31 →
    heap.filled.toNat - index.toNat < fuel →
    heapifyLoop cmpFn fuel heap index =
      some (true, { heap with entries := siftDown hkey heap.entries heap.filled.toNat index.toNat })
  | 0, _, _, _, _, _, hfuel => absurd hfuel (Nat.not_lt_zero _)
  | fuel + 1, heap, index, ho, hn, hi, hfuel => by
    have hc1 : (2 * index + 1).toNat = 2 * index.toNat + 1 :=
      toNat_two_mul_add (c := 1) (by omega) (by omega)
    rw [heapifyLoop]
    by_cases h1 : 2 * index.toNat + 1 < heap.filled.toNat
    · rw [if_neg (by rw [ge_iff_le, UInt32.le_iff_toNat_le, hc1]; omega)]
      obtain ⟨child, hchild, hct⟩ := heapifyChild_eq ho hn h1
      have hm := minChild_lt hkey (f := heap.entries) h1
      have hlt := (minChild_isChild hkey heap.entries heap.filled.toNat index.toNat).lt
      simp only [hchild, orderHeapGet, hct, if_neg (ho.ne_error _ _)]
      by_cases hsw : hkey (heap.entries index.toNat) ≤
          hkey (heap.entries (minChild hkey heap.entries heap.filled.toNat index.toNat))
      · rw [if_neg (mt (ho.eq_cmp_iff _ _).mp (not_not.mpr hsw)), siftDown_of_le hkey fun _ => hsw]
      · rw [if_pos ((ho.eq_cmp_iff _ _).mpr hsw), siftDown_of_lt hkey h1 hsw, orderHeapSwap_eq,
          heapifyLoop_eq fuel { heap with entries := swapAt heap.entries index.toNat child.toNat } child
            ho hn (by omega) (show heap.filled.toNat - child.toNat < fuel by omega), hct]
    · rw [if_pos (by rw [ge_iff_le, UInt32.le_iff_toNat_le, hc1]; omega),
        siftDown_of_le hkey fun h => absurd h h1]

theorem orderHeapHeapify_eq {heap : OrderHeap} (ho : Oriented cmpFn heap.cmp hkey)
    (hn : heap.filled.toNat ≤ 2 ^ 31) {index : UInt32} (hi : index.toNat < 2 ^ 31) :
    orderHeapHeapify cmpFn heap index =
      some (true, { heap with entries := siftDown hkey heap.entries heap.filled.toNat index.toNat }) :=
  heapifyLoop_eq _ heap index ho hn hi (by omega)

end Heapify

/-! ### Building the heap and taking roots off -/

section Select

variable {β : Type} [Preorder β] [DecidableLE β] {cmpFn : ℕ → ℕ → MsgpackCompare} {hkey : ℕ → β}

theorem toNat_toUInt32_eq {x : ℕ} (h : x < 2 ^ 32) : x.toUInt32.toNat = x := by
  simp only [Nat.toUInt32_eq, UInt32.toNat_ofNat']
  omega

theorem toNat_sub_one {a : UInt32} (h : 0 < a.toNat) : (a - 1).toNat = a.toNat - 1 := by
  rw [UInt32.toNat_sub_of_le _ _ (UInt32.le_iff_toNat_le.mpr (by rw [UInt32.toNat_one]; omega))]
  rfl

theorem buildInitLoop_eq (heap : OrderHeap) : ∀ {k : ℕ}, k ≤ 2 ^ 32 →
    buildInitLoop k heap = { heap with entries := fun x => if x < k then x else heap.entries x }
  | 0, _ => by simp [buildInitLoop]
  | k + 1, hk => by
    rw [buildInitLoop, buildInitLoop_eq heap (by omega), orderHeapSet, toNat_toUInt32_eq (by omega)]
    congr 1
    funext x
    dsimp only
    rw [Function.update_apply]
    split_ifs <;> first | rfl | omega

theorem orderHeapRemoveTop_eq {heap : OrderHeap} (ho : Oriented cmpFn heap.cmp hkey)
    (hn : heap.filled.toNat ≤ 2 ^ 31) (hpos : 0 < heap.filled.toNat) :
    orderHeapRemoveTop cmpFn heap = some (true,
      { heap with
        filled := heap.filled - 1
        entries := siftDown hkey (Function.update heap.entries 0 (heap.entries (heap.filled.toNat - 1)))
          (heap.filled.toNat - 1) 0 }) := by
  have hf := toNat_sub_one hpos
  have hne : heap.filled ≠ 0 := fun h => by simp [h] at hpos
  rw [orderHeapRemoveTop, if_neg hne]
  simp only [orderHeapReplaceTop, orderHeapGet, hf]
  refine (orderHeapHeapify_eq (?_ : Oriented cmpFn _ hkey) ?_ ?_).trans ?_
  · exact ho
  · simp only [orderHeapSet]
    omega
  · decide
  · simp [orderHeapSet, hf]

theorem orderAtEndLoop_eq : ∀ (k : ℕ) (heap : OrderHeap) (endIndex : UInt32),
    Oriented cmpFn heap.cmp hkey → heap.filled.toNat ≤ 2 ^ 31 → k ≤ heap.filled.toNat →
    endIndex = heap.filled - 1 →
    orderAtEndLoop cmpFn k heap endIndex =
      some (true,
        { heap with
          filled := (heap.filled.toNat - k).toUInt32
          entries := popToEnd hkey heap.entries heap.filled.toNat k },
        (heap.filled.toNat - k).toUInt32 - 1)
  | 0, heap, endIndex, _, _, _, he => by
    simp [orderAtEndLoop, popToEnd, he, UInt32.ofNat_toNat]
  | k + 1, heap, endIndex, ho, hn, hk, he => by
    have hpos : 0 < heap.filled.toNat := by omega
    have hf := toNat_sub_one hpos
    rw [orderAtEndLoop]
    simp only [orderHeapGet, UInt32.toNat_zero]
    rw [orderHeapRemoveTop_eq ho hn hpos]
    simp only
    refine (orderAtEndLoop_eq k _ _ (?_ : Oriented cmpFn _ hkey) ?_ ?_ ?_).trans ?_
    · exact ho
    · simp only [orderHeapSet]
      omega
    · simp only [orderHeapSet]
      omega
    · simp only [orderHeapSet, he]
    simp only [orderHeapSet, he, hf, popToEnd, popRoot, show heap.filled.toNat - 1 - k =
      heap.filled.toNat - (k + 1) by omega]

theorem orderHeapOrderAtEnd_eq {heap : OrderHeap} (ho : Oriented cmpFn heap.cmp hkey)
    (hn : heap.filled.toNat ≤ 2 ^ 31) {count : UInt32} (hk : count.toNat ≤ heap.filled.toNat) :
    orderHeapOrderAtEnd cmpFn heap count = some (true,
      { heap with
        filled := (heap.filled.toNat - count.toNat).toUInt32
        entries := popToEnd hkey heap.entries heap.filled.toNat count.toNat }) := by
  rw [orderHeapOrderAtEnd, orderAtEndLoop_eq _ heap _ ho hn hk rfl]
  simp only [UInt32.sub_add_cancel, if_true]

theorem buildHeapifyLoop_eq : ∀ (i : ℕ) (heap : OrderHeap), Oriented cmpFn heap.cmp hkey →
    heap.filled.toNat ≤ 2 ^ 31 → i ≤ 2 ^ 31 →
    buildHeapifyLoop cmpFn i heap =
      some (true, { heap with entries := build hkey heap.entries heap.filled.toNat i })
  | 0, heap, _, _, _ => by simp [buildHeapifyLoop, build]
  | i + 1, heap, ho, hn, hi => by
    have hit : i.toUInt32.toNat = i := toNat_toUInt32_eq (by omega)
    rw [buildHeapifyLoop, orderHeapHeapify_eq ho hn (by omega)]
    simp only [hit]
    rw [buildHeapifyLoop_eq i { heap with entries := siftDown hkey heap.entries heap.filled.toNat i }
      ho hn (by omega)]
    rfl

theorem orderHeapBuild_eq {heap : OrderHeap} (ho : Oriented cmpFn heap.cmp hkey)
    (hn : heap.eleCount.toNat ≤ 2 ^ 31) :
    orderHeapBuild cmpFn heap true = some (true,
      { heap with
        filled := heap.eleCount
        entries := build hkey (fun x => if x < heap.eleCount.toNat then x else heap.entries x)
          heap.eleCount.toNat (heap.eleCount.toNat / 2) }) := by
  rw [orderHeapBuild, if_pos rfl, buildInitLoop_eq _ (by omega)]
  exact buildHeapifyLoop_eq _ _ ho hn (show heap.eleCount.toNat / 2 ≤ 2 ^ 31 by omega)

/-- Built from the entries `0, 1, …, n - 1` and with `k` roots taken off, the
array read from `n - 1` down lists the first `k` elements of a sorting of
`[0, n)` by `hkey`. -/
theorem popToEnd_build_sorted (hkey : ℕ → β) (total : ∀ a b : β, a ≤ b ∨ b ≤ a) {f : ℕ → ℕ} {n k : ℕ}
    (hf : ∀ x, x < n → f x = x) (hk : k ≤ n) :
    ∃ R : List ℕ, R.Perm (List.range n) ∧ R.Pairwise (fun a b => hkey a ≤ hkey b) ∧
      ∀ j, j < k → R[j]? = some (popToEnd hkey (build hkey f n (n / 2)) n k (n - 1 - j)) := by
  have hheap := build_heapFrom hkey total (heapFrom_half hkey f n)
  obtain ⟨hinv, hpop⟩ := popToEnd_spec hkey total (popInv_start hkey hheap) hk
  obtain ⟨R, hR, hsorted, hget⟩ := hinv.exists_sorted hkey total
  have hid : (List.range n).map f = List.range n := by
    conv_rhs => rw [← List.map_id (List.range n)]
    exact List.map_congr_left fun x hx => hf x (List.mem_range.mp hx)
  refine ⟨R, ?_, hsorted, fun j hj => hget j (by omega)⟩
  rw [← hid]
  exact hR.trans ((build_perm hkey f n _).trans hpop).perm_map_range

theorem orderHeapInitBuildByRange_eq {cmp : MsgpackCompare} (ho : Oriented cmpFn cmp hkey)
    (heapMem : ℕ → ℕ) {idx count eleCount discard : UInt32} (hn : eleCount.toNat ≤ 2 ^ 31)
    (hcmp : (if idx ≤ eleCount - idx - count then MsgpackCompare.less else .greater) = cmp)
    (hdiscard : (if idx ≤ eleCount - idx - count then idx else eleCount - idx - count) = discard)
    (hk : (count + discard).toNat ≤ eleCount.toNat) :
    orderHeapInitBuildByRange cmpFn heapMem idx count eleCount = some (true,
      { entries := popToEnd hkey
          (build hkey (fun x => if x < eleCount.toNat then x else heapMem x) eleCount.toNat
            (eleCount.toNat / 2)) eleCount.toNat (count + discard).toNat
        eleCount := eleCount
        filled := (eleCount.toNat - (count + discard).toNat).toUInt32
        cmp := cmp }) := by
  unfold orderHeapInitBuildByRange
  simp only [hcmp, hdiscard]
  rw [orderHeapBuild_eq (?_ : Oriented cmpFn _ hkey) hn]
  · exact orderHeapOrderAtEnd_eq ho hn hk
  · exact ho

end Select

/-! ### `order_heap_reverse_end` -/

section ReverseEnd

variable {orig : ℕ → ℕ} {s e : ℕ}

/-- After `r` rounds of reversing `[s, e]`, the first `r` and the last `r`
positions hold each other's values. -/
def ReversedEnds (orig cur : ℕ → ℕ) (s e r : ℕ) : Prop :=
  ∀ x, cur x = if (s ≤ x ∧ x < s + r) ∨ (e - r < x ∧ x ≤ e) then orig (s + e - x) else orig x

theorem reversedEnds_zero : ReversedEnds orig orig s e 0 := by
  intro x
  rw [if_neg (by omega)]

theorem ReversedEnds.apply_of_half {cur : ℕ → ℕ} (h : ReversedEnds orig cur s e ((e + 1 - s) / 2))
    {x : ℕ} (hsx : s ≤ x) (hxe : x ≤ e) : cur x = orig (s + e - x) := by
  rw [h x]
  split_ifs with hx
  · rfl
  · congr 1
    omega

theorem ReversedEnds.swap {cur : ℕ → ℕ} {r : ℕ} (h : ReversedEnds orig cur s e r)
    (hr : r < (e + 1 - s) / 2) :
    ReversedEnds orig
      (Function.update (Function.update cur (e - r) (cur (s + r))) (s + r) (cur (e - r))) s e (r + 1) := by
  have hleft : cur (s + r) = orig (s + r) := by rw [h]; rw [if_neg (by omega)]
  have hright : cur (e - r) = orig (e - r) := by rw [h]; rw [if_neg (by omega)]
  intro x
  rw [Function.update_apply, Function.update_apply]
  by_cases hxs : x = s + r
  · rw [if_pos hxs, hright, if_pos (by omega)]
    congr 1
    omega
  · rw [if_neg hxs]
    by_cases hxe : x = e - r
    · rw [if_pos hxe, hleft, if_pos (by omega)]
      congr 1
      omega
    · rw [if_neg hxe, h x]
      congr 1
      apply propext
      omega

theorem reverseEndLoop_reversed {stop : UInt32} (hstop : stop.toNat = s + (e + 1 - s) / 2)
    (he : e < 2 ^ 32) :
    ∀ (k : ℕ) (heap : OrderHeap) (i endIndex : UInt32) (r : ℕ), i.toNat = s + r →
      endIndex.toNat = e - r → r + k = (e + 1 - s) / 2 → ReversedEnds orig heap.entries s e r →
      ReversedEnds orig (reverseEndLoop stop k heap i endIndex).entries s e ((e + 1 - s) / 2)
  | 0, heap, _, _, r, _, _, hk, h => by
    rw [reverseEndLoop]
    rwa [← hk]
  | k + 1, heap, i, endIndex, r, hi, hend, hk, h => by
    have hlt : i < stop := by rw [UInt32.lt_iff_toNat_lt]; omega
    have hi1 : (i + 1).toNat = s + (r + 1) := by
      rw [UInt32.toNat_add, UInt32.toNat_one, Nat.mod_eq_of_lt (by omega)]
      omega
    have hend1 : (endIndex - 1).toNat = e - (r + 1) := by
      rw [toNat_sub_one (by omega)]
      omega
    rw [reverseEndLoop, if_pos hlt]
    apply reverseEndLoop_reversed hstop he k _ _ _ (r + 1) hi1 hend1 (by omega)
    simp only [orderHeapSet, orderHeapGet, hi, hend]
    exact h.swap (by omega)

theorem orderHeapReverseEnd_entries (heap : OrderHeap) {count : UInt32}
    (h : 2 * heap.filled.toNat + count.toNat < 2 ^ 32) {j : ℕ} (hj : j < count.toNat) :
    (orderHeapReverseEnd heap count).entries (heap.filled.toNat + j) =
      heap.entries (heap.filled.toNat + count.toNat - 1 - j) := by
  set s := heap.filled.toNat with hs
  set e := s + count.toNat - 1 with he
  have hend : (heap.filled + count).toNat = s + count.toNat := by
    rw [UInt32.toNat_add, Nat.mod_eq_of_lt (by omega)]
  have hstop : ((heap.filled + (heap.filled + count)) / 2).toNat = s + (e + 1 - s) / 2 := by
    rw [toNat_add_div_two (by omega), hend]
    omega
  have hloop := reverseEndLoop_reversed hstop (by omega)
    ((s + (e + 1 - s) / 2) - s) heap heap.filled (heap.filled + count - 1) 0 rfl
    (by rw [toNat_sub_one (by omega), hend]; omega) (by omega) reversedEnds_zero
  unfold orderHeapReverseEnd
  simp only [hstop]
  rw [hloop.apply_of_half (by omega) (by omega)]
  congr 1
  omega

end ReverseEnd

/-! ### The partial select -/

section PartialSelect

variable {κ : Type} [Preorder κ] [DecidableLE κ]

theorem toNat_tailDistance {idx count eleCount : UInt32}
    (hrange : idx.toNat + count.toNat ≤ eleCount.toNat) :
    (eleCount - idx - count).toNat = eleCount.toNat - idx.toNat - count.toNat := by
  have h1 : idx ≤ eleCount := UInt32.le_iff_toNat_le.mpr (by omega)
  have h2 : (eleCount - idx).toNat = eleCount.toNat - idx.toNat := UInt32.toNat_sub_of_le _ _ h1
  have h3 : count ≤ eleCount - idx := UInt32.le_iff_toNat_le.mpr (by omega)
  rw [UInt32.toNat_sub_of_le _ _ h3, h2]

section Branches

variable (total : ∀ a b : κ, a ≤ b ∨ b ≤ a) {key : ℕ → κ} {cmpFn : ℕ → ℕ → MsgpackCompare}
  (hcmp : ComparesByKey cmpFn key) (heapMem : ℕ → ℕ) {idx count eleCount : UInt32}
  (hrange : idx.toNat + count.toNat ≤ eleCount.toNat) (hn : eleCount.toNat ≤ 2 ^ 31)
include total hcmp hrange hn

theorem orderHeapInitBuildByRange_less (hle : idx ≤ eleCount - idx - count) :
    ∃ (heap : OrderHeap) (R : List ℕ),
      orderHeapInitBuildByRange cmpFn heapMem idx count eleCount = some (true, heap) ∧
      heap.cmp = .less ∧ heap.filled.toNat = eleCount.toNat - count.toNat - idx.toNat ∧
      R.Perm (List.range eleCount.toNat) ∧ R.Pairwise (fun a b => key a ≤ key b) ∧
      ∀ m, m < count.toNat + idx.toNat → R[m]? = some (heap.entries (eleCount.toNat - 1 - m)) := by
  have hk : (count + idx).toNat = count.toNat + idx.toNat := by
    rw [UInt32.toNat_add, Nat.mod_eq_of_lt (by omega)]
  obtain ⟨R, hR, hsorted, hget⟩ := popToEnd_build_sorted key total (fun x hx => if_pos hx)
    (show (count + idx).toNat ≤ eleCount.toNat by omega)
  refine ⟨_, R, orderHeapInitBuildByRange_eq (hcmp.oriented_less total) heapMem hn (if_pos hle)
    (if_pos hle) (by omega), rfl, ?_, hR, hsorted, fun m hm => hget m (by omega)⟩
  rw [toNat_toUInt32_eq (by omega)]
  omega

theorem orderHeapInitBuildByRange_greater (hle : ¬ idx ≤ eleCount - idx - count) :
    ∃ (heap : OrderHeap) (R : List ℕ),
      orderHeapInitBuildByRange cmpFn heapMem idx count eleCount = some (true, heap) ∧
      heap.cmp = .greater ∧ heap.filled.toNat = idx.toNat ∧
      R.Perm (List.range eleCount.toNat) ∧ R.Pairwise (fun a b => key a ≤ key b) ∧
      ∀ m, idx.toNat ≤ m → m < eleCount.toNat → R[m]? = some (heap.entries m) := by
  have hk : (count + (eleCount - idx - count)).toNat = eleCount.toNat - idx.toNat := by
    rw [UInt32.toNat_add, toNat_tailDistance hrange, Nat.mod_eq_of_lt (by omega)]
    omega
  obtain ⟨R, hR, hsorted, hget⟩ := popToEnd_build_sorted (fun a => OrderDual.toDual (key a))
    (fun a b => total (OrderDual.ofDual b) (OrderDual.ofDual a)) (fun x hx => if_pos hx)
    (show (count + (eleCount - idx - count)).toNat ≤ eleCount.toNat by omega)
  have hlen : R.length = eleCount.toNat := by rw [hR.length_eq, List.length_range]
  refine ⟨_, R.reverse, orderHeapInitBuildByRange_eq (hcmp.oriented_greater total) heapMem hn
    (if_neg hle) (if_neg hle) (by omega), rfl, ?_, (List.reverse_perm R).trans hR, ?_,
    fun m hm hmn => ?_⟩
  · rw [toNat_toUInt32_eq (by omega)]
    omega
  · rw [List.pairwise_reverse]
    exact hsorted.imp fun h => OrderDual.toDual_le_toDual.mp h
  · rw [List.getElem?_reverse (by omega), hlen, hget _ (by omega)]
    congr 2
    omega

end Branches

theorem order_heap_selects_rank_range (total : ∀ a b : κ, a ≤ b ∨ b ≤ a) (key : ℕ → κ)
    (cmpFn : ℕ → ℕ → MsgpackCompare) (hcmp : ComparesByKey cmpFn key) (heapMem : ℕ → ℕ)
    (idx count eleCount : UInt32) (hrange : idx.toNat + count.toNat ≤ eleCount.toNat)
    (hn : eleCount.toNat ≤ 2 ^ 31) :
    ∃ (heap : OrderHeap) (R : List ℕ),
      orderHeapInitBuildByRange cmpFn heapMem idx count eleCount = some (true, heap) ∧
      R.Perm (List.range eleCount.toNat) ∧ R.Pairwise (fun a b => key a ≤ key b) ∧
      heap.filled.toNat + count.toNat ≤ eleCount.toNat ∧
      (heap.cmp = .less → ∀ j, j < count.toNat →
        R[idx.toNat + count.toNat - 1 - j]? = some (heap.entries (heap.filled.toNat + j))) ∧
      (heap.cmp ≠ .less → ∀ j, j < count.toNat →
        R[idx.toNat + j]? = some (heap.entries (heap.filled.toNat + j))) ∧
      ∀ j, j < count.toNat → R[idx.toNat + j]? =
        some ((if heap.cmp = .less then orderHeapReverseEnd heap count else heap).entries
          (heap.filled.toNat + j)) := by
  by_cases hle : idx ≤ eleCount - idx - count
  · obtain ⟨heap, R, hrun, hless, hF, hR, hsorted, hget⟩ :=
      orderHeapInitBuildByRange_less total hcmp heapMem hrange hn hle
    refine ⟨heap, R, hrun, hR, hsorted, by omega, fun _ j hj => ?_, fun h => absurd hless h,
      fun j hj => ?_⟩
    · rw [hget _ (by omega), hF]
      congr 2
      omega
    · rw [if_pos hless, orderHeapReverseEnd_entries _ (by omega) hj, hget _ (by omega), hF]
      congr 2
      omega
  · obtain ⟨heap, R, hrun, hgreater, hF, hR, hsorted, hget⟩ :=
      orderHeapInitBuildByRange_greater total hcmp heapMem hrange hn hle
    have hne : heap.cmp ≠ .less := by
      rw [hgreater]
      decide
    refine ⟨heap, R, hrun, hR, hsorted, by omega, fun h => absurd h hne, fun _ j hj => ?_,
      fun j hj => ?_⟩
    · rw [hget _ (by omega) (by omega), hF]
    · rw [if_neg hne, hget _ (by omega) (by omega), hF]

/-- Three elements ranked by their index, ranks `1` and `2` asked for: the
max-heap side is taken, and reversing its range as for a min-heap leaves
element `2` before element `1`. -/
example :
    (orderHeapInitBuildByRange (fun a b => msgpackCompareOf a b) (fun _ => 0) 1 2 3).map
      (fun r => (r.1, r.2.cmp, r.2.filled.toNat, (orderHeapReverseEnd r.2 2).entries 1,
        (orderHeapReverseEnd r.2 2).entries 2)) = some (true, .greater, 1, 2, 1) := by
  decide

end PartialSelect

/-! ### Child indexes that wrap -/

section SiftCycle

/-- Keys under which the first sift of `order_heap_build` over `2^31 + 1`
elements never ends: element `2^30 - 1` is the greatest, `2^31 - 1` the next. -/
def siftCycleKey (e : ℕ) : ℕ := if e = 2 ^ 30 - 1 then 3 else if e = 2 ^ 31 - 1 then 2 else 1

/-- The positions that sift visits: `2^k - 1` for `k ≤ 30`, then `2^31`, whose
first child `2^32 + 1` wraps to `1`. -/
def siftCyclePos (k : ℕ) : UInt32 := if k = 31 then (2 ^ 31 : ℕ).toUInt32 else (2 ^ k - 1 : ℕ).toUInt32

def siftCycleNext (k : ℕ) : ℕ := if k = 31 then 1 else k + 1

theorem toNat_siftCyclePos {k : ℕ} (hk : k ≤ 31) :
    (siftCyclePos k).toNat = if k = 31 then 2 ^ 31 else 2 ^ k - 1 := by
  have hp : 2 ^ k ≤ 2 ^ 31 := Nat.pow_le_pow_right (by norm_num) hk
  unfold siftCyclePos
  split_ifs
  · rfl
  · exact toNat_toUInt32_eq (by omega)

theorem siftCyclePos_cases {k : ℕ} (hk1 : 1 ≤ k) (hk : k ≤ 31) :
    k = 31 ∧ (siftCyclePos k).toNat = 2 ^ 31 ∧ (2 * siftCyclePos k + 1).toNat = 1 ∧
        (2 * siftCyclePos k + 2).toNat = 2 ∧ (siftCyclePos (siftCycleNext k)).toNat = 1 ∨
      k = 30 ∧ (siftCyclePos k).toNat = 2 ^ 30 - 1 ∧ (2 * siftCyclePos k + 1).toNat = 2 ^ 31 - 1 ∧
        (2 * siftCyclePos k + 2).toNat = 2 ^ 31 ∧ (siftCyclePos (siftCycleNext k)).toNat = 2 ^ 31 ∨
      k ≤ 29 ∧ 2 ≤ 2 ^ k ∧ 2 ^ k ≤ 2 ^ 29 ∧ (siftCyclePos k).toNat = 2 ^ k - 1 ∧
        (2 * siftCyclePos k + 1).toNat = 2 * 2 ^ k - 1 ∧ (2 * siftCyclePos k + 2).toNat = 2 * 2 ^ k ∧
        (siftCyclePos (siftCycleNext k)).toNat = 2 * 2 ^ k - 1 := by
  rcases (show k = 31 ∨ k = 30 ∨ k ≤ 29 by omega) with rfl | rfl | hle
  · exact Or.inl ⟨rfl, rfl, rfl, rfl, rfl⟩
  · exact Or.inr (Or.inl ⟨rfl, rfl, rfl, rfl, rfl⟩)
  · have hpk : 2 ≤ 2 ^ k := by
      calc 2 = 2 ^ 1 := rfl
        _ ≤ 2 ^ k := Nat.pow_le_pow_right (by norm_num) hk1
    have hp : 2 ^ k ≤ 2 ^ 29 := Nat.pow_le_pow_right (by norm_num) hle
    have hpos : (siftCyclePos k).toNat = 2 ^ k - 1 := by
      rw [siftCyclePos, if_neg (by omega)]
      exact toNat_toUInt32_eq (by omega)
    have hnext : (siftCyclePos (siftCycleNext k)).toNat = 2 * 2 ^ k - 1 := by
      rw [siftCycleNext, if_neg (by omega), siftCyclePos, if_neg (by omega), Nat.pow_succ, Nat.mul_comm]
      exact toNat_toUInt32_eq (by omega)
    have hc1 : (2 * siftCyclePos k + 1).toNat = 2 * (siftCyclePos k).toNat + 1 :=
      toNat_two_mul_add (c := 1) (by omega) (by omega)
    have hc2 : (2 * siftCyclePos k + 2).toNat = 2 * (siftCyclePos k).toNat + 2 :=
      toNat_two_mul_add (c := 2) le_rfl (by omega)
    refine Or.inr (Or.inr ⟨hle, hpk, hp, hpos, ?_, ?_, hnext⟩) <;> omega

variable {cmpFn : ℕ → ℕ → MsgpackCompare}

/-- The heap while that sift goes round: the greatest element at the sift's
position, and every other position holding an element of key `1`, but
`2^31 - 1` holding the one of key `2`. -/
structure SiftCycleInv (heap : OrderHeap) (k : ℕ) : Prop where
  one_le : 1 ≤ k
  le : k ≤ 31
  filled : heap.filled.toNat = 2 ^ 31 + 1
  cmp : heap.cmp = .less
  cur : siftCycleKey (heap.entries (siftCyclePos k).toNat) = 3
  other : ∀ x, x < 2 ^ 31 + 1 → x ≠ (siftCyclePos k).toNat →
    siftCycleKey (heap.entries x) = if x = 2 ^ 31 - 1 then 2 else 1

theorem SiftCycleInv.step (hcmp : ComparesByKey cmpFn siftCycleKey) {heap : OrderHeap} {k : ℕ}
    (h : SiftCycleInv heap k) (fuel : ℕ) :
    ∃ heap', heapifyLoop cmpFn (fuel + 1) heap (siftCyclePos k) =
        heapifyLoop cmpFn fuel heap' (siftCyclePos (siftCycleNext k)) ∧
      SiftCycleInv heap' (siftCycleNext k) := by
  have hF := h.filled
  have hcases := siftCyclePos_cases h.one_le h.le
  have hcmp' : ∀ a b, cmpFn a b = msgpackCompareOf (siftCycleKey a) (siftCycleKey b) := hcmp
  set P := siftCyclePos k with hP
  set c := siftCyclePos (siftCycleNext k) with hc
  have hother : ∀ x, x < 2 ^ 31 + 1 → x ≠ P.toNat →
      siftCycleKey (heap.entries x) = if x = 2 ^ 31 - 1 then 2 else 1 :=
    h.other
  have hcur : siftCycleKey (heap.entries P.toNat) = 3 := h.cur
  have hPn : P.toNat ≠ 2 ^ 31 - 1 := by omega
  have hcP : c.toNat ≠ P.toNat := by omega
  have hkc : siftCycleKey (heap.entries c.toNat) = 1 := by
    rw [hother _ (by omega) hcP, if_neg (by omega)]
  have h1 : ¬ 2 * P + 1 ≥ heap.filled := by
    rw [ge_iff_le, UInt32.le_iff_toNat_le, hF]
    omega
  have hchild : heapifyChild cmpFn heap P = some c := by
    have h2 : ¬ 2 * P + 2 ≥ heap.filled := by
      rw [ge_iff_le, UInt32.le_iff_toNat_le, hF]
      omega
    unfold heapifyChild
    simp only [orderHeapGet, hcmp', h.cmp]
    rw [if_neg h2]
    by_cases h30 : k = 30
    · have hk1 : siftCycleKey (heap.entries (2 * P + 1).toNat) = 2 := by
        rw [hother (2 * P + 1).toNat (by omega) (by omega), if_pos (by omega)]
      have hc2c : 2 * P + 2 = c := UInt32.toNat_inj.mp (by omega)
      rw [hk1, hc2c, hkc]
      rfl
    · have hk2 : siftCycleKey (heap.entries (2 * P + 2).toNat) = 1 := by
        rw [hother (2 * P + 2).toNat (by omega) (by omega), if_neg (by omega)]
      have hc1c : 2 * P + 1 = c := UInt32.toNat_inj.mp (by omega)
      rw [hk2, hc1c, hkc]
      rfl
  refine ⟨orderHeapSwap heap P c, ?_, ?_⟩
  · rw [heapifyLoop, if_neg h1, hchild]
    simp only [orderHeapGet, hcmp', h.cmp, hkc, hcur]
    rfl
  · rw [orderHeapSwap_eq]
    refine ⟨by unfold siftCycleNext; split_ifs <;> omega, by unfold siftCycleNext; split_ifs <;> omega,
      h.filled, h.cmp, ?_, fun x hxn hx => ?_⟩
    · dsimp only
      rw [swapAt_eq_comp, Function.comp_apply, Equiv.swap_apply_right]
      exact hcur
    · dsimp only
      rw [swapAt_eq_comp, Function.comp_apply]
      by_cases hxP : x = P.toNat
      · rw [hxP, Equiv.swap_apply_left, hkc, if_neg hPn]
      · rw [Equiv.swap_apply_of_ne_of_ne hxP hx]
        exact hother x hxn hxP

end SiftCycle

end Aerospike.Cdt
