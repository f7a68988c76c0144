import Aerospike.Cdt.ListSelect
import Aerospike.Cdt.ListRank

/-! # Getting and removing list elements by an index range

`packed_list_get_remove_by_index_range` (`particle_list.c`) serves the index
operations of lists (`GET_BY_INDEX_RANGE`, `REMOVE_BY_INDEX_RANGE`,
`POP_RANGE`, `TRIM` and their one-element forms) and, on ordered lists, the
rank and value operations. `calc_index_count` turns the signed index and the
count into an absolute range. Without `INVERTED`, `packed_list_op_remove`
splits the contents around the range: segment 1 before it and segment 2 after
it are what a removal keeps, and the results are read from the bytes between.
With `INVERTED` the complement is selected. It is one range again when the
range is empty or touches an end of the list; otherwise `packed_list_trim`
keeps the range and reports the elements on both sides of it.

Elements are abstract as in `Aerospike.Cdt.List`: element `k` starts at byte
`eleOffset sz eles k` of the contents, and a copy of a byte range of the
contents holds the elements that start in it. The offset lookups give the
offsets of a well-formed list. On an unordered list the rank of an element is
the number of smaller elements in a linear order, the order of
`as_unpack_compare`.
-/

namespace Aerospike.Cdt

variable {α : Type} (sz : α → ℕ)

/-- The elements, of the contents from offset `off` on, that start in the byte
range `[a, b)`: what a copy of that range holds when it begins and ends at
elements. -/
def elesOfRange (a b : ℕ) : ℕ → List α → List α
  | _, [] => []
  | off, x :: xs => (if a ≤ off ∧ off < b then [x] else []) ++ elesOfRange a b (off + sz x) xs

def CdtResultData.isReturnIndexRange (rd : CdtResultData) : Bool :=
  rd.type == .indexRange || rd.type == .revIndexRange

def CdtResultData.isReturnRankRange (rd : CdtResultData) : Bool :=
  rd.type == .rankRange || rd.type == .revRankRange

/-- `packed_list_op` after a removal: the bytes kept before the range, where
the bytes kept after it start and how many there are, and the new counts. -/
structure PackedListOp where
  seg1Sz : ℕ
  seg2Offset : ℕ
  seg2Sz : ℕ
  newEleCount : ℕ
  newContentSz : ℕ
  deriving DecidableEq, Repr

/-- `packed_list_op_remove` of `count ≠ 0` elements from `index`; `none` is its
`false`, for an offset lookup that failed. -/
def packedListOpRemove (eles : List α) (index count : ℕ) : Option PackedListOp :=
  let contentSz := eleOffset sz eles eles.length
  if index ≥ eles.length then some ⟨contentSz, 0, 0, eles.length, contentSz⟩
  else
    let offset := eleOffset sz eles index
    if index ≠ 0 ∧ offset = 0 then none
    else if count ≥ eles.length - index then some ⟨offset, 0, 0, index, offset⟩
    else
      let endOff := eleOffset sz eles (index + count)
      if endOff = 0 then none
      else
        some ⟨offset, endOff, contentSz - endOff, eles.length - count,
          offset + (contentSz - endOff)⟩

/-- The elements of the new contents: `packed_list_op_write_seg1` (a removal
adds no nils) and `packed_list_op_write_seg2`. -/
def packedListOpWriteSegs (eles : List α) (op : PackedListOp) : List α :=
  elesOfRange sz 0 op.seg1Sz 0 eles ++
    if op.seg2Sz = 0 then [] else elesOfRange sz op.seg2Offset (op.seg2Offset + op.seg2Sz) 0 eles

/-- `as_bin_set_empty_list`: no elements, the order kept. -/
def emptyList (ordered : Bool) : PackedList α := ⟨ordered, [], none⟩

/-- The bin after a removal by `op` of elements from `index` (the `b != NULL`
block): emptied, or rebuilt by `list_setup_bin` from the two segments; the
list as it was for a read. -/
def removeBin (l : PackedList α) (isRemove : Bool) (index : ℕ) (op : PackedListOp) :
    Option (PackedList α) :=
  if !isRemove then some l
  else if op.newEleCount = 0 then some (emptyList l.ordered)
  else (listSetupBinIndex l.ordered op.newContentSz op.newEleCount index l.offidx).map
    fun idx => ⟨l.ordered, packedListOpWriteSegs sz l.eles op, idx⟩

/-- The bin after `packed_list_trim` keeps `count` elements from `index`: the
bytes from one to the other, rebuilt by `list_setup_bin`. -/
def trimBin (l : PackedList α) (isRemove : Bool) (index count : ℕ) : Option (PackedList α) :=
  let offset0 := eleOffset sz l.eles index
  let offset1 := eleOffset sz l.eles (index + count)
  if isRemove then
    (listSetupBinIndex l.ordered (offset1 - offset0) count 0 l.offidx).map
      fun idx => ⟨l.ordered, elesOfRange sz offset0 offset1 0 l.eles, idx⟩
  else some l

section Op

variable [LinearOrder α]

/-- The rank `packed_list_find_rank_range_by_value_interval_unordered` finds
for an element of the list, the number of elements below it, counted from the
end for a reverse type. -/
def unorderedRank (eles : List α) (isRev : Bool) (x : α) : ℕ :=
  if isRev then eles.length - eles.countP (· < x) - 1 else eles.countP (· < x)

/-- `packed_list_get_remove_by_index_range` once the range is not inverted:
`count` elements from `index`, removed when `isRemove` (`b != NULL`). The
result is the code, the bin after and the result bin; `none` is a crash. -/
def indexRangeRemove (l : PackedList α) (isRemove : Bool) (rd : CdtResultData)
    (index count : ℕ) : Option (Int × PackedList α × ResultValue α) :=
  let n := l.eles.length
  if count = 0 then
    if rd.type = .key ∨ rd.type = .map then some (-resultFailParameter, l, .unset)
    else some (0, l, resultDataSetNotFound rd index)
  else
    match packedListOpRemove sz l.eles index count with
    | none => some (-resultFailParameter, l, .unset)
    | some op =>
      let contentSz := eleOffset sz l.eles n
      let removedEnd := if op.seg2Sz ≠ 0 then op.seg2Offset else contentSz
      let removed := elesOfRange sz op.seg1Sz removedEnd 0 l.eles
      (removeBin sz l isRemove index op).bind fun bin =>
        match rd.type with
        | .none => some (0, bin, .unset)
        | .index | .revIndex =>
          let r := resultDataSetIndexRankCount rd (UInt32.ofNat index) (UInt32.ofNat count)
            (UInt32.ofNat n)
          some (r.1, bin, r.2)
        | .rank | .revRank =>
          let isRev := rd.type == .revRank
          if op.newEleCount = 0 then
            let r := resultDataSetIndexRankCount rd 0 (UInt32.ofNat count) (UInt32.ofNat n)
            some (r.1, bin, r.2)
          else if !rd.isMulti then
            let rank := if l.ordered then some index else removed.head?.map fun x => l.eles.countP (· < x)
            match rank with
            | none => some (-resultFailParameter, bin, .unset)
            | some rank =>
              some (0, bin, .int (if isRev then
                (UInt32.ofNat n - UInt32.ofNat rank - 1).toNat else rank))
          else if l.ordered then
            some (0, bin, .ints (addIntRange (UInt32.ofNat index) (UInt32.ofNat count)
              (UInt32.ofNat n) isRev))
          else some (0, bin, .ints (removed.map fun x => (unorderedRank l.eles isRev x : Int)))
        | .count => some (0, bin, .int (n - op.newEleCount))
        | .value =>
          if rd.isMulti then some (0, bin, .eles removed)
          else if removedEnd - op.seg1Sz = 0 then some (0, bin, .unset)
          else if count ≤ 1 then some (0, bin, (removed.head?.map .ele).getD .unset)
          else none
        | .revIndexRange => some (0, bin, .ints [(n - index - count : ℕ), count])
        | .indexRange => some (0, bin, .ints [index, count])
        | .rankRange | .revRankRange =>
          if l.ordered then
            let r := resultDataSetRange rd (UInt32.ofNat index) (UInt32.ofNat count)
              (UInt32.ofNat n)
            some (r.1, bin, r.2)
          else some (-resultFailParameter, bin, .unset)
        | .key | .map => some (-resultFailParameter, bin, .unset)

/-- `packed_list_trim`: keeps the `count ≠ 0` elements from `index`, which have
elements on both sides, and reports the others; the assertion that the
operation is a multi one. -/
def packedListTrim (l : PackedList α) (isRemove : Bool) (rd : CdtResultData) (index count : ℕ) :
    Option (Int × PackedList α × ResultValue α) :=
  if !rd.isMulti then none
  else
    let n := l.eles.length
    let rmCount := n - count
    let index1 := index + count
    let offset0 := eleOffset sz l.eles index
    let offset1 := eleOffset sz l.eles index1
    let contentSz := eleOffset sz l.eles n
    if (offset0 = 0 ∧ index ≠ 0) ∨ offset1 = 0 then some (-resultFailParameter, l, .unset)
    else
      (trimBin sz l isRemove index count).bind fun bin =>
        match rd.type with
        | .none => some (0, bin, .unset)
        | .count => some (0, bin, .int rmCount)
        | .index | .revIndex =>
          let isRev := rd.type == .revIndex
          some (0, bin, .ints (addIntRange 0 (UInt32.ofNat index) (UInt32.ofNat n) isRev ++
            addIntRange (UInt32.ofNat index1) (UInt32.ofNat (n - index1)) (UInt32.ofNat n) isRev))
        | .rank | .revRank =>
          let isRev := rd.type == .revRank
          if l.ordered then
            some (0, bin, .ints (addIntRange 0 (UInt32.ofNat index) (UInt32.ofNat n) isRev ++
              addIntRange (UInt32.ofNat (index + count)) (UInt32.ofNat (rmCount - index))
                (UInt32.ofNat n) isRev))
          else
            some (0, bin, .ints ((l.eles.take index ++
              (elesOfRange sz offset1 contentSz 0 l.eles).take (rmCount - index)).map
                fun x => (unorderedRank l.eles isRev x : Int)))
        | .value =>
          some (0, bin, .eles (elesOfRange sz 0 offset0 0 l.eles ++
            elesOfRange sz offset1 (offset1 + (contentSz - offset1)) 0 l.eles))
        | _ => some (-resultFailParameter, bin, .unset)

/-- `packed_list_get_remove_by_index_range` on a list whose offsets are known:
the code, the bin after (changed only when `isRemove`, its `b != NULL`) and
the result bin; `none` is a crash. -/
def packedListGetRemoveByIndexRange (l : PackedList α) (isRemove : Bool) (index : Int)
    (count : ℕ) (rd : CdtResultData) : Option (Int × PackedList α × ResultValue α) :=
  let n := l.eles.length
  match calcIndexCount index count n rd.isMulti with
  | none => some (-resultFailParameter, l, .unset)
  | some (uindex, count32) =>
    if rd.inverted then
      if !rd.isMulti || rd.isReturnIndexRange || rd.isReturnRankRange then
        some (-resultFailParameter, l, .unset)
      else
        let rd' := { rd with inverted := false }
        if count32 = 0 then indexRangeRemove sz l isRemove rd' 0 n
        else if uindex = 0 then indexRangeRemove sz l isRemove rd' count32 (n - count32)
        else if uindex + count32 ≥ n then indexRangeRemove sz l isRemove rd' 0 uindex
        else packedListTrim sz l isRemove rd' uindex count32
    else indexRangeRemove sz l isRemove rd uindex count32

end Op

/-! ### Byte ranges and elements -/

section Ranges

variable {sz}

theorem eleOffset_cons_succ (x : α) (xs : List α) (k : ℕ) :
    eleOffset sz (x :: xs) (k + 1) = sz x + eleOffset sz xs k := by
  simp [eleOffset]

theorem elesOfRange_of_le {a b : ℕ} : ∀ (xs : List α) {off : ℕ}, b ≤ off →
    elesOfRange sz a b off xs = []
  | [], _, _ => rfl
  | x :: xs, off, h => by
    rw [elesOfRange, if_neg (by omega), elesOfRange_of_le xs (by omega), List.nil_append]

theorem elesOfRange_start (a a' : ℕ) {b : ℕ} : ∀ (xs : List α) {off : ℕ}, a ≤ off → a' ≤ off →
    elesOfRange sz a b off xs = elesOfRange sz a' b off xs
  | [], _, _, _ => rfl
  | x :: xs, off, h, h' => by
    simp only [elesOfRange]
    rw [elesOfRange_start a a' xs (by omega) (by omega)]
    simp only [h, h', true_and]

theorem elesOfRange_offsets_from (hsz : ∀ x, 0 < sz x) :
    ∀ (xs : List α) (off s t : ℕ), s ≤ t → t ≤ xs.length →
      elesOfRange sz (off + eleOffset sz xs s) (off + eleOffset sz xs t) off xs =
        (xs.drop s).take (t - s)
  | [], _, _, _, _, _ => by simp [elesOfRange]
  | x :: xs, off, 0, 0, _, _ => by
    rw [elesOfRange, eleOffset_zero, if_neg (by omega), elesOfRange_of_le xs (by have := hsz x; omega)]
    rfl
  | x :: xs, off, 0, t + 1, _, ht => by
    have hx := hsz x
    rw [elesOfRange, eleOffset_zero, eleOffset_cons_succ, if_pos ⟨by omega, by omega⟩,
      elesOfRange_start _ (off + sz x + eleOffset sz xs 0) xs (by omega)
        (by rw [eleOffset_zero]; omega),
      ← Nat.add_assoc, elesOfRange_offsets_from hsz xs (off + sz x) 0 t (Nat.zero_le _)
        (by simpa using ht)]
    simp
  | x :: xs, off, s + 1, t + 1, hst, ht => by
    have hx := hsz x
    rw [elesOfRange, eleOffset_cons_succ, eleOffset_cons_succ, if_neg (by omega), List.nil_append,
      ← Nat.add_assoc, ← Nat.add_assoc,
      elesOfRange_offsets_from hsz xs (off + sz x) s t (by omega) (by simpa using ht)]
    simp
  | _ :: _, _, _ + 1, 0, hst, _ => absurd hst (by omega)

theorem elesOfRange_offsets (hsz : ∀ x, 0 < sz x) {xs : List α} {s t : ℕ} (hst : s ≤ t)
    (ht : t ≤ xs.length) :
    elesOfRange sz (eleOffset sz xs s) (eleOffset sz xs t) 0 xs = (xs.drop s).take (t - s) := by
  simpa using elesOfRange_offsets_from hsz xs 0 s t hst ht

theorem elesOfRange_offsets_start (hsz : ∀ x, 0 < sz x) {xs : List α} {s : ℕ}
    (hs : s ≤ xs.length) : elesOfRange sz 0 (eleOffset sz xs s) 0 xs = xs.take s := by
  have := elesOfRange_offsets hsz (Nat.zero_le s) hs
  rwa [eleOffset_zero, List.drop_zero, Nat.sub_zero] at this

theorem elesOfRange_offsets_end (hsz : ∀ x, 0 < sz x) {xs : List α} {s : ℕ}
    (hs : s ≤ xs.length) :
    elesOfRange sz (eleOffset sz xs s) (eleOffset sz xs xs.length) 0 xs = xs.drop s := by
  rw [elesOfRange_offsets hsz hs le_rfl, List.take_of_length_le (by simp)]

end Ranges

/-! ### The removal -/

section Removal

variable {sz}

/-- What `packed_list_op_remove` leaves for a nonempty range of a list of
elements of positive size: the segments hold the elements before and after the
range, the bytes between hold the range, and they are not empty. -/
theorem packedListOpRemove_spec (hsz : ∀ x, 0 < sz x) {eles : List α} {s k : ℕ} (hk : 0 < k)
    (hsk : s + k ≤ eles.length) :
    ∃ op, packedListOpRemove sz eles s k = some op ∧ op.newEleCount = eles.length - k ∧
      packedListOpWriteSegs sz eles op = eles.take s ++ eles.drop (s + k) ∧
      elesOfRange sz op.seg1Sz
          (if op.seg2Sz ≠ 0 then op.seg2Offset else eleOffset sz eles eles.length) 0 eles =
        (eles.drop s).take k ∧
      (if op.seg2Sz ≠ 0 then op.seg2Offset else eleOffset sz eles eles.length) - op.seg1Sz ≠ 0 := by
  have hoff : ∀ {j t}, j < t → t ≤ eles.length → eleOffset sz eles j < eleOffset sz eles t :=
    fun hjt ht => eleOffset_lt hsz hjt ht
  have hs0 : s ≠ 0 → eleOffset sz eles s ≠ 0 := fun h => by
    have := hoff (j := 0) (Nat.pos_of_ne_zero h) (by omega)
    rw [eleOffset_zero] at this
    omega
  have hfirst := elesOfRange_offsets_start hsz (show s ≤ eles.length by omega)
  by_cases htail : k ≥ eles.length - s
  · refine ⟨⟨eleOffset sz eles s, 0, 0, s, eleOffset sz eles s⟩, ?_, by simp; omega, ?_, ?_, ?_⟩
    · rw [packedListOpRemove, if_neg (by omega), if_neg (by tauto), if_pos htail]
    · rw [packedListOpWriteSegs, if_pos rfl, List.append_nil, hfirst,
        List.drop_eq_nil_of_le (by omega), List.append_nil]
    · simp only [ne_eq, not_true_eq_false, if_false]
      rw [elesOfRange_offsets_end hsz (by omega), List.take_of_length_le (by simp; omega)]
    · simp only [ne_eq, not_true_eq_false, if_false]
      have := hoff (j := s) (t := eles.length) (by omega) le_rfl
      omega
  · have hend : eleOffset sz eles (s + k) < eleOffset sz eles eles.length := hoff (by omega) le_rfl
    have hend0 : eleOffset sz eles (s + k) ≠ 0 := by
      have := hoff (j := 0) (t := s + k) (by omega) hsk
      rw [eleOffset_zero] at this
      omega
    have hseg2 : eleOffset sz eles eles.length - eleOffset sz eles (s + k) ≠ 0 := by omega
    refine ⟨⟨eleOffset sz eles s, eleOffset sz eles (s + k),
      eleOffset sz eles eles.length - eleOffset sz eles (s + k), eles.length - k,
      eleOffset sz eles s + (eleOffset sz eles eles.length - eleOffset sz eles (s + k))⟩,
      ?_, rfl, ?_, ?_, ?_⟩
    · rw [packedListOpRemove, if_neg (by omega), if_neg (by tauto), if_neg htail]
      simp only [hend0, if_false]
    · rw [packedListOpWriteSegs, if_neg hseg2, hfirst, Nat.add_sub_cancel' hend.le,
        elesOfRange_offsets_end hsz hsk]
    · simp only [ne_eq, hseg2, not_false_eq_true, if_true]
      rw [elesOfRange_offsets hsz (by omega) hsk, Nat.add_sub_cancel_left]
    · simp only [ne_eq, hseg2, not_false_eq_true, if_true]
      have := hoff (j := s) (t := s + k) (by omega) hsk
      omega

end Removal

/-! ### What the operation selects -/

/-- The elements an index range selects: `count` of them from `index`, or with
`INVERTED` the others. -/
def selectedEles (eles : List α) (index count : ℕ) (inverted : Bool) : List α :=
  if inverted then eles.take index ++ eles.drop (index + count) else (eles.drop index).take count

/-- The positions the range selects among `n`, in increasing order. -/
def selectedPositions (n index count : ℕ) (inverted : Bool) : List ℕ :=
  (List.range n).filter fun j => decide (index ≤ j ∧ j < index + count) != inverted

def selectedRuns (n index count : ℕ) (inverted : Bool) : List (List ℕ) :=
  (selectedPositions n index count inverted).splitBy fun a b => b == a + 1

/-- What each result type reports of `count` elements from `index` of the
list, selected or (with `INVERTED`) left out: nothing, how many, the elements
in order, or their positions; a single result reports the one element or
position, or that there is none. Reverse positions count from the end, run by
run, each run's in increasing order. -/
def IndexRangeResult (l : PackedList α) (rd : CdtResultData) (index count : ℕ)
    (res : ResultValue α) : Prop :=
  let sel := selectedEles l.eles index count rd.inverted
  let pos := selectedPositions l.eles.length index count rd.inverted
  match rd.type with
  | .none => res = .unset
  | .count => res = .int sel.length
  | .value => res = if rd.isMulti then .eles sel else (sel.head?.map .ele).getD .unset
  | .index => res = if rd.isMulti then .ints (pos.map (↑)) else .int (if count = 0 then -1 else index)
  | .revIndex =>
    if rd.isMulti then
      res = .ints ((selectedRuns l.eles.length index count rd.inverted).flatMap fun run =>
        (run.map fun j => ((l.eles.length - 1 - j : ℕ) : Int)).reverse)
    else res = .int (if count = 0 then -1 else (l.eles.length - 1 - index : ℕ))
  | _ => False

/-- A successful index-range operation does what it is for: a removal keeps
the elements the range leaves, in a list of the same order, a read keeps the
list, and the result reports the selection. -/
structure IndexRangeMeets (l : PackedList α) (isRemove : Bool) (rd : CdtResultData)
    (index count : ℕ) (r : Int × PackedList α × ResultValue α) : Prop where
  code : r.1 = 0
  bin_ordered : r.2.1.ordered = l.ordered
  bin_eles : r.2.1.eles = if isRemove then selectedEles l.eles index count !rd.inverted else l.eles
  result : IndexRangeResult l rd index count r.2.2

section Selection

theorem range_eq_range'_three {n s k : ℕ} (h : s + k ≤ n) :
    List.range n = List.range' 0 s ++ List.range' s k ++ List.range' (s + k) (n - s - k) := by
  have hfront : List.range' 0 s ++ List.range' s k = List.range' 0 (s + k) := by
    simpa using List.range'_append_1 (s := 0) (m := s) (n := k)
  have hback : List.range' 0 (s + k) ++ List.range' (s + k) (n - s - k) = List.range' 0 n := by
    have := List.range'_append_1 (s := 0) (m := s + k) (n := n - s - k)
    rw [Nat.zero_add] at this
    rw [this]
    congr 1
    omega
  rw [List.range_eq_range', hfront, hback]

theorem selectedPositions_false {n s k : ℕ} (h : s + k ≤ n) :
    selectedPositions n s k false = List.range' s k := by
  rw [selectedPositions, range_eq_range'_three h, List.filter_append, List.filter_append,
    List.filter_eq_nil_iff.mpr, List.filter_eq_self.mpr, List.filter_eq_nil_iff.mpr]
  · simp
  all_goals
    intro j hj
    rw [List.mem_range'_1] at hj
    simp only [Bool.bne_false, decide_eq_true_eq]
    omega

theorem selectedPositions_true {n s k : ℕ} (h : s + k ≤ n) :
    selectedPositions n s k true = List.range' 0 s ++ List.range' (s + k) (n - s - k) := by
  rw [selectedPositions, range_eq_range'_three h, List.filter_append, List.filter_append,
    List.filter_eq_self.mpr, List.filter_eq_nil_iff.mpr, List.filter_eq_self.mpr]
  · simp
  all_goals
    intro j hj
    rw [List.mem_range'_1] at hj
    simp only [Bool.bne_true, Bool.not_eq_true', decide_eq_false_iff_not]
    omega

theorem map_mirror_range' {n : ℕ} : ∀ {a c : ℕ}, a + c ≤ n →
    (List.range' a c).map (fun j => n - 1 - j) = (List.range' (n - a - c) c).reverse
  | _, 0, _ => rfl
  | a, c + 1, h => by
    rw [List.range'_succ, List.map_cons, map_mirror_range' (a := a + 1) (by omega),
      List.range'_1_concat, List.reverse_append, List.reverse_singleton, List.singleton_append]
    congr 2
    · omega
    · congr 1
      omega

theorem map_mirror_cast {n a c : ℕ} (h : a + c ≤ n) :
    (List.range' a c).map (fun j => ((n - 1 - j : ℕ) : Int)) =
      ((List.range' (n - a - c) c).map (↑)).reverse := by
  rw [← List.map_reverse, ← map_mirror_range' h, List.map_map]
  rfl

theorem splitBy_range' {a c : ℕ} (hc : 0 < c) :
    (List.range' a c).splitBy (fun x y => y == x + 1) = [List.range' a c] :=
  List.splitBy_of_isChain (by simp; omega) ((List.isChain_range' a c 1).imp fun _ _ h => by simp [h])

theorem mirror_reverse_range' {n a c : ℕ} (h : a + c ≤ n) :
    ((List.range' a c).map fun j => ((n - 1 - j : ℕ) : Int)).reverse = (List.range' (n - a - c) c).map (↑) := by
  rw [map_mirror_cast h, List.reverse_reverse]

theorem addIntRange_eq {start count eleCount : UInt32} (isRev : Bool)
    (h : start.toNat + count.toNat ≤ eleCount.toNat) :
    addIntRange start count eleCount isRev =
      (List.range' (if isRev then eleCount.toNat - start.toNat - count.toNat else start.toNat)
        count.toNat).map (↑) := by
  have hlt := eleCount.toNat_lt
  have hb : (if isRev then eleCount - start - count else start).toNat =
      if isRev then eleCount.toNat - start.toNat - count.toNat else start.toNat := by
    cases isRev
    · rfl
    · simp only [if_true, UInt32.toNat_sub]
      omega
  rw [addIntRange, List.range'_eq_map_range, List.map_map]
  apply List.map_congr_left
  intro i hi
  rw [List.mem_range] at hi
  simp only [Function.comp_apply, UInt32.toNat_add, hb, UInt32.toNat_ofNat', Int.natCast_inj]
  split_ifs <;> omega

theorem IndexRangeMeets.of_uninverted {l : PackedList α} {isRemove : Bool} {rd : CdtResultData}
    {i c i' c' : ℕ} {r : Int × PackedList α × ResultValue α}
    (h : IndexRangeMeets l isRemove { rd with inverted := false } i' c' r)
    (hsel : selectedEles l.eles i' c' false = selectedEles l.eles i c rd.inverted)
    (hkept : selectedEles l.eles i' c' true = selectedEles l.eles i c !rd.inverted)
    (hpos : selectedPositions l.eles.length i' c' false =
      selectedPositions l.eles.length i c rd.inverted) (hmulti : rd.isMulti = true) :
    IndexRangeMeets l isRemove rd i c r := by
  obtain ⟨hcode, hord, heles, hres⟩ := h
  refine ⟨hcode, hord, by rw [heles, Bool.not_false, hkept], ?_⟩
  simp only [IndexRangeResult, selectedRuns, hsel, hpos, hmulti] at hres ⊢
  exact hres

theorem selection_invert_empty (eles : List α) {s : ℕ} (hs : s ≤ eles.length) :
    selectedEles eles 0 eles.length false = selectedEles eles s 0 true ∧
      selectedEles eles 0 eles.length true = selectedEles eles s 0 false ∧
      selectedPositions eles.length 0 eles.length false = selectedPositions eles.length s 0 true := by
  refine ⟨by simp [selectedEles], by simp [selectedEles], ?_⟩
  have hsplit := List.range'_append_1 (s := 0) (m := s) (n := eles.length - s)
  rw [Nat.zero_add] at hsplit
  rw [selectedPositions_false (by omega), selectedPositions_true (by omega), Nat.add_zero,
    Nat.sub_zero, hsplit]
  congr 1
  omega

theorem selection_invert_head (eles : List α) {k : ℕ} (hk : k ≤ eles.length) :
    selectedEles eles k (eles.length - k) false = selectedEles eles 0 k true ∧
      selectedEles eles k (eles.length - k) true = selectedEles eles 0 k false ∧
      selectedPositions eles.length k (eles.length - k) false =
        selectedPositions eles.length 0 k true := by
  refine ⟨?_, ?_, ?_⟩
  · simp [selectedEles, List.take_of_length_le]
  · simp [selectedEles, List.drop_eq_nil_of_le (show eles.length ≤ k + (eles.length - k) by omega)]
  · rw [selectedPositions_false (by omega), selectedPositions_true (by omega)]
    simp

theorem selection_invert_tail (eles : List α) {s k : ℕ} (hsk : s + k = eles.length) :
    selectedEles eles 0 s false = selectedEles eles s k true ∧
      selectedEles eles 0 s true = selectedEles eles s k false ∧
      selectedPositions eles.length 0 s false = selectedPositions eles.length s k true := by
  refine ⟨?_, ?_, ?_⟩
  · simp [selectedEles, List.drop_eq_nil_of_le (show eles.length ≤ s + k by omega)]
  · simp [selectedEles, List.take_of_length_le (show (eles.drop s).length ≤ k by simp; omega)]
  · rw [selectedPositions_false (by omega), selectedPositions_true (by omega)]
    simp [show eles.length - s - k = 0 by omega]

end Selection

/-! ### The results -/

section Results

variable {sz}

theorem selectedEles_zero_false (eles : List α) (s : ℕ) : selectedEles eles s 0 false = [] := by
  simp [selectedEles]

theorem selectedEles_zero_true (eles : List α) (s : ℕ) : selectedEles eles s 0 true = eles := by
  simp [selectedEles]

theorem removeBin_spec {l : PackedList α} (hvalid : l.IndexValid sz) (isRemove : Bool)
    {s k : ℕ} {op : PackedListOp} (hsk : s + k ≤ l.eles.length)
    (hcount : op.newEleCount = l.eles.length - k)
    (hsegs : packedListOpWriteSegs sz l.eles op = l.eles.take s ++ l.eles.drop (s + k)) :
    ∃ bin, removeBin sz l isRemove s op = some bin ∧ bin.ordered = l.ordered ∧
      bin.eles = if isRemove then l.eles.take s ++ l.eles.drop (s + k) else l.eles := by
  cases isRemove
  · exact ⟨l, rfl, rfl, rfl⟩
  by_cases h0 : op.newEleCount = 0
  · refine ⟨emptyList l.ordered, by simp [removeBin, h0], rfl, ?_⟩
    obtain rfl : s = 0 := by omega
    simp only [emptyList, if_true, List.take_zero, List.nil_append, Nat.zero_add]
    exact (List.drop_eq_nil_of_le (by omega)).symm
  · obtain ⟨idx, hidx⟩ := Option.isSome_iff_exists.mp
      (listSetupBinIndex_isSome sz hvalid op.newContentSz op.newEleCount s (by omega) (by omega)
        (by omega))
    exact ⟨⟨l.ordered, packedListOpWriteSegs sz l.eles op, idx⟩, by simp [removeBin, h0, hidx], rfl,
      by simp [hsegs]⟩

theorem trimBin_spec (hsz : ∀ x, 0 < sz x) {l : PackedList α} (hvalid : l.IndexValid sz)
    (isRemove : Bool) {s k : ℕ} (hk : 0 < k) (hsk : s + k ≤ l.eles.length) :
    ∃ bin, trimBin sz l isRemove s k = some bin ∧ bin.ordered = l.ordered ∧
      bin.eles = if isRemove then (l.eles.drop s).take k else l.eles := by
  cases isRemove
  · exact ⟨l, rfl, rfl, rfl⟩
  obtain ⟨idx, hidx⟩ := Option.isSome_iff_exists.mp
    (listSetupBinIndex_isSome sz hvalid
      (eleOffset sz l.eles (s + k) - eleOffset sz l.eles s) k 0 hk (Nat.zero_le _) (by omega))
  refine ⟨⟨l.ordered, elesOfRange sz (eleOffset sz l.eles s) (eleOffset sz l.eles (s + k)) 0 l.eles,
    idx⟩, by simp [trimBin, hidx], rfl, ?_⟩
  simp only [if_true]
  rw [elesOfRange_offsets hsz (by omega) hsk, Nat.add_sub_cancel_left]

end Results

section Meets

variable [LinearOrder α] {sz}

def IndexResultType (rd : CdtResultData) : Prop :=
  rd.type ∈ [.none, .count, .index, .revIndex, .value]

theorem not_key_or_map {rd : CdtResultData} (htype : IndexResultType rd) :
    ¬ (rd.type = .key ∨ rd.type = .map) := by
  simp only [IndexResultType, List.mem_cons, List.not_mem_nil, or_false] at htype
  rcases htype with h | h | h | h | h <;> simp [h]

theorem not_returnRange {rd : CdtResultData} (htype : IndexResultType rd) :
    rd.isReturnIndexRange = false ∧ rd.isReturnRankRange = false := by
  simp only [IndexResultType, List.mem_cons, List.not_mem_nil, or_false] at htype
  obtain ⟨type, inverted, isMulti⟩ := rd
  rcases htype with rfl | rfl | rfl | rfl | rfl <;> exact ⟨rfl, rfl⟩

theorem indexRangeRemove_zero_meets {l : PackedList α} (isRemove : Bool) {rd : CdtResultData}
    (hinv : rd.inverted = false) (htype : IndexResultType rd) {s : ℕ} (hs : s ≤ l.eles.length) :
    ∃ r, indexRangeRemove sz l isRemove rd s 0 = some r ∧ IndexRangeMeets l isRemove rd s 0 r := by
  refine ⟨_, by rw [indexRangeRemove, if_pos rfl, if_neg (not_key_or_map htype)], ?_⟩
  have hpos : selectedPositions l.eles.length s 0 false = [] := by
    rw [selectedPositions_false (by omega)]
    rfl
  obtain ⟨type, inverted, isMulti⟩ := rd
  obtain rfl : inverted = false := hinv
  refine ⟨rfl, rfl, by cases isRemove <;> simp [selectedEles_zero_true], ?_⟩
  simp only [IndexResultType, List.mem_cons, List.not_mem_nil, or_false] at htype
  rcases htype with rfl | rfl | rfl | rfl | rfl
  · rfl
  · simp [IndexRangeResult, selectedEles_zero_false, resultDataSetNotFound]
  · cases isMulti <;> simp [IndexRangeResult, hpos, resultDataSetNotFound]
  · cases isMulti <;> simp [IndexRangeResult, selectedRuns, hpos, resultDataSetNotFound]
  · cases isMulti <;> simp [IndexRangeResult, selectedEles_zero_false, resultDataSetNotFound]

theorem indexRangeRemove_pos_meets (hsz : ∀ x, 0 < sz x) {l : PackedList α}
    (hvalid : l.IndexValid sz) (hn : l.eles.length < 2 ^ 32) (isRemove : Bool) {rd : CdtResultData}
    (hinv : rd.inverted = false) (htype : IndexResultType rd) {s k : ℕ} (hk : 0 < k)
    (hsk : s + k ≤ l.eles.length) (hvalue : rd.type = .value → rd.isMulti = true ∨ k ≤ 1) :
    ∃ r, indexRangeRemove sz l isRemove rd s k = some r ∧ IndexRangeMeets l isRemove rd s k r := by
  obtain ⟨op, hop, hcount, hsegs, hremoved, hrsz⟩ := packedListOpRemove_spec hsz hk hsk
  obtain ⟨bin, hbin, hbord, hbeles⟩ := removeBin_spec hvalid isRemove hsk hcount hsegs
  have hsn : (UInt32.ofNat s).toNat = s := toNat_ofNat_of_lt (by omega)
  have hkn : (UInt32.ofNat k).toNat = k := toNat_ofNat_of_lt (by omega)
  have hnn : (UInt32.ofNat l.eles.length).toNat = l.eles.length := toNat_ofNat_of_lt hn
  have hk32 : UInt32.ofNat k ≠ 0 := fun h => by
    rw [ofNat_eq_zero_iff (by omega)] at h
    omega
  have hbinEles : bin.eles = if isRemove then selectedEles l.eles s k (!false) else l.eles := by
    rw [hbeles]
    cases isRemove <;> simp [selectedEles]
  have hpos := selectedPositions_false hsk
  rw [indexRangeRemove, if_neg (by omega), hop]
  dsimp only
  rw [hbin, Option.bind_some]
  obtain ⟨type, inverted, isMulti⟩ := rd
  obtain rfl : inverted = false := hinv
  simp only [IndexResultType, List.mem_cons, List.not_mem_nil, or_false] at htype
  rcases htype with rfl | rfl | rfl | rfl | rfl
  · exact ⟨_, rfl, rfl, hbord, hbinEles, rfl⟩
  · refine ⟨_, rfl, rfl, hbord, hbinEles, ?_⟩
    simp only [IndexRangeResult, selectedEles, Bool.false_eq_true, if_false, List.length_take,
      List.length_drop, hcount, ResultValue.int.injEq]
    omega
  · refine ⟨_, rfl, rfl, hbord, hbinEles, ?_⟩
    cases isMulti
    · simp [IndexRangeResult, resultDataSetIndexRankCount, indexRankResult, hk32, hsn,
        Nat.pos_iff_ne_zero.mp hk]
    · simp only [IndexRangeResult, resultDataSetIndexRankCount, indexRankResult, if_true,
        Bool.not_true, Bool.false_eq_true, if_false, hpos]
      rw [addIntRange_eq false (by omega), hsn, hkn]
      rfl
  · refine ⟨_, rfl, rfl, hbord, hbinEles, ?_⟩
    cases isMulti
    · simp only [IndexRangeResult, resultDataSetIndexRankCount, indexRankResult, Bool.not_false,
        if_true, hk32, if_false, Bool.false_eq_true, Nat.pos_iff_ne_zero.mp hk,
        toNat_ofNat_sub_sub_one (show s < l.eles.length by omega) hn]
      congr 2
      omega
    · simp only [IndexRangeResult, resultDataSetIndexRankCount, indexRankResult, if_true,
        Bool.not_true, Bool.false_eq_true, if_false]
      rw [addIntRange_eq true (by omega), hsn, hkn, hnn, selectedRuns, hpos, splitBy_range' hk,
        List.flatMap_singleton, mirror_reverse_range' hsk, if_pos rfl]
  · cases isMulti
    · have hk1 : k ≤ 1 := by simpa using hvalue rfl
      simp only [Bool.false_eq_true, if_false, hrsz, hremoved, if_pos hk1]
      exact ⟨_, rfl, rfl, hbord, hbinEles, by simp [IndexRangeResult, selectedEles]⟩
    · simp only [if_true, hremoved]
      exact ⟨_, rfl, rfl, hbord, hbinEles, by simp [IndexRangeResult, selectedEles]⟩

theorem indexRangeRemove_meets (hsz : ∀ x, 0 < sz x) {l : PackedList α}
    (hvalid : l.IndexValid sz) (hn : l.eles.length < 2 ^ 32) (isRemove : Bool) {rd : CdtResultData}
    (hinv : rd.inverted = false) (htype : IndexResultType rd) {s k : ℕ}
    (hsk : s + k ≤ l.eles.length) (hvalue : rd.type = .value → rd.isMulti = true ∨ k ≤ 1) :
    ∃ r, indexRangeRemove sz l isRemove rd s k = some r ∧ IndexRangeMeets l isRemove rd s k r := by
  rcases Nat.eq_zero_or_pos k with rfl | hk
  · exact indexRangeRemove_zero_meets isRemove hinv htype (by omega)
  · exact indexRangeRemove_pos_meets hsz hvalid hn isRemove hinv htype hk hsk hvalue

theorem packedListTrim_meets (hsz : ∀ x, 0 < sz x) {l : PackedList α} (hvalid : l.IndexValid sz)
    (hn : l.eles.length < 2 ^ 32) (isRemove : Bool) {rd : CdtResultData}
    (hmulti : rd.isMulti = true) (hinv : rd.inverted = true) (htype : IndexResultType rd)
    {s k : ℕ} (hs : 0 < s) (hk : 0 < k) (hsk : s + k < l.eles.length) :
    ∃ r, packedListTrim sz l isRemove { rd with inverted := false } s k = some r ∧
      IndexRangeMeets l isRemove rd s k r := by
  have hoff : ∀ {j t}, j < t → t ≤ l.eles.length → eleOffset sz l.eles j < eleOffset sz l.eles t :=
    fun hjt ht => eleOffset_lt hsz hjt ht
  have h0 : 0 < eleOffset sz l.eles s := by simpa [eleOffset_zero] using hoff hs (by omega)
  have h01 : eleOffset sz l.eles s < eleOffset sz l.eles (s + k) := hoff (by omega) hsk.le
  have h1 : eleOffset sz l.eles (s + k) < eleOffset sz l.eles l.eles.length := hoff hsk le_rfl
  obtain ⟨bin, hbin, hbord, hbeles⟩ := trimBin_spec hsz hvalid isRemove hk hsk.le
  have hbinEles : bin.eles = if isRemove then selectedEles l.eles s k (!true) else l.eles := by
    rw [hbeles]
    cases isRemove <;> simp [selectedEles]
  have hsn : (UInt32.ofNat s).toNat = s := toNat_ofNat_of_lt (by omega)
  have hnn : (UInt32.ofNat l.eles.length).toNat = l.eles.length := toNat_ofNat_of_lt hn
  have hrest : (UInt32.ofNat (s + k)).toNat = s + k := toNat_ofNat_of_lt (by omega)
  have hrestn : (UInt32.ofNat (l.eles.length - (s + k))).toNat = l.eles.length - (s + k) :=
    toNat_ofNat_of_lt (by omega)
  have hpos := selectedPositions_true hsk.le
  have hfront : (0 : UInt32).toNat + (UInt32.ofNat s).toNat ≤ (UInt32.ofNat l.eles.length).toNat := by
    rw [UInt32.toNat_zero, hsn, hnn]
    omega
  have hback : (UInt32.ofNat (s + k)).toNat + (UInt32.ofNat (l.eles.length - (s + k))).toNat ≤
      (UInt32.ofNat l.eles.length).toNat := by
    rw [hrest, hrestn, hnn]
    omega
  simp only [packedListTrim, hmulti, Bool.not_true, Bool.false_eq_true, if_false]
  rw [if_neg (show ¬((eleOffset sz l.eles s = 0 ∧ s ≠ 0) ∨ eleOffset sz l.eles (s + k) = 0) by
    omega)]
  rw [hbin, Option.bind_some]
  obtain ⟨type, inverted, isMulti⟩ := rd
  obtain rfl : inverted = true := hinv
  obtain rfl : isMulti = true := hmulti
  simp only [IndexResultType, List.mem_cons, List.not_mem_nil, or_false] at htype
  rcases htype with rfl | rfl | rfl | rfl | rfl
  · exact ⟨_, rfl, rfl, hbord, hbinEles, rfl⟩
  · refine ⟨_, rfl, rfl, hbord, hbinEles, ?_⟩
    simp only [IndexRangeResult, selectedEles, if_true, List.length_append, List.length_take,
      List.length_drop, ResultValue.int.injEq]
    omega
  · refine ⟨_, rfl, rfl, hbord, hbinEles, ?_⟩
    simp only [IndexRangeResult, if_true, hpos, List.map_append]
    rw [show (ResultType.index == ResultType.revIndex) = false by decide,
      addIntRange_eq false hfront, addIntRange_eq false hback, hsn, hrest, hrestn,
      UInt32.toNat_zero]
    simp only [Bool.false_eq_true, if_false, Nat.sub_sub]
  · refine ⟨_, rfl, rfl, hbord, hbinEles, ?_⟩
    simp only [IndexRangeResult, if_true]
    rw [show (ResultType.revIndex == ResultType.revIndex) = true by decide,
      addIntRange_eq true hfront, addIntRange_eq true hback, hsn, hrest, hrestn,
      UInt32.toNat_zero, hnn]
    have hruns : selectedRuns l.eles.length s k true =
        [List.range' 0 s, List.range' (s + k) (l.eles.length - s - k)] := by
      rw [selectedRuns, hpos, List.splitBy_append, splitBy_range' hs, splitBy_range' (by omega)]
      · rfl
      intro x hx y hy
      rw [List.getLast?_range', if_neg (by omega), Option.mem_some_iff] at hx
      rw [List.head?_range', if_neg (by omega), Option.mem_some_iff] at hy
      simp only [beq_eq_false_iff_ne]
      omega
    rw [hruns, List.flatMap_cons, List.flatMap_cons, List.flatMap_nil, List.append_nil,
      mirror_reverse_range' (by omega), mirror_reverse_range' (by omega)]
    simp only [if_true, Nat.sub_zero, Nat.sub_sub, Nat.sub_self]
  · refine ⟨_, rfl, rfl, hbord, hbinEles, ?_⟩
    have hfirst := elesOfRange_offsets_start hsz (show s ≤ l.eles.length by omega)
    simp only [IndexRangeResult, if_true, selectedEles, Nat.add_sub_cancel' h1.le, hfirst,
      elesOfRange_offsets_end hsz hsk.le]

theorem packedListGetRemoveByIndexRange_meets (hsz : ∀ x, 0 < sz x) {l : PackedList α}
    (hvalid : l.IndexValid sz) (hn : l.eles.length < 2 ^ 32) (isRemove : Bool) (index : Int)
    (count : ℕ) {rd : CdtResultData} (htype : IndexResultType rd)
    (hinv : rd.inverted = true → rd.isMulti = true)
    (hvalue : rd.type = .value → rd.isMulti = true ∨ count ≤ 1) {s k : ℕ}
    (hcalc : calcIndexCount index count l.eles.length rd.isMulti = some (s, k)) :
    ∃ r, packedListGetRemoveByIndexRange sz l isRemove index count rd = some r ∧
      IndexRangeMeets l isRemove rd s k r := by
  have hsk := calcIndexCount_le hcalc
  rw [packedListGetRemoveByIndexRange]
  dsimp only
  rw [hcalc]
  dsimp only
  cases hi : rd.inverted
  · rw [if_neg Bool.false_ne_true]
    refine indexRangeRemove_meets hsz hvalid hn isRemove hi htype hsk fun hv => ?_
    cases hm : rd.isMulti
    · rcases hvalue hv with h | h
      · exact absurd (hm ▸ h) Bool.false_ne_true
      · exact .inr ((calcIndexCount_single_le (hm ▸ hcalc)).trans h)
    · exact .inl rfl
  have hmulti := hinv hi
  obtain ⟨hir, hrr⟩ := not_returnRange htype
  rw [if_pos rfl, if_neg (by simp [hmulti, hir, hrr])]
  have hplain : ∀ {i c : ℕ}, i + c ≤ l.eles.length → ∃ r,
      indexRangeRemove sz l isRemove { rd with inverted := false } i c = some r ∧
        IndexRangeMeets l isRemove { rd with inverted := false } i c r := fun h =>
    indexRangeRemove_meets hsz hvalid hn isRemove
      (show ({ rd with inverted := false } : CdtResultData).inverted = false from rfl)
      (show IndexResultType ({ rd with inverted := false } : CdtResultData) from htype) h
      fun _ => .inl hmulti
  by_cases hk0 : k = 0
  · rw [if_pos hk0]
    subst hk0
    obtain ⟨r, hr, hm⟩ := hplain (i := 0) (c := l.eles.length) (by omega)
    obtain ⟨h1, h2, h3⟩ := selection_invert_empty l.eles (s := s) (by omega)
    exact ⟨r, hr, hm.of_uninverted (by rw [hi]; exact h1) (by rw [hi]; exact h2)
      (by rw [hi]; exact h3) hmulti⟩
  rw [if_neg hk0]
  by_cases hs0 : s = 0
  · rw [if_pos hs0]
    subst hs0
    obtain ⟨r, hr, hm⟩ := hplain (i := k) (c := l.eles.length - k) (by omega)
    obtain ⟨h1, h2, h3⟩ := selection_invert_head l.eles (k := k) (by omega)
    exact ⟨r, hr, hm.of_uninverted (by rw [hi]; exact h1) (by rw [hi]; exact h2)
      (by rw [hi]; exact h3) hmulti⟩
  rw [if_neg hs0]
  by_cases htail : s + k ≥ l.eles.length
  · rw [if_pos htail]
    obtain ⟨r, hr, hm⟩ := hplain (i := 0) (c := s) (by omega)
    obtain ⟨h1, h2, h3⟩ := selection_invert_tail l.eles (s := s) (k := k) (by omega)
    exact ⟨r, hr, hm.of_uninverted (by rw [hi]; exact h1) (by rw [hi]; exact h2)
      (by rw [hi]; exact h3) hmulti⟩
  rw [if_neg htail]
  obtain ⟨r, hr, hm⟩ := packedListTrim_meets hsz hvalid hn isRemove hmulti hi htype
    (Nat.pos_of_ne_zero hs0) (Nat.pos_of_ne_zero hk0) (by omega)
  exact ⟨r, hr, hm⟩

theorem packedListGetRemoveByIndexRange_fails_iff (hsz : ∀ x, 0 < sz x) {l : PackedList α}
    (hvalid : l.IndexValid sz) (hn : l.eles.length < 2 ^ 32) (isRemove : Bool) (index : Int)
    (count : ℕ) {rd : CdtResultData} (htype : IndexResultType rd)
    (hinv : rd.inverted = true → rd.isMulti = true)
    (hvalue : rd.type = .value → rd.isMulti = true ∨ count ≤ 1) :
    packedListGetRemoveByIndexRange sz l isRemove index count rd =
        some (-resultFailParameter, l, .unset) ↔
      calcIndexCount index count l.eles.length rd.isMulti = none := by
  constructor
  · intro h
    cases hcalc : calcIndexCount index count l.eles.length rd.isMulti with
    | none => rfl
    | some p =>
      obtain ⟨r, hr, hm⟩ := packedListGetRemoveByIndexRange_meets hsz hvalid hn isRemove index count
        htype hinv hvalue hcalc
      rw [h, Option.some.injEq] at hr
      have := hm.code
      rw [← hr] at this
      simp [resultFailParameter] at this
  · intro h
    simp [packedListGetRemoveByIndexRange, h]

theorem packedListGetRemoveByIndexRange_spec (hsz : ∀ x, 0 < sz x) {l : PackedList α}
    (hvalid : l.IndexValid sz) (hn : l.eles.length < 2 ^ 32) (isRemove : Bool) (index : Int)
    (count : ℕ) {rd : CdtResultData} (htype : IndexResultType rd)
    (hinv : rd.inverted = true → rd.isMulti = true)
    (hvalue : rd.type = .value → rd.isMulti = true ∨ count ≤ 1) :
    (packedListGetRemoveByIndexRange sz l isRemove index count rd =
        some (-resultFailParameter, l, .unset) ↔
      rd.isMulti = false ∧ (index < -(l.eles.length : Int) ∨ (l.eles.length : Int) ≤ index)) ∧
    ∀ s k, calcIndexCount index count l.eles.length rd.isMulti = some (s, k) →
      ∃ r, packedListGetRemoveByIndexRange sz l isRemove index count rd = some r ∧
        IndexRangeMeets l isRemove rd s k r :=
  ⟨(packedListGetRemoveByIndexRange_fails_iff hsz hvalid hn isRemove index count htype hinv
      hvalue).trans calcIndexCount_eq_none_iff,
    fun _ _ hcalc => packedListGetRemoveByIndexRange_meets hsz hvalid hn isRemove index count htype
      hinv hvalue hcalc⟩

def fourEles : PackedList ℕ := ⟨false, [3, 5, 7, 9], none⟩

theorem packedListGetRemoveByIndexRange_spec_trim :
    (packedListGetRemoveByIndexRange (fun _ => 1) fourEles true 1 2 ⟨.value, true, true⟩ =
        some (-resultFailParameter, fourEles, .unset) ↔
      (⟨.value, true, true⟩ : CdtResultData).isMulti = false ∧
        ((1 : Int) < -(fourEles.eles.length : Int) ∨ (fourEles.eles.length : Int) ≤ 1)) ∧
    ∀ s k, calcIndexCount 1 2 fourEles.eles.length (⟨.value, true, true⟩ : CdtResultData).isMulti =
        some (s, k) →
      ∃ r, packedListGetRemoveByIndexRange (fun _ => 1) fourEles true 1 2 ⟨.value, true, true⟩ =
          some r ∧ IndexRangeMeets fourEles true ⟨.value, true, true⟩ s k r :=
  packedListGetRemoveByIndexRange_spec (fun _ => Nat.one_pos)
    (fun o h => by simp [fourEles] at h) (by decide) true 1 2 (by simp [IndexResultType])
    (fun _ => rfl) (fun _ => .inl rfl)

def twoEles : PackedList ℕ := ⟨false, [3, 5], none⟩

/-- A single-result `VALUE` read of two elements trips the assertion that a
single result is one element, and `REVINDEX` reports a range's positions from
the end in increasing order. -/
theorem index_range_single_value_crashes :
    packedListGetRemoveByIndexRange (fun _ => 1) twoEles false 0 2 ⟨.value, false, false⟩ = none ∧
      (packedListGetRemoveByIndexRange (fun _ => 1) fourEles false 1 2
        ⟨.revIndex, false, true⟩).map (·.2.2) = some (.ints [1, 2]) :=
  ⟨rfl, by decide⟩

end Meets

end Aerospike.Cdt
