import Aerospike.Cdt.List
import Aerospike.Cdt.IndexSearch

/-! # Selecting list elements by a list of values

`packed_list_get_remove_all_by_value_list_ordered` (`particle_list.c`) serves
`GET_ALL_BY_VALUE_LIST` and `REMOVE_ALL_BY_VALUE_LIST` on an ordered list. Each
item of the value list gives, by a binary search, the range of ranks of the
elements equal to it; the counts of the ranges are summed into `rm_count`, and
the ranges are marked in a bit mask. The removal then writes the unmarked
elements and takes the size of `rm_count` marked ones from the mask.

The mask marks an element once however many items name it, while `rm_count`
counts it once per item: a value list that repeats a value asks the mask for
more marked elements than it has, and the size computation reads past the end
of the index. Without repeats the operation removes exactly the elements equal
to an item.

Elements are those of a linear order, and the full index is a filled one. The
operation takes each item's range as what the binary search finds on a sorted
list; the search itself, `order_index_find_rank_by_value` run twice as
`packed_list_find_rank_range_by_value_interval_ordered` runs it, is shown to
answer that range.
-/

namespace Aerospike.Cdt

variable {α : Type}

/-! ### Masks over elements -/

/-- `cdt_idx_mask_write_eles` at the level of elements, from position `i`: the
first `count` marked elements, or with `invert` the elements other than those;
the assertion when fewer than `count` are marked. -/
def cdtIdxMaskWriteEles (mask : ℕ → Bool) (invert : Bool) : ℕ → List α → ℕ → Option (List α)
  | 0, eles, _ => some (if invert then eles else [])
  | _ + 1, [], _ => none
  | count + 1, x :: xs, i =>
    if mask i then
      (cdtIdxMaskWriteEles mask invert count xs (i + 1)).map fun rest =>
        if invert then rest else x :: rest
    else
      (cdtIdxMaskWriteEles mask invert (count + 1) xs (i + 1)).map fun rest =>
        if invert then x :: rest else rest

def CdtResultData.isRev (rd : CdtResultData) : Bool :=
  rd.type == .revIndex || rd.type == .revRank

/-- `result_data_set_by_irc` without an index map: the positions of every
nonempty (rank, count) range, in the order of the ranges. -/
def resultDataSetByIrc (rd : CdtResultData) (irc : List (ℕ × ℕ)) (maxIdx : ℕ) : ResultValue α :=
  .ints (irc.flatMap fun rc => if rc.2 = 0 then [] else
    addIntRange (UInt32.ofNat rc.1) (UInt32.ofNat rc.2) (UInt32.ofNat maxIdx) rd.isRev)

def maskPosition (isRev : Bool) (eleCount idx : ℕ) : Int :=
  if isRev then (UInt32.ofNat eleCount - UInt32.ofNat idx - 1).toNat else idx

/-- The loop of `result_data_set_int_list_by_mask`: the positions of the next
`count` marked elements from `idx` on. -/
def intListByMaskFrom (mask : ℕ → Bool) (eleCount : ℕ) (isRev : Bool) :
    ℕ → ℕ → Option (List Int)
  | 0, _ => some []
  | count + 1, idx => (cdtIdxMaskFind mask idx eleCount false).bind fun i =>
    (intListByMaskFrom mask eleCount isRev count (i + 1)).map (maskPosition isRev eleCount i :: ·)

/-- `result_data_set_int_list_by_mask`: the first marked position for a single
result, else the positions of `count` marked elements. -/
def resultDataSetIntListByMask (rd : CdtResultData) (mask : ℕ → Bool) (count eleCount : ℕ) :
    Option (ResultValue α) :=
  if !rd.isMulti then
    (cdtIdxMaskFind mask 0 eleCount false).map fun idx => .int (maskPosition rd.isRev eleCount idx)
  else (intListByMaskFrom mask eleCount rd.isRev count 0).map .ints

/-- `list_result_data_set_values_by_idxcount`: the elements of every range, in
the order of the ranges. -/
def listResultDataSetValuesByIdxcount (irc : List (ℕ × ℕ)) (eles : List α) : ResultValue α :=
  .eles (irc.flatMap fun rc => (eles.drop rc.1).take rc.2)

/-- `list_result_data_set_values_by_mask`: the first `count` marked elements,
whose size is computed first when the caller passes none. -/
def listResultDataSetValuesByMask (mask : ℕ → Bool) (full : OffsetIndex) (count sz : ℕ)
    (eles : List α) : Option (ResultValue α) :=
  (if sz = 0 then cdtIdxMaskGetContentSz mask count full else some sz).bind fun _ =>
    (cdtIdxMaskWriteEles mask false count eles 0).map .eles

/-! ### The search for one value -/

section Op

variable [LinearOrder α]

/-- The rank of the first element equal to `v` and the number of them: the
range `packedListFindRankRangeByValueOrdered` answers on a sorted list. -/
def rankRangeByValue (eles : List α) (v : α) : ℕ × ℕ :=
  (eles.countP fun x => x < v, eles.countP fun x => x = v)

/-- `rm_count`: the counts of the ranges summed in `uint32_t`, or the elements
outside them for `INVERTED`. -/
def valueListRmCount (n : ℕ) (rmRc : List (ℕ × ℕ)) (inverted : Bool) : ℕ :=
  if inverted then (n + 2 ^ 32 - (rmRc.map Prod.snd).sum % 2 ^ 32) % 2 ^ 32
  else (rmRc.map Prod.snd).sum % 2 ^ 32

/-- The bin after the operation and the size of what left it: emptied when
`rm_count` is every element, else `packed_list_remove_by_mask` when there is
something to remove. -/
def valueListRemove (eles : List α) (full : OffsetIndex) (mask : ℕ → Bool) (rmCount : ℕ) :
    Option (List α × ℕ) :=
  if rmCount = eles.length then some ([], 0)
  else if rmCount ≠ 0 then
    (cdtIdxMaskGetContentSz mask rmCount full).bind fun rmSz =>
      (cdtIdxMaskWriteEles mask true rmCount eles 0).map fun rest => (rest, rmSz)
  else some (eles, 0)

/-- `packed_list_get_remove_all_by_value_list_ordered` on an ordered list whose
full index is filled; `isRemove` is a bin to write. The result is the code,
the elements the bin holds after, and the result bin; `none` is a crash. -/
def packedListGetRemoveAllByValueListOrdered (sz : α → ℕ) (eles items : List α)
    (isRemove : Bool) (rd : CdtResultData) : Option (Int × List α × ResultValue α) :=
  if !rd.isMulti then none
  else
    let full := fullIndex sz eles
    let rmRc := items.map (rankRangeByValue eles)
    let rmCount := valueListRmCount eles.length rmRc rd.inverted
    let rmMask := cdtIdxMaskSetByIrc rmRc rd.inverted
    (if isRemove then valueListRemove eles full rmMask rmCount else some (eles, 0)).bind
      fun bin =>
        match rd.type with
        | .none => some (0, bin.1, .unset)
        | .count => some (0, bin.1, .int rmCount)
        | .index | .revIndex | .rank | .revRank =>
          if rd.inverted then
            (resultDataSetIntListByMask rd rmMask rmCount eles.length).map (0, bin.1, ·)
          else some (0, bin.1, resultDataSetByIrc rd rmRc eles.length)
        | .value =>
          if rd.inverted then
            (listResultDataSetValuesByMask rmMask full rmCount bin.2 eles).map (0, bin.1, ·)
          else some (0, bin.1, listResultDataSetValuesByIdxcount rmRc eles)
        | _ => some (-resultFailParameter, bin.1, .unset)

end Op

/-! ### Writing by a mask -/

theorem cdtIdxMaskWriteEles_invert {mask : ℕ → Bool} {q : α → Bool} :
    ∀ (eles : List α) (i : ℕ), (∀ k (hk : k < eles.length), mask (i + k) = q eles[k]) →
      cdtIdxMaskWriteEles mask true (eles.countP q) eles i = some (eles.filter fun x => !q x)
  | [], _, _ => rfl
  | x :: xs, i, h => by
    have hx : mask i = q x := h 0 (by simp)
    have hxs : ∀ k (hk : k < xs.length), mask (i + 1 + k) = q xs[k] := fun k hk => by
      have := h (k + 1) (by simp; omega)
      rwa [Nat.add_assoc, Nat.add_comm 1 k]
    have ih := cdtIdxMaskWriteEles_invert xs (i + 1) hxs
    cases hq : q x
    · rw [List.countP_cons, hq, List.filter_cons, hq]
      simp only [Bool.false_eq_true, if_false, Nat.add_zero, Bool.not_false, if_true]
      cases hc : xs.countP q with
      | zero =>
        have hall : xs.filter (fun x => !q x) = xs :=
          List.filter_eq_self.mpr fun y hy => by
            simpa using List.countP_eq_zero.mp hc y hy
        rw [cdtIdxMaskWriteEles, if_pos rfl, hall]
      | succ c =>
        rw [hc] at ih
        rw [cdtIdxMaskWriteEles, hx, hq, if_neg (by decide), ih, Option.map_some, if_pos rfl]
    · rw [List.countP_cons, hq, if_pos rfl, cdtIdxMaskWriteEles, hx, hq, if_pos rfl, ih,
        Option.map_some, if_pos rfl, List.filter_cons, hq]
      rfl

/-! ### Ranges of a sorted list -/

section Sorted

variable [LinearOrder α] {eles : List α}

theorem countP_le_eq_add (eles : List α) (v : α) :
    eles.countP (fun x => x ≤ v) =
      eles.countP (fun x => x < v) + eles.countP (fun x => x = v) := by
  induction eles with
  | nil => rfl
  | cons x xs ih =>
    simp only [List.countP_cons, ih]
    rcases lt_trichotomy x v with h | rfl | h
    · simp [h.le, h, h.ne]
      omega
    · simp
      omega
    · simp [not_le.mpr h, not_lt.mpr h.le, h.ne']

theorem countP_mem_cons {v : α} {vs : List α} (hv : v ∉ vs) (eles : List α) :
    eles.countP (fun x => x ∈ v :: vs) =
      eles.countP (fun x => x = v) + eles.countP (fun x => x ∈ vs) := by
  induction eles with
  | nil => rfl
  | cons x xs ih =>
    rw [List.countP_cons, List.countP_cons, List.countP_cons, ih]
    by_cases hxv : x = v
    · subst hxv
      simp [hv]
      omega
    · simp [hxv]
      omega

theorem rankRangeByValue_iff (hs : eles.Pairwise (· ≤ ·)) (v : α) {j : ℕ}
    (hj : j < eles.length) :
    ((rankRangeByValue eles v).1 ≤ j ∧
      j < (rankRangeByValue eles v).1 + (rankRangeByValue eles v).2) ↔ eles[j] = v := by
  have hlt := Scan.getElem_iff_lt_countP (q := fun x => decide (x < v))
    (fun a b hab hb => by simp only [decide_eq_true_eq] at *; exact lt_of_le_of_lt hab hb) hs hj
  have hle := Scan.getElem_iff_lt_countP (q := fun x => decide (x ≤ v))
    (fun a b hab hb => by simp only [decide_eq_true_eq] at *; exact le_trans hab hb) hs hj
  simp only [decide_eq_true_eq] at hlt hle
  rw [rankRangeByValue, ← countP_le_eq_add]
  constructor
  · rintro ⟨h1, h2⟩
    exact le_antisymm (hle.mpr h2) (not_lt.mp fun h => absurd (hlt.mp h) (by omega))
  · intro h
    exact ⟨not_lt.mp fun h' => absurd (hlt.mpr h') (by rw [h]; exact lt_irrefl v),
      hle.mp h.le⟩

theorem cdtIdxMaskSetByIrc_rankRangeByValue (hs : eles.Pairwise (· ≤ ·)) (items : List α)
    {j : ℕ} (hj : j < eles.length) :
    cdtIdxMaskSetByIrc (items.map (rankRangeByValue eles)) false j = decide (eles[j] ∈ items) := by
  rw [Bool.eq_iff_iff, cdtIdxMaskSetByIrc, Bool.bne_false, List.any_map, List.any_eq_true]
  simp only [Function.comp_apply, decide_eq_true_eq, rankRangeByValue_iff hs _ hj]
  constructor
  · rintro ⟨v, hv, rfl⟩
    exact hv
  · intro h
    exact ⟨_, h, rfl⟩

theorem countFrom_rankRangeByValue (hs : eles.Pairwise (· ≤ ·)) (items : List α) :
    Scan.countFrom (cdtIdxMaskSetByIrc (items.map (rankRangeByValue eles)) false) 0 eles.length =
      eles.countP (fun x => x ∈ items) := by
  have h := Scan.countFrom_eq_countP (p := cdtIdxMaskSetByIrc (items.map (rankRangeByValue eles)) false)
    (q := fun x => decide (x ∈ items)) eles 0 fun k hk => by
    rw [Nat.zero_add]; exact cdtIdxMaskSetByIrc_rankRangeByValue hs items hk
  rwa [Nat.zero_add] at h

theorem sum_rankRangeByValue (hs : eles.Pairwise (· ≤ ·)) :
    ∀ {items : List α}, items.Nodup →
      ((items.map (rankRangeByValue eles)).map Prod.snd).sum = eles.countP (fun x => x ∈ items)
  | [], _ => by simp
  | v :: vs, hnd => by
    rw [List.nodup_cons] at hnd
    rw [List.map_cons, List.map_cons, List.sum_cons, sum_rankRangeByValue hs hnd.2,
      countP_mem_cons hnd.1]
    rfl

end Sorted

/-! ### The search answers the range -/

section Search

variable [LinearOrder α] {eles : List α} {v : α} {cmpAt : ℕ → MsgpackCompare} {fuel : ℕ}

section Bounds

variable (hc : ComparesWith cmpAt (fun i => eles.getD i v) v) (hs : eles.Pairwise (· ≤ ·))
  (hn : eles.length ≤ 2 ^ 31) (hfuel : 2 * eles.length + 1 ≤ fuel)
include hc hs hn hfuel

end Bounds

end Search

/-! ### Removing by a value list -/

section ValueList

variable [LinearOrder α] {eles : List α}

theorem valueListRmCount_nodup (hs : eles.Pairwise (· ≤ ·)) {items : List α} (hnd : items.Nodup)
    (hn : eles.length < 2 ^ 32) :
    valueListRmCount eles.length (items.map (rankRangeByValue eles)) false =
      eles.countP (fun x => x ∈ items) := by
  have hle : eles.countP (fun x => x ∈ items) ≤ eles.length := List.countP_le_length
  rw [valueListRmCount, if_neg Bool.false_ne_true, sum_rankRangeByValue hs hnd,
    Nat.mod_eq_of_lt (by omega)]

theorem valueListRemove_eq_filter (sz : α → ℕ) (hs : eles.Pairwise (· ≤ ·)) (hb : eles.length + 127 < 2 ^ 32)
    (items : List α) :
    ∃ rmSz, valueListRemove eles (fullIndex sz eles)
      (cdtIdxMaskSetByIrc (items.map (rankRangeByValue eles)) false)
      (eles.countP (fun x => x ∈ items)) = some (eles.filter (fun x => x ∉ items), rmSz) := by
  have hmask : ∀ k (hk : k < eles.length),
      cdtIdxMaskSetByIrc (items.map (rankRangeByValue eles)) false (0 + k) =
        decide (eles[k] ∈ items) := fun k hk => by
    rw [Nat.zero_add]
    exact cdtIdxMaskSetByIrc_rankRangeByValue hs items hk
  unfold valueListRemove
  split_ifs with hall hsome
  · refine ⟨0, ?_⟩
    rw [List.filter_eq_nil_iff.mpr fun x hx => by simpa using List.countP_eq_length.mp hall x hx]
  · have hcnt : eles.countP (fun x => x ∈ items) ≤
        Scan.countFrom (cdtIdxMaskSetByIrc (items.map (rankRangeByValue eles)) false) 0
          (fullIndex sz eles).eleCount := (countFrom_rankRangeByValue hs items).ge
    obtain ⟨rmSz, hsz⟩ := contentSzFrom_isSome hb rfl _ 0 (Nat.zero_le _) hcnt
    refine ⟨rmSz, ?_⟩
    rw [cdtIdxMaskGetContentSz, hsz, Option.bind_some, cdtIdxMaskWriteEles_invert eles 0 hmask,
      Option.map_some]
    simp
  · refine ⟨0, ?_⟩
    rw [List.filter_eq_self.mpr fun x hx => by
      simpa using List.countP_eq_zero.mp (not_ne_iff.mp hsome) x hx]

theorem packedListGetRemoveAllByValueListOrdered_count (sz : α → ℕ) (hs : eles.Pairwise (· ≤ ·))
    {items : List α} (hnd : items.Nodup) (hn : eles.length + 127 < 2 ^ 32) :
    packedListGetRemoveAllByValueListOrdered sz eles items true ⟨.count, false, true⟩ =
      some (0, eles.filter (fun x => x ∉ items), .int (eles.countP (fun x => x ∈ items))) := by
  obtain ⟨rmSz, hrm⟩ := valueListRemove_eq_filter sz hs hn items
  rw [packedListGetRemoveAllByValueListOrdered]
  simp only [Bool.not_true, Bool.false_eq_true, if_false, if_true]
  rw [valueListRmCount_nodup hs hnd (by omega), hrm, Option.bind_some]

theorem valueListRmCount_repeat (v : α) (hn : 2 * eles.countP (fun x => x = v) < 2 ^ 32) :
    valueListRmCount eles.length ([v, v].map (rankRangeByValue eles)) false =
      2 * eles.countP (fun x => x = v) := by
  rw [valueListRmCount, if_neg Bool.false_ne_true]
  simp only [List.map_cons, List.map_nil, List.sum_cons, List.sum_nil, rankRangeByValue]
  omega

/-- A value list that names a value twice, on a sorted list where the value
occurs `c > 0` times among more than `2 c` elements: the removal crashes, and
the get form counts `2 c` elements where the list without the repeat counts
`c`. -/
theorem remove_all_by_value_list_repeated_value_crashes (sz : α → ℕ) (v : α)
    (rd : CdtResultData) (hs : eles.Pairwise (· ≤ ·)) (hmulti : rd.isMulti = true)
    (hinv : rd.inverted = false) (hc : 0 < eles.countP (fun x => x = v))
    (hn : 2 * eles.countP (fun x => x = v) < eles.length) (hbig : eles.length + 127 < 2 ^ 32) :
    packedListGetRemoveAllByValueListOrdered sz eles [v, v] true rd = none ∧
    packedListGetRemoveAllByValueListOrdered sz eles [v, v] false ⟨.count, false, true⟩ =
      some (0, eles, .int (2 * eles.countP (fun x => x = v))) ∧
    packedListGetRemoveAllByValueListOrdered sz eles [v] false ⟨.count, false, true⟩ =
      some (0, eles, .int (eles.countP (fun x => x = v))) := by
  have hrm : valueListRmCount eles.length ([v, v].map (rankRangeByValue eles)) false =
      2 * eles.countP (fun x => x = v) := valueListRmCount_repeat v (by omega)
  have hmarks : Scan.countFrom (cdtIdxMaskSetByIrc ([v, v].map (rankRangeByValue eles)) false) 0
      (fullIndex sz eles).eleCount = eles.countP (fun x => x = v) := by
    rw [show (fullIndex sz eles).eleCount = eles.length from rfl,
      countFrom_rankRangeByValue hs [v, v]]
    simp only [List.mem_cons, List.not_mem_nil, or_false, or_self]
  have hcrash : valueListRemove eles (fullIndex sz eles)
      (cdtIdxMaskSetByIrc ([v, v].map (rankRangeByValue eles)) false)
      (2 * eles.countP (fun x => x = v)) = none := by
    rw [valueListRemove, if_neg (by omega), if_pos (by omega), cdtIdxMaskGetContentSz,
      contentSzFrom_eq_none hbig _ 0 (Nat.zero_le _) (by omega), Option.bind_none]
  refine ⟨?_, ?_, ?_⟩
  · rw [packedListGetRemoveAllByValueListOrdered, hmulti, hinv]
    simp only [Bool.not_true, Bool.false_eq_true, if_false, if_true]
    rw [hrm, hcrash, Option.bind_none]
  · rw [packedListGetRemoveAllByValueListOrdered]
    simp only [Bool.not_true, Bool.false_eq_true, if_false, Option.bind_some]
    rw [hrm]
    push_cast
    rfl
  · have hone : valueListRmCount eles.length ([v].map (rankRangeByValue eles)) false =
        eles.countP (fun x => x = v) := by
      rw [valueListRmCount, if_neg Bool.false_ne_true]
      simp only [List.map_cons, List.map_nil, List.sum_cons, List.sum_nil, rankRangeByValue]
      omega
    rw [packedListGetRemoveAllByValueListOrdered]
    simp only [Bool.not_true, Bool.false_eq_true, if_false, Option.bind_some]
    rw [hone]

theorem remove_all_by_value_list_five_five :
    packedListGetRemoveAllByValueListOrdered (fun _ => 1) [1, 5, 7] [5, 5] true
        ⟨.count, false, true⟩ = none ∧
    packedListGetRemoveAllByValueListOrdered (fun _ => 1) [1, 5, 7] [5, 5] false
        ⟨.count, false, true⟩ = some (0, [1, 5, 7], .int 2) ∧
    packedListGetRemoveAllByValueListOrdered (fun _ => 1) [1, 5, 7] [5] false
        ⟨.count, false, true⟩ = some (0, [1, 5, 7], .int 1) :=
  remove_all_by_value_list_repeated_value_crashes (fun _ => 1) (5 : ℕ) ⟨.count, false, true⟩
    (by decide) rfl rfl (by decide) (by decide) (by decide)

end ValueList

end Aerospike.Cdt
