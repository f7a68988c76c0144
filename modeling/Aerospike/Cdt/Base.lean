import Aerospike.Cdt.MaskFind

/-! # Collection data types: ranges, results and indexes

`cdt.c` holds what the list and map operations share. `calc_index_count` turns
the signed index and the count of an operation into an absolute range of the
collection. The `result_data_set_*` functions write what an operation returns
for the result types that only need positions: counts, indexes, ranks and
ranges. The offset index of a particle gives the byte offset of its elements,
and a bit mask marks the elements an operation selects; the scan for the next
marked element reads the mask's words in `uint32_t` arithmetic, and is
`Scan.findFrom` while the element count plus `127` fits in 32 bits.

The index and mask functions crash (`cf_crash`, `cf_assert`) on some inputs;
there they return `none`.
-/

namespace Aerospike.Cdt

/-- `AS_PROTO_RESULT_FAIL_PARAMETER`, returned negated by the operations. -/
def resultFailParameter : Int := 4

/-! ### Ranges -/

/-- `calc_index`: a negative index counts back from the end. -/
def calcIndex (index : Int) (maxIndex : ℕ) : Int :=
  if index < 0 then maxIndex + index else index

/-- `calc_count`: at most the elements from `index` to `maxIndex`. -/
def calcCount (index count maxIndex : ℕ) : ℕ :=
  if count ≥ maxIndex - index then maxIndex - index else count

/-- `calc_index_count_multi`: a range that starts before the collection is cut
to it, one that starts after it is empty. -/
def calcIndexCountMulti (inIndex : Int) (inCount eleCount : ℕ) : ℕ × ℕ :=
  if inIndex ≥ eleCount then (eleCount, 0)
  else if calcIndex inIndex eleCount < 0 then
    (0, if (-calcIndex inIndex eleCount).toNat < inCount then
      min (inCount - (-calcIndex inIndex eleCount).toNat) eleCount else 0)
  else
    ((calcIndex inIndex eleCount).toNat,
      calcCount (calcIndex inIndex eleCount).toNat inCount eleCount)

/-- `calc_index_count`: the absolute index and count; `none` (its `false`) for
a single-result operation whose index lies outside the collection. -/
def calcIndexCount (inIndex : Int) (inCount eleCount : ℕ) (isMulti : Bool) :
    Option (ℕ × ℕ) :=
  if isMulti then some (calcIndexCountMulti inIndex inCount eleCount)
  else if inIndex ≥ eleCount ∨ calcIndex inIndex eleCount < 0 then none
  else
    some ((calcIndex inIndex eleCount).toNat,
      calcCount (calcIndex inIndex eleCount).toNat inCount eleCount)

theorem calcCount_le (index count maxIndex : ℕ) : calcCount index count maxIndex ≤ maxIndex - index := by
  unfold calcCount
  split_ifs <;> omega

theorem calcIndexCount_le {inIndex : Int} {inCount eleCount : ℕ} {isMulti : Bool}
    {index count : ℕ} (h : calcIndexCount inIndex inCount eleCount isMulti = some (index, count)) :
    index + count ≤ eleCount := by
  unfold calcIndexCount at h
  split_ifs at h with hm hout
  · simp only [Option.some.injEq] at h
    unfold calcIndexCountMulti at h
    split_ifs at h with h1 h2 h3 <;> simp only [Prod.mk.injEq] at h <;> obtain ⟨rfl, rfl⟩ := h
    · omega
    · omega
    · omega
    · have := calcCount_le (calcIndex inIndex eleCount).toNat inCount eleCount
      unfold calcIndex at *
      split_ifs at * <;> omega
  · simp only [Option.some.injEq, Prod.mk.injEq] at h
    obtain ⟨rfl, rfl⟩ := h
    have := calcCount_le (calcIndex inIndex eleCount).toNat inCount eleCount
    unfold calcIndex at *
    split_ifs at * <;> omega

theorem calcIndexCount_eq_none_iff {inIndex : Int} {inCount eleCount : ℕ} {isMulti : Bool} :
    calcIndexCount inIndex inCount eleCount isMulti = none ↔
      isMulti = false ∧ (inIndex < -(eleCount : Int) ∨ (eleCount : Int) ≤ inIndex) := by
  unfold calcIndexCount calcIndex
  cases isMulti
  · simp only [Bool.false_eq_true, if_false, true_and]
    split_ifs with h1 h2 <;> simp <;> omega
  · simp

theorem calcIndexCount_single_le {inIndex : Int} {inCount eleCount index count : ℕ}
    (h : calcIndexCount inIndex inCount eleCount false = some (index, count)) : count ≤ inCount := by
  unfold calcIndexCount at h
  simp only [Bool.false_eq_true, if_false] at h
  split_ifs at h
  simp only [Option.some.injEq, Prod.mk.injEq] at h
  obtain ⟨-, rfl⟩ := h
  unfold calcCount
  split_ifs <;> omega

theorem calcIndexCount_neg {r : Int} {inCount eleCount : ℕ} (h1 : -(eleCount : Int) ≤ r)
    (h2 : r < 0) :
    calcIndexCount r inCount eleCount false =
      some ((eleCount + r).toNat, calcCount (eleCount + r).toNat inCount eleCount) := by
  have hi : calcIndex r eleCount = eleCount + r := by rw [calcIndex, if_pos h2]
  rw [calcIndexCount, if_neg Bool.false_ne_true, if_neg (by omega), hi]

theorem calcIndexCount_nonneg {r : Int} {inCount eleCount : ℕ} (h1 : 0 ≤ r)
    (h2 : r < eleCount) :
    calcIndexCount r inCount eleCount false =
      some (r.toNat, calcCount r.toNat inCount eleCount) := by
  have hi : calcIndex r eleCount = r := by rw [calcIndex, if_neg (by omega)]
  rw [calcIndexCount, if_neg Bool.false_ne_true, if_neg (by omega), hi]

/-! ### Results -/

inductive ResultType
  | none | index | revIndex | rank | revRank | count | key | value | map
  | indexRange | revIndexRange | rankRange | revRankRange
  deriving DecidableEq, Repr

/-- `cdt_result_data`: the result type, its `INVERTED` flag, and whether the
operation can select many elements. -/
structure CdtResultData where
  type : ResultType
  inverted : Bool
  isMulti : Bool
  deriving DecidableEq, Repr

/-- What an operation leaves in its result bin: nothing, an integer, a list of
integers, a list of elements, one element, or an empty map. -/
inductive ResultValue (α : Type)
  | unset
  | int (v : Int)
  | ints (vs : List Int)
  | eles (vs : List α)
  | ele (v : α)
  | emptyMap
  deriving DecidableEq, Repr

/-- `cdt_container_builder_add_int_range`: `count` positions from `start`, or
from the mirrored start when counting from the end, in `uint32_t` arithmetic. -/
def addIntRange (start count eleCount : UInt32) (isRev : Bool) : List Int :=
  (List.range count.toNat).map fun i =>
    (((if isRev then eleCount - start - count else start) + UInt32.ofNat i).toNat : Int)

variable {α : Type}

/-- `result_data_set_not_found`; `none` is its `false` for a type it rejects,
which the enumeration leaves none of. -/
def resultDataSetNotFound (rd : CdtResultData) (index : Int) : ResultValue α :=
  match rd.type with
  | .none => .unset
  | .revIndexRange | .indexRange | .rankRange | .revRankRange => .ints [index, 0]
  | .index | .revIndex | .rank | .revRank => if rd.isMulti then .ints [] else .int (-1)
  | .count => .int 0
  | .key | .value => if rd.isMulti then .eles [] else .unset
  | .map => .emptyMap

/-- The index and rank arm of `result_data_set_index_rank_count`. -/
def indexRankResult (rd : CdtResultData) (isRev : Bool) (start count eleCount : UInt32) :
    ResultValue α :=
  if !rd.isMulti then
    if count = 0 then .int (-1)
    else .int (if isRev then eleCount - start - 1 else start).toNat
  else if rd.inverted then
    .ints (addIntRange 0 start eleCount isRev ++
      addIntRange (start + count) (eleCount - start - count) eleCount isRev)
  else .ints (addIntRange start count eleCount isRev)

/-- `result_data_set_index_rank_count`: the code and the result for `count`
elements from position `start` of `eleCount`. -/
def resultDataSetIndexRankCount (rd : CdtResultData) (start count eleCount : UInt32) :
    Int × ResultValue α :=
  match rd.type with
  | .none => (0, .unset)
  | .count => (0, .int (if rd.inverted then eleCount - count else count).toNat)
  | .revIndex | .revRank => (0, indexRankResult rd true start count eleCount)
  | .index | .rank => (0, indexRankResult rd false start count eleCount)
  | _ => (-resultFailParameter, .unset)

/-- `result_data_set_range`: as `result_data_set_index_rank_count`, and the
range types return the start and the count. -/
def resultDataSetRange (rd : CdtResultData) (start count eleCount : UInt32) :
    Int × ResultValue α :=
  match rd.type with
  | .none => (0, .unset)
  | .count | .revIndex | .revRank | .index | .rank =>
    resultDataSetIndexRankCount rd start count eleCount
  | .revIndexRange | .revRankRange =>
    if rd.inverted then (-resultFailParameter, .unset)
    else (0, .ints [(eleCount - start - count).toNat, count.toNat])
  | .indexRange | .rankRange =>
    if rd.inverted then (-resultFailParameter, .unset)
    else (0, .ints [start.toNat, count.toNat])
  | _ => (-resultFailParameter, .unset)

/-! ### The offset index -/

/-- `offset_index`: `eleCount` entries over `contentSz` bytes of elements, of
which those below `filled` are known. The source keeps `filled` in entry `0`;
`offset_index_set_filled` asserts it is at most `eleCount`. -/
structure OffsetIndex where
  eleCount : ℕ
  contentSz : ℕ
  filled : ℕ
  entries : ℕ → ℕ
  filled_le : filled ≤ eleCount

namespace OffsetIndex

/-- `offset_index_init` over fresh memory; the caller sets `filled` next. -/
def init (eleCount contentSz : ℕ) : OffsetIndex := ⟨eleCount, contentSz, 0, fun _ => 0, Nat.zero_le _⟩

/-- `offset_index_get_filled`: an index of no entries counts as filled to `1`. -/
def getFilled (o : OffsetIndex) : ℕ := if o.eleCount = 0 then 1 else o.filled

/-- `offset_index_get_const`: offset `0`, the content size at the end, a known
entry, or the crash on an unknown one. -/
def getConst (o : OffsetIndex) (idx : ℕ) : Option ℕ :=
  if idx = 0 then some 0
  else if idx = o.eleCount then some o.contentSz
  else if idx ≥ o.getFilled then none
  else some (o.entries idx)

/-- `offset_index_get_delta_const`: the size of element `idx`. -/
def getDeltaConst (o : OffsetIndex) (idx : ℕ) : Option ℕ :=
  (o.getConst idx).bind fun offset =>
    if idx + 1 = o.eleCount then some (o.contentSz - offset)
    else (o.getConst (idx + 1)).map (· - offset)

/-- `offset_index_set`: entries `0` and `eleCount` are implicit. -/
def set (o : OffsetIndex) (idx value : ℕ) : OffsetIndex :=
  if idx = 0 ∨ idx = o.eleCount then o else { o with entries := Function.update o.entries idx value }

/-- `offset_index_set_filled`: a no-op on an index of no entries, the assertion
past `eleCount`. -/
def setFilled (o : OffsetIndex) (v : ℕ) : Option OffsetIndex :=
  if o.eleCount = 0 then some o
  else if h : v ≤ o.eleCount then some { o with filled := v, filled_le := h }
  else none

/-- `msgpacked_index` entry width for the content size. -/
def eleSz (contentSz : ℕ) : ℕ :=
  if contentSz < 2 ^ 8 then 1 else if contentSz < 2 ^ 16 then 2
  else if contentSz < 2 ^ 24 then 3 else 4

/-- The entry loop of `offset_index_copy`, reading each source entry through
`offset_index_get_const` and shifting it by `delta`. -/
def copyLoop (dest src : OffsetIndex) (dStart sStart : ℕ) (delta : Int) :
    ℕ → Option OffsetIndex
  | 0 => some dest
  | n + 1 => (copyLoop dest src dStart sStart delta n).bind fun d =>
    (src.getConst (sStart + n)).map fun value => d.set (dStart + n) (value + delta).toNat

/-- `offset_index_copy`: `count` entries of `src` from `sStart` into `dest` from
`dStart`; a raw copy of the entries when both have one width and no shift,
which also copies the `filled` word when `dStart = 0` (every caller then sets
`filled` again, so it is left as it was). -/
def copy (dest src : OffsetIndex) (dStart sStart count : ℕ) (delta : Int) :
    Option OffsetIndex :=
  if dStart + count > dest.eleCount ∨ sStart + count > src.eleCount then none
  else if eleSz dest.contentSz = eleSz src.contentSz ∧ delta = 0 then
    some { dest with entries := fun i =>
      if dStart ≤ i ∧ i < dStart + count then src.entries (i - dStart + sStart) else dest.entries i }
  else copyLoop dest src dStart sStart delta count

/-- Every known entry `k` of the index is the offset of element `k * step` of
elements whose offsets are `offs`: a full index has step `1`, a list's partial
index step `128`. -/
def Valid (o : OffsetIndex) (step : ℕ) (offs : ℕ → ℕ) : Prop :=
  ∀ k, 0 < k → k < o.getFilled → k < o.eleCount → o.entries k = offs (k * step)

theorem getFilled_le_of_pos (o : OffsetIndex) (h : 0 < o.eleCount) : o.getFilled ≤ o.eleCount := by
  rw [getFilled, if_neg (by omega)]
  exact o.filled_le

theorem setFilled_spec {o : OffsetIndex} {v : ℕ} (hpos : 0 < o.eleCount) (hv : v ≤ o.eleCount) :
    ∃ o', o.setFilled v = some o' ∧ o'.eleCount = o.eleCount ∧ o'.getFilled = v ∧
      o'.entries = o.entries := by
  refine ⟨{ o with filled := v, filled_le := hv }, ?_, rfl, ?_, rfl⟩
  · rw [setFilled, if_neg (by omega), dif_pos hv]
  · show (if o.eleCount = 0 then 1 else v) = v
    rw [if_neg (by omega)]

theorem copy_raw {dest src : OffsetIndex} {dStart sStart count : ℕ}
    (hd : dStart + count ≤ dest.eleCount) (hs : sStart + count ≤ src.eleCount)
    (hsz : eleSz dest.contentSz = eleSz src.contentSz) :
    ∃ d, dest.copy src dStart sStart count 0 = some d ∧ d.eleCount = dest.eleCount ∧
      ∀ k, dStart ≤ k → k < dStart + count → d.entries k = src.entries (k - dStart + sStart) := by
  refine ⟨{ dest with entries := fun i =>
      if dStart ≤ i ∧ i < dStart + count then src.entries (i - dStart + sStart)
      else dest.entries i }, ?_, rfl, fun k h1 h2 => if_pos ⟨h1, h2⟩⟩
  rw [copy, if_neg (by omega), if_pos ⟨hsz, rfl⟩]

theorem getConst_isSome (o : OffsetIndex) (idx : ℕ) (h : idx < o.getFilled) :
    (o.getConst idx).isSome := by
  unfold getConst
  split_ifs <;> first | rfl | omega

theorem set_eleCount (o : OffsetIndex) (idx value : ℕ) : (o.set idx value).eleCount = o.eleCount := by
  unfold set
  split_ifs <;> rfl

theorem copyLoop_spec (dest src : OffsetIndex) (dStart sStart : ℕ) (delta : Int) :
    ∀ count, sStart + count ≤ src.getFilled →
      ∃ d, copyLoop dest src dStart sStart delta count = some d ∧ d.eleCount = dest.eleCount
  | 0, _ => ⟨dest, rfl, rfl⟩
  | count + 1, h => by
    obtain ⟨d, hd, he⟩ := copyLoop_spec dest src dStart sStart delta count (by omega)
    obtain ⟨v, hv⟩ := Option.isSome_iff_exists.mp (src.getConst_isSome (sStart + count) (by omega))
    refine ⟨d.set (dStart + count) (v + delta).toNat, ?_, by rw [set_eleCount, he]⟩
    rw [copyLoop, hd, Option.bind_some, hv]
    rfl

theorem copy_spec (dest src : OffsetIndex) (dStart sStart count : ℕ) (delta : Int)
    (hd : dStart + count ≤ dest.eleCount) (hs : sStart + count ≤ src.eleCount)
    (hf : sStart + count ≤ src.getFilled) :
    ∃ d, dest.copy src dStart sStart count delta = some d ∧ d.eleCount = dest.eleCount := by
  unfold copy
  rw [if_neg (by omega)]
  split_ifs
  · exact ⟨_, rfl, rfl⟩
  · exact copyLoop_spec dest src dStart sStart delta count hf

theorem getConst_succ_eleCount (o : OffsetIndex) : o.getConst (o.eleCount + 1) = none := by
  have hf : o.getFilled ≤ o.eleCount + 1 := by
    unfold getFilled
    split_ifs
    · omega
    · exact Nat.le_succ_of_le o.filled_le
  rw [getConst, if_neg (by omega), if_neg (by omega), if_pos hf]

theorem getDeltaConst_eleCount (o : OffsetIndex) : o.getDeltaConst o.eleCount = none := by
  unfold getDeltaConst
  cases o.getConst o.eleCount with
  | none => rfl
  | some off =>
    rw [Option.bind_some, if_neg (Nat.succ_ne_self _), getConst_succ_eleCount, Option.map_none]

theorem getDeltaConst_isSome (o : OffsetIndex) (hfull : o.filled = o.eleCount) {idx : ℕ}
    (h : idx < o.eleCount) : ∃ d, o.getDeltaConst idx = some d := by
  have hf : o.getFilled = o.eleCount := by rw [getFilled, if_neg (by omega), hfull]
  have hget : ∀ i, i ≤ o.eleCount → ∃ v, o.getConst i = some v := by
    intro i hi
    unfold getConst
    split_ifs <;> first | exact ⟨_, rfl⟩ | omega
  obtain ⟨off, hoff⟩ := hget idx h.le
  obtain ⟨next, hnext⟩ := hget (idx + 1) h
  unfold getDeltaConst
  rw [hoff, Option.bind_some]
  split_ifs
  · exact ⟨_, rfl⟩
  · rw [hnext, Option.map_some]; exact ⟨_, rfl⟩

end OffsetIndex

/-! ### Element masks -/

/-- `cdt_idx_mask_find` on the words of the mask, with its `uint32_t` bounds
and sums: the first marked (or, with `isFind0`, unmarked) element in
`[start, stop)`, or `stop`, while `stop + 127` fits in 32 bits; the assertion
when `start > stop`. -/
def cdtIdxMaskFind (mask : ℕ → Bool) (start stop : ℕ) (isFind0 : Bool) : Option ℕ :=
  (cdtIdxMaskFindU32 (maskWords mask) start.toUInt32 stop.toUInt32 isFind0).map UInt32.toNat

/-- `cdt_idx_mask_set_by_irc` on a fresh mask, for a list of (rank, count) pairs
and no index map: the elements of every range, or of none of them. -/
def cdtIdxMaskSetByIrc (irc : List (ℕ × ℕ)) (inverted : Bool) : ℕ → Bool :=
  fun j => (irc.any fun rc => decide (rc.1 ≤ j ∧ j < rc.1 + rc.2)) != inverted

/-- The loop of `cdt_idx_mask_get_content_sz`: the sizes of the next `count`
marked elements from `idx` on. -/
def contentSzFrom (mask : ℕ → Bool) (full : OffsetIndex) : ℕ → ℕ → Option ℕ
  | 0, _ => some 0
  | count + 1, idx => (cdtIdxMaskFind mask idx full.eleCount false).bind fun i =>
    (full.getDeltaConst i).bind fun d => (contentSzFrom mask full count (i + 1)).map (d + ·)

/-- `cdt_idx_mask_get_content_sz`: the total size of `count` marked elements. -/
def cdtIdxMaskGetContentSz (mask : ℕ → Bool) (count : ℕ) (full : OffsetIndex) : Option ℕ :=
  contentSzFrom mask full count 0

section Mask

variable {mask : ℕ → Bool} {full : OffsetIndex}

theorem cdtIdxMaskFind_eq_findFrom {start stop : ℕ} (isFind0 : Bool) (hb : stop + 127 < 2 ^ 32)
    (h : start ≤ stop) :
    cdtIdxMaskFind mask start stop isFind0 = some (Scan.findFrom (fun i => mask i != isFind0) start stop) := by
  have hstart : start.toUInt32.toNat = start := Word.toNat_toUInt32_eq (by omega)
  have hstop : stop.toUInt32.toNat = stop := Word.toNat_toUInt32_eq (by omega)
  rw [cdtIdxMaskFind, cdtIdxMaskFindU32_eq _ _ _ _ (by rw [hstop]; exact hb), hstart, hstop,
    cdtIdxMaskFindWords_eq, if_pos h]
  simp only [wordBit_maskWords]

theorem cdtIdxMaskFind_of_le {start stop : ℕ} (hb : stop + 127 < 2 ^ 32) (h : start ≤ stop) :
    cdtIdxMaskFind mask start stop false = some (Scan.findFrom mask start stop) := by
  rw [cdtIdxMaskFind_eq_findFrom false hb h]
  congr 2
  funext i
  cases mask i <;> rfl

theorem contentSzFrom_eq_none (hb : full.eleCount + 127 < 2 ^ 32) :
    ∀ (count idx : ℕ), idx ≤ full.eleCount → Scan.countFrom mask idx full.eleCount < count →
      contentSzFrom mask full count idx = none := by
  intro count
  induction count with
  | zero => intro _ _ h; omega
  | succ count ih =>
    intro idx hidx hcount
    rw [contentSzFrom, cdtIdxMaskFind_of_le hb hidx, Option.bind_some]
    rcases Nat.lt_or_ge (Scan.findFrom mask idx full.eleCount) full.eleCount with hlt | hge
    · have hc := Scan.countFrom_findFrom hlt
      cases hd : full.getDeltaConst (Scan.findFrom mask idx full.eleCount) with
      | none => rfl
      | some d =>
        rw [Option.bind_some, ih _ hlt (by simp only [Nat.succ_eq_add_one] at *; omega),
          Option.map_none]
    · have hend : Scan.findFrom mask idx full.eleCount = full.eleCount :=
        le_antisymm (Scan.findFrom_le hidx) hge
      rw [hend, OffsetIndex.getDeltaConst_eleCount, Option.bind_none]

theorem contentSzFrom_isSome (hb : full.eleCount + 127 < 2 ^ 32) (hfull : full.filled = full.eleCount) :
    ∀ (count idx : ℕ), idx ≤ full.eleCount → count ≤ Scan.countFrom mask idx full.eleCount →
      ∃ sz, contentSzFrom mask full count idx = some sz := by
  intro count
  induction count with
  | zero => intro _ _ _; exact ⟨0, rfl⟩
  | succ count ih =>
    intro idx hidx hcount
    rw [contentSzFrom, cdtIdxMaskFind_of_le hb hidx, Option.bind_some]
    rcases Nat.lt_or_ge (Scan.findFrom mask idx full.eleCount) full.eleCount with hlt | hge
    · have hc := Scan.countFrom_findFrom hlt
      obtain ⟨d, hd⟩ := full.getDeltaConst_isSome hfull hlt
      obtain ⟨rest, hrest⟩ := ih _ hlt (by simp only [Nat.succ_eq_add_one] at *; omega)
      rw [hd, Option.bind_some, hrest, Option.map_some]
      exact ⟨_, rfl⟩
    · have hend : Scan.findFrom mask idx full.eleCount = full.eleCount :=
        le_antisymm (Scan.findFrom_le hidx) hge
      have := Scan.countFrom_eq_zero_of_findFrom hidx hend
      omega

end Mask

end Aerospike.Cdt
