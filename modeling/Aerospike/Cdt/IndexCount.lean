import Aerospike.Cdt.Base
import Aerospike.Lib.Word

/-! # `calc_index_count` on machine words

`Aerospike.Cdt.calcIndexCount` reads the index, the count and the element
count as integers. The C function takes an `int64_t` index, a `uint64_t` count
and a `uint32_t` element count, compares the index with the widened count,
negates a negative absolute index and adds the count to it in 64-bit unsigned
arithmetic. `Machine` models it on `Int64`, `UInt64` and `UInt32` and shows that
no conversion or wrap changes a value on any input, so that the integer model,
and what is proved of it, holds of the machine function.
-/

namespace Aerospike.Cdt

theorem calcCount_eq_min (index count maxIndex : ℕ) :
    calcCount index count maxIndex = min count (maxIndex - index) := by
  unfold calcCount
  split_ifs <;> omega

theorem calcIndexCountMulti_mem_iff (inIndex : Int) (inCount eleCount : ℕ) (x : Int) :
    ((calcIndexCountMulti inIndex inCount eleCount).1 ≤ x ∧
        x < (calcIndexCountMulti inIndex inCount eleCount).1 +
          (calcIndexCountMulti inIndex inCount eleCount).2) ↔
      (calcIndex inIndex eleCount ≤ x ∧ x < calcIndex inIndex eleCount + inCount ∧
        0 ≤ x ∧ x < eleCount) := by
  unfold calcIndexCountMulti calcCount
  split_ifs <;> simp only [calcIndex] at * <;> split_ifs at * <;> omega

theorem calcIndexCount_single_eq {inIndex : Int} {inCount eleCount : ℕ}
    (h1 : -(eleCount : Int) ≤ inIndex) (h2 : inIndex < eleCount) :
    calcIndexCount inIndex inCount eleCount false =
      some ((calcIndex inIndex eleCount).toNat,
        min inCount (eleCount - (calcIndex inIndex eleCount).toNat)) := by
  rw [← calcCount_eq_min]
  by_cases hneg : inIndex < 0
  · have hi : calcIndex inIndex eleCount = eleCount + inIndex := by rw [calcIndex, if_pos hneg]
    rw [calcIndexCount_neg h1 hneg, hi]
  · have hi : calcIndex inIndex eleCount = inIndex := by rw [calcIndex, if_neg hneg]
    rw [calcIndexCount_nonneg (by omega) h2, hi]

namespace Machine

/-- `calc_index` on the machine's words: `(int64_t)max_index + index` for a
negative index. -/
def calcIndex (index : Int64) (maxIndex : UInt32) : Int64 :=
  if index < 0 then maxIndex.toUInt64.toInt64 + index else index

/-- `calc_count`: `(uint64_t)max_index - index` is compared with the 64-bit
count, which is truncated to 32 bits when it is the smaller. -/
def calcCount (index : UInt32) (inCount : UInt64) (maxIndex : UInt32) : UInt32 :=
  if inCount ≥ maxIndex.toUInt64 - index.toUInt64 then maxIndex - index else inCount.toUInt32

/-- `calc_index_count_multi`. The magnitude of a negative index is read as
`(uint64_t)(-in_index)` and the count left as `in_count + in_index` in 64-bit
unsigned arithmetic. -/
def calcIndexCountMulti (inIndex : Int64) (inCount : UInt64) (eleCount : UInt32) :
    UInt32 × UInt32 :=
  if inIndex ≥ eleCount.toUInt64.toInt64 then (eleCount, 0)
  else if calcIndex inIndex eleCount < 0 then
    (0, if (-calcIndex inIndex eleCount).toUInt64 < inCount then
        (if inCount + (calcIndex inIndex eleCount).toUInt64 > eleCount.toUInt64 then
          eleCount.toUInt64 else inCount + (calcIndex inIndex eleCount).toUInt64).toUInt32
      else 0)
  else
    ((calcIndex inIndex eleCount).toUInt64.toUInt32,
      calcCount (calcIndex inIndex eleCount).toUInt64.toUInt32 inCount eleCount)

/-- `calc_index_count` on `int64_t` index, `uint64_t` count and `uint32_t`
element count. -/
def calcIndexCount (inIndex : Int64) (inCount : UInt64) (eleCount : UInt32) (isMulti : Bool) :
    Option (UInt32 × UInt32) :=
  if isMulti then some (calcIndexCountMulti inIndex inCount eleCount)
  else if inIndex ≥ eleCount.toUInt64.toInt64 ∨ calcIndex inIndex eleCount < 0 then none
  else
    some ((calcIndex inIndex eleCount).toUInt64.toUInt32,
      calcCount (calcIndex inIndex eleCount).toUInt64.toUInt32 inCount eleCount)

theorem le_eleCount_iff (inIndex : Int64) (eleCount : UInt32) :
    eleCount.toUInt64.toInt64 ≤ inIndex ↔ (eleCount.toNat : Int) ≤ inIndex.toInt := by
  rw [Int64.le_iff_toInt_le, Word.toInt_toInt64_toUInt64]

theorem lt_zero_iff (x : Int64) : x < 0 ↔ x.toInt < 0 := by
  rw [Int64.lt_iff_toInt_lt, Int64.toInt_zero]

theorem calcIndex_toInt (index : Int64) (maxIndex : UInt32) :
    (calcIndex index maxIndex).toInt = Cdt.calcIndex index.toInt maxIndex.toNat := by
  have hn := maxIndex.toNat_lt
  have hi := index.le_toInt
  unfold calcIndex Cdt.calcIndex
  by_cases h : index < 0
  · have h' := (lt_zero_iff index).mp h
    rw [if_pos h, if_pos h', Word.toInt_add_of_mem, Word.toInt_toInt64_toUInt64]
    all_goals rw [Word.toInt_toInt64_toUInt64]; omega
  · rw [if_neg h, if_neg (mt (lt_zero_iff index).mpr h)]

/-- The one signed overflow of `calc_index_count_multi`: `-in_index` leaves the
`int64_t` range only for `ele_count = 0` and `in_index = INT64_MIN`. The model
negates as the target does, in two's complement, and the unsigned reading is
still the magnitude there (`Word.toNat_toUInt64_neg`). -/
theorem neg_calcIndex_overflow_iff (index : Int64) (maxIndex : UInt32) :
    (calcIndex index maxIndex).toInt < 0 ∧ 2 ^ 63 ≤ -(calcIndex index maxIndex).toInt ↔
      maxIndex.toNat = 0 ∧ index.toInt = -2 ^ 63 := by
  have hi := index.le_toInt
  rw [calcIndex_toInt, Cdt.calcIndex]
  split_ifs <;> omega

theorem calcCount_toNat {index maxIndex : UInt32} (inCount : UInt64) (h : index ≤ maxIndex) :
    (calcCount index inCount maxIndex).toNat =
      Cdt.calcCount index.toNat inCount.toNat maxIndex.toNat := by
  have h' := UInt32.le_iff_toNat_le.mp h
  have hsub : (maxIndex.toUInt64 - index.toUInt64).toNat = maxIndex.toNat - index.toNat := by
    rw [UInt64.toNat_sub_of_le _ _ (by rw [UInt64.le_iff_toNat_le]; simpa using h'),
      UInt32.toNat_toUInt64, UInt32.toNat_toUInt64]
  unfold calcCount Cdt.calcCount
  by_cases hc : inCount ≥ maxIndex.toUInt64 - index.toUInt64
  · rw [if_pos hc, if_pos (by rw [ge_iff_le, UInt64.le_iff_toNat_le, hsub] at hc; omega),
      UInt32.toNat_sub_of_le _ _ h]
  · have hc' : inCount.toNat < maxIndex.toNat - index.toNat := by
      rw [ge_iff_le, UInt64.le_iff_toNat_le, hsub] at hc; omega
    rw [if_neg hc, if_neg (by omega), Word.toNat_toUInt32_of_lt _ (by have := maxIndex.toNat_lt; omega)]

theorem countFromNeg_toNat {j : Int64} (inCount : UInt64) (eleCount : UInt32) (hj : j.toInt < 0) :
    (if (-j).toUInt64 < inCount then
        (if inCount + j.toUInt64 > eleCount.toUInt64 then eleCount.toUInt64
          else inCount + j.toUInt64).toUInt32
      else 0).toNat =
      if (-j.toInt).toNat < inCount.toNat then
        min (inCount.toNat - (-j.toInt).toNat) eleCount.toNat else 0 := by
  have hn := eleCount.toNat_lt
  have hc := inCount.toNat_lt
  have hmag := Word.toNat_toUInt64_neg j hj
  by_cases h3 : (-j).toUInt64 < inCount
  · have h3' : (-j.toInt).toNat < inCount.toNat := by
      rwa [UInt64.lt_iff_toNat_lt, hmag] at h3
    have hout : (inCount + j.toUInt64).toNat = inCount.toNat - (-j.toInt).toNat := by
      have := Word.toNat_add_toUInt64 inCount j
      rw [Int.emod_eq_of_lt (by omega) (by omega)] at this
      omega
    rw [if_pos h3, if_pos h3']
    by_cases h4 : inCount + j.toUInt64 > eleCount.toUInt64
    · rw [if_pos h4, Word.toNat_toUInt32_of_lt _ (by rw [UInt32.toNat_toUInt64]; omega),
        UInt32.toNat_toUInt64]
      rw [gt_iff_lt, UInt64.lt_iff_toNat_lt, hout, UInt32.toNat_toUInt64] at h4
      omega
    · rw [if_neg h4, Word.toNat_toUInt32_of_lt _ (by
        rw [gt_iff_lt, UInt64.lt_iff_toNat_lt, hout, UInt32.toNat_toUInt64] at h4; omega), hout]
      rw [gt_iff_lt, UInt64.lt_iff_toNat_lt, hout, UInt32.toNat_toUInt64] at h4
      omega
  · have h3' : ¬ (-j.toInt).toNat < inCount.toNat := by
      rwa [UInt64.lt_iff_toNat_lt, hmag] at h3
    rw [if_neg h3, if_neg h3', UInt32.toNat_zero]

theorem calcIndexCountMulti_toNat (inIndex : Int64) (inCount : UInt64) (eleCount : UInt32) :
    ((calcIndexCountMulti inIndex inCount eleCount).1.toNat,
      (calcIndexCountMulti inIndex inCount eleCount).2.toNat) =
      Cdt.calcIndexCountMulti inIndex.toInt inCount.toNat eleCount.toNat := by
  have hj := calcIndex_toInt inIndex eleCount
  have hn := eleCount.toNat_lt
  unfold calcIndexCountMulti Cdt.calcIndexCountMulti
  by_cases h1 : inIndex ≥ eleCount.toUInt64.toInt64
  · rw [if_pos h1, if_pos ((le_eleCount_iff _ _).mp h1), UInt32.toNat_zero]
  · rw [if_neg h1, if_neg (mt (le_eleCount_iff _ _).mpr h1)]
    by_cases h2 : calcIndex inIndex eleCount < 0
    · have h2' := (lt_zero_iff _).mp h2
      rw [if_pos h2, if_pos (show Cdt.calcIndex inIndex.toInt eleCount.toNat < 0 from hj ▸ h2'),
        countFromNeg_toNat _ _ h2', hj, UInt32.toNat_zero]
    · have h2' : 0 ≤ Cdt.calcIndex inIndex.toInt eleCount.toNat := by
        rw [← hj]; have := mt (lt_zero_iff _).mpr h2; omega
      have hlt : Cdt.calcIndex inIndex.toInt eleCount.toNat < eleCount.toNat := by
        have := mt (le_eleCount_iff _ _).mpr h1
        unfold Cdt.calcIndex; split_ifs <;> omega
      have hidx : (calcIndex inIndex eleCount).toUInt64.toUInt32.toNat =
          (Cdt.calcIndex inIndex.toInt eleCount.toNat).toNat := by
        rw [Word.toNat_toUInt32_of_lt _ (by rw [Word.toNat_toUInt64_of_nonneg _ (hj ▸ h2'), hj]; omega),
          Word.toNat_toUInt64_of_nonneg _ (hj ▸ h2'), hj]
      rw [if_neg h2, if_neg (by omega), calcCount_toNat _
        (UInt32.le_iff_toNat_le.mpr (by rw [hidx]; omega)), hidx]

theorem calcIndexCount_toNat (inIndex : Int64) (inCount : UInt64) (eleCount : UInt32)
    (isMulti : Bool) :
    (calcIndexCount inIndex inCount eleCount isMulti).map (fun r => (r.1.toNat, r.2.toNat)) =
      Cdt.calcIndexCount inIndex.toInt inCount.toNat eleCount.toNat isMulti := by
  have hcond : (inIndex ≥ eleCount.toUInt64.toInt64 ∨ calcIndex inIndex eleCount < 0) ↔
      (inIndex.toInt ≥ eleCount.toNat ∨ Cdt.calcIndex inIndex.toInt eleCount.toNat < 0) := by
    rw [ge_iff_le, ge_iff_le, le_eleCount_iff, lt_zero_iff, calcIndex_toInt]
  unfold calcIndexCount Cdt.calcIndexCount
  cases isMulti
  · simp only [Bool.false_eq_true, if_false]
    by_cases h : inIndex ≥ eleCount.toUInt64.toInt64 ∨ calcIndex inIndex eleCount < 0
    · rw [if_pos h, if_pos (hcond.mp h), Option.map_none]
    · have hmulti := calcIndexCountMulti_toNat inIndex inCount eleCount
      unfold calcIndexCountMulti Cdt.calcIndexCountMulti at hmulti
      have h' := mt hcond.mpr h
      rw [not_or] at h h'
      rw [if_neg h.1, if_neg h.2, if_neg (by rw [ge_iff_le] at h'; exact h'.1), if_neg h'.2] at hmulti
      rw [if_neg (by rw [not_or]; exact h), if_neg (by rw [not_or]; exact h'), Option.map_some, hmulti]
  · simp only [if_true, Option.map_some, calcIndexCountMulti_toNat]

/-- `calc_index_count` on machine words, for every `int64_t` index, `uint64_t`
count and `uint32_t` element count: a multi-result operation gets the requested
interval `[j, j + c)` cut to `[0, n)`, and a single-result operation fails
exactly outside `[-n, n)` and otherwise starts at `j` with `min c (n - j)`
elements. -/
theorem calcIndexCount_eq_intersection (inIndex : Int64) (inCount : UInt64) (eleCount : UInt32) :
    (∃ s k, calcIndexCount inIndex inCount eleCount true = some (s, k) ∧
      s.toNat + k.toNat ≤ eleCount.toNat ∧
      ∀ x : Int, (s.toNat ≤ x ∧ x < s.toNat + k.toNat) ↔
        (Cdt.calcIndex inIndex.toInt eleCount.toNat ≤ x ∧
          x < Cdt.calcIndex inIndex.toInt eleCount.toNat + inCount.toNat ∧
          0 ≤ x ∧ x < eleCount.toNat)) ∧
    (calcIndexCount inIndex inCount eleCount false = none ↔
      (eleCount.toNat : Int) ≤ inIndex.toInt ∨ inIndex.toInt < -(eleCount.toNat : Int)) ∧
    ∀ s k, calcIndexCount inIndex inCount eleCount false = some (s, k) →
      (s.toNat : Int) = Cdt.calcIndex inIndex.toInt eleCount.toNat ∧
        (k.toNat : Int) = min (inCount.toNat : Int)
          (eleCount.toNat - Cdt.calcIndex inIndex.toInt eleCount.toNat) := by
  have hmap := calcIndexCount_toNat inIndex inCount eleCount
  refine ⟨?multi, ?none, ?single⟩
  case multi =>
    have hs : calcIndexCount inIndex inCount eleCount true =
        some (calcIndexCountMulti inIndex inCount eleCount) := rfl
    generalize calcIndexCountMulti inIndex inCount eleCount = p at hs
    obtain ⟨s, k⟩ := p
    have hm : Cdt.calcIndexCount inIndex.toInt inCount.toNat eleCount.toNat true =
        some (s.toNat, k.toNat) := by rw [← hmap, hs, Option.map_some]
    have hmulti : Cdt.calcIndexCountMulti inIndex.toInt inCount.toNat eleCount.toNat =
        (s.toNat, k.toNat) := Option.some.inj hm
    refine ⟨s, k, hs, calcIndexCount_le hm, fun x => ?_⟩
    have := calcIndexCountMulti_mem_iff inIndex.toInt inCount.toNat eleCount.toNat x
    rw [hmulti] at this
    exact this
  case none =>
    rw [← Option.map_eq_none_iff, hmap false, calcIndexCount_eq_none_iff]
    simp only [true_and]
    omega
  case single =>
    intro s k h
    have hm : Cdt.calcIndexCount inIndex.toInt inCount.toNat eleCount.toNat false =
        some (s.toNat, k.toNat) := by rw [← hmap, h, Option.map_some]
    have hin : -(eleCount.toNat : Int) ≤ inIndex.toInt ∧ inIndex.toInt < eleCount.toNat := by
      have := mt calcIndexCount_eq_none_iff.mpr (by rw [hm]; exact Option.some_ne_none _)
      simp only [true_and, not_or] at this
      omega
    rw [calcIndexCount_single_eq hin.1 hin.2, Option.some.injEq, Prod.mk.injEq] at hm
    have hj : 0 ≤ Cdt.calcIndex inIndex.toInt eleCount.toNat ∧
        Cdt.calcIndex inIndex.toInt eleCount.toNat < eleCount.toNat := by
      unfold Cdt.calcIndex; split_ifs <;> omega
    omega

end Machine

end Aerospike.Cdt
