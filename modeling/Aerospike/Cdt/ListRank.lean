import Aerospike.Cdt.Base

/-! # Reading a list by rank

`packed_list_get_remove_by_rank_range` (`particle_list.c`) serves
`GET_BY_RANK` and `GET_BY_RANK_RANGE`. On an ordered list rank and index
coincide and it hands the signed rank to `packed_list_get_remove_by_index_range`,
which turns it into an absolute range with `calc_index_count` and reports that
range. On an unordered list it also computes the absolute range, selects the
elements by a heap, and then reports through `result_data_set_range`, but
passes it the signed rank as given, not the absolute one: a rank counted from
the end comes out as that number cut to `uint32_t`.

Here are the result types these operations answer from the range alone
(`NONE`, `COUNT`, `RANK`, `REVRANK`, `RANK_RANGE`, `REVRANK_RANGE`), for a read
(`b == NULL`); which elements the heap selects does not enter their results.
-/

namespace Aerospike.Cdt

variable {α : Type}

inductive RangeResultType
  | none | count | rank | revRank | rankRange | revRankRange
  deriving DecidableEq, Repr

/-- The `result_type_t` of a range result type. -/
def RangeResultType.toResultType : RangeResultType → ResultType
  | .none => .none
  | .count => .count
  | .rank => .rank
  | .revRank => .revRank
  | .rankRange => .rankRange
  | .revRankRange => .revRankRange

/-- `cdt_result_data` of a range result type. -/
structure RangeResultData where
  type : RangeResultType
  inverted : Bool
  isMulti : Bool
  deriving DecidableEq, Repr

/-- The `cdt_result_data` it is. -/
def RangeResultData.toCdtResultData (rd : RangeResultData) : CdtResultData :=
  ⟨rd.type.toResultType, rd.inverted, rd.isMulti⟩

def RangeResultData.isReturnRankRange (rd : RangeResultData) : Bool :=
  rd.type == .rankRange || rd.type == .revRankRange

/-- The results of `packed_list_get_remove_by_index_range` on an ordered list
for `count` elements from `index` of `n`, once an inversion is reduced to one
range. -/
def indexRangeOrderedResult (rd : RangeResultData) (index count n : ℕ) : Int × ResultValue α :=
  if count = 0 then (0, resultDataSetNotFound rd.toCdtResultData index)
  else
    match rd.type with
    | .none => (0, .unset)
    | .rank | .revRank =>
      if n - count = 0 then
        resultDataSetIndexRankCount rd.toCdtResultData 0 (UInt32.ofNat count) (UInt32.ofNat n)
      else if !rd.isMulti then
        (0, .int (if rd.type == .revRank then n - index - 1 else index))
      else
        (0, .ints (addIntRange (UInt32.ofNat index) (UInt32.ofNat count) (UInt32.ofNat n)
          (rd.type == .revRank)))
    | .count => (0, .int (n - (n - count)))
    | .rankRange | .revRankRange =>
      resultDataSetRange rd.toCdtResultData (UInt32.ofNat index) (UInt32.ofNat count) (UInt32.ofNat n)

/-- The results of `packed_list_trim` on an ordered list, which keeps `count`
elements from `index` and reports the others. -/
def packedListTrimResult (rd : RangeResultData) (index count n : ℕ) : Int × ResultValue α :=
  match rd.type with
  | .none => (0, .unset)
  | .count => (0, .int (n - count))
  | .rank | .revRank =>
    (0, .ints (addIntRange 0 (UInt32.ofNat index) (UInt32.ofNat n) (rd.type == .revRank) ++
      addIntRange (UInt32.ofNat (index + count)) (UInt32.ofNat (n - count - index))
        (UInt32.ofNat n) (rd.type == .revRank)))
  | .rankRange | .revRankRange => (-resultFailParameter, .unset)

/-- `packed_list_get_remove_by_index_range` on an ordered list of `n` elements,
reading: an inverted range is reduced to the one range it leaves where it
leaves one, and to a trim otherwise. -/
def packedListGetByIndexRangeOrdered (rd : RangeResultData) (index : Int) (count n : ℕ) :
    Int × ResultValue α :=
  match calcIndexCount index count n rd.isMulti with
  | none => (-resultFailParameter, .unset)
  | some (uindex, count32) =>
    if rd.inverted then
      if !rd.isMulti || rd.isReturnRankRange then (-resultFailParameter, .unset)
      else
        let rd' := { rd with inverted := false }
        if count32 = 0 then indexRangeOrderedResult rd' 0 n n
        else if uindex = 0 then indexRangeOrderedResult rd' count32 (n - count32) n
        else if uindex + count32 ≥ n then indexRangeOrderedResult rd' 0 uindex n
        else packedListTrimResult rd' uindex count32 n
    else indexRangeOrderedResult rd uindex count32 n

/-- `packed_list_get_remove_by_rank_range`, reading a list of `n` elements:
ordered lists go by index; unordered ones report through
`result_data_set_range` with the rank as given. -/
def packedListGetByRankRange (ordered : Bool) (rd : RangeResultData) (rank : Int) (count n : ℕ) :
    Int × ResultValue α :=
  if rd.inverted && !rd.isMulti then (-resultFailParameter, .unset)
  else if ordered then packedListGetByIndexRangeOrdered rd rank count n
  else
    match calcIndexCount rank count n rd.isMulti with
    | none => (-resultFailParameter, .unset)
    | some (urank, count32) =>
      if (if rd.inverted then n - count32 else count32) = 0 then
        (0, resultDataSetNotFound rd.toCdtResultData urank)
      else if rd.inverted && rd.isReturnRankRange then (-resultFailParameter, .unset)
      else
        resultDataSetRange rd.toCdtResultData (UInt32.ofInt rank) (UInt32.ofNat count32)
          (UInt32.ofNat n)

/-! ### Ranks from the end -/

theorem calcIndexCount_neg_one {r : Int} {n : ℕ} (h1 : -(n : Int) ≤ r) (h2 : r < 0) :
    calcIndexCount r 1 n false = some ((n + r).toNat, 1) := by
  rw [calcIndexCount_neg h1 h2, calcCount]
  split_ifs with h
  · congr 2
    omega
  · rfl

theorem toNat_ofInt_neg {r : Int} (h1 : -(2 ^ 32 : Int) ≤ r) (h2 : r < 0) :
    ((UInt32.ofInt r).toNat : Int) = 2 ^ 32 + r := by
  rw [UInt32.ofInt, UInt32.toNat_ofNat']
  omega

/-- Reading one element by a rank from the end, `-n ≤ r < 0`, as a rank: an
ordered list answers `n + r`, an unordered one the rank cut to `uint32_t`,
`2^32 + r`. -/
theorem get_by_rank_from_end_unordered_raw_rank {n : ℕ} {r : Int} (hn : n < 2 ^ 32)
    (h1 : -(n : Int) ≤ r) (h2 : r < 0) :
    packedListGetByRankRange (α := α) false ⟨.rank, false, false⟩ r 1 n = (0, .int (2 ^ 32 + r)) ∧
    packedListGetByRankRange (α := α) true ⟨.rank, false, false⟩ r 1 n = (0, .int (n + r)) := by
  have hcalc := calcIndexCount_neg_one h1 h2
  constructor
  · simp only [packedListGetByRankRange, Bool.false_and, Bool.false_eq_true, if_false, hcalc,
      one_ne_zero]
    simp only [resultDataSetRange, RangeResultData.toCdtResultData, RangeResultType.toResultType,
      resultDataSetIndexRankCount, indexRankResult, Bool.not_false, if_true, Bool.false_eq_true,
      if_false]
    rw [if_neg (by decide), toNat_ofInt_neg (by omega) h2]
  · simp only [packedListGetByRankRange, Bool.false_and, Bool.false_eq_true, if_false, if_true,
      packedListGetByIndexRangeOrdered, hcalc, indexRangeOrderedResult, one_ne_zero]
    by_cases hn1 : n - 1 = 0
    · have : (n : Int) + r = 0 := by omega
      simp only [hn1, if_true, resultDataSetIndexRankCount, RangeResultData.toCdtResultData,
        RangeResultType.toResultType, indexRankResult, Bool.not_false]
      rw [if_neg (by decide), this]
      rfl
    · simp only [hn1, if_false, Bool.not_false, if_true]
      have : ((n + r).toNat : Int) = n + r := Int.toNat_of_nonneg (by omega)
      rw [← this]
      rfl

theorem get_by_rank_minus_one_of_five :
    packedListGetByRankRange (α := Unit) false ⟨.rank, false, false⟩ (-1) 1 5 = (0, .int 4294967295) ∧
    packedListGetByRankRange (α := Unit) true ⟨.rank, false, false⟩ (-1) 1 5 = (0, .int 4) :=
  get_by_rank_from_end_unordered_raw_rank (by decide) (by decide) (by decide)

/-! ### Ranks from the start -/

theorem calcIndexCount_start_of_nonneg {r : Int} {count n : ℕ} {m : Bool} {i c : ℕ} (h0 : 0 ≤ r)
    (h : calcIndexCount r count n m = some (i, c)) (hc : c ≠ 0) : (i : Int) = r := by
  have hci : calcIndex r n = r := by rw [calcIndex, if_neg (by omega)]
  unfold calcIndexCount at h
  split_ifs at h with hm hout
  · rw [Option.some.injEq, calcIndexCountMulti, hci] at h
    split_ifs at h with h1 h2 <;> rw [Prod.mk.injEq] at h <;> obtain ⟨rfl, rfl⟩ := h <;> omega
  · rw [Option.some.injEq, Prod.mk.injEq, hci] at h
    obtain ⟨rfl, rfl⟩ := h
    omega

theorem toNat_ofNat_of_lt {c : ℕ} (hc : c < 2 ^ 32) : (UInt32.ofNat c).toNat = c :=
  UInt32.toNat_ofNat_of_lt' hc

theorem ofNat_eq_zero_iff {c : ℕ} (hc : c < 2 ^ 32) : UInt32.ofNat c = 0 ↔ c = 0 := by
  constructor
  · intro h
    have := congrArg UInt32.toNat h
    rwa [toNat_ofNat_of_lt hc] at this
  · rintro rfl
    rfl

theorem toNat_ofNat_sub_sub_one {n i : ℕ} (hi : i < n) (hn : n < 2 ^ 32) :
    (UInt32.ofNat n - UInt32.ofNat i - 1).toNat = n - i - 1 := by
  rw [UInt32.toNat_sub, UInt32.toNat_sub, toNat_ofNat_of_lt hn, toNat_ofNat_of_lt (by omega),
    UInt32.toNat_one]
  omega

/-- Reading by a rank from the start without `INVERTED`, the two paths agree:
the rank given is where the range starts. -/
theorem packedListGetByRankRange_unordered_eq_ordered (rd : RangeResultData)
    (hinv : rd.inverted = false) {r : Int} (count n : ℕ) (h0 : 0 ≤ r) (hn : n < 2 ^ 32) :
    packedListGetByRankRange (α := α) false rd r count n =
      packedListGetByRankRange true rd r count n := by
  simp only [packedListGetByRankRange, hinv, Bool.false_and, Bool.false_eq_true, if_false,
    if_true, packedListGetByIndexRangeOrdered]
  cases hcalc : calcIndexCount r count n rd.isMulti with
  | none => rfl
  | some p =>
    obtain ⟨i, c⟩ := p
    have hle := calcIndexCount_le hcalc
    simp only [indexRangeOrderedResult]
    by_cases hc : c = 0
    · simp only [hc, if_true]
    have hi : UInt32.ofInt r = UInt32.ofNat i := by
      rw [← calcIndexCount_start_of_nonneg h0 hcalc hc, UInt32.ofInt]
      congr 1
      omega
    have hc32 : UInt32.ofNat c ≠ 0 := fun h => hc ((ofNat_eq_zero_iff (by omega)).mp h)
    have hcn : (UInt32.ofNat c).toNat = c := toNat_ofNat_of_lt (by omega)
    rw [if_neg hc, if_neg hc, hi]
    obtain ⟨type, inverted, isMulti⟩ := rd
    subst hinv
    cases type with
    | none => rfl
    | count =>
      simp only [RangeResultData.toCdtResultData, RangeResultType.toResultType, resultDataSetRange,
        resultDataSetIndexRankCount, Bool.false_eq_true, if_false, hcn]
      congr 3
      omega
    | rank =>
      simp only [RangeResultData.toCdtResultData, RangeResultType.toResultType, resultDataSetRange,
        resultDataSetIndexRankCount, indexRankResult, hc32, if_false, Bool.false_eq_true]
      by_cases hall : n - c = 0
      · obtain rfl : i = 0 := by omega
        simp only [hall, if_true]
        rfl
      · cases isMulti
        · simp [hall, toNat_ofNat_of_lt (show i < 2 ^ 32 by omega)]
        · simp only [hall, if_false, Bool.not_true, Bool.false_eq_true]
          rfl
    | revRank =>
      simp only [RangeResultData.toCdtResultData, RangeResultType.toResultType, resultDataSetRange,
        resultDataSetIndexRankCount, indexRankResult, hc32, if_false, if_true, Bool.false_eq_true]
      by_cases hall : n - c = 0
      · obtain rfl : i = 0 := by omega
        simp only [hall, if_true]
        rfl
      · cases isMulti
        · simp only [hall, if_false, Bool.not_false, if_true, beq_self_eq_true]
          rw [toNat_ofNat_sub_sub_one (by omega) hn]
          congr 2
          omega
        · simp [hall]
    | rankRange => rfl
    | revRankRange => rfl

theorem packedListGetByRankRange_unordered_eq_ordered_rank_one :
    (⟨.rank, false, true⟩ : RangeResultData).inverted = false ∧ (0 : Int) ≤ 1 ∧ 5 < 2 ^ 32 ∧
      packedListGetByRankRange (α := ℕ) false ⟨.rank, false, true⟩ 1 2 5 =
        packedListGetByRankRange true ⟨.rank, false, true⟩ 1 2 5 :=
  ⟨rfl, by decide, by decide, packedListGetByRankRange_unordered_eq_ordered _ rfl 2 5 (by decide) (by decide)⟩

end Aerospike.Cdt
