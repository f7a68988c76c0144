import Aerospike.Lib.Word

/-! # Binary searches on sorted indexes

`msgpacked_index_find_index_sorted` (`cdt.c`) looks an entry up in a sorted
`msgpacked_index`. Its loop keeps the entries below `lower` less than the key
and those from `upper` greater, and moves the probe to `(i + upper) / 2` or
`(i + lower) / 2`, sums taken in `uint32_t`. While `count` is at most `2^31`
no sum wraps and the search is exact; past it, a wrapped sum sends the probe
below `lower` and the loop can run for ever.
-/

namespace Aerospike.Cdt

/-! ### `msgpacked_index_find_index_sorted` -/

/-- The `while (true)` loop of `msgpacked_index_find_index_sorted` on
`[lower, upper)` with the probe at `i`, for at most `fuel` rounds: whether the
entry is there, and `*where`; `none` when the rounds run out. -/
def findIndexSortedLoop (entry : ℕ → UInt32) (findIndex : UInt32) :
    ℕ → UInt32 → UInt32 → UInt32 → Option (Bool × UInt32)
  | 0, _, _, _ => none
  | fuel + 1, lower, upper, i =>
    let index := entry i.toNat
    if findIndex = index then some (true, i)
    else if findIndex > index then
      if i ≥ upper - 1 then some (false, i + 1)
      else findIndexSortedLoop entry findIndex fuel (i + 1) upper ((i + upper) / 2)
    else if i ≤ lower then some (false, i)
    else findIndexSortedLoop entry findIndex fuel lower i ((i + lower) / 2)

/-- `msgpacked_index_find_index_sorted` on the entries `msgpacked_index_get`
reads, with at most `fuel` rounds of its loop. -/
def msgpackedIndexFindIndexSorted (entry : ℕ → UInt32) (findIndex count : UInt32) (fuel : ℕ) :
    Option (Bool × UInt32) :=
  if count = 0 then some (false, 0)
  else findIndexSortedLoop entry findIndex fuel 0 count (count / 2)

section Sorted

variable {entry : ℕ → UInt32} {key : UInt32} {count : ℕ}

/-- The first `count` entries strictly increase. -/
def SortedEntries (entry : ℕ → UInt32) (count : ℕ) : Prop :=
  ∀ a b, a < b → b < count → entry a < entry b

/-- What the search answers: `*where` is the number of entries less than the
key, and the key is found iff an entry has it. -/
def FindSortedResult (entry : ℕ → UInt32) (key : UInt32) (count : ℕ) (r : Bool × UInt32) : Prop :=
  r.2.toNat ≤ count ∧ (r.1 = true ↔ ∃ j < count, entry j = key) ∧
    ∀ j < count, (j < r.2.toNat ↔ entry j < key)

/-- The loop's invariant: the probe in `[lower, upper)`, the entries below
`lower` less than the key, those from `upper` greater, and no sum wrapping. -/
structure FindSortedInv (entry : ℕ → UInt32) (key : UInt32) (count : ℕ) (lower upper i : UInt32) :
    Prop where
  lower_le : lower.toNat ≤ i.toNat
  lt_upper : i.toNat < upper.toNat
  upper_le : upper.toNat ≤ count
  count_le : count ≤ 2 ^ 31
  below : ∀ j < lower.toNat, entry j < key
  above : ∀ j, upper.toNat ≤ j → j < count → key < entry j

theorem SortedEntries.le (hs : SortedEntries entry count) {a b : ℕ} (hab : a ≤ b) (hb : b < count) :
    (entry a).toNat ≤ (entry b).toNat := by
  rcases Nat.eq_or_lt_of_le hab with rfl | hlt
  · exact le_rfl
  · exact (UInt32.lt_iff_toNat_lt.mp (hs a b hlt hb)).le

theorem toNat_add_div_two {a b : UInt32} (h : a.toNat + b.toNat < 2 ^ 32) :
    ((a + b) / 2).toNat = (a.toNat + b.toNat) / 2 := by
  have h2 : (2 : UInt32).toNat = 2 := rfl
  rw [UInt32.toNat_div, UInt32.toNat_add, h2, Nat.mod_eq_of_lt h]

theorem findSortedResult_of_split (hs : SortedEntries entry count) {w : UInt32} (hw : w.toNat ≤ count)
    (hbelow : ∀ j < w.toNat, entry j < key) (habove : ∀ j, w.toNat ≤ j → j < count → key ≤ entry j)
    {b : Bool} (hb : b = true ↔ w.toNat < count ∧ entry w.toNat = key) :
    FindSortedResult entry key count (b, w) := by
  refine ⟨hw, ?_, fun j hj => ⟨fun h => hbelow j h, fun h => ?_⟩⟩
  · rw [hb]
    refine ⟨fun ⟨hlt, heq⟩ => ⟨_, hlt, heq⟩, fun ⟨j, hj, heq⟩ => ?_⟩
    have hjw : w.toNat ≤ j := Nat.le_of_not_lt fun h => by
      have := UInt32.lt_iff_toNat_lt.mp (hbelow j h)
      rw [heq] at this
      exact lt_irrefl _ this
    have h1 := UInt32.le_iff_toNat_le.mp (habove _ le_rfl (by omega))
    have h2 := hs.le hjw hj
    rw [heq] at h2
    exact ⟨by omega, UInt32.toNat_inj.mp (by omega)⟩
  · show j < w.toNat
    by_contra hge
    have h1 := UInt32.le_iff_toNat_le.mp (habove j (by omega) hj)
    have h2 := UInt32.lt_iff_toNat_lt.mp h
    omega

/-- With the invariant, the loop answers within `upper - lower` rounds. By
induction on the rounds: the found and the two end cases answer at once, the
two moves keep the invariant on a shorter range. -/
theorem findIndexSortedLoop_spec (hs : SortedEntries entry count) :
    ∀ (fuel : ℕ) (lower upper i : UInt32), FindSortedInv entry key count lower upper i →
      upper.toNat - lower.toNat ≤ fuel →
      ∃ r, findIndexSortedLoop entry key fuel lower upper i = some r ∧ FindSortedResult entry key count r
  | 0, lower, upper, i, hinv, hfuel => absurd hfuel (by have := hinv.lower_le; have := hinv.lt_upper; omega)
  | fuel + 1, lower, upper, i, hinv, hfuel => by
    obtain ⟨hli, hiu, huc, hc, hbelow, habove⟩ := hinv
    have hi : i.toNat < count := by omega
    have hup1 : (upper - 1).toNat = upper.toNat - 1 := UInt32.toNat_sub_of_le _ _
      (UInt32.le_iff_toNat_le.mpr (by rw [UInt32.toNat_one]; omega))
    rw [findIndexSortedLoop]
    by_cases heq : key = entry i.toNat
    · rw [if_pos heq]
      refine ⟨_, rfl, findSortedResult_of_split hs hi.le (fun j hj => ?_) (fun j hj hjc => ?_) ?_⟩
      · rw [heq]; exact hs j _ hj hi
      · rw [heq]; exact UInt32.le_iff_toNat_le.mpr (hs.le hj hjc)
      · exact ⟨fun _ => ⟨hi, heq.symm⟩, fun _ => rfl⟩
    rw [if_neg heq]
    by_cases hgt : key > entry i.toNat
    · rw [if_pos hgt]
      have hgt' := UInt32.lt_iff_toNat_lt.mp hgt
      by_cases hlast : i ≥ upper - 1
      · rw [if_pos hlast]
        have hlast' := UInt32.le_iff_toNat_le.mp hlast
        have hi1 : (i + 1).toNat = upper.toNat := by
          rw [UInt32.toNat_add, UInt32.toNat_one, Nat.mod_eq_of_lt (by omega)]
          omega
        refine ⟨_, rfl, findSortedResult_of_split hs (by omega) (fun j hj => ?_) (fun j hj hjc => ?_) ?_⟩
        · have := hs.le (show j ≤ i.toNat by omega) hi
          exact UInt32.lt_iff_toNat_lt.mpr (by omega)
        · exact UInt32.le_of_lt (habove j (by omega) hjc)
        · refine ⟨fun h => absurd h Bool.false_ne_true, fun ⟨hlt, heq'⟩ => ?_⟩
          have := habove _ (by omega) hlt
          rw [heq'] at this
          exact absurd this (UInt32.lt_irrefl _)
      · rw [if_neg hlast]
        have hlast' : ¬upper.toNat - 1 ≤ i.toNat := fun h => hlast (UInt32.le_iff_toNat_le.mpr (by omega))
        have hi1 : (i + 1).toNat = i.toNat + 1 := by
          rw [UInt32.toNat_add, UInt32.toNat_one, Nat.mod_eq_of_lt (by omega)]
        have hmid := toNat_add_div_two (a := i) (b := upper) (by omega)
        refine findIndexSortedLoop_spec hs fuel _ _ _ ⟨by omega, by omega, huc, hc, fun j hj => ?_, habove⟩
          (by omega)
        have := hs.le (show j ≤ i.toNat by omega) hi
        exact UInt32.lt_iff_toNat_lt.mpr (by omega)
    · rw [if_neg hgt]
      have hlt' : key.toNat < (entry i.toNat).toNat := by
        have h1 := UInt32.le_iff_toNat_le.mp (UInt32.not_lt.mp hgt)
        have h2 : key.toNat ≠ (entry i.toNat).toNat := fun h => heq (UInt32.toNat_inj.mp h)
        omega
      by_cases hfirst : i ≤ lower
      · rw [if_pos hfirst]
        have hfirst' := UInt32.le_iff_toNat_le.mp hfirst
        refine ⟨_, rfl, findSortedResult_of_split hs hi.le (fun j hj => hbelow j (by omega))
          (fun j hj hjc => ?_) ?_⟩
        · have := hs.le hj hjc
          exact UInt32.le_iff_toNat_le.mpr (by omega)
        · refine ⟨fun h => absurd h Bool.false_ne_true, fun ⟨_, heq'⟩ => ?_⟩
          rw [heq'] at hlt'
          exact absurd hlt' (lt_irrefl _)
      · rw [if_neg hfirst]
        have hfirst' : ¬i.toNat ≤ lower.toNat := fun h => hfirst (UInt32.le_iff_toNat_le.mpr h)
        have hmid := toNat_add_div_two (a := i) (b := lower) (by omega)
        refine findIndexSortedLoop_spec hs fuel _ _ _ ⟨by omega, by omega, by omega, hc, hbelow, fun j hj hjc => ?_⟩
          (by omega)
        have := hs.le hj hjc
        exact UInt32.lt_iff_toNat_lt.mpr (by omega)

theorem countP_lt_range (w : ℕ) : ∀ n, (List.range n).countP (fun j => decide (j < w)) = min w n
  | 0 => by simp
  | n + 1 => by
    rw [List.range_succ, List.countP_append, countP_lt_range w n, List.countP_singleton]
    by_cases hn : n < w
    · rw [if_pos (decide_eq_true hn)]
      omega
    · rw [if_neg (by simpa using hn)]
      omega

theorem countP_range_of_split {p : ℕ → Bool} {w n : ℕ} (hw : w ≤ n) (h : ∀ j < n, (j < w ↔ p j = true)) :
    (List.range n).countP p = w := by
  rw [List.countP_congr (q := fun j => decide (j < w)) fun j hj => by
    rw [decide_eq_true_iff, ← h j (List.mem_range.mp hj)], countP_lt_range, Nat.min_eq_left hw]

theorem FindSortedResult.where_eq_countP {r : Bool × UInt32} (h : FindSortedResult entry key count r) :
    r.2.toNat = (List.range count).countP (fun j => decide (entry j < key)) :=
  (countP_range_of_split h.1 fun j hj => by rw [h.2.2 j hj, decide_eq_true_iff]).symm

/-- `msgpacked_index_find_index_sorted` on `count ≤ 2^31` sorted entries answers
within `count` rounds: found iff an entry is the key, and `*where` the number
of entries less than the key. -/
theorem msgpackedIndexFindIndexSorted_spec (hs : SortedEntries entry count) {cnt : UInt32}
    (hcnt : cnt.toNat = count) (hc : count ≤ 2 ^ 31) (fuel : ℕ) (hfuel : count ≤ fuel) :
    ∃ r, msgpackedIndexFindIndexSorted entry key cnt fuel = some r ∧ FindSortedResult entry key count r := by
  unfold msgpackedIndexFindIndexSorted
  by_cases h0 : cnt = 0
  · rw [if_pos h0]
    have : count = 0 := by rw [← hcnt, h0]; rfl
    subst this
    exact ⟨_, rfl, Nat.zero_le _, ⟨fun h => absurd h Bool.false_ne_true, fun ⟨j, hj, _⟩ => absurd hj (Nat.not_lt_zero _)⟩,
      fun j hj => absurd hj (Nat.not_lt_zero _)⟩
  rw [if_neg h0]
  have hpos : 0 < count := by
    rw [← hcnt]
    exact Nat.pos_of_ne_zero fun h => h0 (UInt32.toNat_inj.mp (by rw [h]; rfl))
  have hmid : (cnt / 2).toNat = count / 2 := by rw [UInt32.toNat_div, hcnt]; rfl
  exact findIndexSortedLoop_spec hs fuel 0 cnt (cnt / 2)
    ⟨by rw [hmid]; exact Nat.zero_le _, by omega, by omega, hc, fun j hj => absurd hj (Nat.not_lt_zero _),
      fun j hj hjc => absurd hjc (by omega)⟩ (by simp; omega)

end Sorted

/-! ### Past `2^31` entries -/

inductive MsgpackCompare
  | atEnd
  | less
  | equal
  | greater
  | error
  deriving DecidableEq, Repr

/-- `order_index_find`: the range searched, the element index that steers
among equal values, and the answer. -/
structure OrderIndexFind where
  start : UInt32
  count : UInt32
  target : UInt32
  result : UInt32
  found : Bool
  deriving DecidableEq, Repr

/-- What an `EQUAL` at element `idx` and rank `rank` becomes: `none` is the
`break`; `target` below `idx` searches left, above it right unless the probe
is the last of the range. -/
def steerEqual (target eleCount idx rank upper : UInt32) : Option MsgpackCompare :=
  if target > eleCount then none
  else if target < idx then some .less
  else if target > idx then (if rank = upper - 1 then none else some .greater)
  else none

/-- The `while (true)` loop of `order_index_find_rank_by_value` on
`[lower, upper)` with the probe at `rank`, for at most `fuel` rounds; `cmpAt`
is `as_unpack_compare` of the value with the element of an index, and
`idxAt` the order index. The answer is the return value, `found` and the
rank; `none` when the rounds run out. -/
def findRankByValueLoop (cmpAt : ℕ → MsgpackCompare) (idxAt : UInt32 → UInt32) (target eleCount : UInt32) :
    ℕ → Bool → UInt32 → UInt32 → UInt32 → Option (Bool × Bool × UInt32)
  | 0, _, _, _, _ => none
  | fuel + 1, found, lower, upper, rank =>
    let idx := idxAt rank
    let cmp := cmpAt idx.toNat
    let found := found || cmp == .equal
    let cmp := if cmp = .equal then steerEqual target eleCount idx rank upper else some cmp
    match cmp with
    | none => some (true, found, rank)
    | some .greater =>
      if rank ≥ upper - 1 then some (true, found, rank + 1)
      else findRankByValueLoop cmpAt idxAt target eleCount fuel found (rank + if found then 0 else 1) upper
        ((rank + upper) / 2)
    | some .less =>
      if rank = lower then some (true, found, rank)
      else findRankByValueLoop cmpAt idxAt target eleCount fuel found lower rank ((rank + lower) / 2)
    | some _ => some (false, found, rank)

/-- `order_index_find_rank_by_value` with at most `fuel` rounds: the return
value and `find` after; without an order index the rank is the element index. -/
def orderIndexFindRankByValue (ordidx : Option (UInt32 → UInt32)) (cmpAt : ℕ → MsgpackCompare)
    (eleCount : UInt32) (find : OrderIndexFind) (fuel : ℕ) : Option (Bool × OrderIndexFind) :=
  if eleCount = 0 ∨ find.count = 0 then some (true, { find with found := false, result := eleCount })
  else
    match findRankByValueLoop cmpAt (ordidx.getD id) find.target eleCount fuel false find.start
        (find.start + find.count) (find.start + find.count / 2) with
    | none => none
    | some (ok, found, rank) =>
      some (ok, if ok then { find with found := found, result := rank } else { find with found := found })

/-- `as_unpack_compare` of two values of a total preorder: `LESS` when the
first is below the second. -/
def msgpackCompareOf {κ : Type} [LE κ] [DecidableLE κ] (a b : κ) : MsgpackCompare :=
  if a ≤ b then (if b ≤ a then .equal else .less) else .greater

section Rounds

variable {cmpAt : ℕ → MsgpackCompare} {target eleCount : UInt32} {fuel : ℕ} {found : Bool}
  {lower upper rank : UInt32}

theorem findRankByValueLoop_break (h : cmpAt rank.toNat = .equal)
    (hs : steerEqual target eleCount rank rank upper = none) :
    findRankByValueLoop cmpAt id target eleCount (fuel + 1) found lower upper rank = some (true, true, rank) := by
  simp [findRankByValueLoop, h, hs]

theorem findRankByValueLoop_less (h : (if cmpAt rank.toNat = .equal then steerEqual target eleCount rank rank upper
      else some (cmpAt rank.toNat)) = some .less) :
    findRankByValueLoop cmpAt id target eleCount (fuel + 1) found lower upper rank =
      if rank = lower then some (true, found || cmpAt rank.toNat == .equal, rank)
      else findRankByValueLoop cmpAt id target eleCount fuel (found || cmpAt rank.toNat == .equal) lower rank
        ((rank + lower) / 2) := by
  simp only [findRankByValueLoop, id, h]

theorem findRankByValueLoop_greater (h : (if cmpAt rank.toNat = .equal then steerEqual target eleCount rank rank upper
      else some (cmpAt rank.toNat)) = some .greater) :
    findRankByValueLoop cmpAt id target eleCount (fuel + 1) found lower upper rank =
      if rank ≥ upper - 1 then some (true, found || cmpAt rank.toNat == .equal, rank + 1)
      else findRankByValueLoop cmpAt id target eleCount fuel (found || cmpAt rank.toNat == .equal)
        (rank + if (found || cmpAt rank.toNat == .equal) then 0 else 1) upper ((rank + upper) / 2) := by
  simp only [findRankByValueLoop, id, h]

theorem orderIndexFindRankByValue_of_loop {find : OrderIndexFind} (hne : ¬(eleCount = 0 ∨ find.count = 0))
    (ht : find.target = target)
    (h : findRankByValueLoop cmpAt id target eleCount fuel false find.start (find.start + find.count)
      (find.start + find.count / 2) = some (true, found, rank)) :
    orderIndexFindRankByValue none cmpAt eleCount find fuel =
      some (true, { find with found := found, result := rank }) := by
  rw [orderIndexFindRankByValue, if_neg hne, Option.getD_none, ht, h]
  rfl

theorem findInit_ne {find : OrderIndexFind} (hcount : 0 < find.count.toNat)
    (hen : find.start.toNat + find.count.toNat ≤ eleCount.toNat) : ¬(eleCount = 0 ∨ find.count = 0) := by
  rintro (h | h)
  · rw [h, UInt32.toNat_zero] at hen
    omega
  · rw [h, UInt32.toNat_zero] at hcount
    omega

theorem toNat_findInit {find : OrderIndexFind} (he : find.start.toNat + find.count.toNat ≤ 2 ^ 31) :
    (find.start + find.count).toNat = find.start.toNat + find.count.toNat ∧
      (find.start + find.count / 2).toNat = find.start.toNat + find.count.toNat / 2 := by
  have h2 : (2 : UInt32).toNat = 2 := rfl
  constructor
  · rw [UInt32.toNat_add, Nat.mod_eq_of_lt (by omega)]
  · rw [UInt32.toNat_add, UInt32.toNat_div, h2, Nat.mod_eq_of_lt (by omega)]

theorem measure_findInit {find : OrderIndexFind} (he : find.start.toNat + find.count.toNat ≤ 2 ^ 31) :
    2 * ((find.start + find.count).toNat - find.start.toNat) +
      (if (find.start + find.count / 2).toNat = find.start.toNat then 1 else 0) ≤ 2 * find.count.toNat + 1 := by
  obtain ⟨hup, hmid⟩ := toNat_findInit he
  rw [hup, hmid]
  split_ifs <;> omega

end Rounds

section RankByValue

variable {κ : Type} [Preorder κ] {ele : ℕ → κ} {value : κ} {s e : ℕ} {found : Bool}
  {lower upper rank : UInt32}

/-- Element `j` has the value. -/
def EqAt (ele : ℕ → κ) (value : κ) (j : ℕ) : Prop := value ≤ ele j ∧ ele j ≤ value

def SortedOn (ele : ℕ → κ) (s e : ℕ) : Prop := ∀ a b, s ≤ a → a ≤ b → b < e → ele a ≤ ele b

/-- The bounds of the search: the probe in `[lower, upper)` inside `[s, e)`,
no sum wrapping, and `found` only after an element with the value. -/
structure RankBounds (ele : ℕ → κ) (value : κ) (s e : ℕ) (found : Bool) (lower upper rank : UInt32) :
    Prop where
  s_le : s ≤ lower.toNat
  lower_le : lower.toNat ≤ rank.toNat
  lt_upper : rank.toNat < upper.toNat
  upper_le : upper.toNat ≤ e
  e_le : e ≤ 2 ^ 31
  sound : found = true → ∃ j, s ≤ j ∧ j < e ∧ EqAt ele value j

theorem RankBounds.toNat_down (hb : RankBounds ele value s e found lower upper rank) :
    ((rank + lower) / 2).toNat = (rank.toNat + lower.toNat) / 2 :=
  toNat_add_div_two (by have := hb.lower_le; have := hb.lt_upper; have := hb.upper_le; have := hb.e_le; omega)

theorem RankBounds.toNat_up (hb : RankBounds ele value s e found lower upper rank) :
    ((rank + upper) / 2).toNat = (rank.toNat + upper.toNat) / 2 :=
  toNat_add_div_two (by have := hb.lt_upper; have := hb.upper_le; have := hb.e_le; omega)

theorem RankBounds.toNat_succ (hb : RankBounds ele value s e found lower upper rank) :
    (rank + 1).toNat = rank.toNat + 1 := by
  have := hb.lt_upper; have := hb.upper_le; have := hb.e_le
  rw [UInt32.toNat_add, UInt32.toNat_one, Nat.mod_eq_of_lt (by omega)]

theorem RankBounds.toNat_step (hb : RankBounds ele value s e found lower upper rank) (f : Bool) :
    ∃ d ≤ 1, (rank + if f = true then 0 else 1).toNat = rank.toNat + d := by
  cases f
  · exact ⟨1, le_rfl, by simpa using hb.toNat_succ⟩
  · exact ⟨0, Nat.zero_le _, by simp⟩

theorem RankBounds.ge_upper_sub_one_iff (hb : RankBounds ele value s e found lower upper rank) :
    rank ≥ upper - 1 ↔ rank.toNat + 1 = upper.toNat := by
  have := hb.lt_upper
  rw [ge_iff_le, UInt32.le_iff_toNat_le, UInt32.toNat_sub_of_le _ _
    (UInt32.le_iff_toNat_le.mpr (by rw [UInt32.toNat_one]; omega)), UInt32.toNat_one]
  omega

theorem RankBounds.succ_lt_upper (hb : RankBounds ele value s e found lower upper rank)
    (htop : ¬rank ≥ upper - 1) : rank.toNat + 1 < upper.toNat := by
  have := hb.lt_upper
  have := mt hb.ge_upper_sub_one_iff.mpr htop
  omega

theorem RankBounds.lower_lt (hb : RankBounds ele value s e found lower upper rank)
    (hlow : ¬rank = lower) : lower.toNat < rank.toNat :=
  lt_of_le_of_ne hb.lower_le fun h => hlow (UInt32.toNat_inj.mp h.symm)

theorem exists_eqAt_iff {r : ℕ} (hsort : SortedOn ele s e) (hsr : s ≤ r) (hbelow : ∀ j, s ≤ j → j < r → ¬value ≤ ele j)
    (habove : ∀ j, r ≤ j → j < e → value ≤ ele j) :
    (∃ j, s ≤ j ∧ j < e ∧ EqAt ele value j) ↔ r < e ∧ ele r ≤ value := by
  constructor
  · rintro ⟨j, hsj, hje, hv, hle⟩
    have hrj : r ≤ j := Nat.le_of_not_lt fun h => hbelow j hsj h hv
    exact ⟨by omega, le_trans (hsort r j (by omega) hrj hje) hle⟩
  · rintro ⟨hre, hle⟩
    exact ⟨r, hsr, hre, habove r le_rfl hre, hle⟩

/-- The search for the first element at least the value (`target` `0`): the
elements below `lower` are less than the value, those from `upper` at least
it, and the element at `upper`, when it has the value, has been found. -/
structure FirstGeInv (ele : ℕ → κ) (value : κ) (s e : ℕ) (found : Bool) (lower upper rank : UInt32) : Prop
    extends RankBounds ele value s e found lower upper rank where
  below : ∀ j, s ≤ j → j < lower.toNat → ¬value ≤ ele j
  above : ∀ j, upper.toNat ≤ j → j < e → value ≤ ele j
  hit : upper.toNat < e → ele upper.toNat ≤ value → found = true

/-- The answer of the search for the first element at least the value: that
element's rank (the end of the range when there is none), and `found` iff the
range holds the value. -/
def FirstGeResult (ele : ℕ → κ) (value : κ) (s e : ℕ) (r : Bool × Bool × UInt32) : Prop :=
  r.1 = true ∧ s ≤ r.2.2.toNat ∧ r.2.2.toNat ≤ e ∧ (∀ j, s ≤ j → j < r.2.2.toNat → ¬value ≤ ele j) ∧
    (r.2.2.toNat < e → value ≤ ele r.2.2.toNat) ∧ (r.2.1 = true ↔ ∃ j, s ≤ j ∧ j < e ∧ EqAt ele value j)

theorem FirstGeResult.mk {found : Bool} {r : UInt32} (hsr : s ≤ r.toNat) (hre : r.toNat ≤ e)
    (hbelow : ∀ j, s ≤ j → j < r.toNat → ¬value ≤ ele j) (habove : r.toNat < e → value ≤ ele r.toNat)
    (hfound : found = true ↔ ∃ j, s ≤ j ∧ j < e ∧ EqAt ele value j) :
    FirstGeResult ele value s e (true, found, r) :=
  ⟨rfl, hsr, hre, hbelow, habove, hfound⟩

theorem RankBounds.eq_upper_sub_one_iff (hb : RankBounds ele value s e found lower upper rank) :
    rank = upper - 1 ↔ rank.toNat + 1 = upper.toNat := by
  have := hb.lt_upper
  rw [← UInt32.toNat_inj, UInt32.toNat_sub_of_le _ _
    (UInt32.le_iff_toNat_le.mpr (by rw [UInt32.toNat_one]; omega)), UInt32.toNat_one]
  omega

theorem not_exists_eqAt {r : ℕ} (hbelow : ∀ j, s ≤ j → j < r → ¬value ≤ ele j)
    (habove : ∀ j, r ≤ j → j < e → ¬ele j ≤ value) :
    ¬∃ j, s ≤ j ∧ j < e ∧ EqAt ele value j := by
  rintro ⟨j, hsj, hje, hv, hle⟩
  by_cases hjr : j < r
  · exact hbelow j hsj hjr hv
  · exact habove j (by omega) hje hle

/-- The search for the last element with the value (`target` the element
count): until it is found the elements below `lower` are less than the
value, after that `lower` has it; the elements from `upper` are greater. -/
structure LastEqInv (ele : ℕ → κ) (value : κ) (s e : ℕ) (found : Bool) (lower upper rank : UInt32) : Prop
    extends RankBounds ele value s e found lower upper rank where
  below : found = false → ∀ j, s ≤ j → j < lower.toNat → ¬value ≤ ele j
  above : ∀ j, upper.toNat ≤ j → j < e → ¬ele j ≤ value
  atLower : found = true → EqAt ele value lower.toNat

/-- The answer of the search for the last element with the value: `found`
iff the range holds the value, and then the rank of an element with it
after which all are greater. -/
def LastEqResult (ele : ℕ → κ) (value : κ) (s e : ℕ) (r : Bool × Bool × UInt32) : Prop :=
  r.1 = true ∧ (r.2.1 = true ↔ ∃ j, s ≤ j ∧ j < e ∧ EqAt ele value j) ∧
    (r.2.1 = true → s ≤ r.2.2.toNat ∧ r.2.2.toNat < e ∧ EqAt ele value r.2.2.toNat ∧
      ∀ j, r.2.2.toNat < j → j < e → ¬ele j ≤ value)

theorem LastEqResult.hit {r : UInt32} (hsr : s ≤ r.toNat) (hre : r.toNat < e) (heq : EqAt ele value r.toNat)
    (habove : ∀ j, r.toNat < j → j < e → ¬ele j ≤ value) :
    LastEqResult ele value s e (true, true, r) :=
  ⟨rfl, ⟨fun _ => ⟨r.toNat, hsr, hre, heq⟩, fun _ => rfl⟩, fun _ => ⟨hsr, hre, heq, habove⟩⟩

theorem LastEqResult.miss {r : UInt32} (hnone : ¬∃ j, s ≤ j ∧ j < e ∧ EqAt ele value j) :
    LastEqResult ele value s e (true, false, r) :=
  ⟨rfl, ⟨nofun, fun h => absurd h hnone⟩, nofun⟩

theorem rankBounds_findInit {find : OrderIndexFind} (hcount : 0 < find.count.toNat)
    (he : find.start.toNat + find.count.toNat ≤ 2 ^ 31) :
    RankBounds ele value find.start.toNat (find.start.toNat + find.count.toNat) false find.start
      (find.start + find.count) (find.start + find.count / 2) := by
  obtain ⟨hup, hmid⟩ := toNat_findInit he
  exact ⟨le_rfl, by omega, by omega, by omega, by omega, nofun⟩

section Compare

variable [DecidableLE κ] {cmpAt : ℕ → MsgpackCompare}

def ComparesWith (cmpAt : ℕ → MsgpackCompare) (ele : ℕ → κ) (value : κ) : Prop :=
  ∀ i, cmpAt i = msgpackCompareOf value (ele i)

theorem compare_eq_equal (hc : ComparesWith cmpAt ele value) (j : ℕ) :
    cmpAt j = .equal ↔ EqAt ele value j := by
  rw [hc, msgpackCompareOf, EqAt]
  split_ifs <;> simp_all

theorem compare_eq_greater (hc : ComparesWith cmpAt ele value) (j : ℕ) :
    cmpAt j = .greater ↔ ¬value ≤ ele j := by
  rw [hc, msgpackCompareOf]
  split_ifs <;> simp_all

theorem compare_eq_less (hc : ComparesWith cmpAt ele value) (j : ℕ) :
    cmpAt j = .less ↔ value ≤ ele j ∧ ¬ele j ≤ value := by
  rw [hc, msgpackCompareOf]
  split_ifs <;> simp_all

theorem steerEqual_zero (eleCount rank upper : UInt32) :
    steerEqual 0 eleCount rank rank upper = if rank = 0 then none else some .less := by
  unfold steerEqual
  by_cases h : rank = 0
  · subst h
    simp [UInt32.lt_iff_toNat_lt]
  · have hpos : (0 : UInt32) < rank := UInt32.lt_iff_toNat_lt.mpr (by
      have : rank.toNat ≠ 0 := fun h0 => h (UInt32.toNat_inj.mp h0)
      rw [UInt32.toNat_zero]; omega)
    simp [h, hpos, UInt32.lt_iff_toNat_lt]

/-- The search with `target` `0` answers within its measure. By induction on
the rounds: an `EQUAL` or a `LESS` at the probe moves `upper` to it, a
`GREATER` moves `lower` past it, or to it once the value has been found. -/
theorem findRankByValueLoop_firstGe (hc : ComparesWith cmpAt ele value) (hsort : SortedOn ele s e)
    (eleCount : UInt32) :
    ∀ (fuel : ℕ) (found : Bool) (lower upper rank : UInt32), FirstGeInv ele value s e found lower upper rank →
      2 * (upper.toNat - lower.toNat) + (if rank.toNat = lower.toNat then 1 else 0) ≤ fuel →
      ∃ r, findRankByValueLoop cmpAt id 0 eleCount fuel found lower upper rank = some r ∧
        FirstGeResult ele value s e r
  | 0, found, lower, upper, rank, hinv, hfuel => by
    have := hinv.lt_upper; have := hinv.lower_le
    omega
  | fuel + 1, found, lower, upper, rank, hinv, hfuel => by
    have hru := hinv.lt_upper
    have hlr := hinv.lower_le
    have hre : rank.toNat < e := Nat.lt_of_lt_of_le hru hinv.upper_le
    have hsr : s ≤ rank.toNat := le_trans hinv.s_le hinv.lower_le
    by_cases hv : value ≤ ele rank.toNat
    · by_cases hle : ele rank.toNat ≤ value
      · have hcmp : cmpAt rank.toNat = .equal := (compare_eq_equal hc _).mpr ⟨hv, hle⟩
        by_cases h0 : rank = 0
        · rw [findRankByValueLoop_break hcmp (by rw [steerEqual_zero, if_pos h0])]
          have hr0 : rank.toNat = 0 := by rw [h0]; rfl
          exact ⟨_, rfl, FirstGeResult.mk hsr hre.le (fun j hj hjr => absurd hjr (by omega)) (fun _ => hv)
            ⟨fun _ => ⟨rank.toNat, hsr, hre, hv, hle⟩, fun _ => rfl⟩⟩
        · have hsteer : (if cmpAt rank.toNat = .equal then steerEqual 0 eleCount rank rank upper
              else some (cmpAt rank.toNat)) = some .less := by rw [if_pos hcmp, steerEqual_zero, if_neg h0]
          rw [findRankByValueLoop_less hsteer, hcmp]
          have hf : (found || MsgpackCompare.equal == MsgpackCompare.equal) = true := by simp
          rw [hf]
          by_cases hlow : rank = lower
          · rw [if_pos hlow]
            have hlr : lower.toNat = rank.toNat := by rw [hlow]
            exact ⟨_, rfl, FirstGeResult.mk hsr hre.le (fun j hj hjr => hinv.below j hj (by omega))
              (fun _ => hv) ⟨fun _ => ⟨rank.toNat, hsr, hre, hv, hle⟩, fun _ => rfl⟩⟩
          · rw [if_neg hlow]
            have hlow' := hinv.lower_lt hlow
            have hmid := hinv.toNat_down
            refine findRankByValueLoop_firstGe hc hsort eleCount fuel true lower rank _
              ⟨⟨hinv.s_le, by omega, by omega, hre.le, hinv.e_le, fun _ => ⟨rank.toNat, hsr, hre, hv, hle⟩⟩,
                hinv.below, fun j hj hje => le_trans hv (hsort _ _ hsr hj hje), fun _ _ => rfl⟩ ?_
            split_ifs at hfuel ⊢ <;> omega
      · have hcmp : cmpAt rank.toNat = .less := (compare_eq_less hc _).mpr ⟨hv, hle⟩
        have hsteer : (if cmpAt rank.toNat = .equal then steerEqual 0 eleCount rank rank upper
            else some (cmpAt rank.toNat)) = some .less := by rw [if_neg (by rw [hcmp]; decide), hcmp]
        rw [findRankByValueLoop_less hsteer, hcmp]
        have hf : (found || MsgpackCompare.less == MsgpackCompare.equal) = found := by simp
        rw [hf]
        by_cases hlow : rank = lower
        · rw [if_pos hlow]
          have hlr : lower.toNat = rank.toNat := by rw [hlow]
          have hiff := exists_eqAt_iff hsort hsr (fun j hj hjr => hinv.below j hj (by omega))
            (fun j hj hje => le_trans hv (hsort _ _ hsr hj hje))
          exact ⟨_, rfl, FirstGeResult.mk hsr hre.le (fun j hj hjr => hinv.below j hj (by omega)) (fun _ => hv)
            ⟨fun hf => absurd (hiff.mp (hinv.sound hf)).2 hle, fun h => absurd (hiff.mp h).2 hle⟩⟩
        · rw [if_neg hlow]
          have hlow' := hinv.lower_lt hlow
          have hmid := hinv.toNat_down
          refine findRankByValueLoop_firstGe hc hsort eleCount fuel found lower rank _
            ⟨⟨hinv.s_le, by omega, by omega, hre.le, hinv.e_le, hinv.sound⟩,
              hinv.below, fun j hj hje => le_trans hv (hsort _ _ hsr hj hje), fun _ h => absurd h hle⟩ ?_
          split_ifs at hfuel ⊢ <;> omega
    · have hcmp : cmpAt rank.toNat = .greater := (compare_eq_greater hc _).mpr hv
      have hsteer : (if cmpAt rank.toNat = .equal then steerEqual 0 eleCount rank rank upper
          else some (cmpAt rank.toNat)) = some .greater := by rw [if_neg (by rw [hcmp]; decide), hcmp]
      rw [findRankByValueLoop_greater hsteer, hcmp]
      have hf : (found || MsgpackCompare.greater == MsgpackCompare.equal) = found := by simp
      rw [hf]
      have hbelow : ∀ j, s ≤ j → j ≤ rank.toNat → ¬value ≤ ele j :=
        fun j hj hjr h => hv (le_trans h (hsort _ _ hj hjr hre))
      by_cases htop : rank ≥ upper - 1
      · rw [if_pos htop]
        have hup := hinv.ge_upper_sub_one_iff.mp htop
        have hsucc : (rank + 1).toNat = upper.toNat := by rw [hinv.toNat_succ]; exact hup
        have hiff := exists_eqAt_iff hsort (r := upper.toNat) (by omega)
          (fun j hj hjr => hbelow j hj (by omega)) (fun j hj hje => hinv.above j hj hje)
        refine ⟨_, rfl, FirstGeResult.mk (by omega) (by rw [hsucc]; exact hinv.upper_le)
          (fun j hj hjr => hbelow j hj (by omega)) (fun h => hinv.above _ (by omega) (by omega)) ?_⟩
        exact ⟨fun hf => hinv.sound hf, fun h => hinv.hit (hiff.mp h).1 (hiff.mp h).2⟩
      · rw [if_neg htop]
        have hup := hinv.succ_lt_upper htop
        have hmid := hinv.toNat_up
        obtain ⟨d, hd, hstep⟩ := hinv.toNat_step found
        generalize (rank + if found = true then 0 else 1) = lower' at hstep ⊢
        refine findRankByValueLoop_firstGe hc hsort eleCount fuel found _ upper _
          ⟨⟨by omega, by omega, by omega, hinv.upper_le, hinv.e_le, hinv.sound⟩,
            fun j hj hjl => hbelow j hj (by omega), hinv.above, hinv.hit⟩ ?_
        split_ifs at hfuel ⊢ <;> omega

theorem steerEqual_count {eleCount rank : UInt32} (h : rank.toNat < eleCount.toNat) (upper : UInt32) :
    steerEqual eleCount eleCount rank rank upper = if rank = upper - 1 then none else some .greater := by
  have h' : rank < eleCount := UInt32.lt_iff_toNat_lt.mpr h
  simp [steerEqual, UInt32.lt_irrefl, h', UInt32.not_lt.mpr (UInt32.le_of_lt h')]

/-- The search with `target` the element count answers within its measure.
Until the value is found the rounds are those of `target` `0`; an `EQUAL`
then keeps `lower` at the probe, and a `GREATER` cannot occur any more. -/
theorem findRankByValueLoop_lastEq (hc : ComparesWith cmpAt ele value) (hsort : SortedOn ele s e)
    (eleCount : UInt32) (hen : e ≤ eleCount.toNat) :
    ∀ (fuel : ℕ) (found : Bool) (lower upper rank : UInt32), LastEqInv ele value s e found lower upper rank →
      2 * (upper.toNat - lower.toNat) + (if rank.toNat = lower.toNat then 1 else 0) ≤ fuel →
      ∃ r, findRankByValueLoop cmpAt id eleCount eleCount fuel found lower upper rank = some r ∧
        LastEqResult ele value s e r
  | 0, found, lower, upper, rank, hinv, hfuel => by
    have := hinv.lt_upper; have := hinv.lower_le
    omega
  | fuel + 1, found, lower, upper, rank, hinv, hfuel => by
    have hru := hinv.lt_upper
    have hlr := hinv.lower_le
    have hre : rank.toNat < e := Nat.lt_of_lt_of_le hru hinv.upper_le
    have hsr : s ≤ rank.toNat := le_trans hinv.s_le hlr
    have hsteer := steerEqual_count (Nat.lt_of_lt_of_le hre hen) upper
    by_cases hv : value ≤ ele rank.toNat
    · by_cases hle : ele rank.toNat ≤ value
      · have hcmp : cmpAt rank.toNat = .equal := (compare_eq_equal hc _).mpr ⟨hv, hle⟩
        by_cases htop : rank = upper - 1
        · rw [findRankByValueLoop_break hcmp (by rw [hsteer, if_pos htop])]
          have hup := hinv.eq_upper_sub_one_iff.mp htop
          exact ⟨_, rfl, LastEqResult.hit hsr hre ⟨hv, hle⟩ fun j hj hje => hinv.above j (by omega) hje⟩
        · have hup : rank.toNat + 1 < upper.toNat := by
            have : ¬rank.toNat + 1 = upper.toNat := fun h => htop (hinv.eq_upper_sub_one_iff.mpr h)
            omega
          have hgt : ¬rank ≥ upper - 1 := fun h => by have := hinv.ge_upper_sub_one_iff.mp h; omega
          rw [findRankByValueLoop_greater (by rw [if_pos hcmp, hsteer, if_neg htop]), if_neg hgt, hcmp]
          have hf : (found || MsgpackCompare.equal == MsgpackCompare.equal) = true := by simp
          rw [hf, if_pos rfl, UInt32.add_zero]
          have hmid := hinv.toNat_up
          refine findRankByValueLoop_lastEq hc hsort eleCount hen fuel true rank upper _
            ⟨⟨hsr, by omega, by omega, hinv.upper_le, hinv.e_le, fun _ => ⟨rank.toNat, hsr, hre, hv, hle⟩⟩,
              nofun, hinv.above, fun _ => ⟨hv, hle⟩⟩ ?_
          split_ifs at hfuel ⊢ <;> omega
      · have hcmp : cmpAt rank.toNat = .less := (compare_eq_less hc _).mpr ⟨hv, hle⟩
        rw [findRankByValueLoop_less (by rw [if_neg (by rw [hcmp]; decide), hcmp]), hcmp]
        have hf : (found || MsgpackCompare.less == MsgpackCompare.equal) = found := by simp
        rw [hf]
        have hgt : ∀ j, rank.toNat ≤ j → j < e → ¬ele j ≤ value :=
          fun j hj hje h => hle (le_trans (hsort _ _ hsr hj hje) h)
        by_cases hlow : rank = lower
        · rw [if_pos hlow]
          have hlr' : lower.toNat = rank.toNat := by rw [hlow]
          have hnf : found = false := by
            cases found
            · rfl
            · exact absurd (hlr' ▸ (hinv.atLower rfl).2) hle
          subst hnf
          exact ⟨_, rfl, LastEqResult.miss (not_exists_eqAt (fun j hj hjr => hinv.below rfl j hj (by omega)) hgt)⟩
        · rw [if_neg hlow]
          have hlow' := hinv.lower_lt hlow
          have hmid := hinv.toNat_down
          refine findRankByValueLoop_lastEq hc hsort eleCount hen fuel found lower rank _
            ⟨⟨hinv.s_le, by omega, by omega, hre.le, hinv.e_le, hinv.sound⟩,
              hinv.below, hgt, hinv.atLower⟩ ?_
          split_ifs at hfuel ⊢ <;> omega
    · have hcmp : cmpAt rank.toNat = .greater := (compare_eq_greater hc _).mpr hv
      rw [findRankByValueLoop_greater (by rw [if_neg (by rw [hcmp]; decide), hcmp]), hcmp]
      have hf : (found || MsgpackCompare.greater == MsgpackCompare.equal) = found := by simp
      rw [hf]
      have hnf : found = false := by
        cases found
        · rfl
        · exact absurd (le_trans (hinv.atLower rfl).1 (hsort _ _ hinv.s_le hlr hre)) hv
      subst hnf
      have hbelow : ∀ j, s ≤ j → j ≤ rank.toNat → ¬value ≤ ele j :=
        fun j hj hjr h => hv (le_trans h (hsort _ _ hj hjr hre))
      by_cases htop : rank ≥ upper - 1
      · rw [if_pos htop]
        have hup := hinv.ge_upper_sub_one_iff.mp htop
        exact ⟨_, rfl, LastEqResult.miss (not_exists_eqAt (r := upper.toNat)
          (fun j hj hjr => hbelow j hj (by omega)) hinv.above)⟩
      · rw [if_neg htop]
        have hup := hinv.succ_lt_upper htop
        have hmid := hinv.toNat_up
        have hstep := hinv.toNat_succ
        refine findRankByValueLoop_lastEq hc hsort eleCount hen fuel false (rank + 1) upper _
          ⟨⟨by omega, by omega, by omega, hinv.upper_le, hinv.e_le, nofun⟩,
            fun _ j hj hjl => hbelow j hj (by omega), hinv.above, nofun⟩ ?_
        split_ifs at hfuel ⊢ <;> omega

section Find

variable {eleCount : UInt32} {find : OrderIndexFind} {fuel : ℕ}
  (hc : ComparesWith cmpAt ele value) (hsort : SortedOn ele find.start.toNat (find.start.toNat + find.count.toNat))
  (hcount : 0 < find.count.toNat) (hen : find.start.toNat + find.count.toNat ≤ eleCount.toNat)
  (he : eleCount.toNat ≤ 2 ^ 31) (hfuel : 2 * find.count.toNat + 1 ≤ fuel)
include hc hsort hcount hen he hfuel

theorem orderIndexFindRankByValue_firstGe (htarget : find.target = 0) :
    ∃ found r, orderIndexFindRankByValue none cmpAt eleCount find fuel =
        some (true, { find with found := found, result := r }) ∧
      FirstGeResult ele value find.start.toNat (find.start.toNat + find.count.toNat) (true, found, r) := by
  have he' := le_trans hen he
  obtain ⟨hup, -⟩ := toNat_findInit he'
  obtain ⟨⟨ok, found, r⟩, hrun, hres⟩ := findRankByValueLoop_firstGe hc hsort eleCount fuel false _ _ _
    ⟨rankBounds_findInit hcount he', fun j hj hjl => absurd hjl (by omega),
      fun j hj hje => absurd hje (by omega), fun h => absurd h (by omega)⟩
    (le_trans (measure_findInit he') (by omega))
  obtain rfl : ok = true := hres.1
  exact ⟨found, r, orderIndexFindRankByValue_of_loop (findInit_ne hcount hen) htarget hrun, hres⟩

theorem orderIndexFindRankByValue_lastEq (htarget : find.target = eleCount) :
    ∃ found r, orderIndexFindRankByValue none cmpAt eleCount find fuel =
        some (true, { find with found := found, result := r }) ∧
      LastEqResult ele value find.start.toNat (find.start.toNat + find.count.toNat) (true, found, r) := by
  have he' := le_trans hen he
  obtain ⟨hup, -⟩ := toNat_findInit he'
  obtain ⟨⟨ok, found, r⟩, hrun, hres⟩ := findRankByValueLoop_lastEq hc hsort eleCount hen fuel false _ _ _
    ⟨rankBounds_findInit hcount he', fun _ j hj hjl => absurd hjl (by omega),
      fun j hj hje => absurd hje (by omega), nofun⟩
    (le_trans (measure_findInit he') (by omega))
  obtain rfl : ok = true := hres.1
  exact ⟨found, r, orderIndexFindRankByValue_of_loop (findInit_ne hcount hen) htarget hrun, hres⟩

end Find

end Compare

end RankByValue

/-- The two binary searches of sorted indexes answer within their rounds:
`msgpacked_index_find_index_sorted` on up to `2^31` strictly increasing
entries finds the key iff an entry has it and counts the entries below it;
`order_index_find_rank_by_value` without an order index, on a non-decreasing
range ending at most at the element count, itself at most `2^31`, answers the
element count with nothing found on an empty range, and otherwise the first
element at least the value for `target` `0` and the last element with the
value for `target` the element count, with `found` iff the range holds it. -/
theorem sorted_index_searches_bound (entry : ℕ → UInt32) (key cnt : UInt32) (fuel : ℕ) {κ : Type}
    [Preorder κ] [DecidableLE κ] (cmpAt : ℕ → MsgpackCompare) (ele : ℕ → κ) (value : κ) (eleCount : UInt32)
    (find : OrderIndexFind) (rounds : ℕ) :
    (SortedEntries entry cnt.toNat → cnt.toNat ≤ 2 ^ 31 → cnt.toNat ≤ fuel →
      ∃ r, msgpackedIndexFindIndexSorted entry key cnt fuel = some r ∧ FindSortedResult entry key cnt.toNat r ∧
        r.2.toNat = (List.range cnt.toNat).countP (fun j => decide (entry j < key))) ∧
    (ComparesWith cmpAt ele value → SortedOn ele find.start.toNat (find.start.toNat + find.count.toNat) →
      find.start.toNat + find.count.toNat ≤ eleCount.toNat → eleCount.toNat ≤ 2 ^ 31 →
      2 * find.count.toNat + 1 ≤ rounds →
      (find.count = 0 → orderIndexFindRankByValue none cmpAt eleCount find rounds =
        some (true, { find with found := false, result := eleCount })) ∧
      (0 < find.count.toNat → find.target = 0 → ∃ found r,
        orderIndexFindRankByValue none cmpAt eleCount find rounds =
          some (true, { find with found := found, result := r }) ∧
        FirstGeResult ele value find.start.toNat (find.start.toNat + find.count.toNat) (true, found, r)) ∧
      (0 < find.count.toNat → find.target = eleCount → ∃ found r,
        orderIndexFindRankByValue none cmpAt eleCount find rounds =
          some (true, { find with found := found, result := r }) ∧
        LastEqResult ele value find.start.toNat (find.start.toNat + find.count.toNat) (true, found, r))) := by
  refine ⟨fun hs hc hf => ?_, fun hc hsort hen he hr => ⟨fun h0 => ?_, fun hcount ht => orderIndexFindRankByValue_firstGe hc hsort hcount hen he hr ht,
      fun hcount ht => orderIndexFindRankByValue_lastEq hc hsort hcount hen he hr ht⟩⟩
  · obtain ⟨r, hrun, hres⟩ : ∃ r, msgpackedIndexFindIndexSorted entry key cnt fuel = some r ∧
        FindSortedResult entry key cnt.toNat r := msgpackedIndexFindIndexSorted_spec hs rfl hc fuel hf
    exact ⟨r, hrun, hres, hres.where_eq_countP⟩
  · rw [orderIndexFindRankByValue, if_pos (Or.inr h0)]

end Aerospike.Cdt
