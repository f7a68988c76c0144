import Aerospike.Lib.Scan
import Aerospike.Lib.Word
import Aerospike.Lib.Fields

/-! # `cdt_idx_mask_find` on 64-bit words and `uint32_t` bounds

`cdt_idx_mask_find` (`cdt.c`) reads a mask a 64-bit word at a time: the first
word with its bits below `start % 64` cleared, then whole words up to
`i_end = (end + 63) / 64`, each through `cf_lsb64`. Its sums `end + 63` and
`i * 64 + count` are computed in `uint32_t`. On `ℕ` the word scan finds what the
scan of the mask's bits finds. With the source's arithmetic it reads no word at
or past `ceil(end / 64)` for any bounds, and it is the scan on `ℕ` while
`end + 127` fits in 32 bits. Past that, `i_end * 64 + 64` wraps to a small
offset, which the final clamp to `end` does not catch.

The operations hold a mask as the predicate of its bits; `maskWords` gives back
the words the source reads.
-/

namespace Aerospike.Cdt

/-- `cf_lsb64`: the index of the lowest set bit of a word, `64` for zero. -/
def cfLsb64 (x : UInt64) : ℕ :=
  if x = 0 then 64 else Scan.findFrom (fun j => x.toNat.testBit j) 0 64

/-- Bit `i` of a mask of 64-bit words: bit `i % 64` of word `i / 64`. -/
def wordBit (mask : ℕ → UInt64) (i : ℕ) : Bool := (mask (i / 64)).toNat.testBit (i % 64)

/-- The words `cdt_idx_mask_find` reads: the mask, or its complement when it
looks for a `0`. -/
def findWord (mask : ℕ → UInt64) (isFind0 : Bool) (i : ℕ) : UInt64 :=
  if isFind0 then ~~~(mask i) else mask i

/-- The `for` loop of `cdt_idx_mask_find` over the words after the first, from
word `i` to `iEnd`: the word it stops at and `cf_lsb64` of the last word read. -/
def maskFindLoop (word : ℕ → UInt64) (iEnd : ℕ) : ℕ → ℕ → ℕ → ℕ × ℕ
  | 0, i, count => (i, count)
  | fuel + 1, i, count =>
    if i < iEnd then
      if cfLsb64 (word i) ≠ 64 then (i, cfLsb64 (word i))
      else maskFindLoop word iEnd fuel (i + 1) (cfLsb64 (word i))
    else (i, count)

/-- `cdt_idx_mask_find` on the words of the mask: the first word from `start`
with its bits below `start % 64` cleared, then the whole words up to the one
holding `end`; `none` is the assertion `start <= end`. The arithmetic is that of
the source while `end + 127` fits 32 bits. -/
def cdtIdxMaskFindWords (mask : ℕ → UInt64) (start stop : ℕ) (isFind0 : Bool) : Option ℕ :=
  if start ≤ stop then
    if start = stop then some stop
    else
      let count := cfLsb64 (findWord mask isFind0 (start / 64) &&&
        ~~~((1 : UInt64) <<< (start % 64).toUInt64 - 1))
      if count ≠ 64 then some (min (start - start % 64 + count) stop)
      else
        let r := maskFindLoop (findWord mask isFind0) ((stop + 63) / 64) ((stop + 63) / 64)
          (start / 64 + 1) count
        some (min (r.1 * 64 + r.2) stop)
  else none

section Words

theorem cfLsb64_eq (x : UInt64) : cfLsb64 x = Scan.findFrom (fun j => x.toNat.testBit j) 0 64 := by
  unfold cfLsb64
  split_ifs with h
  · subst h
    exact (Scan.findFrom_eq_of (Nat.zero_le _) le_rfl
      (fun j _ _ => by rw [UInt64.toNat_zero, Nat.zero_testBit]) (fun h => absurd h (lt_irrefl _))).symm
  · rfl

theorem cfLsb64_le (x : UInt64) : cfLsb64 x ≤ 64 := by
  rw [cfLsb64_eq]; exact Scan.findFrom_le (Nat.zero_le _)

theorem testBit_of_lt_cfLsb64 {x : UInt64} {b : ℕ} (h : b < cfLsb64 x) : x.toNat.testBit b = false := by
  rw [cfLsb64_eq] at h
  exact Scan.findFrom_miss (Nat.zero_le b) h

theorem testBit_cfLsb64 {x : UInt64} (h : cfLsb64 x < 64) : x.toNat.testBit (cfLsb64 x) = true := by
  rw [cfLsb64_eq] at h ⊢
  exact Scan.findFrom_hit h

theorem testBit_findWord (mask : ℕ → UInt64) (isFind0 : Bool) (i : ℕ) {b : ℕ} (hb : b < 64) :
    (findWord mask isFind0 i).toNat.testBit b = (wordBit mask (64 * i + b) != isFind0) := by
  have hdiv : (64 * i + b) / 64 = i := by omega
  have hmod : (64 * i + b) % 64 = b := by omega
  unfold findWord wordBit
  rw [hdiv, hmod]
  cases isFind0
  · simp
  · rw [if_pos rfl, Word.testBit_not _ hb]
    simp

theorem maskFindLoop_spec (word : ℕ → UInt64) (iEnd : ℕ) :
    ∀ (fuel i : ℕ), i ≤ iEnd → iEnd - i ≤ fuel →
      let r := maskFindLoop word iEnd fuel i 64
      i ≤ r.1 ∧ (∀ k, i ≤ k → k < r.1 → ∀ b < 64, (word k).toNat.testBit b = false) ∧
        ((r.1 < iEnd ∧ r.2 < 64 ∧ r.2 = cfLsb64 (word r.1)) ∨ (r.1 = iEnd ∧ r.2 = 64))
  | 0, i, hi, hfuel => by
    simp only [maskFindLoop]
    exact ⟨le_rfl, fun k h1 h2 => absurd h2 (by omega), Or.inr ⟨by omega, trivial⟩⟩
  | fuel + 1, i, hi, hfuel => by
    simp only [maskFindLoop]
    by_cases hlt : i < iEnd
    · rw [if_pos hlt]
      by_cases hc : cfLsb64 (word i) ≠ 64
      · rw [if_pos hc]
        exact ⟨le_rfl, fun k h1 h2 => absurd h2 (by omega),
          Or.inl ⟨hlt, Nat.lt_of_le_of_ne (cfLsb64_le _) hc, rfl⟩⟩
      · have hc' : cfLsb64 (word i) = 64 := not_not.mp hc
        rw [if_neg hc, hc']
        obtain ⟨hle, hempty, hend⟩ := maskFindLoop_spec word iEnd fuel (i + 1) hlt (by omega)
        refine ⟨by omega, fun k h1 h2 b hb => ?_, hend⟩
        rcases Nat.eq_or_lt_of_le h1 with rfl | hk
        · exact testBit_of_lt_cfLsb64 (by omega)
        · exact hempty k hk h2 b hb
    · rw [if_neg hlt]
      exact ⟨le_rfl, fun k h1 h2 => absurd h2 (by omega), Or.inr ⟨by omega, rfl⟩⟩

theorem cdtIdxMaskFindWords_eq (mask : ℕ → UInt64) (start stop : ℕ) (isFind0 : Bool) :
    cdtIdxMaskFindWords mask start stop isFind0 =
      if start ≤ stop then some (Scan.findFrom (fun i => wordBit mask i != isFind0) start stop) else none := by
  unfold cdtIdxMaskFindWords
  by_cases hle : start ≤ stop
  swap
  · rw [if_neg hle, if_neg hle]
  rw [if_pos hle, if_pos hle]
  by_cases heq : start = stop
  · rw [if_pos heq, heq, Scan.findFrom_of_le le_rfl]
  rw [if_neg heq]
  have hq : ∀ j, (wordBit mask j != isFind0) =
      (findWord mask isFind0 (j / 64)).toNat.testBit (j % 64) := fun j => by
    rw [testBit_findWord _ _ _ (Nat.mod_lt _ (by decide)), Nat.div_add_mod]
  have ho : start % 64 < 64 := Nat.mod_lt _ (by decide)
  have hfirst : ∀ b < 64, (findWord mask isFind0 (start / 64) &&&
      ~~~((1 : UInt64) <<< (start % 64).toUInt64 - 1)).toNat.testBit b =
        ((findWord mask isFind0 (start / 64)).toNat.testBit b && decide (start % 64 ≤ b)) :=
    fun b hb => Word.testBit_and_not_lowMask _ ho hb
  dsimp only
  generalize hc : cfLsb64 (findWord mask isFind0 (start / 64) &&&
      ~~~((1 : UInt64) <<< (start % 64).toUInt64 - 1)) = c
  by_cases hc64 : c ≠ 64
  · have hclt : c < 64 := Nat.lt_of_le_of_ne (hc ▸ cfLsb64_le _) hc64
    have hhitc := testBit_cfLsb64 (hc ▸ hclt)
    rw [hc, hfirst c hclt, Bool.and_eq_true, decide_eq_true_iff] at hhitc
    rw [if_pos hc64]
    congr 1
    refine (Scan.findFrom_eq_of (by omega) (Nat.min_le_right _ _) (fun j h1 h2 => ?_) (fun h => ?_)).symm
    · have hb := testBit_of_lt_cfLsb64 (x := findWord mask isFind0 (start / 64) &&&
        ~~~((1 : UInt64) <<< (start % 64).toUInt64 - 1)) (b := j % 64) (by omega)
      rw [hfirst _ (Nat.mod_lt _ (by decide)), decide_eq_true (by omega), Bool.and_true] at hb
      rw [hq, show j / 64 = start / 64 by omega, hb]
    · rw [hq, show min (start - start % 64 + c) stop / 64 = start / 64 by omega,
        show min (start - start % 64 + c) stop % 64 = c by omega]
      exact hhitc.1
  · have hc' : c = 64 := not_not.mp hc64
    have hrest : ∀ b, start % 64 ≤ b → b < 64 →
        (findWord mask isFind0 (start / 64)).toNat.testBit b = false := fun b h1 h2 => by
      have hb := testBit_of_lt_cfLsb64 (x := findWord mask isFind0 (start / 64) &&&
        ~~~((1 : UInt64) <<< (start % 64).toUInt64 - 1)) (b := b) (by omega)
      rwa [hfirst _ h2, decide_eq_true h1, Bool.and_true] at hb
    rw [if_neg hc64, hc']
    obtain ⟨hle1, hempty, hend⟩ := maskFindLoop_spec (findWord mask isFind0) ((stop + 63) / 64)
      ((stop + 63) / 64) (start / 64 + 1) (by omega) (by omega)
    generalize maskFindLoop (findWord mask isFind0) ((stop + 63) / 64) ((stop + 63) / 64)
      (start / 64 + 1) 64 = r at hle1 hempty hend
    congr 1
    refine (Scan.findFrom_eq_of (by omega) (Nat.min_le_right _ _) (fun j h1 h2 => ?_) (fun h => ?_)).symm
    · rw [hq]
      by_cases hk : j / 64 = start / 64
      · rw [hk]; exact hrest _ (by omega) (Nat.mod_lt _ (by decide))
      by_cases hk' : j / 64 < r.1
      · exact hempty _ (by omega) hk' _ (Nat.mod_lt _ (by decide))
      rcases hend with ⟨_, _, hr2⟩ | ⟨hr1, hr2⟩
      · rw [show j / 64 = r.1 by omega]
        exact testBit_of_lt_cfLsb64 (by omega)
      · omega
    · rcases hend with ⟨_, hr2lt, hr2⟩ | ⟨hr1, hr2⟩
      · rw [hq, show min (r.1 * 64 + r.2) stop / 64 = r.1 by omega,
          show min (r.1 * 64 + r.2) stop % 64 = r.2 by omega, hr2]
        exact testBit_cfLsb64 (hr2 ▸ hr2lt)
      · omega

end Words

/-- `cdt_idx_mask_find` with `uint32_t` arguments; `none` is the assertion
`start <= end`. The word index `i` stays below `2^26 + 1`, so the loop over it
is the one on `ℕ`. -/
def cdtIdxMaskFindU32 (mask : ℕ → UInt64) (start stop : UInt32) (isFind0 : Bool) : Option UInt32 :=
  if start ≤ stop then
    if start = stop then some stop
    else
      let offset := start % 64
      let count := cfLsb64 (findWord mask isFind0 (start / 64).toNat &&&
        ~~~((1 : UInt64) <<< offset.toUInt64 - 1))
      if count ≠ 64 then
        let offset := start - offset + count.toUInt32
        some (if offset > stop then stop else offset)
      else
        let iEnd := (stop + 63) / 64
        let r := maskFindLoop (findWord mask isFind0) iEnd.toNat iEnd.toNat ((start / 64).toNat + 1) count
        let offset := r.1.toUInt32 * 64 + r.2.toUInt32
        some (if offset > stop then stop else offset)
  else none

section U32

theorem maskFindLoop_congr {word word' : ℕ → UInt64} {iEnd : ℕ} (h : ∀ i < iEnd, word i = word' i) :
    ∀ (fuel i count : ℕ), maskFindLoop word iEnd fuel i count = maskFindLoop word' iEnd fuel i count
  | 0, i, count => rfl
  | fuel + 1, i, count => by
    simp only [maskFindLoop]
    by_cases hi : i < iEnd
    · rw [if_pos hi, if_pos hi, h i hi, maskFindLoop_congr h fuel (i + 1)]
    · rw [if_neg hi, if_neg hi]

theorem maskFindLoop_bounds (word : ℕ → UInt64) {iEnd i : ℕ} (hi : i ≤ iEnd) :
    (maskFindLoop word iEnd iEnd i 64).1 ≤ iEnd ∧ (maskFindLoop word iEnd iEnd i 64).2 ≤ 64 := by
  obtain ⟨-, -, hend⟩ := maskFindLoop_spec word iEnd iEnd i hi (by omega)
  rcases hend with ⟨h1, h2, -⟩ | ⟨h1, h2⟩ <;> omega

theorem toNat_clamp (x stop : UInt32) : (if x > stop then stop else x).toNat = min x.toNat stop.toNat := by
  split_ifs with h
  · rw [gt_iff_lt, UInt32.lt_iff_toNat_lt] at h
    omega
  · rw [gt_iff_lt, UInt32.lt_iff_toNat_lt] at h
    omega

theorem toUInt64_mod_sixtyFour (start : UInt32) : (start % 64).toUInt64 = (start.toNat % 64).toUInt64 := by
  apply UInt64.toNat_inj.mp
  have h64 : (64 : UInt32).toNat = 64 := rfl
  rw [UInt32.toNat_toUInt64, UInt32.toNat_mod, UInt64.toNat_ofNat', h64]
  exact (Nat.mod_eq_of_lt (by omega)).symm

theorem cdtIdxMaskFindU32_eq (mask : ℕ → UInt64) (start stop : UInt32) (isFind0 : Bool)
    (hb : stop.toNat + 127 < 2 ^ 32) :
    (cdtIdxMaskFindU32 mask start stop isFind0).map UInt32.toNat =
      cdtIdxMaskFindWords mask start.toNat stop.toNat isFind0 := by
  unfold cdtIdxMaskFindU32 cdtIdxMaskFindWords
  by_cases hle : start ≤ stop
  swap
  · rw [if_neg hle, if_neg (by rwa [UInt32.le_iff_toNat_le] at hle)]
    rfl
  rw [if_pos hle, if_pos (UInt32.le_iff_toNat_le.mp hle)]
  by_cases heq : start = stop
  · rw [if_pos heq, if_pos (congrArg UInt32.toNat heq)]
    rfl
  have hne : start.toNat ≠ stop.toNat := fun h => heq (UInt32.toNat_inj.mp h)
  have hlt : start.toNat < stop.toNat := lt_of_le_of_ne (UInt32.le_iff_toNat_le.mp hle) hne
  rw [if_neg heq, if_neg hne]
  have hdiv : (start / 64).toNat = start.toNat / 64 := UInt32.toNat_div _ _
  have hmod : (start % 64).toNat = start.toNat % 64 := UInt32.toNat_mod _ _
  dsimp only
  rw [hdiv, toUInt64_mod_sixtyFour]
  have hcle := cfLsb64_le (findWord mask isFind0 (start.toNat / 64) &&&
    ~~~((1 : UInt64) <<< (start.toNat % 64).toUInt64 - 1))
  generalize cfLsb64 (findWord mask isFind0 (start.toNat / 64) &&&
    ~~~((1 : UInt64) <<< (start.toNat % 64).toUInt64 - 1)) = c at hcle ⊢
  by_cases hc : c ≠ 64
  · rw [if_pos hc, if_pos hc, Option.map_some, toNat_clamp]
    have hoff : (start - start % 64 + c.toUInt32).toNat = start.toNat - start.toNat % 64 + c := by
      have hmodle : start % 64 ≤ start := UInt32.le_iff_toNat_le.mpr (by rw [hmod]; exact Nat.mod_le _ _)
      rw [UInt32.toNat_add, UInt32.toNat_sub_of_le _ _ hmodle, hmod, UInt32.toNat_ofNat_of_lt' (by rw [UInt32.size]; omega)]
      exact Nat.mod_eq_of_lt (by omega)
    rw [hoff]
  · have hc' : c = 64 := not_not.mp hc
    subst hc'
    rw [if_neg hc, if_neg hc, Option.map_some, toNat_clamp]
    have hend : ((stop + 63) / 64).toNat = (stop.toNat + 63) / 64 := by
      rw [UInt32.toNat_div, UInt32.toNat_add]
      have h63 : (63 : UInt32).toNat = 63 := rfl
      rw [h63, Nat.mod_eq_of_lt (by omega)]
      rfl
    rw [hend]
    obtain ⟨hr1, hr2⟩ := @maskFindLoop_bounds (findWord mask isFind0) ((stop.toNat + 63) / 64)
      (start.toNat / 64 + 1) (by omega)
    generalize maskFindLoop (findWord mask isFind0) ((stop.toNat + 63) / 64) ((stop.toNat + 63) / 64)
      (start.toNat / 64 + 1) 64 = r at hr1 hr2 ⊢
    have hoff : (r.1.toUInt32 * 64 + r.2.toUInt32).toNat = r.1 * 64 + r.2 := by
      have h64 : (64 : UInt32).toNat = 64 := rfl
      have hmul : r.1 * 64 < 2 ^ 32 := by omega
      have hsum : r.1 * 64 + r.2 < 2 ^ 32 := by omega
      rw [UInt32.toNat_add, UInt32.toNat_mul, UInt32.toNat_ofNat_of_lt' (by rw [UInt32.size]; omega),
        UInt32.toNat_ofNat_of_lt' (by rw [UInt32.size]; omega), h64, Nat.mod_eq_of_lt hmul, Nat.mod_eq_of_lt hsum]
    rw [hoff]

theorem cdtIdxMaskFindU32_congr {mask mask' : ℕ → UInt64} {start stop : UInt32} (isFind0 : Bool)
    (h : ∀ w < (stop.toNat + 63) / 64, mask w = mask' w) :
    cdtIdxMaskFindU32 mask start stop isFind0 = cdtIdxMaskFindU32 mask' start stop isFind0 := by
  have hword : ∀ w < (stop.toNat + 63) / 64, findWord mask isFind0 w = findWord mask' isFind0 w :=
    fun w hw => by unfold findWord; rw [h w hw]
  unfold cdtIdxMaskFindU32
  by_cases hle : start ≤ stop
  swap
  · rw [if_neg hle, if_neg hle]
  rw [if_pos hle, if_pos hle]
  by_cases heq : start = stop
  · rw [if_pos heq, if_pos heq]
  rw [if_neg heq, if_neg heq]
  have hlt : start.toNat < stop.toNat :=
    lt_of_le_of_ne (UInt32.le_iff_toNat_le.mp hle) fun h => heq (UInt32.toNat_inj.mp h)
  have hfirst : (start / 64).toNat < (stop.toNat + 63) / 64 := by
    have h64 : (64 : UInt32).toNat = 64 := rfl
    rw [UInt32.toNat_div, h64]
    omega
  have hend : ((stop + 63) / 64).toNat ≤ (stop.toNat + 63) / 64 := by
    rw [UInt32.toNat_div, UInt32.toNat_add]
    exact Nat.div_le_div_right (Nat.le_trans (Nat.mod_le _ _) (by rfl))
  dsimp only
  rw [hword _ hfirst, maskFindLoop_congr (fun i hi => hword i (by omega))]

/-- `cdt_idx_mask_find` reads only the words below `ceil(end / 64)`, and while
`end + 127` fits in 32 bits it returns the first bit of `[start, end)` that is
the one looked for, or `end`. -/
theorem cdtIdxMaskFind_first_match (mask : ℕ → UInt64) (start stop : UInt32) (isFind0 : Bool)
    (hle : start ≤ stop) :
    (∀ mask' : ℕ → UInt64, (∀ w < (stop.toNat + 63) / 64, mask w = mask' w) →
      cdtIdxMaskFindU32 mask' start stop isFind0 = cdtIdxMaskFindU32 mask start stop isFind0) ∧
    (stop.toNat + 127 < 2 ^ 32 → ∃ r, cdtIdxMaskFindU32 mask start stop isFind0 = some r ∧
      start ≤ r ∧ r ≤ stop ∧ (r < stop → wordBit mask r.toNat = !isFind0) ∧
      ∀ j, start.toNat ≤ j → j < r.toNat → wordBit mask j = isFind0) := by
  refine ⟨fun mask' h => (cdtIdxMaskFindU32_congr isFind0 h).symm, fun hb => ?_⟩
  have hle' : start.toNat ≤ stop.toNat := UInt32.le_iff_toNat_le.mp hle
  have hfind := cdtIdxMaskFindU32_eq mask start stop isFind0 hb
  rw [cdtIdxMaskFindWords_eq, if_pos hle'] at hfind
  obtain ⟨r, hr, hrn⟩ := Option.map_eq_some_iff.mp hfind
  set p := fun i => wordBit mask i != isFind0
  refine ⟨r, hr, ?_, ?_, fun hlt => ?_, fun j h1 h2 => ?_⟩
  · rw [UInt32.le_iff_toNat_le, hrn]
    exact Scan.le_findFrom hle'
  · rw [UInt32.le_iff_toNat_le, hrn]
    exact Scan.findFrom_le hle'
  · rw [UInt32.lt_iff_toNat_lt, hrn] at hlt
    have hhit : p (Scan.findFrom p start.toNat stop.toNat) = true := Scan.findFrom_hit hlt
    rw [hrn]
    exact Bool.eq_not_iff.mpr (by simpa [p] using hhit)
  · rw [hrn] at h2
    have hmiss : p j = false := Scan.findFrom_miss h1 h2
    simpa [p] using hmiss

end U32

/-! ### The words of a mask of elements -/

/-- The words of a mask of elements: bit `j` of word `w` marks element `64 w + j`. -/
def maskWords (mask : ℕ → Bool) (w : ℕ) : UInt64 :=
  (Fields.packFields 1 64 fun j => (mask (64 * w + j)).toNat).toUInt64

theorem wordBit_maskWords (mask : ℕ → Bool) (i : ℕ) : wordBit (maskWords mask) i = mask i := by
  have hlt : Fields.packFields 1 64 (fun j => (mask (64 * (i / 64) + j)).toNat) < 2 ^ 64 :=
    Fields.packFields_lt fun j _ => by cases mask (64 * (i / 64) + j) <;> decide
  unfold wordBit maskWords
  rw [Nat.toUInt64_eq, UInt64.toNat_ofNat_of_lt' hlt, Fields.testBit_packFields_one _ (Nat.mod_lt _ (by decide)),
    Nat.div_add_mod]

end Aerospike.Cdt
