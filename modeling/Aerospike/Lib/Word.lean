import Mathlib

/-! # Machine integers through their values

C mixes `int64_t`, `uint64_t` and `uint32_t` in one expression and converts
between them implicitly. Each conversion and each wrapping operation is stated
here through the value it produces (`toInt`, `toNat`), under the range where it
is exact, so that the proofs about a C function reason about integers.
-/

namespace Word

theorem toInt_eq_bmod (x : Int64) : x.toInt = (x.toUInt64.toNat : Int).bmod (2 ^ 64) := by
  rw [← Int64.toInt_toBitVec, BitVec.toInt_eq_toNat_bmod, Int64.toNat_toBitVec]

theorem toNat_toUInt64 (x : Int64) : (x.toUInt64.toNat : Int) = x.toInt % 2 ^ 64 := by
  have hlt := x.toUInt64.toNat_lt
  have hmod : Int.bmod x.toUInt64.toNat (2 ^ 64) % 2 ^ 64 = (x.toUInt64.toNat : Int) % 2 ^ 64 := by
    exact_mod_cast @Int.bmod_emod x.toUInt64.toNat (2 ^ 64)
  rw [toInt_eq_bmod, hmod, Int.emod_eq_of_lt (by omega) (by omega)]

theorem toNat_toUInt64_of_nonneg (x : Int64) (h : 0 ≤ x.toInt) :
    x.toUInt64.toNat = x.toInt.toNat := by
  have := toNat_toUInt64 x
  rw [Int.emod_eq_of_lt h (by have := x.toInt_lt; omega)] at this
  omega

theorem toInt_toInt64 (x : UInt64) (h : x.toNat < 2 ^ 63) : x.toInt64.toInt = x.toNat := by
  rw [toInt_eq_bmod, UInt64.toUInt64_toInt64, Int.bmod_eq_of_le (by omega) (by omega)]

theorem toInt_toInt64_toUInt64 (n : UInt32) : n.toUInt64.toInt64.toInt = n.toNat := by
  have := n.toNat_lt
  rw [toInt_toInt64 _ (by rw [UInt32.toNat_toUInt64]; omega), UInt32.toNat_toUInt64]

theorem toInt_toInt32 (x : UInt32) : x.toInt32.toInt = (x.toNat : Int).bmod (2 ^ 32) := by
  rw [← Int32.toInt_toBitVec, BitVec.toInt_eq_toNat_bmod]
  rfl

theorem toInt_toInt32_of_lt (x : UInt32) (h : x.toNat < 2 ^ 31) : x.toInt32.toInt = x.toNat := by
  rw [toInt_toInt32, Int.bmod_def, Int.emod_eq_of_lt (by omega) (by omega), if_pos (by omega)]

theorem toInt_toInt32_of_ge (x : UInt32) (h : 2 ^ 31 ≤ x.toNat) : x.toInt32.toInt = x.toNat - 2 ^ 32 := by
  have hlt := x.toNat_lt
  rw [toInt_toInt32, Int.bmod_def, Int.emod_eq_of_lt (by omega) (by omega), if_neg (by omega)]
  rfl

theorem toInt_add_of_mem (a b : Int64) (h1 : -2 ^ 63 ≤ a.toInt + b.toInt)
    (h2 : a.toInt + b.toInt < 2 ^ 63) : (a + b).toInt = a.toInt + b.toInt := by
  rw [Int64.toInt_add, Int.bmod_eq_of_le h1 h2]

theorem toNat_toUInt64_neg (x : Int64) (h : x.toInt < 0) :
    (-x).toUInt64.toNat = (-x.toInt).toNat := by
  have hx := toNat_toUInt64 (-x)
  have hmod : Int.bmod (-x.toInt) (2 ^ 64) % 2 ^ 64 = -x.toInt % 2 ^ 64 := by
    exact_mod_cast @Int.bmod_emod (-x.toInt) (2 ^ 64)
  rw [Int64.toInt_neg, hmod, Int.emod_eq_of_lt (by omega) (by have := x.le_toInt; omega)] at hx
  omega

theorem toNat_add_toUInt64 (c : UInt64) (x : Int64) :
    ((c + x.toUInt64).toNat : Int) = (c.toNat + x.toInt) % 2 ^ 64 := by
  have h64 : ((2 ^ 64 : ℕ) : Int) = 2 ^ 64 := rfl
  rw [UInt64.toNat_add, Int.natCast_emod, Int.natCast_add, toNat_toUInt64 x, h64,
    Int.add_emod_emod]

theorem toNat_toUInt32_of_lt (x : UInt64) (h : x.toNat < 2 ^ 32) : x.toUInt32.toNat = x.toNat := by
  rw [UInt64.toNat_toUInt32, Nat.mod_eq_of_lt h]

/-! ### Bits of a word -/

theorem testBit_not (w : UInt64) {j : ℕ} (hj : j < 64) :
    (~~~w).toNat.testBit j = !w.toNat.testBit j := by
  rw [← UInt64.toNat_toBitVec, ← UInt64.toNat_toBitVec, BitVec.testBit_toNat, BitVec.testBit_toNat,
    UInt64.toBitVec_not, BitVec.getLsbD_not]
  simp [hj]

theorem toNat_one_shiftLeft {o : ℕ} (ho : o < 64) : ((1 : UInt64) <<< o.toUInt64).toNat = 2 ^ o := by
  have hlt : 2 ^ o < 2 ^ 64 := Nat.pow_lt_pow_right (by decide) ho
  rw [UInt64.toNat_shiftLeft, UInt64.toNat_one, Nat.toUInt64_eq, UInt64.toNat_ofNat',
    Nat.mod_mod_of_dvd _ (by decide), Nat.mod_eq_of_lt ho, Nat.shiftLeft_eq, Nat.one_mul,
    Nat.mod_eq_of_lt hlt]

theorem testBit_lowMask {o : ℕ} (ho : o < 64) (j : ℕ) :
    ((1 : UInt64) <<< o.toUInt64 - 1).toNat.testBit j = decide (j < o) := by
  have hpow := toNat_one_shiftLeft ho
  rw [UInt64.toNat_sub_of_le _ _ (by rw [UInt64.le_iff_toNat_le, hpow, UInt64.toNat_one]; exact Nat.one_le_two_pow),
    hpow, UInt64.toNat_one, Nat.testBit_two_pow_sub_one]

theorem testBit_and_not_lowMask (w : UInt64) {o j : ℕ} (ho : o < 64) (hj : j < 64) :
    (w &&& ~~~((1 : UInt64) <<< o.toUInt64 - 1)).toNat.testBit j =
      (w.toNat.testBit j && decide (o ≤ j)) := by
  rw [UInt64.toNat_and, Nat.testBit_and, testBit_not _ hj, testBit_lowMask ho]
  have hdec : (!decide (j < o)) = decide (o ≤ j) := by
    by_cases h : o ≤ j
    · rw [decide_eq_true h, decide_eq_false (by omega)]; rfl
    · rw [decide_eq_false h, decide_eq_true (by omega)]; rfl
  rw [hdec]

theorem and_two_pow_sub_two_pow {x w k : ℕ} (hx : x < 2 ^ w) (hk : k ≤ w) :
    x &&& (2 ^ w - 2 ^ k) = x / 2 ^ k * 2 ^ k := by
  have hm : 2 ^ w - 2 ^ k = (2 ^ (w - k) - 1) <<< k := by
    rw [Nat.shiftLeft_eq, Nat.sub_mul, Nat.one_mul, ← Nat.pow_add, Nat.sub_add_cancel hk]
  rw [hm, ← Nat.shiftRight_eq_div_pow, ← Nat.shiftLeft_eq]
  apply Nat.eq_of_testBit_eq
  intro j
  rw [Nat.testBit_and, Nat.testBit_shiftLeft, Nat.testBit_shiftLeft, Nat.testBit_two_pow_sub_one,
    Nat.testBit_shiftRight]
  by_cases hj : k ≤ j
  · rw [show k + (j - k) = j by omega]
    by_cases hw : j < w
    · simp [hj, show j - k < w - k by omega]
    · have hxj : x.testBit j = false :=
        Nat.testBit_lt_two_pow (Nat.lt_of_lt_of_le hx (Nat.pow_le_pow_right (by omega) (by omega)))
      simp [hxj]
  · simp [hj]

/-! ### Accumulation on a word -/

theorem foldl_mul_add_mod (b M : ℕ) : ∀ (ds : List ℕ) (x : ℕ),
    ds.foldl (fun n d => (n * b + d) % M) (x % M) = ds.foldl (fun n d => n * b + d) x % M
  | [], _ => rfl
  | d :: ds, x => by
    have hstep : (x % M * b + d) % M = (x * b + d) % M := by
      simp [Nat.add_mod, Nat.mul_mod]
    rw [List.foldl_cons, List.foldl_cons, ← foldl_mul_add_mod b M ds (x * b + d), hstep]

/-! ### `uint32_t` arithmetic on values -/

def subU32 (a b : ℕ) : ℕ := (a.toUInt32 - b.toUInt32).toNat

def addU32 (a b : ℕ) : ℕ := (a.toUInt32 + b.toUInt32).toNat

theorem toNat_toUInt32_eq {a : ℕ} (ha : a < 2 ^ 32) : a.toUInt32.toNat = a := by
  rw [Nat.toUInt32_eq, UInt32.toNat_ofNat_of_lt' (by rw [UInt32.size]; omega)]

theorem subU32_eq_sub {a b : ℕ} (h : b ≤ a) (ha : a < 2 ^ 32) : subU32 a b = a - b := by
  rw [subU32, UInt32.toNat_sub, toNat_toUInt32_eq ha, toNat_toUInt32_eq (show b < 2 ^ 32 by omega)]
  omega

theorem addU32_eq_add {a b : ℕ} (h : a + b < 2 ^ 32) : addU32 a b = a + b := by
  rw [addU32, UInt32.toNat_add, toNat_toUInt32_eq (show a < 2 ^ 32 by omega),
    toNat_toUInt32_eq (show b < 2 ^ 32 by omega)]
  exact Nat.mod_eq_of_lt h

end Word
