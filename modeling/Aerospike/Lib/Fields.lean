import Mathlib

/-! # Numbers as sums of fixed-width fields

A bit-parallel computation on a word treats it as a row of `w`-bit fields and
works on all of them at once. `packFields w m f` is the number whose fields,
from the lowest, are `f 0, …, f (m - 1)`; as long as no field overflows, adding,
subtracting, masking, shifting and regrouping such numbers act field by field.
The section at the end applies this to the bit count of a 64-bit word by
pairs, nibbles and bytes, the steps of the usual parallel population count.
-/

namespace Fields

/-- The number with `w`-bit fields `f 0, …, f (m - 1)`, lowest first. -/
def packFields (w : ℕ) : ℕ → (ℕ → ℕ) → ℕ
  | 0, _ => 0
  | m + 1, f => f 0 + 2 ^ w * packFields w m (fun j => f (j + 1))

def sumFields : ℕ → (ℕ → ℕ) → ℕ
  | 0, _ => 0
  | m + 1, f => f 0 + sumFields m (fun j => f (j + 1))

variable {w m : ℕ}

theorem packFields_congr {f g : ℕ → ℕ} (h : ∀ j < m, f j = g j) :
    packFields w m f = packFields w m g := by
  induction m generalizing f g with
  | zero => rfl
  | succ m ih =>
    rw [packFields, packFields, h 0 (Nat.zero_lt_succ m), ih fun j hj => h (j + 1) (by omega)]

theorem sumFields_congr {f g : ℕ → ℕ} (h : ∀ j < m, f j = g j) : sumFields m f = sumFields m g := by
  induction m generalizing f g with
  | zero => rfl
  | succ m ih =>
    rw [sumFields, sumFields, h 0 (Nat.zero_lt_succ m), ih fun j hj => h (j + 1) (by omega)]

theorem two_pow_mul_succ (w m : ℕ) : 2 ^ (w * (m + 1)) = 2 ^ w * 2 ^ (w * m) := by
  rw [Nat.mul_succ, Nat.pow_add, Nat.mul_comm]

theorem packFields_lt {f : ℕ → ℕ} (h : ∀ j < m, f j < 2 ^ w) : packFields w m f < 2 ^ (w * m) := by
  induction m generalizing f with
  | zero => simp [packFields]
  | succ m ih =>
    have h0 := h 0 (Nat.zero_lt_succ m)
    have hrest : packFields w m (fun j => f (j + 1)) + 1 ≤ 2 ^ (w * m) :=
      ih fun j hj => h (j + 1) (by omega)
    have hmul := Nat.mul_le_mul_left (2 ^ w) hrest
    rw [packFields, two_pow_mul_succ, Nat.mul_add, Nat.mul_one] at *
    omega

theorem packFields_add (f g : ℕ → ℕ) :
    packFields w m f + packFields w m g = packFields w m (fun j => f j + g j) := by
  induction m generalizing f g with
  | zero => rfl
  | succ m ih =>
    rw [packFields, packFields, packFields, ← ih]
    grind

theorem packFields_le {f g : ℕ → ℕ} (h : ∀ j < m, g j ≤ f j) : packFields w m g ≤ packFields w m f := by
  induction m generalizing f g with
  | zero => exact Nat.le_refl 0
  | succ m ih =>
    have h0 := h 0 (Nat.zero_lt_succ m)
    have hrest := Nat.mul_le_mul_left (2 ^ w)
      (ih (f := fun j => f (j + 1)) (g := fun j => g (j + 1)) fun j hj => h (j + 1) (by omega))
    rw [packFields, packFields]
    omega

theorem packFields_sub {f g : ℕ → ℕ} (h : ∀ j < m, g j ≤ f j) :
    packFields w m f - packFields w m g = packFields w m (fun j => f j - g j) := by
  have hsum : packFields w m g + packFields w m (fun j => f j - g j) = packFields w m f := by
    rw [packFields_add]
    exact packFields_congr fun j hj => by have := h j hj; omega
  omega

theorem packFields_div {f : ℕ → ℕ} (h0 : f 0 < 2 ^ w) :
    packFields w (m + 1) f / 2 ^ w = packFields w m (fun j => f (j + 1)) := by
  rw [packFields, Nat.add_mul_div_left _ _ (Nat.two_pow_pos w), Nat.div_eq_of_lt h0, Nat.zero_add]

theorem packFields_succ_top (f : ℕ → ℕ) :
    packFields w (m + 1) f = packFields w m f + 2 ^ (w * m) * f m := by
  induction m generalizing f with
  | zero => simp [packFields]
  | succ m ih =>
    rw [packFields, ih (fun j => f (j + 1)), packFields, two_pow_mul_succ]
    grind

theorem packFields_div_top {f : ℕ → ℕ} (h : ∀ j < m, f j < 2 ^ w) :
    packFields w (m + 1) f / 2 ^ (w * m) = f m := by
  rw [packFields_succ_top, Nat.add_mul_div_left _ _ (Nat.two_pow_pos _),
    Nat.div_eq_of_lt (packFields_lt h), Nat.zero_add]

theorem testBit_add_two_pow_mul {a w : ℕ} (b j : ℕ) (ha : a < 2 ^ w) :
    (a + 2 ^ w * b).testBit j = if j < w then a.testBit j else b.testBit (j - w) := by
  rw [Nat.add_comm, Nat.testBit_two_pow_mul_add _ ha]

theorem packFields_and {f g : ℕ → ℕ} (hf : ∀ j < m, f j < 2 ^ w) (hg : ∀ j < m, g j < 2 ^ w) :
    packFields w m f &&& packFields w m g = packFields w m (fun j => f j &&& g j) := by
  induction m generalizing f g with
  | zero => simp [packFields]
  | succ m ih =>
    have hf0 := hf 0 (Nat.zero_lt_succ m)
    have hg0 := hg 0 (Nat.zero_lt_succ m)
    rw [packFields, packFields, packFields,
      ← ih (fun j hj => hf (j + 1) (by omega)) (fun j hj => hg (j + 1) (by omega))]
    apply Nat.eq_of_testBit_eq
    intro j
    rw [Nat.testBit_and, testBit_add_two_pow_mul _ _ hf0, testBit_add_two_pow_mul _ _ hg0,
      testBit_add_two_pow_mul _ _ (Nat.and_lt_two_pow _ hg0), Nat.testBit_and, Nat.testBit_and]
    split <;> rfl

theorem packFields_regroup (w m : ℕ) (f : ℕ → ℕ) :
    packFields w (2 * m) f = packFields (2 * w) m (fun j => f (2 * j) + 2 ^ w * f (2 * j + 1)) := by
  induction m generalizing f with
  | zero => rfl
  | succ m ih =>
    rw [show 2 * (m + 1) = 2 * m + 1 + 1 by omega, packFields, packFields, ih, packFields]
    have hidx : ∀ j, 2 * j + 1 + 1 = 2 * (j + 1) := fun j => by omega
    simp only [hidx, Nat.mul_zero, Nat.zero_add]
    rw [Nat.two_mul w, Nat.pow_add]
    grind

theorem sumFields_pairs (m : ℕ) (f : ℕ → ℕ) :
    sumFields m (fun j => f (2 * j) + f (2 * j + 1)) = sumFields (2 * m) f := by
  induction m generalizing f with
  | zero => rfl
  | succ m ih =>
    rw [show 2 * (m + 1) = 2 * m + 1 + 1 by omega, sumFields, sumFields, sumFields]
    have hrest := ih (fun j => f (j + 2))
    simp only [show ∀ j, 2 * j + 2 = 2 * (j + 1) from fun j => by omega,
      show ∀ j, 2 * j + 1 + 2 = 2 * (j + 1) + 1 from fun j => by omega] at hrest
    simp only [Nat.mul_zero, Nat.zero_add, show ∀ j, j + 1 + 1 = j + 2 from fun j => rfl]
    omega

theorem sumFields_le {B : ℕ} {f : ℕ → ℕ} (h : ∀ j < m, f j ≤ B) : sumFields m f ≤ m * B := by
  induction m generalizing f with
  | zero => simp [sumFields]
  | succ m ih =>
    have h0 := h 0 (Nat.zero_lt_succ m)
    have hrest := ih (f := fun j => f (j + 1)) fun j hj => h (j + 1) (by omega)
    rw [sumFields, Nat.succ_mul]
    omega

theorem packFields_bits {x : ℕ} (hx : x < 2 ^ m) : packFields 1 m (fun i => (x.testBit i).toNat) = x := by
  induction m generalizing x with
  | zero => simp_all [packFields]
  | succ m ih =>
    have hhalf : x / 2 < 2 ^ m := by rw [Nat.pow_succ] at hx; omega
    have hbits : (fun j => (x.testBit (j + 1)).toNat) = fun j => ((x / 2).testBit j).toNat := by
      funext j
      rw [Nat.testBit_add_one]
    rw [packFields, hbits, ih hhalf, Nat.testBit_zero]
    rcases Nat.mod_two_eq_zero_or_one x with h | h <;> simp [h] <;> omega

theorem testBit_packFields_one (b : ℕ → Bool) {j : ℕ} (hj : j < m) :
    (packFields 1 m fun i => (b i).toNat).testBit j = b j := by
  induction m generalizing b j with
  | zero => omega
  | succ m ih =>
    rw [packFields, testBit_add_two_pow_mul _ _ (by cases b 0 <;> decide)]
    rcases j with _ | j
    · rw [if_pos Nat.one_pos]
      cases b 0 <;> rfl
    · rw [if_neg (by omega), Nat.add_sub_cancel]
      exact ih (fun i => b (i + 1)) (by omega)

theorem countP_range_eq_sumFields (p : ℕ → Bool) :
    (List.range m).countP p = sumFields m (fun i => (p i).toNat) := by
  induction m generalizing p with
  | zero => rfl
  | succ m ih =>
    rw [List.range_succ_eq_map, List.countP_cons, List.countP_map, sumFields, ← ih]
    cases p 0 <;> simp [Function.comp_def] <;> omega

theorem packFields_shiftRight {f : ℕ → ℕ} (h0 : f 0 < 2 ^ w) (htop : f m = 0) :
    packFields w m f >>> w = packFields w m (fun j => f (j + 1)) := by
  rw [Nat.shiftRight_eq_div_pow]
  cases m with
  | zero => rw [packFields, packFields, Nat.zero_div]
  | succ m =>
    rw [packFields_div h0, packFields_succ_top (m := m) (fun j => f (j + 1)), htop, Nat.mul_zero,
      Nat.add_zero]

theorem and_two_pow_sub_one_of_lt {u : ℕ} (v w : ℕ) (hu : u < 2 ^ w) :
    (u + 2 ^ w * v) &&& (2 ^ w - 1) = u := by
  rw [Nat.and_two_pow_sub_one_eq_mod, Nat.add_mul_mod_self_left, Nat.mod_eq_of_lt hu]

theorem packFields_and_low {a b : ℕ → ℕ} (ha : ∀ j < m, a j < 2 ^ w) (hb : ∀ j < m, b j < 2 ^ w) :
    packFields (2 * w) m (fun j => a j + 2 ^ w * b j) &&& packFields (2 * w) m (fun _ => 2 ^ w - 1) =
      packFields (2 * w) m a := by
  have hsplit : ∀ j < m, a j + 2 ^ w * b j < 2 ^ (2 * w) := fun j hj => by
    have hmul := Nat.mul_le_mul_left (2 ^ w) (hb j hj)
    have ha' := ha j hj
    rw [Nat.two_mul, Nat.pow_add, Nat.mul_succ] at *
    omega
  rw [packFields_and hsplit fun _ _ => Nat.lt_of_lt_of_le (Nat.sub_lt (Nat.two_pow_pos w) Nat.one_pos)
    (Nat.pow_le_pow_right (by decide) (by omega))]
  exact packFields_congr fun j hj => and_two_pow_sub_one_of_lt _ w (ha j hj)

/-! ### The parallel bit count of a 64-bit word -/

section Popcount

variable {x : ℕ}

/-- The bits of `x`. -/
def bit (x i : ℕ) : ℕ := (x.testBit i).toNat

/-- The bits of `x` in pairs. -/
def pairCount (x j : ℕ) : ℕ := bit x (2 * j) + bit x (2 * j + 1)

/-- The bits of `x` by nibbles. -/
def nibbleCount (x j : ℕ) : ℕ := pairCount x (2 * j) + pairCount x (2 * j + 1)

/-- The bits of `x` by bytes. -/
def byteCount (x j : ℕ) : ℕ := nibbleCount x (2 * j) + nibbleCount x (2 * j + 1)

theorem bit_le_one (x i : ℕ) : bit x i ≤ 1 := by
  unfold bit
  cases x.testBit i <;> decide

theorem pairCount_le (x j : ℕ) : pairCount x j ≤ 2 := by
  have := bit_le_one x (2 * j); have := bit_le_one x (2 * j + 1)
  unfold pairCount; omega

theorem nibbleCount_le (x j : ℕ) : nibbleCount x j ≤ 4 := by
  have := pairCount_le x (2 * j); have := pairCount_le x (2 * j + 1)
  unfold nibbleCount; omega

theorem byteCount_le (x j : ℕ) : byteCount x j ≤ 8 := by
  have := nibbleCount_le x (2 * j); have := nibbleCount_le x (2 * j + 1)
  unfold byteCount; omega

theorem bit_of_le (hx : x < 2 ^ 64) {i : ℕ} (hi : 64 ≤ i) : bit x i = 0 := by
  rw [bit, Nat.testBit_lt_two_pow (Nat.lt_of_lt_of_le hx (Nat.pow_le_pow_right (by decide) hi))]
  rfl

theorem pairCount_of_le (hx : x < 2 ^ 64) {j : ℕ} (hj : 32 ≤ j) : pairCount x j = 0 := by
  rw [pairCount, bit_of_le hx (by omega), bit_of_le hx (by omega)]

theorem nibbleCount_of_le (hx : x < 2 ^ 64) {j : ℕ} (hj : 16 ≤ j) : nibbleCount x j = 0 := by
  rw [nibbleCount, pairCount_of_le hx (by omega), pairCount_of_le hx (by omega)]

theorem sub_shiftRight_one_and (hx : x < 2 ^ 64) :
    x - ((x >>> 1) &&& 0x5555555555555555) = packFields 2 32 (pairCount x) := by
  have hbits : x = packFields 1 (2 * 32) (bit x) := (packFields_bits hx).symm
  have hodd : (x >>> 1) &&& 0x5555555555555555 = packFields 2 32 (fun j => bit x (2 * j + 1)) := by
    conv => lhs; rw [hbits]
    rw [packFields_shiftRight (show bit x 0 < 2 ^ 1 from Nat.lt_succ_of_le (bit_le_one x 0))
        (bit_of_le hx (Nat.le_refl _)), show (64 : ℕ) = 2 * 32 from rfl, packFields_regroup, show (0x5555555555555555 : ℕ) = packFields (2 * 1) 32 (fun _ => 2 ^ 1 - 1) by decide]
    exact packFields_and_low (fun j _ => Nat.lt_succ_of_le (bit_le_one x _))
      (fun j _ => Nat.lt_succ_of_le (bit_le_one x _))
  have hpairs : x = packFields 2 32 (fun j => bit x (2 * j) + 2 ^ 1 * bit x (2 * j + 1)) := by
    rw [packFields_regroup, Nat.mul_one] at hbits
    exact hbits
  calc x - ((x >>> 1) &&& 0x5555555555555555)
      = packFields 2 32 (fun j => bit x (2 * j) + 2 ^ 1 * bit x (2 * j + 1)) -
          packFields 2 32 (fun j => bit x (2 * j + 1)) := by
        rw [hodd, ← hpairs]
    _ = packFields 2 32 (pairCount x) := by
        have hle : ∀ j < 32, bit x (2 * j + 1) ≤ bit x (2 * j) + 2 ^ 1 * bit x (2 * j + 1) :=
          fun j _ => by omega
        rw [packFields_sub hle]
        exact packFields_congr fun j _ => by unfold pairCount; omega

theorem and_add_shiftRight_two_and (hx : x < 2 ^ 64) :
    (packFields 2 32 (pairCount x) &&& 0x3333333333333333) +
        ((packFields 2 32 (pairCount x) >>> 2) &&& 0x3333333333333333) =
      packFields 4 16 (nibbleCount x) := by
  have hmask : (0x3333333333333333 : ℕ) = packFields (2 * 2) 16 (fun _ => 2 ^ 2 - 1) := by decide
  have hpair : ∀ j, pairCount x j < 2 ^ 2 := fun j => Nat.lt_of_le_of_lt (pairCount_le x j) (by decide)
  have hlo : packFields 2 32 (pairCount x) &&& 0x3333333333333333 =
      packFields 4 16 (fun i => pairCount x (2 * i)) := by
    rw [show (32 : ℕ) = 2 * 16 from rfl, packFields_regroup, hmask]
    exact packFields_and_low (fun j _ => hpair _) (fun j _ => hpair _)
  have hhi : (packFields 2 32 (pairCount x) >>> 2) &&& 0x3333333333333333 =
      packFields 4 16 (fun i => pairCount x (2 * i + 1)) := by
    rw [packFields_shiftRight (hpair 0) (pairCount_of_le hx (Nat.le_refl _)), show (32 : ℕ) = 2 * 16 from rfl,
      packFields_regroup, hmask]
    exact packFields_and_low (fun j _ => hpair _) (fun j _ => hpair _)
  rw [hlo, hhi, packFields_add]
  rfl

theorem add_shiftRight_four_lt (hx : x < 2 ^ 64) :
    packFields 4 16 (nibbleCount x) + packFields 4 16 (nibbleCount x) >>> 4 < 2 ^ 64 := by
  rw [packFields_shiftRight (Nat.lt_of_le_of_lt (nibbleCount_le x 0) (by decide)) (nibbleCount_of_le hx (Nat.le_refl _)),
    packFields_add]
  exact packFields_lt (w := 4) (m := 16) fun i _ => by
    have := nibbleCount_le x i; have := nibbleCount_le x (i + 1); omega

theorem add_shiftRight_four_and (hx : x < 2 ^ 64) :
    (packFields 4 16 (nibbleCount x) + packFields 4 16 (nibbleCount x) >>> 4) &&& 0x0F0F0F0F0F0F0F0F =
      packFields 8 8 (byteCount x) := by
  have hnib : ∀ j, nibbleCount x j ≤ 4 := nibbleCount_le x
  rw [packFields_shiftRight (Nat.lt_of_le_of_lt (hnib 0) (by decide)) (nibbleCount_of_le hx (Nat.le_refl _)),
    packFields_add, show (16 : ℕ) = 2 * 8 from rfl, packFields_regroup,
    show (0x0F0F0F0F0F0F0F0F : ℕ) = packFields (2 * 4) 8 (fun _ => 2 ^ 4 - 1) by decide]
  exact packFields_and_low (fun k _ => by have := hnib (2 * k); have := hnib (2 * k + 1); omega)
    (fun k _ => by have := hnib (2 * k + 1); have := hnib (2 * k + 1 + 1); omega)

theorem mul_ones_top_byte {e : ℕ → ℕ} (he : ∀ k, e k ≤ 8) :
    packFields 8 8 e * 0x0101010101010101 % 2 ^ 64 / 2 ^ 56 = sumFields 8 e := by
  have hprod : packFields 8 8 e * 0x0101010101010101 = packFields 8 8 (fun p => sumFields (p + 1) e) +
      2 ^ 64 * ((e 1 + e 2 + e 3 + e 4 + e 5 + e 6 + e 7) + 2 ^ 8 * (e 2 + e 3 + e 4 + e 5 + e 6 + e 7)
        + 2 ^ 16 * (e 3 + e 4 + e 5 + e 6 + e 7) + 2 ^ 24 * (e 4 + e 5 + e 6 + e 7)
        + 2 ^ 32 * (e 5 + e 6 + e 7) + 2 ^ 40 * (e 6 + e 7) + 2 ^ 48 * e 7) := by
    simp only [packFields, sumFields]
    grind
  have hprefix : ∀ p < 8, sumFields (p + 1) e < 2 ^ 8 := fun p hp => by
    have := sumFields_le (m := p + 1) (B := 8) fun j _ => he j
    have : (p + 1) * 8 ≤ 64 := by omega
    omega
  rw [hprod, Nat.add_mul_mod_self_left, Nat.mod_eq_of_lt (packFields_lt hprefix),
    show (8 : ℕ) = 7 + 1 from rfl, show (56 : ℕ) = 8 * 7 from rfl,
    packFields_div_top fun p hp => hprefix p (by omega)]

theorem sumFields_byteCount (x : ℕ) : sumFields 8 (byteCount x) = (List.range 64).countP x.testBit := by
  rw [countP_range_eq_sumFields, show sumFields 8 (byteCount x) = sumFields 16 (nibbleCount x) from
      sumFields_pairs 8 _, show sumFields 16 (nibbleCount x) = sumFields 32 (pairCount x) from
      sumFields_pairs 16 _]
  exact sumFields_pairs 32 (bit x)

end Popcount

end Fields
