import Mathlib

/-! # Big-endian byte strings in a flat memory

A memory is a function from addresses to bytes. A reader takes the bytes at
consecutive addresses; an encoder writes the low bytes of a number most
significant first. Decoding what was encoded gives the number back modulo the
width, and a read depends only on the addresses it covers.
-/

namespace Bytes

/-- The `n` bytes at `addr, addr + 1, …` of a memory. -/
def read (mem : ℕ → UInt8) (addr n : ℕ) : List UInt8 :=
  (List.range n).map fun i => mem (addr + i)

def Holds (mem : ℕ → UInt8) (addr : ℕ) (bytes : List UInt8) : Prop :=
  ∀ i (h : i < bytes.length), mem (addr + i) = bytes[i]

def beValue : List UInt8 → ℕ
  | [] => 0
  | b :: bs => b.toNat * 256 ^ bs.length + beValue bs

/-- The low `n` bytes of a number, most significant first. -/
def beBytes : ℕ → ℕ → List UInt8
  | 0, _ => []
  | n + 1, x => UInt8.ofNat (x / 256 ^ n) :: beBytes n x

/-- The big-endian value of the `n` bytes at an address. -/
def beRead (mem : ℕ → UInt8) (addr n : ℕ) : ℕ := beValue (read mem addr n)

def write (mem : ℕ → UInt8) (addr : ℕ) (bytes : List UInt8) : ℕ → UInt8 :=
  fun i => if addr ≤ i ∧ i < addr + bytes.length then bytes.getD (i - addr) 0 else mem i

/-- `memcmp` of two byte strings over their common length: the order of the
first bytes that differ. -/
def memcmp : List UInt8 → List UInt8 → Ordering
  | a :: as, b :: bs => if a < b then .lt else if b < a then .gt else memcmp as bs
  | _, _ => .eq

variable {mem mem' : ℕ → UInt8} {addr n : ℕ}

@[simp] theorem length_read : (read mem addr n).length = n := by simp [read]

@[simp] theorem length_beBytes (n x : ℕ) : (beBytes n x).length = n := by
  induction n with
  | zero => rfl
  | succ n ih => simp [beBytes, ih]

theorem beValue_lt : ∀ bs : List UInt8, beValue bs < 256 ^ bs.length
  | [] => by simp [beValue]
  | b :: bs => by
    have hb := b.toNat_lt
    have ih := beValue_lt bs
    simp only [beValue, List.length_cons, Nat.pow_succ]
    have : b.toNat * 256 ^ bs.length + 256 ^ bs.length ≤ 256 ^ bs.length * 256 := by
      rw [← Nat.succ_mul, Nat.mul_comm]
      exact Nat.mul_le_mul_left _ hb
    omega

@[simp] theorem beValue_beBytes (n x : ℕ) : beValue (beBytes n x) = x % 256 ^ n := by
  induction n with
  | zero => simp [beBytes, beValue, Nat.mod_one]
  | succ n ih =>
    have hbyte : (UInt8.ofNat (x / 256 ^ n)).toNat = x / 256 ^ n % 256 := by simp
    rw [beBytes, beValue, length_beBytes, ih, hbyte, Nat.pow_succ, Nat.mod_mul,
      Nat.mul_comm (256 ^ n)]
    omega

theorem beValue_append (xs ys : List UInt8) :
    beValue (xs ++ ys) = beValue xs * 256 ^ ys.length + beValue ys := by
  induction xs with
  | nil => simp [beValue]
  | cons b bs ih =>
    simp only [List.cons_append, beValue, List.length_append, ih, Nat.pow_add]
    ring

theorem beRead_lt : beRead mem addr n < 256 ^ n := by
  simpa [beRead] using beValue_lt (read mem addr n)

theorem read_add (mem : ℕ → UInt8) (addr m n : ℕ) :
    read mem addr (m + n) = read mem addr m ++ read mem (addr + m) n := by
  simp only [read, List.range_add, List.map_append, List.map_map]
  congr 1
  apply List.map_congr_left
  intro i _
  simp [Nat.add_assoc]

theorem read_congr (h : ∀ i < n, mem (addr + i) = mem' (addr + i)) :
    read mem addr n = read mem' addr n := by
  simp only [read, List.map_inj_left, List.mem_range]
  exact h

theorem beRead_congr (h : ∀ i < n, mem (addr + i) = mem' (addr + i)) :
    beRead mem addr n = beRead mem' addr n := by
  rw [beRead, beRead, read_congr h]

theorem Holds.read_eq {bytes : List UInt8} (h : Holds mem addr bytes) :
    read mem addr bytes.length = bytes := by
  apply List.ext_getElem (by simp)
  intro i h₁ h₂
  simp [read, h i h₂]

theorem holds_append {xs ys : List UInt8} :
    Holds mem addr (xs ++ ys) ↔ Holds mem addr xs ∧ Holds mem (addr + xs.length) ys := by
  constructor
  · intro h
    refine ⟨fun i hi => ?_, fun i hi => ?_⟩
    · rw [h i (by simp; omega), List.getElem_append_left hi]
    · rw [Nat.add_assoc, h (xs.length + i) (by simp; omega),
        List.getElem_append_right (by omega)]
      simp
  · rintro ⟨hx, hy⟩ i hi
    by_cases hlt : i < xs.length
    · rw [List.getElem_append_left hlt, hx i hlt]
    · have := hy (i - xs.length) (by simp at hi; omega)
      rw [List.getElem_append_right (by omega), ← this]
      congr 1; omega

theorem holds_cons {b : UInt8} {bs : List UInt8} :
    Holds mem addr (b :: bs) ↔ mem addr = b ∧ Holds mem (addr + 1) bs := by
  rw [← List.singleton_append, holds_append]
  refine and_congr ⟨fun h => ?_, fun h i hi => ?_⟩ Iff.rfl
  · simpa using h 0 (by simp)
  · simp at hi; subst hi; simpa using h

theorem holds_getD (bytes : List UInt8) : Holds (fun a => bytes.getD a 0) 0 bytes := by
  intro i hi
  simp [hi]

theorem Holds.beRead_eq {n x : ℕ} (h : Holds mem addr (beBytes n x)) :
    beRead mem addr n = x % 256 ^ n := by
  have := h.read_eq
  rw [length_beBytes] at this
  rw [beRead, this, beValue_beBytes]

/-! ### Comparing byte strings -/

theorem memcmp_cons_eq_gt {a b : UInt8} {as bs : List UInt8} :
    memcmp (a :: as) (b :: bs) = .gt ↔ b < a ∨ (a = b ∧ memcmp as bs = .gt) := by
  rw [memcmp]
  by_cases hab : a < b
  · rw [if_pos hab]
    constructor
    · intro h; cases h
    · rintro (hba | ⟨rfl, _⟩)
      · exact absurd (UInt8.lt_asymm hab) (not_not.mpr hba)
      · exact absurd hab (UInt8.lt_irrefl a)
  · rw [if_neg hab]
    by_cases hba : b < a
    · rw [if_pos hba]
      exact ⟨fun _ => Or.inl hba, fun _ => rfl⟩
    · rw [if_neg hba]
      have heq : a = b := UInt8.le_antisymm (UInt8.not_lt.mp hba) (UInt8.not_lt.mp hab)
      exact ⟨fun h => Or.inr ⟨heq, h⟩, fun h => h.elim (fun h => absurd h hba) And.right⟩

@[simp] theorem memcmp_self : ∀ xs : List UInt8, memcmp xs xs = .eq
  | [] => rfl
  | a :: as => by
    rw [memcmp, if_neg (UInt8.lt_irrefl a), if_neg (UInt8.lt_irrefl a)]
    exact memcmp_self as

theorem memcmp_gt_trans : ∀ {xs ys zs : List UInt8},
    memcmp xs ys = .gt → memcmp ys zs = .gt → memcmp xs zs = .gt
  | a :: as, b :: bs, c :: cs, h1, h2 => by
    rw [memcmp_cons_eq_gt] at h1 h2 ⊢
    rcases h1 with hba | ⟨rfl, h1⟩ <;> rcases h2 with hcb | ⟨rfl, h2⟩
    · exact Or.inl (UInt8.lt_trans hcb hba)
    · exact Or.inl hba
    · exact Or.inl hcb
    · exact Or.inr ⟨rfl, memcmp_gt_trans h1 h2⟩
  | [], _, _, h1, _ => by cases h1
  | _ :: _, [], _, h1, _ => by cases h1
  | _ :: _, _ :: _, [], _, h2 => by cases h2

theorem memcmp_swap : ∀ xs ys : List UInt8, memcmp ys xs = (memcmp xs ys).swap
  | a :: as, b :: bs => by
    rw [memcmp, memcmp]
    by_cases hab : a < b
    · rw [if_neg (UInt8.lt_asymm hab), if_pos hab, if_pos hab]
      rfl
    · rw [if_neg hab]
      by_cases hba : b < a
      · rw [if_pos hba, if_pos hba, if_neg hab]
        rfl
      · rw [if_neg hba, if_neg hba, if_neg hab]
        exact memcmp_swap as bs
  | [], [] => rfl
  | [], _ :: _ => rfl
  | _ :: _, [] => rfl

theorem eq_of_memcmp_eq : ∀ {xs ys : List UInt8}, xs.length = ys.length →
    memcmp xs ys = .eq → xs = ys
  | a :: as, b :: bs, hlen, h => by
    rw [memcmp] at h
    by_cases hab : a < b
    · rw [if_pos hab] at h
      cases h
    · rw [if_neg hab] at h
      by_cases hba : b < a
      · rw [if_pos hba] at h
        cases h
      · rw [if_neg hba] at h
        have heq : a = b := UInt8.le_antisymm (UInt8.not_lt.mp hba) (UInt8.not_lt.mp hab)
        rw [heq, eq_of_memcmp_eq (by simpa using hlen) h]
  | [], [], _, _ => rfl
  | [], _ :: _, hlen, _ => by cases hlen
  | _ :: _, [], hlen, _ => by cases hlen

theorem memcmp_take_ne_gt : ∀ (k : ℕ) {xs ys : List UInt8}, memcmp xs ys ≠ .gt →
    memcmp (xs.take k) (ys.take k) ≠ .gt
  | 0, _, _, _ => by simp
  | k + 1, a :: as, b :: bs, h => by
    rw [List.take_succ_cons, List.take_succ_cons]
    rw [Ne, memcmp_cons_eq_gt] at h ⊢
    rintro (hba | ⟨rfl, h'⟩)
    · exact h (Or.inl hba)
    · exact memcmp_take_ne_gt k (fun h2 => h (Or.inr ⟨rfl, h2⟩)) h'
  | k + 1, [], _, _ => by simp [memcmp]
  | k + 1, _ :: _, [], _ => by simp [memcmp]

/-! ### Little-endian strings -/

/-- The value of a byte string read least significant byte first, as a host
of that order reads a number it copied byte by byte. -/
def leValue (bs : List UInt8) : ℕ := beValue bs.reverse

/-- The low `n` bytes of a number, least significant first. -/
def leBytes (n x : ℕ) : List UInt8 := (beBytes n x).reverse

/-- The little-endian value of the first `n` bytes of a string, where it has them. -/
def leRead? (bs : List UInt8) (n : ℕ) : Option ℕ :=
  if n ≤ bs.length then some (leValue (bs.take n)) else none

theorem eq_of_beValue_eq : ∀ {xs ys : List UInt8}, xs.length = ys.length →
    beValue xs = beValue ys → xs = ys
  | [], [], _, _ => rfl
  | a :: as, b :: bs, hlen, h => by
    have hlen' : as.length = bs.length := by simpa using hlen
    have has := beValue_lt as
    have hbs := beValue_lt bs
    simp only [beValue, hlen'] at h
    have hq : a.toNat = b.toNat := by
      have := congrArg (· / 256 ^ bs.length) h
      rwa [Nat.mul_comm a.toNat, Nat.mul_comm b.toNat, Nat.mul_add_div (by positivity),
        Nat.mul_add_div (by positivity), Nat.div_eq_of_lt (hlen' ▸ has), Nat.div_eq_of_lt hbs,
        Nat.add_zero, Nat.add_zero] at this
    rw [hq] at h
    rw [UInt8.toNat_inj.mp hq, eq_of_beValue_eq hlen' (by omega)]
  | [], _ :: _, hlen, _ => by cases hlen
  | _ :: _, [], hlen, _ => by cases hlen

@[simp] theorem beBytes_beValue (bs : List UInt8) : beBytes bs.length (beValue bs) = bs :=
  eq_of_beValue_eq (by simp) (by rw [beValue_beBytes, Nat.mod_eq_of_lt (beValue_lt bs)])

@[simp] theorem length_leBytes (n x : ℕ) : (leBytes n x).length = n := by simp [leBytes]

@[simp] theorem leValue_leBytes (n x : ℕ) : leValue (leBytes n x) = x % 256 ^ n := by
  simp [leValue, leBytes]

theorem leValue_lt (bs : List UInt8) : leValue bs < 256 ^ bs.length := by
  simpa [leValue] using beValue_lt bs.reverse

@[simp] theorem leBytes_leValue (bs : List UInt8) : leBytes bs.length (leValue bs) = bs := by
  simpa [leBytes, leValue] using congrArg List.reverse (beBytes_beValue bs.reverse)

theorem leBytes_mod (n x : ℕ) : leBytes n (x % 256 ^ n) = leBytes n x := by
  have hlen : (beBytes n (x % 256 ^ n)).length = (beBytes n x).length := by simp
  have h := eq_of_beValue_eq hlen (by rw [beValue_beBytes, beValue_beBytes, Nat.mod_mod])
  rw [leBytes, leBytes, h]

theorem leRead?_eq_none {bs : List UInt8} {n : ℕ} (h : bs.length < n) : leRead? bs n = none := by
  rw [leRead?, if_neg (by omega)]

theorem leRead?_eq_some {bs : List UInt8} {n : ℕ} (h : n ≤ bs.length) :
    leRead? bs n = some (leValue (bs.take n)) := by
  rw [leRead?, if_pos h]

@[simp] theorem leRead?_leBytes_append (n x : ℕ) (bs : List UInt8) :
    leRead? (leBytes n x ++ bs) n = some (x % 256 ^ n) := by
  rw [leRead?_eq_some (by simp), List.take_left' (length_leBytes n x), leValue_leBytes]

end Bytes
