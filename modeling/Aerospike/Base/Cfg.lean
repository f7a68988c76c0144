import Aerospike.Lib.Word

/-! # Numbers in configuration values

`cf_str_atoi_64`, `cf_str_atoi_u64` and `cf_str_atoi_seconds` (`cf_str.c`) read
a value token: an optional `-` (signed parser only), decimal digits and an
optional unit suffix. They accumulate on a 64-bit word with no overflow check,
accept an empty digit string, and the seconds parser reads every token starting
`-1` as `0`. The readers of `cfg.c` crash on a token the parser rejects or on a
value out of range; `cfg_seconds` truncates the value to 32 bits before its
range check.

A token is modelled as its characters up to the terminating `NUL`, and a crash
as `none`. On a digit string the readers return the residue modulo `2^64` of
its value, so a token whose value overflows is accepted as a small one.
-/

namespace Aerospike.Base

/-! ### The parsers -/

def isDecDigit (c : Char) : Bool := decide ('0' ≤ c ∧ c ≤ '9')

/-- The digit loop `i *= 10; i += *s - '0'` on a 64-bit accumulator, with the
rest of the token. `cf_str_atoi_64` runs it on an `int64_t`, whose bits wrap
the same way. -/
def atoiDigits : UInt64 → List Char → UInt64 × List Char
  | i, [] => (i, [])
  | i, c :: s =>
    if isDecDigit c then atoiDigits (i * 10 + (c.toNat - '0'.toNat).toUInt64) s else (i, c :: s)

/-- The unit suffixes of `cf_str_atoi_64` and `cf_str_atoi_u64`. -/
def sizeUnit : Char → Option UInt64
  | 'k' | 'K' => some 1024
  | 'M' | 'm' => some (1024 * 1024)
  | 'G' | 'g' => some (1024 * 1024 * 1024)
  | 'T' | 't' => some (1024 * 1024 * 1024 * 1024)
  | 'P' | 'p' => some (1024 * 1024 * 1024 * 1024 * 1024)
  | _ => none

/-- The unit suffixes of `cf_str_atoi_seconds`; `s` leaves the value as it is. -/
def secondsUnit : Char → Option UInt64
  | 'S' | 's' => some 1
  | 'M' | 'm' => some 60
  | 'H' | 'h' => some (60 * 60)
  | 'D' | 'd' => some (60 * 60 * 24)
  | _ => none

/-- The `switch` on the character after the digits, then the check that the
token ends there; `none` for the `-1` return. -/
def atoiSuffix (unit : Char → Option UInt64) (i : UInt64) : List Char → Option UInt64
  | [] => some i
  | c :: s => (unit c).bind fun u => if s = [] then some (i * u) else none

def cfStrAtoiU64 (s : List Char) : Option UInt64 :=
  let r := atoiDigits 0 s
  atoiSuffix sizeUnit r.1 r.2

/-- `cf_str_atoi_64`: after an optional `-`, the body of `cf_str_atoi_u64` on
the same bits, negated for the sign. -/
def cfStrAtoi64 : List Char → Option Int64
  | '-' :: s => (cfStrAtoiU64 s).map fun i => (-i).toInt64
  | s => (cfStrAtoiU64 s).map UInt64.toInt64

/-- `cf_str_atoi_seconds`: a token starting `-1` is `0`. -/
def cfStrAtoiSeconds : List Char → Option UInt64
  | '-' :: '1' :: _ => some 0
  | s =>
    let r := atoiDigits 0 s
    atoiSuffix secondsUnit r.1 r.2

/-! ### The readers -/

def cfgI64AnyvalNoChecks (valTok : List Char) : Option Int64 :=
  if valTok = [] then none else cfStrAtoi64 valTok

def cfgI64 (valTok : List Char) (min max : Int64) : Option Int64 :=
  (cfgI64AnyvalNoChecks valTok).bind fun value =>
    if value < min ∨ value > max then none else some value

def cfgIntNoChecks (valTok : List Char) : Option Int32 :=
  (cfgI64AnyvalNoChecks valTok).bind fun value =>
    if value < -2147483648 ∨ value > 2147483647 then none else some value.toInt32

def cfgInt (valTok : List Char) (min max : Int32) : Option Int32 :=
  (cfgIntNoChecks valTok).bind fun value =>
    if value < min ∨ value > max then none else some value

def cfgU64AnyvalNoChecks (valTok : List Char) : Option UInt64 :=
  if valTok = [] then none else cfStrAtoiU64 valTok

/-- The range check of the unsigned readers: only the maximum when the minimum
is `0`. -/
def cfgUnsignedRange {α : Type} [LT α] [DecidableLT α] [DecidableEq α] [OfNat α 0]
    (min max value : α) : Option α :=
  if min = 0 then (if value > max then none else some value)
  else if value < min ∨ value > max then none else some value

def cfgU64 (valTok : List Char) (min max : UInt64) : Option UInt64 :=
  (cfgU64AnyvalNoChecks valTok).bind (cfgUnsignedRange min max)

/-- The narrowing readers `cfg_u32_no_checks`, `cfg_u16_no_checks` and
`cfg_u8_no_checks`: a crash above the narrower type's maximum. -/
def cfgNarrowNoChecks {β : Type} (typeMax : UInt64) (narrow : UInt64 → β) (valTok : List Char) :
    Option β :=
  (cfgU64AnyvalNoChecks valTok).bind fun value =>
    if value > typeMax then none else some (narrow value)

def cfgU32NoChecks : List Char → Option UInt32 := cfgNarrowNoChecks 4294967295 UInt64.toUInt32

def cfgU32 (valTok : List Char) (min max : UInt32) : Option UInt32 :=
  (cfgU32NoChecks valTok).bind (cfgUnsignedRange min max)

def cfgU16NoChecks : List Char → Option UInt16 := cfgNarrowNoChecks 65535 UInt64.toUInt16

def cfgU16 (valTok : List Char) (min max : UInt16) : Option UInt16 :=
  (cfgU16NoChecks valTok).bind (cfgUnsignedRange min max)

def cfgU8NoChecks : List Char → Option UInt8 := cfgNarrowNoChecks 255 UInt64.toUInt8

def cfgU8 (valTok : List Char) (min max : UInt8) : Option UInt8 :=
  (cfgU8NoChecks valTok).bind (cfgUnsignedRange min max)

/-- `cfg_seconds_no_checks`: the value truncated to 32 bits. -/
def cfgSecondsNoChecks (valTok : List Char) : Option UInt32 :=
  if valTok = [] then none else (cfStrAtoiSeconds valTok).map UInt64.toUInt32

def cfgSeconds (valTok : List Char) (min max : UInt32) : Option UInt32 :=
  (cfgSecondsNoChecks valTok).bind (cfgUnsignedRange min max)

/-! ### The digit loop -/

def digitVal (c : Char) : ℕ := c.toNat - '0'.toNat

def decimalValue (ds : List Char) : ℕ := (ds.map digitVal).foldl (fun n d => n * 10 + d) 0

theorem digitVal_lt {c : Char} (h : isDecDigit c = true) : digitVal c < 10 := by
  have h' : '0' ≤ c ∧ c ≤ '9' := of_decide_eq_true h
  have hle : c.toNat ≤ '9'.toNat := h'.2
  exact Nat.lt_of_le_of_lt (Nat.sub_le_sub_right hle _) (by decide)

theorem atoiDigits_append (rest : List Char) (hrest : ∀ c ∈ rest.head?, isDecDigit c = false) :
    ∀ (ds : List Char) (i : UInt64), (∀ c ∈ ds, isDecDigit c = true) →
      (atoiDigits i (ds ++ rest)).2 = rest ∧
        (atoiDigits i (ds ++ rest)).1.toNat =
          (ds.map digitVal).foldl (fun n d => (n * 10 + d) % 2 ^ 64) i.toNat
  | [], i, _ => by
    cases rest with
    | nil => exact ⟨rfl, rfl⟩
    | cons c s =>
      rw [List.nil_append, atoiDigits, if_neg (by rw [hrest c rfl]; decide)]
      exact ⟨rfl, rfl⟩
  | c :: ds, i, hds => by
    have hc := hds c List.mem_cons_self
    have hd : (c.toNat - '0'.toNat).toUInt64.toNat = digitVal c := by
      rw [Nat.toUInt64_eq, UInt64.toNat_ofNat']
      exact Nat.mod_eq_of_lt (Nat.lt_trans (digitVal_lt hc) (show (10 : ℕ) < 2 ^ 64 by decide))
    obtain ⟨h1, h2⟩ := atoiDigits_append rest hrest ds (i * 10 + (c.toNat - '0'.toNat).toUInt64)
      fun c hc => hds c (List.mem_cons_of_mem _ hc)
    rw [List.cons_append, atoiDigits, if_pos hc]
    refine ⟨h1, ?_⟩
    rw [h2, UInt64.toNat_add, UInt64.toNat_mul, hd, List.map_cons, List.foldl_cons]
    congr 1
    simp [Nat.add_mod, UInt64.toNat_ofNat]

theorem atoiDigits_toNat {ds : List Char} (hds : ∀ c ∈ ds, isDecDigit c = true) (rest : List Char)
    (hrest : ∀ c ∈ rest.head?, isDecDigit c = false) :
    (atoiDigits 0 (ds ++ rest)).2 = rest ∧
      (atoiDigits 0 (ds ++ rest)).1 = UInt64.ofNat (decimalValue ds) := by
  obtain ⟨h1, h2⟩ := atoiDigits_append rest hrest ds 0 hds
  refine ⟨h1, UInt64.toNat_inj.mp ?_⟩
  rw [h2, UInt64.toNat_ofNat', decimalValue, ← Word.foldl_mul_add_mod 10 (2 ^ 64) _ 0]
  rfl

theorem isDecDigit_of_sizeUnit {c : Char} {u : UInt64} (h : sizeUnit c = some u) :
    isDecDigit c = false := by
  unfold sizeUnit at h
  split at h <;> first | rfl | exact absurd h (by simp)

theorem cfStrAtoiU64_digits_unit {ds : List Char} (hds : ∀ c ∈ ds, isDecDigit c = true)
    {c : Char} {u : UInt64} (hu : sizeUnit c = some u) :
    cfStrAtoiU64 (ds ++ [c]) = some (UInt64.ofNat (decimalValue ds) * u) := by
  obtain ⟨h1, h2⟩ := atoiDigits_toNat hds [c]
    fun c' hc' => by obtain rfl := Option.mem_some_iff.mp hc'; exact isDecDigit_of_sizeUnit hu
  rw [cfStrAtoiU64, h1, h2, atoiSuffix, hu, Option.bind_some, if_pos rfl]

theorem cfStrAtoiU64_digits {ds : List Char} (hds : ∀ c ∈ ds, isDecDigit c = true) :
    cfStrAtoiU64 ds = some (UInt64.ofNat (decimalValue ds)) := by
  obtain ⟨h1, h2⟩ := atoiDigits_toNat hds [] fun _ h => nomatch h
  rw [List.append_nil] at h1 h2
  rw [cfStrAtoiU64, h1, h2, atoiSuffix]

theorem cfStrAtoiU64_digits_unit_toNat {ds : List Char} (hds : ∀ c ∈ ds, isDecDigit c = true)
    {c : Char} {u : UInt64} (hu : sizeUnit c = some u) (hfit : decimalValue ds * u.toNat < 2 ^ 64) :
    (cfStrAtoiU64 (ds ++ [c])).map UInt64.toNat = some (decimalValue ds * u.toNat) := by
  rw [cfStrAtoiU64_digits_unit hds hu, Option.map_some, UInt64.toNat_mul, UInt64.toNat_ofNat',
    Nat.mod_mul_mod, Nat.mod_eq_of_lt hfit]

theorem cfStrAtoiSeconds_of_head {s : List Char} (h : ∀ c ∈ s.head?, c ≠ '-') :
    cfStrAtoiSeconds s = atoiSuffix secondsUnit (atoiDigits 0 s).1 (atoiDigits 0 s).2 := by
  unfold cfStrAtoiSeconds
  split
  · exact absurd rfl (h '-' rfl)
  · rfl

/-! ### What the readers accept -/

theorem cfgU64_digits {ds : List Char} (hds : ∀ c ∈ ds, isDecDigit c = true) (hne : ds ≠ [])
    (min max : UInt64) :
    cfgU64 ds min max = cfgUnsignedRange min max (UInt64.ofNat (decimalValue ds)) := by
  rw [cfgU64, cfgU64AnyvalNoChecks, if_neg hne, cfStrAtoiU64_digits hds, Option.bind_some]

theorem cfStrAtoiU64_unit {c : Char} {u : UInt64} (hu : sizeUnit c = some u) :
    cfStrAtoiU64 [c] = some 0 := by
  have h := @cfStrAtoiU64_digits_unit [] (fun _ h => nomatch h) c u hu
  rw [List.nil_append] at h
  rw [h]
  congr 1
  exact UInt64.zero_mul

theorem cfgSecondsNoChecks_digits {ds : List Char} (hds : ∀ c ∈ ds, isDecDigit c = true)
    (hne : ds ≠ []) :
    cfgSecondsNoChecks ds = some (UInt64.ofNat (decimalValue ds)).toUInt32 := by
  have hhead : ∀ c ∈ ds.head?, c ≠ '-' := fun c hc hminus => by
    have := hds c (List.mem_of_mem_head? hc)
    rw [hminus] at this
    exact absurd this (by decide)
  obtain ⟨h1, h2⟩ := atoiDigits_toNat hds [] fun _ h => nomatch h
  rw [List.append_nil] at h1 h2
  rw [cfgSecondsNoChecks, if_neg hne, cfStrAtoiSeconds_of_head hhead, h1, h2, atoiSuffix,
    Option.map_some]

/-- The readers accept tokens that do not denote the value they return: a
digit string reads as the residue of its value modulo `2^64` (modulo `2^32` for
seconds), a unit alone and a sign alone as `0`, and every token starting `-1`
as `0` seconds. -/
theorem cfg_readers_accept_inexact {ds : List Char} (hds : ∀ c ∈ ds, isDecDigit c = true)
    (hne : ds ≠ []) {c : Char} {u : UInt64} (hu : sizeUnit c = some u) {min max : Int64}
    (hmin : min ≤ 0) (hmax : 0 ≤ max) (umax : UInt64) (rest : List Char) (smax : UInt32) :
    cfgU64 ds 0 18446744073709551615 = some (UInt64.ofNat (decimalValue ds)) ∧
      cfgU64 [c] 0 umax = some 0 ∧ cfgI64 ['-'] min max = some 0 ∧
      cfgSeconds ('-' :: '1' :: rest) 0 smax = some 0 ∧
      cfgSecondsNoChecks ds = some (UInt64.ofNat (decimalValue ds)).toUInt32 := by
  refine ⟨?_, ?_, ?_, ?_, cfgSecondsNoChecks_digits hds hne⟩
  · rw [cfgU64_digits hds hne, cfgUnsignedRange, if_pos rfl, if_neg]
    rw [gt_iff_lt, UInt64.lt_iff_toNat_lt, UInt64.toNat_ofNat']
    exact Nat.not_lt.mpr (Nat.le_of_lt_succ (Nat.mod_lt _ (by decide)))
  · rw [cfgU64, cfgU64AnyvalNoChecks, if_neg (List.cons_ne_nil c []), cfStrAtoiU64_unit hu,
      Option.bind_some, cfgUnsignedRange, if_pos rfl, if_neg]
    rw [gt_iff_lt, UInt64.lt_iff_toNat_lt]
    exact Nat.not_lt_zero _
  · have hsign : cfgI64AnyvalNoChecks ['-'] = some 0 := by decide
    rw [cfgI64, hsign, Option.bind_some, if_neg]
    rw [Int64.le_iff_toInt_le] at hmin hmax
    rw [gt_iff_lt, Int64.lt_iff_toInt_lt, Int64.lt_iff_toInt_lt]
    omega
  · rw [cfgSeconds, cfgSecondsNoChecks, if_neg (List.cons_ne_nil _ _), cfStrAtoiSeconds,
      Option.map_some, show UInt64.toUInt32 0 = 0 from rfl, Option.bind_some, cfgUnsignedRange,
      if_pos rfl, if_neg]
    rw [gt_iff_lt, UInt32.lt_iff_toNat_lt]
    exact Nat.not_lt_zero _

def twoPow64Token : List Char :=
  ['1', '8', '4', '4', '6', '7', '4', '4', '0', '7', '3', '7', '0', '9', '5', '5', '1', '6', '1', '6']

theorem cfg_readers_accept_inexact_twoPow64 :
    decimalValue twoPow64Token = 2 ^ 64 ∧ sizeUnit 'k' = some 1024 ∧
      (cfgU64 twoPow64Token 0 18446744073709551615 = some (UInt64.ofNat (decimalValue twoPow64Token)) ∧
        cfgU64 ['k'] 0 0 = some 0 ∧ cfgI64 ['-'] 0 0 = some 0 ∧
        cfgSeconds ['-', '1', '0', '0'] 0 0 = some 0 ∧
        cfgSecondsNoChecks twoPow64Token =
          some (UInt64.ofNat (decimalValue twoPow64Token)).toUInt32) :=
  ⟨by decide, rfl,
    cfg_readers_accept_inexact (List.all_eq_true.mp rfl) (List.cons_ne_nil _ _)
      (show sizeUnit 'k' = some 1024 from rfl)
      (by decide) (by decide) 0 ['0', '0'] 0⟩

end Aerospike.Base
