import Aerospike.Lib.Word

/-! # Hybrid logical clock

`hlc.c` keeps one global 64-bit timestamp: wall-clock milliseconds in the upper
48 bits and a logical counter in the lower 16. Both public calls read the global
value, build a successor from it and install it with a compare-and-set, retrying
until one succeeds. An attempt is a pure function of the values it read, and a
successful compare-and-set replaces exactly the value the attempt read, so the
order facts below hold for the attempts of every interleaving.

`as_hlc_send_timestamp_order` orders a local timestamp against a received
message, with an uncertainty window below the receive timestamp that is meant
to reach down to the send timestamp.
-/

namespace Aerospike.Hlc

def physicalTsMask : UInt64 := 0xffffffffffff0000

def logicalTsMask : UInt64 := 0x000000000000ffff

/-- The globals `g_now`, `g_prev_physical_component` and `g_prev_wall_clock`. -/
structure Globals where
  now : UInt64
  prevPhysicalComponent : UInt64
  prevWallClock : UInt64
  deriving DecidableEq, Repr

def Globals.initial : Globals := ⟨0, 0, 0⟩

structure HlcMsgTimestamp where
  sendTs : UInt64
  recvTs : UInt64
  deriving DecidableEq, Repr

def hlcPhysicalTsGet (hlcTs : UInt64) : UInt64 := hlcTs >>> 16

def hlcLogicalTsGet (hlcTs : UInt64) : UInt16 := (hlcTs &&& logicalTsMask).toUInt16

def hlcPhysicalTsSet (hlcTs physicalTs : UInt64) : UInt64 :=
  (hlcTs &&& logicalTsMask) ||| (physicalTs <<< 16)

def hlcLogicalTsSet (hlcTs : UInt64) (logicalTs : UInt16) : UInt64 :=
  (hlcTs &&& physicalTsMask) ||| logicalTs.toUInt64

def pack (physicalTs : UInt64) (logicalTs : UInt16) : UInt64 :=
  hlcLogicalTsSet (hlcPhysicalTsSet 0 physicalTs) logicalTs

/-- `hlc_logical_ts_incr`, reading the two `g_prev_*` globals from `g`. The
source tests `logical_ts == 0` on the pointer argument, which is never null, so
a wrapped logical counter is never carried into the physical component. -/
def hlcLogicalTsIncr (g : Globals) (logicalTs : UInt16) (physicalTs wallClockNow : UInt64) :
    UInt16 × UInt64 :=
  let logicalTs := logicalTs + 1
  let physicalComponentDiff := physicalTs - g.prevPhysicalComponent
  let wallClockDiff :=
    if wallClockNow > g.prevWallClock then wallClockNow - g.prevWallClock else 0
  if physicalComponentDiff < wallClockDiff then
    (logicalTs, physicalTs + (wallClockDiff - physicalComponentDiff))
  else
    (logicalTs, physicalTs)

/-- `hlc_physical_ts_on_set`, run after a successful compare-and-set. -/
def hlcPhysicalTsOnSet (g : Globals) (physicalTs wallClockNow : UInt64) : Globals :=
  if g.prevPhysicalComponent ≠ physicalTs then
    { g with prevPhysicalComponent := physicalTs, prevWallClock := wallClockNow }
  else g

/-- `hlc_ts_set`: the compare-and-set on `g_now`. -/
def hlcTsSet (g : Globals) (oldValue newValue : UInt64) : Option Globals :=
  if g.now = oldValue then some { g with now := newValue } else none

/-- One attempt of `as_hlc_timestamp_now` that read `current` from `g_now` and the
wall clock `wallClock`: the timestamp it tries to install and its physical part. -/
def nowAttempt (g : Globals) (current wallClock : UInt64) : UInt64 × UInt64 :=
  let physical := hlcPhysicalTsGet current
  let logical := hlcLogicalTsGet current
  let next :=
    if physical ≥ wallClock then hlcLogicalTsIncr g logical physical wallClock
    else (0, wallClock)
  (pack next.2 next.1, next.2)

/-- One attempt of `as_hlc_timestamp_update` for the message timestamp `sendTs`.
The middle branch assigns the whole of `current` to the 16-bit logical value,
which keeps its low 16 bits. -/
def updateAttempt (g : Globals) (current sendTs wallClock : UInt64) : UInt64 × UInt64 :=
  let sendPhysical := hlcPhysicalTsGet sendTs
  let sendLogical := hlcLogicalTsGet sendTs
  let physical := hlcPhysicalTsGet current
  let logical := hlcLogicalTsGet current
  let newPhysical := max (max physical sendPhysical) wallClock
  let next :=
    if newPhysical = physical ∧ newPhysical = sendPhysical then
      hlcLogicalTsIncr g (max logical sendLogical) newPhysical wallClock
    else if newPhysical = physical then
      hlcLogicalTsIncr g current.toUInt16 newPhysical wallClock
    else if newPhysical = sendPhysical then
      hlcLogicalTsIncr g sendLogical newPhysical wallClock
    else (0, newPhysical)
  (pack next.2 next.1, next.2)

/-- `as_hlc_timestamp_now` when its first compare-and-set succeeds. -/
def asHlcTimestampNow (g : Globals) (wallClock : UInt64) : Globals × UInt64 :=
  let attempt := nowAttempt g g.now wallClock
  (hlcPhysicalTsOnSet { g with now := attempt.1 } attempt.2 wallClock, attempt.1)

/-- `as_hlc_timestamp_update` when its first compare-and-set succeeds. -/
def asHlcTimestampUpdate (g : Globals) (sendTs wallClock : UInt64) :
    Globals × HlcMsgTimestamp :=
  let attempt := updateAttempt g g.now sendTs wallClock
  (hlcPhysicalTsOnSet { g with now := attempt.1 } attempt.2 wallClock, ⟨sendTs, attempt.1⟩)

/-- Calls of `as_hlc_timestamp_now` one after another, one wall-clock reading each. -/
def nowRun (g : Globals) : List UInt64 → Globals
  | [] => g
  | w :: ws => nowRun (asHlcTimestampNow g w).1 ws

theorem hlcTsSet_eq_some {g g' : Globals} {oldValue newValue : UInt64}
    (h : hlcTsSet g oldValue newValue = some g') : g.now = oldValue ∧ g'.now = newValue := by
  unfold hlcTsSet at h
  split at h
  · cases h; exact ⟨‹_›, rfl⟩
  · cases h

/-! ### The bit layout -/

theorem pack_toNat (p : UInt64) (l : UInt16) :
    (pack p l).toNat = p.toNat % 2 ^ 48 * 2 ^ 16 + l.toNat := by
  have hl : l.toNat < 2 ^ 16 := l.toNat_lt
  have hshl : p.toNat <<< 16 % 2 ^ 64 = (p.toNat % 2 ^ 48) <<< 16 := by
    simp only [Nat.shiftLeft_eq]; omega
  have hmask : physicalTsMask.toNat = (2 ^ 48 - 1) <<< 16 := rfl
  simp only [pack, hlcLogicalTsSet, hlcPhysicalTsSet, UInt64.zero_and, UInt64.zero_or,
    UInt64.toNat_or, UInt64.toNat_and, UInt64.toNat_shiftLeft, UInt16.toNat_toUInt64, hmask]
  rw [show UInt64.toNat 16 % 64 = 16 from rfl, hshl, ← Nat.shiftLeft_and_distrib,
    Nat.and_two_pow_sub_one_eq_mod, Nat.mod_mod, ← Nat.shiftLeft_add_eq_or_of_lt hl,
    Nat.shiftLeft_eq]

theorem hlcPhysicalTsGet_toNat (t : UInt64) : (hlcPhysicalTsGet t).toNat = t.toNat / 2 ^ 16 := by
  simp [hlcPhysicalTsGet, Nat.shiftRight_eq_div_pow]

theorem hlcLogicalTsGet_toNat (t : UInt64) : (hlcLogicalTsGet t).toNat = t.toNat % 2 ^ 16 := by
  have hmask : logicalTsMask.toNat = 2 ^ 16 - 1 := rfl
  simp only [hlcLogicalTsGet, UInt64.toNat_toUInt16, UInt64.toNat_and, hmask,
    Nat.and_two_pow_sub_one_eq_mod, Nat.mod_mod]

theorem toNat_eq_physical_logical (t : UInt64) :
    t.toNat = (hlcPhysicalTsGet t).toNat * 2 ^ 16 + (hlcLogicalTsGet t).toNat := by
  rw [hlcPhysicalTsGet_toNat, hlcLogicalTsGet_toNat]; omega

@[simp] theorem hlcLogicalTsGet_pack (p : UInt64) (l : UInt16) :
    hlcLogicalTsGet (pack p l) = l := by
  apply UInt16.toNat_inj.mp
  rw [hlcLogicalTsGet_toNat, pack_toNat]
  have := l.toNat_lt
  omega

theorem hlcPhysicalTsGet_pack_toNat (p : UInt64) (l : UInt16) :
    (hlcPhysicalTsGet (pack p l)).toNat = p.toNat % 2 ^ 48 := by
  rw [hlcPhysicalTsGet_toNat, pack_toNat]
  have := l.toNat_lt
  omega

theorem hlcPhysicalTsGet_pack {p : UInt64} (hp : p.toNat < 2 ^ 48) (l : UInt16) :
    hlcPhysicalTsGet (pack p l) = p := by
  apply UInt64.toNat_inj.mp
  rw [hlcPhysicalTsGet_pack_toNat, Nat.mod_eq_of_lt hp]

/-! ### One attempt -/

theorem hlcLogicalTsIncr_physical_ge (g : Globals) (l : UInt16) {p w : UInt64}
    (hp : p.toNat < 2 ^ 48) (hw : w.toNat < 2 ^ 48) :
    p.toNat ≤ (hlcLogicalTsIncr g l p w).2.toNat := by
  simp only [hlcLogicalTsIncr]
  split_ifs with hwc hlt hlt
  · have hwd := UInt64.toNat_sub_of_le _ _ (UInt64.le_of_lt hwc)
    have hsub := UInt64.toNat_sub_of_le _ _ (UInt64.le_of_lt hlt)
    dsimp only
    rw [UInt64.toNat_add, Nat.mod_eq_of_lt (by omega)]
    omega
  · exact le_rfl
  · exact absurd hlt UInt64.not_lt_zero
  · exact le_rfl

@[simp] theorem hlcLogicalTsIncr_logical (g : Globals) (l : UInt16) (p w : UInt64) :
    (hlcLogicalTsIncr g l p w).1 = l + 1 := by
  simp only [hlcLogicalTsIncr]; split_ifs <;> rfl

/-- Without a wrap of the logical counter and with the physical part inside its
48 bits, an attempt of `as_hlc_timestamp_now` installs a larger timestamp than
the one it read, whatever `g_prev_*` values it saw. -/
theorem nowAttempt_gt (g : Globals) {current wallClock : UInt64}
    (hcur : (hlcPhysicalTsGet current).toNat < 2 ^ 48) (hw : wallClock.toNat < 2 ^ 48)
    (hlog : hlcLogicalTsGet current ≠ 0xFFFF)
    (hfit : (nowAttempt g current wallClock).2.toNat < 2 ^ 48) :
    current < (nowAttempt g current wallClock).1 := by
  have hcurNat := toNat_eq_physical_logical current
  have hl := (hlcLogicalTsGet current).toNat_lt
  rw [UInt64.lt_iff_toNat_lt]
  by_cases hge : hlcPhysicalTsGet current ≥ wallClock
  · simp only [nowAttempt, hge, if_true] at hfit ⊢
    have hpge := hlcLogicalTsIncr_physical_ge g (hlcLogicalTsGet current) hcur hw
    have hne : (hlcLogicalTsGet current).toNat ≠ 0xFFFF := fun h =>
      hlog (UInt16.toNat_inj.mp (by rw [h]; rfl))
    have hinc : (hlcLogicalTsGet current + 1).toNat = (hlcLogicalTsGet current).toNat + 1 := by
      rw [UInt16.toNat_add]; simp only [UInt16.toNat_one]; omega
    rw [pack_toNat, hlcLogicalTsIncr_logical, hinc, Nat.mod_eq_of_lt hfit]
    have := Nat.mul_le_mul_right (2 ^ 16) hpge
    omega
  · simp only [nowAttempt, hge, if_false]
    rw [ge_iff_le, UInt64.not_le, UInt64.lt_iff_toNat_lt] at hge
    rw [pack_toNat, UInt16.toNat_zero, Nat.add_zero, Nat.mod_eq_of_lt hw]
    have := Nat.mul_le_mul_right (2 ^ 16) (Nat.succ_le_of_lt hge)
    rw [Nat.succ_mul] at this
    omega

/-- At a logical counter of `0xFFFF`, when the wall clock is not ahead of the
physical part and gives no catch-up, the attempt wraps the counter to zero and
installs a smaller timestamp than the one it read. -/
theorem nowAttempt_wrap_lt (g : Globals) {current wallClock : UInt64}
    (hcur : (hlcPhysicalTsGet current).toNat < 2 ^ 48)
    (hle : wallClock ≤ hlcPhysicalTsGet current) (hprev : wallClock ≤ g.prevWallClock)
    (hlog : hlcLogicalTsGet current = 0xFFFF) :
    (nowAttempt g current wallClock).1 < current := by
  have hcurNat := toNat_eq_physical_logical current
  have hnoCatch : ¬ wallClock > g.prevWallClock := fun h => absurd hprev (UInt64.not_le.mpr h)
  have hnext : (nowAttempt g current wallClock).1 = pack (hlcPhysicalTsGet current) 0 := by
    simp only [nowAttempt, ge_iff_le, hle, if_true, hlcLogicalTsIncr, hnoCatch, if_false,
      UInt64.not_lt_zero, hlog]
    rfl
  rw [hnext, UInt64.lt_iff_toNat_lt, pack_toNat, UInt16.toNat_zero, Nat.mod_eq_of_lt hcur]
  rw [hlog] at hcurNat
  have : (0xFFFF : UInt16).toNat = 65535 := rfl
  omega

/-! ### A run that reaches the wrap -/

theorem asHlcTimestampNow_tick (l : UInt16) :
    asHlcTimestampNow ⟨pack 1 l, 1, 1⟩ 1 = (⟨pack 1 (l + 1), 1, 1⟩, pack 1 (l + 1)) := by
  have hphys : hlcPhysicalTsGet (pack 1 l) = 1 := hlcPhysicalTsGet_pack (by decide) l
  simp [asHlcTimestampNow, nowAttempt, hlcLogicalTsIncr, hlcPhysicalTsOnSet, hphys]

theorem nowRun_ticks (l : UInt16) (n : ℕ) :
    nowRun ⟨pack 1 l, 1, 1⟩ (List.replicate n 1) = ⟨pack 1 (l + UInt16.ofNat n), 1, 1⟩ := by
  induction n generalizing l with
  | zero => simp [nowRun]
  | succ n ih =>
    rw [List.replicate_succ, nowRun, asHlcTimestampNow_tick, ih, UInt16.ofNat_add,
      UInt16.add_assoc, UInt16.add_comm 1]
    rfl

/-- Calls of `as_hlc_timestamp_now` that all read the wall clock `1`: after the
first, `g_now` holds physical part `1` and counts the calls in its logical part,
so 65536 calls leave the counter at `0xFFFF`. -/
theorem nowRun_initial_ffff :
    nowRun Globals.initial (List.replicate 65536 1) = ⟨pack 1 0xFFFF, 1, 1⟩ := by
  have hfirst : asHlcTimestampNow Globals.initial 1 = (⟨pack 1 0, 1, 1⟩, pack 1 0) := by
    decide
  rw [List.replicate_succ, nowRun, hfirst, nowRun_ticks]
  rfl

/-- The logical counter wraps without a carry. From the initial globals, 65536
calls of `as_hlc_timestamp_now` in one wall-clock millisecond leave `g_now` at
logical part `0xFFFF`. The next call's compare-and-set then installs a smaller
timestamp, and a message stamped with that `g_now` gets a receive timestamp
below its send timestamp. -/
theorem hlc_logical_wrap_breaks_order :
    nowRun Globals.initial (List.replicate 65536 1) = ⟨pack 1 0xFFFF, 1, 1⟩ ∧
      (asHlcTimestampNow ⟨pack 1 0xFFFF, 1, 1⟩ 1).2 < pack 1 0xFFFF ∧
      hlcTsSet ⟨pack 1 0xFFFF, 1, 1⟩ (pack 1 0xFFFF) (asHlcTimestampNow ⟨pack 1 0xFFFF, 1, 1⟩ 1).2 =
        some ⟨pack 1 0, 1, 1⟩ ∧
      (asHlcTimestampUpdate ⟨pack 1 0xFFFF, 1, 1⟩ (pack 1 0xFFFF) 1).2.recvTs < pack 1 0xFFFF :=
  ⟨nowRun_initial_ffff, by decide, by decide, by decide⟩

/-! ### Ordering against a message -/

inductive HlcTimestampOrder
  | happensBefore
  | happensAfter
  | orderIndeterminate
  deriving DecidableEq, Repr

/-- `abs` applied to a `uint64_t`: the argument is converted to `int`, which keeps
its low 32 bits as a signed value, and the `int` result is widened back to
`uint64_t` by sign extension. -/
def absInt (d : UInt64) : UInt64 :=
  (if d.toUInt32.toInt32 < 0 then -d.toUInt32.toInt32 else d.toUInt32.toInt32).toInt64.toUInt64

/-- `as_hlc_send_timestamp_order` under the configured `fabric_latency_max_ms`.
The uncertainty window below the receive timestamp is
`abs(msg_ts->send_ts - msg_ts->recv_ts)`. -/
def asHlcSendTimestampOrder (fabricLatencyMaxMs : UInt32) (localTs : UInt64)
    (msgTs : HlcMsgTimestamp) : HlcTimestampOrder :=
  if localTs > msgTs.recvTs then .happensAfter
  else if localTs > msgTs.recvTs - absInt (msgTs.sendTs - msgTs.recvTs) then .orderIndeterminate
  else if hlcPhysicalTsGet msgTs.recvTs - hlcPhysicalTsGet localTs < fabricLatencyMaxMs.toUInt64 then
    .orderIndeterminate
  else .happensBefore

theorem absInt_sub_of_lt {s r : UInt64} (hsr : s < r) (hgap : (r - s).toNat < 2 ^ 31) :
    absInt (s - r) = r - s := by
  have hg : (r - s).toNat = r.toNat - s.toNat := UInt64.toNat_sub_of_le _ _ (UInt64.le_of_lt hsr)
  rw [UInt64.lt_iff_toNat_lt] at hsr
  have hd : (s - r).toNat = 2 ^ 64 - (r.toNat - s.toNat) := by
    rw [UInt64.toNat_sub]; have := r.toNat_lt; omega
  have hi : (s - r).toUInt32.toInt32.toInt = -((r.toNat - s.toNat : ℕ) : Int) := by
    rw [Word.toInt_toInt32, UInt64.toNat_toUInt32, hd, Int.bmod_def]
    split_ifs <;> omega
  have hneg : (s - r).toUInt32.toInt32 < 0 := by
    rw [Int32.lt_iff_toInt_lt, hi, Int32.toInt_zero]; omega
  have habs : (-(s - r).toUInt32.toInt32).toInt64.toInt = ((r.toNat - s.toNat : ℕ) : Int) := by
    rw [Int32.toInt_toInt64, Int32.toInt_neg, hi, Int.neg_neg, Int.bmod_eq_of_le (by omega) (by omega)]
  apply UInt64.toNat_inj.mp
  unfold absInt
  rw [if_pos hneg, hg, Word.toNat_toUInt64_of_nonneg _ (by omega), habs, Int.toNat_natCast]

theorem asHlcSendTimestampOrder_after {lat : UInt32} {localTs : UInt64} {msgTs : HlcMsgTimestamp}
    (h : asHlcSendTimestampOrder lat localTs msgTs = .happensAfter) : msgTs.recvTs < localTs := by
  unfold asHlcSendTimestampOrder at h
  split_ifs at h with hafter
  exact hafter

/-- While the gap between send and receipt is below `2^31`, the window reaches
down to the send timestamp, and `HAPPENS_BEFORE` is returned only for a local
timestamp at or before the send. -/
theorem asHlcSendTimestampOrder_before_le {lat : UInt32} {localTs : UInt64}
    {msgTs : HlcMsgTimestamp} (hsr : msgTs.sendTs < msgTs.recvTs)
    (hgap : (msgTs.recvTs - msgTs.sendTs).toNat < 2 ^ 31)
    (h : asHlcSendTimestampOrder lat localTs msgTs = .happensBefore) : localTs ≤ msgTs.sendTs := by
  unfold asHlcSendTimestampOrder at h
  split_ifs at h with hafter hwindow
  have hsend : msgTs.recvTs - (msgTs.recvTs - msgTs.sendTs) = msgTs.sendTs := by grind
  rw [absInt_sub_of_lt hsr hgap, hsend] at hwindow
  exact UInt64.not_lt.mp hwindow

/-- A message sent at `0` and received from the initial globals at wall clock
`65536` ms gets the receive timestamp `2^32`. The window `abs(0 - 2^32)` keeps
only the low 32 bits of the difference, which are zero, so a local timestamp
strictly between send and receipt is ordered before the send, for every
`fabric_latency_max_ms` the configuration accepts. -/
theorem send_order_before_after_send (lat : UInt32) (hlat : lat.toNat ≤ 1000) :
    (asHlcTimestampUpdate Globals.initial 0 65536).2 = ⟨0, 2 ^ 32⟩ ∧
      (0 : UInt64) < 2 ^ 31 ∧ (2 ^ 31 : UInt64) < 2 ^ 32 ∧
      asHlcSendTimestampOrder lat (2 ^ 31) ⟨0, 2 ^ 32⟩ = .happensBefore := by
  refine ⟨by decide, by decide, by decide, ?_⟩
  have hwindow : absInt (0 - 2 ^ 32) = 0 := by decide
  have hlat' : ¬ (32768 : UInt64) < lat.toUInt64 := by
    rw [UInt64.lt_iff_toNat_lt, UInt32.toNat_toUInt64, show UInt64.toNat 32768 = 32768 from rfl]
    omega
  unfold asHlcSendTimestampOrder
  simp only [hwindow]
  rw [if_neg (by decide), if_neg (by decide), if_neg (by exact hlat')]

theorem send_order_before_after_send_default :
    (5 : UInt32).toNat ≤ 1000 ∧
      (asHlcTimestampUpdate Globals.initial 0 65536).2 = ⟨0, 2 ^ 32⟩ ∧
      (0 : UInt64) < 2 ^ 31 ∧ (2 ^ 31 : UInt64) < 2 ^ 32 ∧
      asHlcSendTimestampOrder 5 (2 ^ 31) ⟨0, 2 ^ 32⟩ = .happensBefore :=
  ⟨by decide, send_order_before_after_send 5 (by decide)⟩

end Aerospike.Hlc
