import Aerospike.Lib.Scan
import Aerospike.Lib.Hist
import Aerospike.Lib.Word

/-! # The eviction threshold of a namespace

Eviction sorts the void times of the records that may be evicted into a linear
histogram (`linear_hist.c`) that starts at the present time: a bucket per
`bucket_width` seconds, the already expired points in the first bucket and the
points past the range in the last. `linear_hist_get_threshold_for_fraction`
finds the first bucket at which the running count passes the target fraction
of the points and returns the count below it; its low edge becomes the void
time below which `evict_reduce_cb` and `cold_start_evict_reduce_cb` delete.

The histogram is modelled on the source's 32-bit words for times, widths and
offsets, its counts as naturals. The count below the threshold bucket is shown
to be the number of records the reduce callbacks delete, and the target to fall
in the threshold bucket.
-/

namespace Aerospike.Nsup

/-- `linear_hist`: the start, the bucket width and the counts of its
`num_buckets` buckets; clearing makes the width at least one, and there is at
least one bucket. -/
structure LinearHist where
  start : UInt32
  bucketWidth : UInt32
  numBuckets : UInt32
  counts : List ℕ
  counts_length : counts.length = numBuckets.toNat
  numBuckets_pos : 0 < numBuckets.toNat
  bucketWidth_pos : 0 < bucketWidth.toNat

/-- `linear_hist_clear`: a new start, the width `max_offset / num_buckets`
rounded up (one for a zero range), and the counts zeroed. -/
def linearHistClear (h : LinearHist) (start maxOffset : UInt32) : LinearHist where
  start := start
  bucketWidth :=
    let w := (maxOffset + (h.numBuckets - 1)) / h.numBuckets
    if w = 0 then 1 else w
  numBuckets := h.numBuckets
  counts := List.replicate h.numBuckets.toNat 0
  counts_length := List.length_replicate
  numBuckets_pos := h.numBuckets_pos
  bucketWidth_pos := by
    dsimp only
    split_ifs with hw
    · decide
    · exact Nat.pos_of_ne_zero fun h0 => hw (UInt32.toNat_inj.mp h0)

/-- The bucket `linear_hist_insert_data_point` counts a point in: its offset
from the start as `int32_t`; for a positive offset the offset divided by the
width, the last bucket for one past it; else the first. -/
def linearHistBucket (h : LinearHist) (point : UInt32) : Int32 :=
  let offset : Int32 := (point - h.start).toInt32
  if offset > 0 then
    let bucket : Int32 := (offset.toUInt32 / h.bucketWidth).toInt32
    if bucket ≥ h.numBuckets.toInt32 then (h.numBuckets - 1).toInt32 else bucket
  else 0

/-- The histogram with one more point in bucket `b`. -/
def LinearHist.bump (h : LinearHist) (b : ℕ) : LinearHist :=
  { h with
    counts := h.counts.modify b (· + 1)
    counts_length := by rw [List.length_modify, h.counts_length] }

/-- `linear_hist_insert_data_point`: the point's bucket counted once more;
`none` where the bucket is not one of the counts. -/
def linearHistInsertDataPoint (h : LinearHist) (point : UInt32) : Option LinearHist :=
  let bucket := linearHistBucket h point
  if 0 ≤ bucket.toInt ∧ bucket.toInt < h.numBuckets.toNat then some (h.bump bucket.toInt.toNat)
  else none

def linearHistGetTotal (h : LinearHist) : ℕ := h.counts.sum

structure LinearHistThreshold where
  value : UInt32
  bucketIndex : UInt32
  bucketWidth : UInt32
  bucketCount : ℕ
  targetCount : ℕ
deriving DecidableEq, Repr

/-- The loop of `linear_hist_get_threshold_for_subtotal` from bucket `i` with
the running count `count`: the bucket at which the count passes `subtotal`, and
the count there, or the number of buckets and the total. -/
def thresholdLoop (subtotal : ℕ) : List ℕ → ℕ → ℕ → ℕ × ℕ
  | [], i, count => (i, count)
  | c :: cs, i, count =>
    if count + c > subtotal then (i, count + c) else thresholdLoop subtotal cs (i + 1) (count + c)

/-- `linear_hist_get_threshold_for_subtotal`: the count below the threshold
bucket, whose low edge is the threshold value; `0xFFFFFFFF` and the total when
the count never passes `subtotal`. -/
def linearHistGetThresholdForSubtotal (h : LinearHist) (subtotal : ℕ) : ℕ × LinearHistThreshold :=
  let r := thresholdLoop subtotal h.counts 0 0
  let i := r.1
  if i = h.numBuckets.toNat then (r.2, ⟨0xFFFFFFFF, 0, h.bucketWidth, 0, subtotal⟩)
  else
    let c := h.counts.getD i 0
    (r.2 - c, ⟨h.start + i.toUInt32 * h.bucketWidth, i.toUInt32, h.bucketWidth, c, subtotal⟩)

/-- `linear_hist_get_threshold_for_fraction`: the threshold for `tenths_pct`
tenths of a percent of the points. -/
def linearHistGetThresholdForFraction (h : LinearHist) (tenthsPct : UInt32) : ℕ × LinearHistThreshold :=
  linearHistGetThresholdForSubtotal h (linearHistGetTotal h * tenthsPct.toNat / 1000)

/-! ### Eviction -/

/-- What the reduce callbacks read of a record: its void time and whether its
set has eviction disabled. -/
structure NsupRecord where
  voidTime : UInt32
  setNotEvicting : Bool
deriving DecidableEq, Repr

/-- A record that may be evicted: it has a void time and its set does not
disable eviction. -/
def EvictEligible (r : NsupRecord) : Prop := r.voidTime ≠ 0 ∧ r.setNotEvicting = false

instance : DecidablePred EvictEligible := fun _ => inferInstanceAs (Decidable (_ ∧ _))

/-- `evict_prep_reduce_cb` (and `cold_start_evict_prep_reduce_cb`): the void
time of a record that may be evicted goes into the histogram. -/
def evictPrepReduceCb (h : LinearHist) (r : NsupRecord) : Option LinearHist :=
  if EvictEligible r then linearHistInsertDataPoint h r.voidTime else some h

def evictPrepReduce (h : LinearHist) : List NsupRecord → Option LinearHist
  | [] => some h
  | r :: rs => (evictPrepReduceCb h r).bind fun h => evictPrepReduce h rs

/-- `get_threshold` (and `set_cold_start_threshold`): whether to evict, with
the threshold value as the eviction void time, and the count found. -/
def getThreshold (h : LinearHist) (tenthsPct : UInt32) : Bool × UInt32 × ℕ :=
  let r := linearHistGetThresholdForFraction h tenthsPct
  let allBuckets := r.2.value == 0xFFFFFFFF
  if r.1 = 0 then (false, r.2.value, r.1)
  else if allBuckets then (false, r.2.value, r.1)
  else (true, r.2.value, r.1)

/-- `evict_reduce_cb`: whether a record is deleted, by the eviction void time,
or as expired in a set with eviction disabled. -/
def evictReduceCb (now evictVoidTime : UInt32) (r : NsupRecord) : Bool :=
  r.voidTime ≠ 0 ∧ if r.setNotEvicting then now > r.voidTime else r.voidTime < evictVoidTime

/-- `cold_start_evict_reduce_cb`: whether a record is deleted at cold start. -/
def coldStartEvictReduceCb (thresholdVoidTime : UInt32) (r : NsupRecord) : Bool :=
  r.voidTime ≠ 0 ∧ r.setNotEvicting = false ∧ r.voidTime < thresholdVoidTime

/-! ### The bucket of a point -/

def Near (t v : UInt32) : Prop := v.toNat < t.toNat + 2 ^ 31 ∧ t.toNat < v.toNat + 2 ^ 31

instance (t v : UInt32) : Decidable (Near t v) := inferInstanceAs (Decidable (_ ∧ _))

/-- The bucket of a point at offset `off`, among `n` buckets of width `w`. -/
def bucketOf (n w : ℕ) (off : ℤ) : ℕ := if 0 < off then min (off.toNat / w) (n - 1) else 0

section BucketOf

variable {n w i : ℕ} {off : ℤ}

theorem bucketOf_lt (hn : 0 < n) : bucketOf n w off < n := by
  unfold bucketOf
  split_ifs <;> omega

theorem bucketOf_lt_iff (hw : 0 < w) (hi : 1 ≤ i) (hin : i < n) : bucketOf n w off < i ↔ off < i * w := by
  unfold bucketOf
  split_ifs with hpos
  · have hdiv : off.toNat / w < i ↔ off.toNat < i * w := Nat.div_lt_iff_lt_mul hw
    have : (i * w : ℕ) = (i : ℤ) * w := by push_cast; rfl
    omega
  · have : 0 < i * w := Nat.mul_pos hi hw
    omega

theorem bucketOf_eq_iff (hw : 0 < w) (hi : 1 ≤ i) (hin : i < n) :
    bucketOf n w off = i ↔ i * w ≤ off ∧ (off < (i + 1) * w ∨ i + 1 = n) := by
  unfold bucketOf
  split_ifs with hpos
  · have hle : i ≤ off.toNat / w ↔ i * w ≤ off.toNat := Nat.le_div_iff_mul_le hw
    have hlt : off.toNat / w < i + 1 ↔ off.toNat < (i + 1) * w := Nat.div_lt_iff_lt_mul hw
    have h1 : (i * w : ℕ) = (i : ℤ) * w := by push_cast; rfl
    have h2 : ((i + 1) * w : ℕ) = ((i : ℤ) + 1) * w := by push_cast; rfl
    omega
  · have : 0 < i * w := Nat.mul_pos hi hw
    omega

end BucketOf

def pointBucket (h : LinearHist) (v : UInt32) : ℕ :=
  bucketOf h.numBuckets.toNat h.bucketWidth.toNat ((v.toNat : ℤ) - h.start.toNat)

theorem toInt_offset {t v : UInt32} (hv : Near t v) : (v - t).toInt32.toInt = (v.toNat : ℤ) - t.toNat := by
  have ht := t.toNat_lt
  have hv' := v.toNat_lt
  obtain ⟨hv1, hv2⟩ := hv
  by_cases hle : t.toNat ≤ v.toNat
  · have hsub : (v - t).toNat = v.toNat - t.toNat := by rw [UInt32.toNat_sub]; omega
    rw [Word.toInt_toInt32_of_lt _ (by rw [hsub]; omega), hsub]
    omega
  · have hsub : (v - t).toNat = 2 ^ 32 - t.toNat + v.toNat := by rw [UInt32.toNat_sub]; omega
    rw [Word.toInt_toInt32_of_ge _ (by rw [hsub]; omega), hsub]
    omega

theorem toInt_linearHistBucket (h : LinearHist) (hn : h.numBuckets.toNat < 2 ^ 31) {v : UInt32}
    (hv : Near h.start v) : (linearHistBucket h v).toInt = pointBucket h v := by
  have hoff := toInt_offset hv
  have hw := h.bucketWidth_pos
  have hN0 := h.numBuckets_pos
  have hs := h.start.toNat_lt
  have hv' := v.toNat_lt
  obtain ⟨hv1, hv2⟩ := hv
  unfold linearHistBucket pointBucket bucketOf
  by_cases hpos : (0 : ℤ) < (v.toNat : ℤ) - h.start.toNat
  · have hsub : (v - h.start).toNat = v.toNat - h.start.toNat := by rw [UInt32.toNat_sub]; omega
    have hq : ((v - h.start) / h.bucketWidth).toNat = (v.toNat - h.start.toNat) / h.bucketWidth.toNat := by
      rw [UInt32.toNat_div, hsub]
    have hqlt : ((v - h.start) / h.bucketWidth).toNat < 2 ^ 31 := by
      rw [hq]; exact Nat.lt_of_le_of_lt (Nat.div_le_self _ _) (by omega)
    have hN : h.numBuckets.toInt32.toInt = h.numBuckets.toNat := Word.toInt_toInt32_of_lt _ hn
    have hlast : (h.numBuckets - 1).toInt32.toInt = h.numBuckets.toNat - 1 := by
      have h1 : (h.numBuckets - 1).toNat = h.numBuckets.toNat - 1 := by
        rw [UInt32.toNat_sub]; simp; omega
      rw [Word.toInt_toInt32_of_lt _ (by omega), h1]
      omega
    rw [if_pos (show (0 : Int32) < _ by rw [Int32.lt_iff_toInt_lt, hoff]; simpa using hpos), if_pos hpos, UInt32.toUInt32_toInt32]
    dsimp only
    rw [show ((v.toNat : ℤ) - h.start.toNat).toNat = v.toNat - h.start.toNat by omega, ← hq]
    split_ifs with hge
    · rw [ge_iff_le, Int32.le_iff_toInt_le, hN, Word.toInt_toInt32_of_lt _ hqlt] at hge
      rw [hlast, Nat.min_eq_right (by omega)]
      omega
    · rw [ge_iff_le, Int32.le_iff_toInt_le, hN, Word.toInt_toInt32_of_lt _ hqlt] at hge
      rw [Word.toInt_toInt32_of_lt _ hqlt, Nat.min_eq_left (by omega)]
  · rw [if_neg (show ¬(0 : Int32) < _ by rw [Int32.lt_iff_toInt_lt, hoff]; simpa using hpos), if_neg hpos]
    rfl

theorem pointBucket_lt (h : LinearHist) (v : UInt32) : pointBucket h v < h.numBuckets.toNat :=
  bucketOf_lt h.numBuckets_pos

/-! ### Building the histogram -/

def SameBuckets (h h' : LinearHist) : Prop :=
  h'.start = h.start ∧ h'.bucketWidth = h.bucketWidth ∧ h'.numBuckets = h.numBuckets

theorem SameBuckets.refl (h : LinearHist) : SameBuckets h h := ⟨rfl, rfl, rfl⟩

theorem SameBuckets.trans {h h' h'' : LinearHist} (h1 : SameBuckets h h') (h2 : SameBuckets h' h'') :
    SameBuckets h h'' :=
  ⟨h2.1.trans h1.1, h2.2.1.trans h1.2.1, h2.2.2.trans h1.2.2⟩

theorem sameBuckets_bump (h : LinearHist) (b : ℕ) : SameBuckets h (h.bump b) := ⟨rfl, rfl, rfl⟩

theorem linearHistBucket_congr {h h' : LinearHist} (hs : SameBuckets h h') :
    linearHistBucket h' = linearHistBucket h := by
  obtain ⟨h1, h2, h3⟩ := hs
  unfold linearHistBucket
  rw [h1, h2, h3]

theorem linearHistInsertDataPoint_of_bucket {h : LinearHist} {v : UInt32} {b : ℕ}
    (hb : (linearHistBucket h v).toInt = b) (hbn : b < h.numBuckets.toNat) :
    linearHistInsertDataPoint h v = some (h.bump b) := by
  unfold linearHistInsertDataPoint
  rw [if_pos (by rw [hb]; omega), hb, Int.toNat_natCast]

/-- The void times `evict_prep_reduce_cb` puts into the histogram. -/
def evictVoidTimes (rs : List NsupRecord) : List UInt32 :=
  (rs.filter fun r => decide (EvictEligible r)).map (·.voidTime)

/-- The preparation's reduce counts every eligible void time in the bucket `g`
gives it, where `g` is the insert's bucket: run lemma, by induction on the
records, with the counts of the points so far as the invariant. -/
theorem evictPrepReduce_counts (g : UInt32 → ℕ) :
    ∀ (rs : List NsupRecord) (h : LinearHist) (xs : List UInt32),
      h.counts = Hist.counts g h.numBuckets.toNat xs →
      (∀ v ∈ evictVoidTimes rs, (linearHistBucket h v).toInt = g v ∧ g v < h.numBuckets.toNat) →
      ∃ h', evictPrepReduce h rs = some h' ∧ SameBuckets h h' ∧
        h'.counts = Hist.counts g h.numBuckets.toNat (xs ++ evictVoidTimes rs)
  | [], h, xs, hc, _ => ⟨h, rfl, SameBuckets.refl h, by simpa [evictVoidTimes] using hc⟩
  | r :: rs, h, xs, hc, hg => by
    by_cases hr : EvictEligible r
    · have hv : r.voidTime ∈ evictVoidTimes (r :: rs) := by simp [evictVoidTimes, hr]
      obtain ⟨hb, hbn⟩ := hg _ hv
      have hc' : (h.bump (g r.voidTime)).counts =
          Hist.counts g h.numBuckets.toNat (xs ++ [r.voidTime]) := by
        rw [Hist.counts_append_singleton, ← hc]
        rfl
      have hg' : ∀ v ∈ evictVoidTimes rs, (linearHistBucket (h.bump (g r.voidTime)) v).toInt = g v ∧
          g v < (h.bump (g r.voidTime)).numBuckets.toNat := by
        intro v hv'
        rw [linearHistBucket_congr (sameBuckets_bump h _)]
        exact hg v (by simp only [evictVoidTimes, List.filter_cons, hr] at hv' ⊢; simp [hv'])
      obtain ⟨h', hrun, hs, hc''⟩ := evictPrepReduce_counts g rs _ _ hc' hg'
      refine ⟨h', ?_, (sameBuckets_bump h _).trans hs, ?_⟩
      · simp only [evictPrepReduce, evictPrepReduceCb, if_pos hr,
          linearHistInsertDataPoint_of_bucket hb hbn, Option.bind_some, hrun]
      · rw [hc'']
        simp [evictVoidTimes, hr, LinearHist.bump]
    · have hrs : evictVoidTimes (r :: rs) = evictVoidTimes rs := by simp [evictVoidTimes, hr]
      obtain ⟨h', hrun, hs, hc''⟩ := evictPrepReduce_counts g rs h xs hc (hrs ▸ hg)
      refine ⟨h', ?_, hs, by rw [hrs]; exact hc''⟩
      simp only [evictPrepReduce, evictPrepReduceCb, if_neg hr, Option.bind_some, hrun]

/-! ### The threshold bucket -/

/-- The loop stops at the first bucket at which the running count passes
`subtotal`, or runs through all of them: by induction on the counts left, from
a running count that has not passed it. -/
theorem thresholdLoop_spec (s : ℕ) : ∀ (cs : List ℕ) (i count : ℕ), count ≤ s →
    (count + cs.sum ≤ s ∧ thresholdLoop s cs i count = (i + cs.length, count + cs.sum)) ∨
    ∃ j < cs.length, count + (cs.take j).sum ≤ s ∧ s < count + (cs.take (j + 1)).sum ∧
      thresholdLoop s cs i count = (i + j, count + (cs.take (j + 1)).sum)
  | [], i, count, hcount => .inl ⟨by simpa using hcount, by simp [thresholdLoop]⟩
  | c :: cs, i, count, hcount => by
    by_cases hc : count + c > s
    · exact .inr ⟨0, by simp, by simpa using hcount, by simpa using hc, by simp [thresholdLoop, hc]⟩
    · rcases thresholdLoop_spec s cs (i + 1) (count + c) (by omega) with
        ⟨hle, hrun⟩ | ⟨j, hj, hle, hlt, hrun⟩
      · refine .inl ⟨by simp only [List.sum_cons]; omega, ?_⟩
        rw [thresholdLoop, if_neg hc, hrun]
        simp only [List.length_cons, List.sum_cons, Prod.mk.injEq]
        omega
      · refine .inr ⟨j + 1, by simpa using hj, ?_, ?_, ?_⟩
        · simp only [List.take_succ_cons, List.sum_cons]; omega
        · simp only [List.take_succ_cons, List.sum_cons]; omega
        · rw [thresholdLoop, if_neg hc, hrun]
          simp only [List.take_succ_cons, List.sum_cons, Prod.mk.injEq]
          omega

/-- Either the count never passes `subtotal` and the threshold is `0xFFFFFFFF`,
or the threshold is the low edge of the first bucket at which the running
count passes it, and the count returned the one below that bucket. -/
theorem linearHistGetThresholdForSubtotal_cases (h : LinearHist) (s : ℕ) :
    (h.counts.sum ≤ s ∧ (linearHistGetThresholdForSubtotal h s).2.value = 0xFFFFFFFF) ∨
    ∃ i < h.numBuckets.toNat, (h.counts.take i).sum ≤ s ∧ s < (h.counts.take (i + 1)).sum ∧
      linearHistGetThresholdForSubtotal h s = ((h.counts.take i).sum,
        ⟨h.start + i.toUInt32 * h.bucketWidth, i.toUInt32, h.bucketWidth, h.counts.getD i 0, s⟩) := by
  rcases thresholdLoop_spec s h.counts 0 0 (Nat.zero_le s) with ⟨hle, hrun⟩ | ⟨j, hj, hle, hlt, hrun⟩
  · refine .inl ⟨by simpa using hle, ?_⟩
    simp [linearHistGetThresholdForSubtotal, hrun, h.counts_length]
  · have hjn : j < h.numBuckets.toNat := h.counts_length ▸ hj
    have hsum : (h.counts.take (j + 1)).sum = (h.counts.take j).sum + h.counts.getD j 0 := by
      rw [List.sum_take_succ _ _ hj, List.getD_eq_getElem?_getD, List.getElem?_eq_getElem hj,
        Option.getD_some]
    refine .inr ⟨j, hjn, by simpa using hle, by simpa using hlt, ?_⟩
    simp only [linearHistGetThresholdForSubtotal, hrun, Nat.zero_add, if_neg (Nat.ne_of_lt hjn),
      hsum, Nat.add_sub_cancel]

/-- The threshold of a histogram of the points `V` in the buckets `g` gives
them: the threshold bucket `i` is the first whose points bring the number of
points below its upper edge past the target, and the count returned is the
number below it. -/
theorem threshold_of_counts {h : LinearHist} {g : UInt32 → ℕ} {V : List UInt32} (p : UInt32)
    (hc : h.counts = Hist.counts g h.numBuckets.toNat V) (hg : ∀ v ∈ V, g v < h.numBuckets.toNat)
    (hT : (linearHistGetThresholdForFraction h p).2.value ≠ 0xFFFFFFFF) :
    ∃ i < h.numBuckets.toNat, V.countP (g · < i) ≤ V.length * p.toNat / 1000 ∧
      V.length * p.toNat / 1000 < V.countP (g · < i) + V.countP (g · = i) ∧
      linearHistGetThresholdForFraction h p = (V.countP (g · < i),
        ⟨h.start + i.toUInt32 * h.bucketWidth, i.toUInt32, h.bucketWidth, V.countP (g · = i),
          V.length * p.toNat / 1000⟩) := by
  have htotal : linearHistGetTotal h = V.length := by
    rw [linearHistGetTotal, hc, Hist.sum_counts_of_lt hg]
  unfold linearHistGetThresholdForFraction at hT ⊢
  rw [htotal] at hT ⊢
  obtain ⟨-, hmax⟩ | ⟨i, hin, hle, hlt, heq⟩ :=
    linearHistGetThresholdForSubtotal_cases h (V.length * p.toNat / 1000)
  · exact absurd hmax hT
  have hbelow : (h.counts.take i).sum = V.countP (g · < i) := by
    rw [hc, Hist.sum_take_counts hin.le]
  have hupto : (h.counts.take (i + 1)).sum = V.countP (g · < i) + V.countP (g · = i) := by
    rw [hc, Hist.sum_take_counts hin, Hist.countP_lt_succ]
  have hat : h.counts.getD i 0 = V.countP (g · = i) := by
    rw [hc, Hist.getD_counts hin]
  refine ⟨i, hin, hbelow ▸ hle, hupto ▸ hlt, ?_⟩
  rw [heq, hbelow, hat]

/-! ### The threshold against the void times -/

/-- The points of a threshold's bucket among `numBuckets`: from its low edge,
and below the next edge unless it is the last bucket. -/
def InThresholdBucket (numBuckets : ℕ) (t : LinearHistThreshold) (v : UInt32) : Prop :=
  t.value ≤ v ∧ (v.toNat < t.value.toNat + t.bucketWidth.toNat ∨ t.bucketIndex.toNat + 1 = numBuckets)

instance (numBuckets : ℕ) (t : LinearHistThreshold) : DecidablePred (InThresholdBucket numBuckets t) :=
  fun _ => inferInstanceAs (Decidable (_ ∧ _))

theorem pointBucket_congr {h h' : LinearHist} (hs : SameBuckets h h') : pointBucket h' = pointBucket h := by
  obtain ⟨h1, h2, h3⟩ := hs
  unfold pointBucket
  rw [h1, h2, h3]

section LowEdge

variable {h : LinearHist} {i : ℕ} {v : UInt32}

theorem toNat_lowEdge (hi : 1 ≤ i) (hv : Near h.start v) (hb : pointBucket h v = i) :
    (h.start + i.toUInt32 * h.bucketWidth).toNat = h.start.toNat + i * h.bucketWidth.toNat := by
  have hin : i < h.numBuckets.toNat := hb ▸ pointBucket_lt h v
  have hedge := ((bucketOf_eq_iff h.bucketWidth_pos hi hin).mp hb).1
  have hv' := v.toNat_lt
  have hedge' : i * h.bucketWidth.toNat < 2 ^ 31 := by
    have := hv.1
    have : ((i * h.bucketWidth.toNat : ℕ) : ℤ) = (i : ℤ) * h.bucketWidth.toNat := by push_cast; rfl
    omega
  have hi32 : i < 2 ^ 32 := by
    have := Nat.le_mul_of_pos_right i h.bucketWidth_pos
    omega
  have hiw : (i.toUInt32 * h.bucketWidth).toNat = i * h.bucketWidth.toNat := by
    rw [UInt32.toNat_mul, UInt32.toNat_ofNat', Nat.mod_eq_of_lt hi32, Nat.mod_eq_of_lt (by omega)]
  rw [UInt32.toNat_add, hiw, Nat.mod_eq_of_lt]
  have : ((i * h.bucketWidth.toNat : ℕ) : ℤ) = (i : ℤ) * h.bucketWidth.toNat := by push_cast; rfl
  omega

variable {T : UInt32} (hi : 1 ≤ i) (hin : i < h.numBuckets.toNat)
  (hT : T.toNat = h.start.toNat + i * h.bucketWidth.toNat)
include hi hin hT

theorem pointBucket_lt_iff : pointBucket h v < i ↔ v < T := by
  rw [pointBucket, bucketOf_lt_iff h.bucketWidth_pos hi hin, UInt32.lt_iff_toNat_lt, hT]
  have : ((i * h.bucketWidth.toNat : ℕ) : ℤ) = (i : ℤ) * h.bucketWidth.toNat := by push_cast; rfl
  omega

theorem pointBucket_eq_iff :
    pointBucket h v = i ↔ T ≤ v ∧ (v.toNat < T.toNat + h.bucketWidth.toNat ∨ i + 1 = h.numBuckets.toNat) := by
  rw [pointBucket, bucketOf_eq_iff h.bucketWidth_pos hi hin, UInt32.le_iff_toNat_le, hT]
  have h1 : ((i * h.bucketWidth.toNat : ℕ) : ℤ) = (i : ℤ) * h.bucketWidth.toNat := by push_cast; rfl
  have h2 : ((i : ℤ) + 1) * h.bucketWidth.toNat = i * h.bucketWidth.toNat + h.bucketWidth.toNat :=
    by rw [Int.add_mul, Int.one_mul]
  omega

end LowEdge

/-- For a histogram of near points, each in its bucket: short of
`0xFFFFFFFF` and with a positive count, the count is the number of points below
the threshold, within the target, and the target falls in the threshold
bucket. -/
theorem threshold_near {h : LinearHist} {V : List UInt32} (p : UInt32)
    (hc : h.counts = Hist.counts (pointBucket h) h.numBuckets.toNat V) (hV : ∀ v ∈ V, Near h.start v)
    {k : ℕ} {t : LinearHistThreshold} (hkt : linearHistGetThresholdForFraction h p = (k, t))
    (hk : 0 < k) (hT : t.value ≠ 0xFFFFFFFF) :
    V.countP (· < t.value) = k ∧ k ≤ V.length * p.toNat / 1000 ∧
      V.length * p.toNat / 1000 < k + V.countP fun v => decide (InThresholdBucket h.numBuckets.toNat t v) := by
  obtain ⟨i, hin, hle, hlt, heq⟩ :=
    threshold_of_counts p hc (fun v _ => pointBucket_lt h v) (by rw [hkt]; exact hT)
  rw [hkt, Prod.mk.injEq] at heq
  obtain ⟨rfl, rfl⟩ := heq
  have hi : 1 ≤ i := by
    rcases Nat.eq_zero_or_pos i with rfl | hpos
    · simp at hk
    · exact hpos
  obtain ⟨v, hv, hvb⟩ : ∃ v ∈ V, pointBucket h v = i := by
    have : 0 < V.countP (pointBucket h · = i) := by omega
    simpa using List.countP_pos_iff.mp this
  have hT := toNat_lowEdge hi (hV v hv) hvb
  refine ⟨?_, hle, ?_⟩
  · exact List.countP_congr fun x _ => by simpa using (pointBucket_lt_iff hi hin hT).symm
  · have hbucket : V.countP (pointBucket h · = i) =
        V.countP fun v => decide (InThresholdBucket h.numBuckets.toNat
          ⟨h.start + i.toUInt32 * h.bucketWidth, i.toUInt32, h.bucketWidth, V.countP (pointBucket h · = i),
            V.length * p.toNat / 1000⟩ v) := by
      refine List.countP_congr fun x _ => ?_
      have hi32 : (i.toUInt32).toNat = i := by
        have := h.numBuckets.toNat_lt
        rw [UInt32.toNat_ofNat', Nat.mod_eq_of_lt (by omega)]
      simpa [InThresholdBucket, hi32] using pointBucket_eq_iff hi hin hT
    omega

/-! ### What eviction deletes -/

theorem countP_evictReduceCb (now evictVoidTime : UInt32) (rs : List NsupRecord) :
    rs.countP (fun r => decide (EvictEligible r) && evictReduceCb now evictVoidTime r) =
      (evictVoidTimes rs).countP (· < evictVoidTime) := by
  rw [evictVoidTimes, List.countP_map, List.countP_filter]
  refine List.countP_congr fun r _ => ?_
  by_cases hr : EvictEligible r
  · simp [hr, evictReduceCb, hr.1, hr.2]
  · simp [hr]

theorem countP_coldStartEvictReduceCb (thresholdVoidTime : UInt32) (rs : List NsupRecord) :
    rs.countP (coldStartEvictReduceCb thresholdVoidTime) =
      (evictVoidTimes rs).countP (· < thresholdVoidTime) := by
  rw [evictVoidTimes, List.countP_map, List.countP_filter]
  refine List.countP_congr fun r _ => ?_
  simp only [coldStartEvictReduceCb, Function.comp_apply, Bool.and_eq_true, decide_eq_true_eq]
  unfold EvictEligible
  tauto

theorem getThreshold_of_pos {h : LinearHist} {p : UInt32} {k : ℕ} {t : LinearHistThreshold}
    (hkt : linearHistGetThresholdForFraction h p = (k, t)) (hk : 0 < k) (hT : t.value ≠ 0xFFFFFFFF) :
    getThreshold h p = (true, t.value, k) := by
  simp [getThreshold, hkt, Nat.ne_of_gt hk, hT]

/-- Eviction thresholds count what is evicted: with fewer than `2^31` buckets
and every eligible void time within `2^31` seconds of now, the histogram built
from the cleared one takes every point, and where the threshold found enables
eviction, its count is the number of eligible void times below the threshold,
which both reduce callbacks delete, and the target falls in the threshold
bucket. -/
theorem evict_threshold_counts_evicted (h0 : LinearHist) (now ttlRange tenthsPct : UInt32)
    (rs : List NsupRecord) (hn : h0.numBuckets.toNat < 2 ^ 31)
    (hnear : ∀ v ∈ evictVoidTimes rs, Near now v) :
    ∃ h, evictPrepReduce (linearHistClear h0 now ttlRange) rs = some h ∧
      ∀ k t, linearHistGetThresholdForFraction h tenthsPct = (k, t) → 0 < k → t.value ≠ 0xFFFFFFFF →
        getThreshold h tenthsPct = (true, t.value, k) ∧
        (evictVoidTimes rs).countP (· < t.value) = k ∧
        rs.countP (fun r => decide (EvictEligible r) && evictReduceCb now t.value r) = k ∧
        rs.countP (coldStartEvictReduceCb t.value) = k ∧
        k ≤ (evictVoidTimes rs).length * tenthsPct.toNat / 1000 ∧
        (evictVoidTimes rs).length * tenthsPct.toNat / 1000 <
          k + (evictVoidTimes rs).countP fun v => decide (InThresholdBucket h0.numBuckets.toNat t v) := by
  set h1 := linearHistClear h0 now ttlRange
  have hg : ∀ v ∈ evictVoidTimes rs,
      (linearHistBucket h1 v).toInt = pointBucket h1 v ∧ pointBucket h1 v < h1.numBuckets.toNat :=
    fun v hv => ⟨toInt_linearHistBucket h1 hn (hnear v hv), pointBucket_lt h1 v⟩
  obtain ⟨h, hrun, hs, hc⟩ := evictPrepReduce_counts (pointBucket h1) rs h1 [] Hist.counts_nil.symm hg
  refine ⟨h, hrun, fun k t hkt hk hT => ?_⟩
  have hc' : h.counts = Hist.counts (pointBucket h) h.numBuckets.toNat (evictVoidTimes rs) := by
    rw [hc, pointBucket_congr hs, hs.2.2, List.nil_append]
  obtain ⟨hbelow, hle, hlt⟩ := threshold_near tenthsPct hc' (by rw [hs.1]; exact hnear) hkt hk hT
  rw [hs.2.2] at hlt
  exact ⟨getThreshold_of_pos hkt hk hT, hbelow, (countP_evictReduceCb now t.value rs).trans hbelow,
    (countP_coldStartEvictReduceCb t.value rs).trans hbelow, hle, hlt⟩

def fourBuckets : LinearHist := ⟨0, 1, 4, [0, 0, 0, 0], rfl, by decide, by decide⟩

/-- Records at the present time `100`: one expired, four ahead of it, and one in
a set with eviction disabled. -/
def sampleRecords : List NsupRecord :=
  [⟨90, false⟩, ⟨105, false⟩, ⟨115, false⟩, ⟨130, true⟩, ⟨125, false⟩, ⟨200, false⟩]

theorem evict_threshold_counts_evicted_sample :
    fourBuckets.numBuckets.toNat < 2 ^ 31 ∧ (∀ v ∈ evictVoidTimes sampleRecords, Near 100 v) ∧
    ∃ h, evictPrepReduce (linearHistClear fourBuckets 100 40) sampleRecords = some h ∧
      ∀ k t, linearHistGetThresholdForFraction h 500 = (k, t) → 0 < k → t.value ≠ 0xFFFFFFFF →
        getThreshold h 500 = (true, t.value, k) ∧
        (evictVoidTimes sampleRecords).countP (· < t.value) = k ∧
        sampleRecords.countP (fun r => decide (EvictEligible r) && evictReduceCb 100 t.value r) = k ∧
        sampleRecords.countP (coldStartEvictReduceCb t.value) = k ∧
        k ≤ (evictVoidTimes sampleRecords).length * 500 / 1000 ∧
        (evictVoidTimes sampleRecords).length * 500 / 1000 <
          k + (evictVoidTimes sampleRecords).countP
            fun v => decide (InThresholdBucket fourBuckets.numBuckets.toNat t v) :=
  have hnear : ∀ v ∈ evictVoidTimes sampleRecords, Near 100 v := by
    simpa using (by decide : (evictVoidTimes sampleRecords).all (fun v => decide (Near 100 v)) = true)
  ⟨by decide, hnear, evict_threshold_counts_evicted fourBuckets 100 40 500 sampleRecords (by decide) hnear⟩

/-- Ten-second buckets from `100`: half of the five points is two, and the
count passes two in the bucket from `110`, with the two points below it. -/
example : (evictPrepReduce (linearHistClear fourBuckets 100 40) sampleRecords).map
    (getThreshold · 500) = some (true, 110, 2) := by
  decide

/-! ### Past `2^31` buckets -/

def wideHist : LinearHist :=
  ⟨0, 1, 0x80000000, List.replicate 0x80000000 0, List.length_replicate, by decide, by decide⟩

def wideRecords : List NsupRecord := [⟨1, false⟩, ⟨2, false⟩]

/-- With `2^31` buckets, `(int32_t)num_buckets` is negative and the insert puts
every point ahead of the start in the last bucket: the count found is one, the
threshold `2^31` is not `0xFFFFFFFF`, and yet both points are below it. -/
theorem evict_threshold_wide_hist_miscounts :
    (∀ v ∈ evictVoidTimes wideRecords, Near 1 v) ∧
    ∃ h, evictPrepReduce (linearHistClear wideHist 1 0) wideRecords = some h ∧
      linearHistGetThresholdForFraction h 500 = (1, ⟨0x80000000, 0x7FFFFFFF, 1, 1, 1⟩) ∧
      (evictVoidTimes wideRecords).countP (· < 0x80000000) = 2 := by
  set h1 := linearHistClear wideHist 1 0
  let g : UInt32 → ℕ := fun v => if v.toNat ≤ 1 then 0 else 0x7FFFFFFF
  have hg : ∀ v ∈ evictVoidTimes wideRecords,
      (linearHistBucket h1 v).toInt = g v ∧ g v < h1.numBuckets.toNat := by
    simpa using (by decide : (evictVoidTimes wideRecords).all
      (fun v => decide ((linearHistBucket h1 v).toInt = g v ∧ g v < h1.numBuckets.toNat)) = true)
  obtain ⟨h, hrun, hs, hc⟩ := evictPrepReduce_counts g wideRecords h1 [] Hist.counts_nil.symm hg
  have hN : h.numBuckets.toNat = 0x80000000 := by rw [hs.2.2]; rfl
  have hV : evictVoidTimes wideRecords = [1, 2] := rfl
  rw [List.nil_append, hV, ← hs.2.2, hN] at hc
  have hnear : ∀ v ∈ evictVoidTimes wideRecords, Near 1 v := by
    simpa using (by decide : (evictVoidTimes wideRecords).all (fun v => decide (Near 1 v)) = true)
  refine ⟨hnear, h, hrun, ?_, by decide⟩
  have hgN : ∀ v ∈ [(1 : UInt32), 2], g v < 0x80000000 := by
    simpa using (by decide : [(1 : UInt32), 2].all (fun v => decide (g v < 0x80000000)) = true)
  have htotal : linearHistGetTotal h = 2 := by
    rw [linearHistGetTotal, hc, Hist.sum_counts_of_lt hgN]
    rfl
  have htarget : 2 * (500 : UInt32).toNat / 1000 = 1 := rfl
  unfold linearHistGetThresholdForFraction
  rw [htotal, htarget]
  obtain ⟨hle, -⟩ | ⟨i, hin, hle, hlt, heq⟩ := linearHistGetThresholdForSubtotal_cases h 1
  · rw [hc, Hist.sum_counts_of_lt hgN] at hle
    simp at hle
  · rw [hN] at hin
    rw [hc, Hist.sum_take_counts (by omega)] at hlt
    have hg1 : g 1 = 0 := rfl
    have hg2 : g 2 = 0x7FFFFFFF := rfl
    have hi : i = 0x7FFFFFFF := by
      simp only [List.countP_cons, List.countP_nil, hg1, hg2, decide_eq_true_eq] at hlt
      split_ifs at hlt <;> omega
    subst hi
    rw [heq, hc, Hist.sum_take_counts (by omega), Hist.getD_counts (by omega), hs.1, hs.2.1]
    decide

end Aerospike.Nsup
