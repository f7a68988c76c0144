import Aerospike.Cdt.List
import Aerospike.Lib.Loop

/-! # Finding the offset of a list element

`packed_list_find_idx_offset` (`particle_list.c`) returns the byte offset of
element `index`. An ordered list reads it from its full index after filling
the index up to `index` (`list_full_offset_index_fill_to`), in a temporary
index when the list has none. An unordered list reads its full index where that
is known, else walks with `as_unpack_size`: from the entry of its partial index
at or below `index`, a block of 128 elements at a time, recording each block's
offset with `offset_index_set_next`, then element by element.
`packed_list_find_idx_offset_continue` walks on from a known element
`index0` instead, recording the blocks it passes when it is at the end of the
partial index and starting again from the index otherwise.

The walk is `as_unpack_size` on the list's contents, a partial step `next` on
byte offsets: on a valid list it takes the offset of each element to the next
one's. From any index state whose known entries are right, both lookups return
the offset of the element, and every entry they record is right.
-/

namespace Aerospike.Cdt

namespace OffsetIndex

/-- `offset_index_set_next`: record `value` as entry `index` when that is the
next unknown entry; a known entry is compared instead and a later one refused. -/
def setNext (o : OffsetIndex) (index value : ℕ) : Option (OffsetIndex × Bool) :=
  if index ≥ o.eleCount then some (o, true)
  else if index = o.getFilled then
    ((o.set index value).setFilled (o.getFilled + 1)).map (·, true)
  else if index < o.getFilled then some (o, o.getConst index == some value)
  else some (o, false)

end OffsetIndex

variable {α : Type}

section Defs

variable (sz : α → ℕ) (next : ℕ → Option ℕ)

/-- The loop of `list_full_offset_index_fill_to` from entry `i`, with the
unpacker at the offset of element `i - 1`: each element parsed gives the next
entry; a failed parse stops it with `false`. -/
def fillToLoop : ℕ → ℕ → ℕ → OffsetIndex → OffsetIndex × Bool
  | 0, _, _, o => (o, true)
  | n + 1, i, off, o =>
    match next off with
    | none => (o, false)
    | some off' => fillToLoop n (i + 1) off' (o.set i off')

/-- `list_full_offset_index_fill_to`: fill a full index up to entry `index`
(or its end), from its last known entry on. -/
def listFullOffsetIndexFillTo (o : OffsetIndex) (index : ℕ) : Option (OffsetIndex × Bool) :=
  if min (index + 1) o.eleCount ≤ o.getFilled then some (o, true)
  else (o.getConst (o.getFilled - 1)).bind fun off =>
    match fillToLoop next (min (index + 1) o.eleCount - o.getFilled) o.getFilled off o with
    | (o', true) => (o'.setFilled (min (index + 1) o.eleCount)).map (·, true)
    | (o', false) => some (o', false)

/-- The block loop of the lookups: `blocks` times, skip 128 elements and offer
the offset reached to `offset_index_set_next` as the next entry. The offset is
`none` once a parse has failed, where the lookup returns `0`. -/
def skipBlocks : ℕ → ℕ → Option ℕ → OffsetIndex → Option (Option ℕ × OffsetIndex)
  | 0, _, off, o => some (off, o)
  | _ + 1, _, none, o => some (none, o)
  | blocks + 1, idx, some off, o =>
    (Loop.repeatStep next packedListIndexStep off).elim (some (none, o)) fun off' =>
      (o.setNext (idx + 1) off').bind fun r => skipBlocks blocks (idx + 1) (some off') r.1

def skipRest (steps : ℕ) (off : Option ℕ) : ℕ := (off.bind (Loop.repeatStep next steps)).getD 0

/-- The lookup of an ordered list in a full index, filled up to `index` first. -/
def findIdxOffsetFull (o : OffsetIndex) (index : ℕ) : Option (ℕ × OffsetIndex) :=
  (listFullOffsetIndexFillTo next o index).bind fun r =>
    if r.2 then (r.1.getConst index).map (·, r.1) else some (0, r.1)

/-- The walk from the partial index: from its entry at or below `index`, or its
last known one, skip whole blocks recording their entries, then the rest. -/
def findIdxOffsetPartial (o : OffsetIndex) (index : ℕ) : Option (ℕ × OffsetIndex) :=
  if o.getFilled ≤ index / packedListIndexStep ∧ o.getFilled = 0 then none
  else
    let idx := if o.getFilled ≤ index / packedListIndexStep then o.getFilled - 1
      else index / packedListIndexStep
    (o.getConst idx).bind fun off =>
      let steps := index - idx * packedListIndexStep
      (skipBlocks next (steps / packedListIndexStep) idx (some off) o).map fun r =>
        (skipRest next (steps % packedListIndexStep) r.1, r.2)

/-- The walk of an unordered list: from its partial index when it has one,
else from the start. -/
def findIdxOffsetWalk (l : PackedList α) (index : ℕ) : Option (ℕ × Option OffsetIndex) :=
  match l.offidx with
  | some o => (findIdxOffsetPartial next o index).map fun r => (r.1, some r.2)
  | none => some (skipRest next index (some 0), none)

/-- `packed_list_find_idx_offset`: the offset of element `index` of a list with
full index `full` (`none` when not valid), and the list's index after it. -/
def packedListFindIdxOffset (l : PackedList α) (full : Option OffsetIndex) (index : ℕ) :
    Option (ℕ × Option OffsetIndex) :=
  if index = 0 then some (0, l.offidx)
  else if l.ordered then
    match l.offidx with
    | some o => (findIdxOffsetFull next o index).map fun r => (r.1, some r.2)
    | none =>
      ((OffsetIndex.init l.eles.length (eleOffset sz l.eles l.eles.length)).setFilled 1).bind
        fun tmp => (findIdxOffsetFull next tmp index).map fun r => (r.1, none)
  else
    match full with
    | some f =>
      if index < f.getFilled then (f.getConst index).map (·, l.offidx)
      else findIdxOffsetWalk next l index
    | none => findIdxOffsetWalk next l index

/-- The head of the continued walk: from element `index0` inside its block,
skip to the block's end and offer the offset as the next entry. -/
def continueHead (o : OffsetIndex) (index0 offset0 : ℕ) : Option (Option ℕ × OffsetIndex) :=
  if index0 % packedListIndexStep = 0 then some (some offset0, o)
  else
    (Loop.repeatStep next (packedListIndexStep - index0 % packedListIndexStep) offset0).elim
      (some (none, o)) fun off =>
        (o.setNext (index0 / packedListIndexStep + 1) off).map fun r => (some off, r.1)

def continueWalk (l : PackedList α) (full : Option OffsetIndex) (index index0 offset0 : ℕ) :
    Option (ℕ × Option OffsetIndex) :=
  match l.offidx with
  | none => some (skipRest next (index - index0) (some offset0), none)
  | some o =>
    if index0 / packedListIndexStep = index / packedListIndexStep then
      some (skipRest next (index - index0) (some offset0), some o)
    else if o.getFilled = 0 ∨ index0 / packedListIndexStep < o.getFilled - 1 then
      packedListFindIdxOffset sz next l full index
    else
      let idx0 := if index0 % packedListIndexStep = 0 then index0 / packedListIndexStep
        else index0 / packedListIndexStep + 1
      let steps := if index0 % packedListIndexStep = 0 then index - index0
        else index - index0 - (packedListIndexStep - index0 % packedListIndexStep)
      let blocks := index / packedListIndexStep - idx0
      (continueHead next o index0 offset0).bind fun h =>
        (skipBlocks next blocks idx0 h.1 h.2).map fun r =>
          (skipRest next (steps - blocks * packedListIndexStep) r.1, some r.2)

/-- `packed_list_find_idx_offset_continue`: the offset of element `index`, from
element `index0` at offset `offset0`. -/
def packedListFindIdxOffsetContinue (l : PackedList α) (full : Option OffsetIndex)
    (index index0 offset0 : ℕ) : Option (ℕ × Option OffsetIndex) :=
  if l.ordered then packedListFindIdxOffset sz next l full index
  else
    match full with
    | some f =>
      if index < f.getFilled then (f.getConst index).map (·, l.offidx)
      else continueWalk sz next l full index index0 offset0
    | none => continueWalk sz next l full index index0 offset0

end Defs

/-! ### Index states whose known entries are right -/

namespace OffsetIndex

/-- A state of an index over elements with offsets `offs`: its known entries
are the offsets of every `step`-th element, and its first entry is known. -/
structure Sound (o : OffsetIndex) (step : ℕ) (offs : ℕ → ℕ) : Prop where
  valid : o.Valid step offs
  filled_pos : 0 < o.getFilled

variable {o : OffsetIndex} {step : ℕ} {offs : ℕ → ℕ}

theorem set_of_ne {idx value : ℕ} (h0 : idx ≠ 0) (he : idx ≠ o.eleCount) :
    o.set idx value = { o with entries := Function.update o.entries idx value } := by
  rw [set, if_neg (by omega)]

theorem setFilled_of_le {v : ℕ} (hpos : 0 < o.eleCount) (hv : v ≤ o.eleCount) :
    o.setFilled v = some { o with filled := v, filled_le := hv } := by
  rw [setFilled, if_neg (by omega), dif_pos hv]

theorem getFilled_of_pos (hpos : 0 < o.eleCount) : o.getFilled = o.filled := by
  rw [getFilled, if_neg (by omega)]

theorem getConst_of_valid (hv : o.Valid step offs) (h0 : offs 0 = 0) {k : ℕ}
    (hk : k < o.getFilled) : o.getConst k = some (offs (k * step)) := by
  unfold getConst
  by_cases hk0 : k = 0
  · rw [if_pos hk0, hk0, Nat.zero_mul, h0]
  · have hpos : 0 < o.eleCount := by
      by_contra hzero
      rw [getFilled, if_pos (by omega)] at hk
      omega
    have hle := o.getFilled_le_of_pos hpos
    rw [if_neg hk0, if_neg (by omega), if_neg (by omega), hv k (by omega) hk (by omega)]

theorem Sound.setNext (hs : o.Sound step offs) {index value : ℕ}
    (hv : value = offs (index * step)) :
    ∃ o' b, o.setNext index value = some (o', b) ∧ o'.Sound step offs ∧
      o'.eleCount = o.eleCount ∧ o'.contentSz = o.contentSz := by
  unfold OffsetIndex.setNext
  by_cases hge : index ≥ o.eleCount
  · rw [if_pos hge]
    exact ⟨o, true, rfl, hs, rfl, rfl⟩
  rw [if_neg hge]
  by_cases heq : index = o.getFilled
  · have hpos : 0 < o.eleCount := by omega
    have hfill := o.getFilled_of_pos hpos
    have h0 : index ≠ 0 := by have := hs.filled_pos; omega
    rw [if_pos heq, set_of_ne h0 (by omega),
      setFilled_of_le (o := { o with entries := Function.update o.entries index value }) hpos
        (show o.getFilled + 1 ≤ o.eleCount by omega)]
    refine ⟨_, true, rfl, ⟨fun k hk0 hkf hke => ?_, ?_⟩, rfl, rfl⟩
    · have hne : ¬o.eleCount = 0 := by omega
      dsimp only [getFilled] at hkf hke ⊢
      simp only [if_neg hne] at hkf
      by_cases hk : k = index
      · rw [hk, Function.update_self, hv]
      · rw [Function.update_of_ne hk]
        exact hs.valid k hk0 (by omega) hke
    · have hne : ¬o.eleCount = 0 := by omega
      dsimp only [getFilled]
      simp only [if_neg hne]
      omega
  · rw [if_neg heq]
    split
    · exact ⟨o, _, rfl, hs, rfl, rfl⟩
    · exact ⟨o, false, rfl, hs, rfl, rfl⟩

end OffsetIndex

/-! ### The loops on a valid list -/

section Walks

variable (next : ℕ → Option ℕ) {offs : ℕ → ℕ} {n : ℕ}

theorem skipRest_of_follows (hf : Loop.Follows next offs n) {k m : ℕ} (h : k + m ≤ n) :
    skipRest next m (some (offs k)) = offs (k + m) := by
  rw [skipRest, Option.bind_some, Loop.repeatStep_of_follows next hf m k h]
  rfl

theorem fillToLoop_spec (hf : Loop.Follows next offs n) :
    ∀ (m j : ℕ) (o : OffsetIndex), j + m ≤ n → j + m < o.eleCount →
      ∃ o', fillToLoop next m (j + 1) (offs j) o = (o', true) ∧ o'.eleCount = o.eleCount ∧
        o'.contentSz = o.contentSz ∧ o'.filled = o.filled ∧
        ∀ k, o'.entries k = if j < k ∧ k ≤ j + m then offs k else o.entries k
  | 0, j, o, _, _ => ⟨o, rfl, rfl, rfl, rfl, fun k => by rw [if_neg (by omega)]⟩
  | m + 1, j, o, hn, he => by
    have hstep : next (offs j) = some (offs (j + 1)) := hf j (by omega)
    have hset : o.set (j + 1) (offs (j + 1)) =
        { o with entries := Function.update o.entries (j + 1) (offs (j + 1)) } :=
      o.set_of_ne (by omega) (by omega)
    obtain ⟨o', hrun, h1, h2, h3, h4⟩ := fillToLoop_spec hf m (j + 1)
      (o.set (j + 1) (offs (j + 1))) (by omega) (by rw [hset]; dsimp only; omega)
    rw [hset] at hrun h1 h2 h3 h4
    refine ⟨o', ?_, h1, h2, h3, fun k => ?_⟩
    · rw [fillToLoop, hstep]
      dsimp only
      rw [hset]
      exact hrun
    · rw [h4 k]
      dsimp only
      by_cases hk : k = j + 1
      · rw [hk, if_neg (by omega), Function.update_self, if_pos (by omega)]
      · rw [Function.update_of_ne hk]
        split_ifs <;> first | rfl | omega

theorem listFullOffsetIndexFillTo_sound {o : OffsetIndex} (hf : Loop.Follows next offs o.eleCount)
    (hs : o.Sound 1 offs) (h0 : offs 0 = 0) (index : ℕ) :
    ∃ o', listFullOffsetIndexFillTo next o index = some (o', true) ∧ o'.Sound 1 offs ∧
      o'.eleCount = o.eleCount ∧ o'.contentSz = o.contentSz ∧
      min (index + 1) o.eleCount ≤ o'.getFilled := by
  unfold listFullOffsetIndexFillTo
  by_cases hle : min (index + 1) o.eleCount ≤ o.getFilled
  · rw [if_pos hle]
    exact ⟨o, rfl, hs, rfl, rfl, hle⟩
  rw [if_neg hle]
  have hpos : 0 < o.eleCount := by omega
  have hstart := hs.filled_pos
  have hfill := o.getFilled_of_pos hpos
  have hlast : o.getConst (o.getFilled - 1) = some (offs (o.getFilled - 1)) := by
    rw [o.getConst_of_valid hs.valid h0 (by omega), Nat.mul_one]
  obtain ⟨o', hrun, h1, h2, h3, h4⟩ := fillToLoop_spec next hf
    (min (index + 1) o.eleCount - o.getFilled) (o.getFilled - 1) o (by omega) (by omega)
  rw [Nat.sub_add_cancel hstart] at hrun
  rw [hlast, Option.bind_some, hrun]
  dsimp only
  rw [OffsetIndex.setFilled_of_le (o := o') (by omega) (by omega)]
  refine ⟨_, rfl, ⟨fun k hk0 hkf hke => ?_, ?_⟩, h1, h2, ?_⟩
  · dsimp only [OffsetIndex.getFilled] at hkf hke ⊢
    rw [if_neg (by omega)] at hkf
    rw [h4 k, Nat.mul_one]
    split_ifs with hk
    · rfl
    · exact (hs.valid k hk0 (by omega) (by omega)).trans (by rw [Nat.mul_one])
  · dsimp only [OffsetIndex.getFilled]
    rw [if_neg (by omega)]
    omega
  · dsimp only [OffsetIndex.getFilled]
    rw [if_neg (by omega)]

theorem findIdxOffsetFull_eq {o : OffsetIndex} (hf : Loop.Follows next offs o.eleCount)
    (hs : o.Sound 1 offs) (h0 : offs 0 = 0) (hc : o.contentSz = offs o.eleCount) {index : ℕ}
    (hi : index ≤ o.eleCount) :
    ∃ o', findIdxOffsetFull next o index = some (offs index, o') ∧ o'.Sound 1 offs ∧
      o'.eleCount = o.eleCount ∧ o'.contentSz = o.contentSz := by
  obtain ⟨o', hfill, hs', h1, h2, hknown⟩ := listFullOffsetIndexFillTo_sound next hf hs h0 index
  refine ⟨o', ?_, hs', h1, h2⟩
  rw [findIdxOffsetFull, hfill, Option.bind_some]
  dsimp only
  rw [if_pos rfl]
  have hget : o'.getConst index = some (offs index) := by
    by_cases hlt : index < o.eleCount
    · rw [o'.getConst_of_valid hs'.valid h0 (by omega), Nat.mul_one]
    · by_cases hz : index = 0
      · rw [OffsetIndex.getConst, if_pos hz, hz, h0]
      · rw [OffsetIndex.getConst, if_neg hz, if_pos (by omega), h2, hc]
        congr 2
        omega
  rw [hget]
  rfl

theorem skipBlocks_sound (hf : Loop.Follows next offs n) :
    ∀ (blocks idx : ℕ) (o : OffsetIndex), o.Sound packedListIndexStep offs →
      (idx + blocks) * packedListIndexStep ≤ n →
      ∃ o', skipBlocks next blocks idx (some (offs (idx * packedListIndexStep))) o =
          some (some (offs ((idx + blocks) * packedListIndexStep)), o') ∧
        o'.Sound packedListIndexStep offs ∧ o'.eleCount = o.eleCount ∧ o'.contentSz = o.contentSz
  | 0, idx, o, hs, _ => ⟨o, rfl, hs, rfl, rfl⟩
  | blocks + 1, idx, o, hs, hn => by
    have hle : (idx + 1) * packedListIndexStep ≤ n :=
      le_trans (Nat.mul_le_mul_right _ (by omega)) hn
    have hskip : Loop.repeatStep next packedListIndexStep (offs (idx * packedListIndexStep)) =
        some (offs ((idx + 1) * packedListIndexStep)) := by
      rw [Nat.add_one_mul] at hle ⊢
      exact Loop.repeatStep_of_follows next hf _ _ hle
    obtain ⟨o1, b, hset, hs1, he1, hc1⟩ := hs.setNext
      (show offs ((idx + 1) * packedListIndexStep) = offs ((idx + 1) * packedListIndexStep) from rfl)
    have hcomm : idx + 1 + blocks = idx + (blocks + 1) := by omega
    obtain ⟨o2, hrun, hs2, he2, hc2⟩ := skipBlocks_sound hf blocks (idx + 1) o1 hs1
      (by rw [hcomm]; exact hn)
    refine ⟨o2, ?_, hs2, he2.trans he1, hc2.trans hc1⟩
    rw [skipBlocks, hskip, Option.elim_some, hset, Option.bind_some, ← hcomm]
    exact hrun

theorem blocks_add_rest {idx index : ℕ} (h : idx * packedListIndexStep ≤ index) :
    (idx + (index - idx * packedListIndexStep) / packedListIndexStep) * packedListIndexStep +
      (index - idx * packedListIndexStep) % packedListIndexStep = index := by
  unfold packedListIndexStep at h ⊢
  omega

theorem findIdxOffsetPartial_eq {o : OffsetIndex} (hf : Loop.Follows next offs n)
    (hs : o.Sound packedListIndexStep offs) (h0 : offs 0 = 0) {index : ℕ} (hi : index ≤ n) :
    ∃ o', findIdxOffsetPartial next o index = some (offs index, o') ∧
      o'.Sound packedListIndexStep offs ∧ o'.eleCount = o.eleCount ∧
      o'.contentSz = o.contentSz := by
  have hpos := hs.filled_pos
  unfold findIdxOffsetPartial
  rw [if_neg (by omega)]
  dsimp only
  obtain ⟨idx, hidx, hidxf, hle⟩ : ∃ idx, (if o.getFilled ≤ index / packedListIndexStep then
      o.getFilled - 1 else index / packedListIndexStep) = idx ∧ idx < o.getFilled ∧
      idx * packedListIndexStep ≤ index := by
    have hdiv : index / packedListIndexStep * packedListIndexStep ≤ index := Nat.div_mul_le_self _ _
    split
    · exact ⟨_, rfl, by omega, le_trans (Nat.mul_le_mul_right _ (by omega)) hdiv⟩
    · exact ⟨_, rfl, by omega, hdiv⟩
  have hend := blocks_add_rest hle
  rw [hidx, o.getConst_of_valid hs.valid h0 hidxf, Option.bind_some]
  obtain ⟨o', hrun, hs', he, hc⟩ := skipBlocks_sound next hf
    ((index - idx * packedListIndexStep) / packedListIndexStep) idx o hs (by omega)
  rw [hrun, Option.map_some, skipRest_of_follows next hf (by omega), hend]
  exact ⟨o', rfl, hs', he, hc⟩

theorem continueHead_sound {o : OffsetIndex} (hf : Loop.Follows next offs n)
    (hs : o.Sound packedListIndexStep offs) (index0 : ℕ)
    (hn : index0 % packedListIndexStep ≠ 0 →
      (index0 / packedListIndexStep + 1) * packedListIndexStep ≤ n) :
    ∃ o', continueHead next o index0 (offs index0) =
        some (some (offs ((if index0 % packedListIndexStep = 0 then index0 / packedListIndexStep
          else index0 / packedListIndexStep + 1) * packedListIndexStep)), o') ∧
      o'.Sound packedListIndexStep offs ∧ o'.eleCount = o.eleCount ∧
      o'.contentSz = o.contentSz := by
  unfold continueHead
  by_cases hm : index0 % packedListIndexStep = 0
  · have hb : index0 / packedListIndexStep * packedListIndexStep = index0 := by
      unfold packedListIndexStep at hm ⊢
      omega
    rw [if_pos hm, if_pos hm, hb]
    exact ⟨o, rfl, hs, rfl, rfl⟩
  · have hb : index0 + (packedListIndexStep - index0 % packedListIndexStep) =
        (index0 / packedListIndexStep + 1) * packedListIndexStep := by
      unfold packedListIndexStep at hm ⊢
      omega
    have hskip := Loop.repeatStep_of_follows next hf
      (packedListIndexStep - index0 % packedListIndexStep) index0 (by rw [hb]; exact hn hm)
    rw [hb] at hskip
    obtain ⟨o1, b, hset, hs1, he1, hc1⟩ := hs.setNext
      (show offs ((index0 / packedListIndexStep + 1) * packedListIndexStep) =
        offs ((index0 / packedListIndexStep + 1) * packedListIndexStep) from rfl)
    rw [if_neg hm, if_neg hm, hskip, Option.elim_some, hset, Option.map_some]
    exact ⟨o1, rfl, hs1, he1, hc1⟩

/-- The continued walk's bookkeeping: its head ends at a block at or below the
element's, and the steps left after the blocks are the element's place in its
block. -/
theorem continue_steps {index0 index : ℕ}
    (hq : index0 / packedListIndexStep < index / packedListIndexStep) :
    (if index0 % packedListIndexStep = 0 then index0 / packedListIndexStep
      else index0 / packedListIndexStep + 1) ≤ index / packedListIndexStep ∧
    (if index0 % packedListIndexStep = 0 then index - index0
      else index - index0 - (packedListIndexStep - index0 % packedListIndexStep)) -
      (index / packedListIndexStep - (if index0 % packedListIndexStep = 0 then
        index0 / packedListIndexStep else index0 / packedListIndexStep + 1)) *
        packedListIndexStep = index - index / packedListIndexStep * packedListIndexStep := by
  unfold packedListIndexStep at hq ⊢
  split_ifs <;> omega

end Walks

/-! ### The lookups -/

/-- The index state a lookup may meet on a list: its index is well formed with
its first entry known, and its full index, when valid, knows only right
entries. -/
def LookupReady (sz : α → ℕ) (l : PackedList α) (full : Option OffsetIndex) : Prop :=
  l.IndexValid sz ∧ (∀ o, l.offidx = some o → 0 < o.getFilled) ∧
    ∀ f, full = some f → f.Valid 1 (eleOffset sz l.eles)

section Lookups

variable {sz : α → ℕ} {next : ℕ → Option ℕ} {l : PackedList α} {full : Option OffsetIndex}

theorem LookupReady.setOffidx (hr : LookupReady sz l full) {o o' : OffsetIndex}
    (ho : l.offidx = some o)
    (hs : o'.Sound (if l.ordered then 1 else packedListIndexStep) (eleOffset sz l.eles))
    (he : o'.eleCount = o.eleCount) (hc : o'.contentSz = o.contentSz) :
    LookupReady sz { l with offidx := some o' } full := by
  obtain ⟨hcs, hec, -⟩ := hr.1 o ho
  refine ⟨fun o'' ho'' => ?_, fun o'' ho'' => ?_, hr.2.2⟩
  · obtain rfl := Option.some.inj ho''
    exact ⟨hc.trans hcs, he.trans hec, hs.valid⟩
  · obtain rfl := Option.some.inj ho''
    exact hs.filled_pos

theorem LookupReady.sound (hr : LookupReady sz l full) {o : OffsetIndex} (ho : l.offidx = some o) :
    o.Sound (if l.ordered then 1 else packedListIndexStep) (eleOffset sz l.eles) :=
  ⟨(hr.1 o ho).2.2, hr.2.1 o ho⟩

theorem findIdxOffsetWalk_eq (hr : LookupReady sz l full) (hord : l.ordered = false)
    (hf : Loop.Follows next (eleOffset sz l.eles) l.eles.length) {index : ℕ}
    (hi : index ≤ l.eles.length) :
    ∃ offidx', findIdxOffsetWalk next l index = some (eleOffset sz l.eles index, offidx') ∧
      LookupReady sz { l with offidx := offidx' } full := by
  unfold findIdxOffsetWalk
  cases ho : l.offidx with
  | some o =>
    dsimp only
    have hs := hr.sound ho
    rw [hord, if_neg Bool.false_ne_true] at hs
    obtain ⟨o', hfind, hs', he, hc⟩ := findIdxOffsetPartial_eq next hf hs (eleOffset_zero l.eles) hi
    rw [hfind, Option.map_some]
    exact ⟨some o', rfl, hr.setOffidx ho (by rw [hord, if_neg Bool.false_ne_true]; exact hs') he hc⟩
  | none =>
    have hskip := skipRest_of_follows next hf (k := 0) (m := index) (by omega)
    rw [eleOffset_zero, Nat.zero_add] at hskip
    exact ⟨l.offidx, by rw [hskip, ho], hr⟩

/-- `packed_list_find_idx_offset` on a valid list, from any index state whose
known entries are right, returns the offset of the element and records only
right entries. -/
theorem packedListFindIdxOffset_eq (hr : LookupReady sz l full)
    (hf : Loop.Follows next (eleOffset sz l.eles) l.eles.length) {index : ℕ}
    (hi : index ≤ l.eles.length) :
    ∃ offidx', packedListFindIdxOffset sz next l full index =
        some (eleOffset sz l.eles index, offidx') ∧
      LookupReady sz { l with offidx := offidx' } full := by
  have h0 : eleOffset sz l.eles 0 = 0 := eleOffset_zero l.eles
  unfold packedListFindIdxOffset
  by_cases hz : index = 0
  · rw [if_pos hz, hz, h0]
    exact ⟨l.offidx, rfl, hr⟩
  rw [if_neg hz]
  by_cases hord : l.ordered = true
  · rw [if_pos hord]
    cases ho : l.offidx with
    | some o =>
      dsimp only
      obtain ⟨hcs, hec, -⟩ := hr.1 o ho
      rw [hord, if_pos rfl] at hec
      have hs := hr.sound ho
      rw [hord, if_pos rfl] at hs
      have hf' : Loop.Follows next (eleOffset sz l.eles) o.eleCount := by rw [hec]; exact hf
      have hc' : o.contentSz = eleOffset sz l.eles o.eleCount := by rw [hcs, hec]
      have hi' : index ≤ o.eleCount := by rw [hec]; exact hi
      obtain ⟨o', hfind, hs', he, hc⟩ := findIdxOffsetFull_eq next hf' hs h0 hc' hi'
      rw [hfind, Option.map_some]
      exact ⟨some o', rfl, hr.setOffidx ho (by rw [hord, if_pos rfl]; exact hs') he hc⟩
    | none =>
      dsimp only
      have hpos : 0 < l.eles.length := by omega
      rw [OffsetIndex.setFilled_of_le (by exact hpos) (by exact hpos), Option.bind_some]
      have hs : OffsetIndex.Sound { OffsetIndex.init l.eles.length
          (eleOffset sz l.eles l.eles.length) with filled := 1, filled_le := hpos } 1
          (eleOffset sz l.eles) := by
        refine ⟨fun k hk0 hkf _ => ?_, ?_⟩
        · dsimp only [OffsetIndex.getFilled, OffsetIndex.init] at hkf
          rw [if_neg (by omega)] at hkf
          omega
        · dsimp only [OffsetIndex.getFilled, OffsetIndex.init]
          rw [if_neg (by omega)]
          omega
      obtain ⟨o', hfind, -, -, -⟩ := findIdxOffsetFull_eq next hf hs h0 rfl hi
      rw [hfind, Option.map_some]
      exact ⟨l.offidx, by rw [ho], hr⟩
  · rw [if_neg hord]
    have hunord : l.ordered = false := Bool.eq_false_iff.mpr hord
    cases full with
    | some f =>
      dsimp only
      by_cases hlt : index < f.getFilled
      · rw [if_pos hlt, f.getConst_of_valid (hr.2.2 f rfl) h0 hlt, Nat.mul_one]
        exact ⟨l.offidx, rfl, hr⟩
      · rw [if_neg hlt]
        exact findIdxOffsetWalk_eq hr hunord hf hi
    | none => exact findIdxOffsetWalk_eq hr hunord hf hi

theorem continueWalk_eq (hr : LookupReady sz l full) (hord : l.ordered = false)
    (hf : Loop.Follows next (eleOffset sz l.eles) l.eles.length) {index index0 : ℕ}
    (h0i : index0 ≤ index) (hi : index ≤ l.eles.length) :
    ∃ offidx', continueWalk sz next l full index index0 (eleOffset sz l.eles index0) =
        some (eleOffset sz l.eles index, offidx') ∧
      LookupReady sz { l with offidx := offidx' } full := by
  have hrest := skipRest_of_follows next hf (k := index0) (m := index - index0) (by omega)
  rw [Nat.add_sub_cancel' h0i] at hrest
  unfold continueWalk
  cases ho : l.offidx with
  | none => exact ⟨l.offidx, by rw [hrest, ho], hr⟩
  | some o =>
    dsimp only
    by_cases hsame : index0 / packedListIndexStep = index / packedListIndexStep
    · rw [if_pos hsame, hrest]
      exact ⟨l.offidx, by rw [ho], hr⟩
    rw [if_neg hsame]
    by_cases hback : o.getFilled = 0 ∨ index0 / packedListIndexStep < o.getFilled - 1
    · rw [if_pos hback]
      exact packedListFindIdxOffset_eq hr hf hi
    rw [if_neg hback]
    have hs := hr.sound ho
    rw [hord, if_neg Bool.false_ne_true] at hs
    have hq : index0 / packedListIndexStep < index / packedListIndexStep :=
      lt_of_le_of_ne (Nat.div_le_div_right h0i) hsame
    obtain ⟨hidx0, hsteps⟩ := continue_steps hq
    have hblock : index / packedListIndexStep * packedListIndexStep ≤ index :=
      Nat.div_mul_le_self _ _
    obtain ⟨o1, hhead, hs1, he1, hc1⟩ := continueHead_sound next hf hs index0
      fun _ => le_trans (Nat.mul_le_mul_right _ (by omega)) (le_trans hblock hi)
    rw [hhead, Option.bind_some]
    obtain ⟨o2, hrun, hs2, he2, hc2⟩ := skipBlocks_sound next hf _ _ o1 hs1
      (by rw [Nat.add_sub_cancel' hidx0]; exact le_trans hblock hi)
    rw [hrun, Option.map_some, Nat.add_sub_cancel' hidx0, hsteps,
      skipRest_of_follows next hf (by omega), Nat.add_sub_cancel' hblock]
    exact ⟨some o2, rfl, hr.setOffidx ho (by rw [hord, if_neg Bool.false_ne_true]; exact hs2)
      (he2.trans he1) (hc2.trans hc1)⟩

/-- `packed_list_find_idx_offset_continue` on a valid list, from element
`index0` at its offset and any index state whose known entries are right,
returns the offset of element `index` and records only right entries. -/
theorem packedListFindIdxOffsetContinue_eq (hr : LookupReady sz l full)
    (hf : Loop.Follows next (eleOffset sz l.eles) l.eles.length) {index index0 : ℕ}
    (h0i : index0 ≤ index) (hi : index ≤ l.eles.length) :
    ∃ offidx', packedListFindIdxOffsetContinue sz next l full index index0
        (eleOffset sz l.eles index0) = some (eleOffset sz l.eles index, offidx') ∧
      LookupReady sz { l with offidx := offidx' } full := by
  unfold packedListFindIdxOffsetContinue
  by_cases hord : l.ordered = true
  · rw [if_pos hord]
    exact packedListFindIdxOffset_eq hr hf hi
  rw [if_neg hord]
  have hunord : l.ordered = false := Bool.eq_false_iff.mpr hord
  cases full with
  | some f =>
    dsimp only
    by_cases hlt : index < f.getFilled
    · rw [if_pos hlt, f.getConst_of_valid (hr.2.2 f rfl) (eleOffset_zero l.eles) hlt, Nat.mul_one]
      exact ⟨l.offidx, rfl, hr⟩
    · rw [if_neg hlt]
      exact continueWalk_eq hr hunord hf h0i hi
  | none => exact continueWalk_eq hr hunord hf h0i hi

/-- Both lookups of element `index` of a valid list agree with the scan over the
first `index` elements, from any index state whose known entries are right
and from any earlier element, and every entry they record is right. -/
theorem packedListFindIdxOffset_eq_scan (hr : LookupReady sz l full)
    (hf : Loop.Follows next (eleOffset sz l.eles) l.eles.length) (index : ℕ)
    (hi : index ≤ l.eles.length) :
    Loop.repeatStep next index 0 = some (eleOffset sz l.eles index) ∧
      (∃ offidx', packedListFindIdxOffset sz next l full index =
          some (eleOffset sz l.eles index, offidx') ∧
        LookupReady sz { l with offidx := offidx' } full) ∧
      ∀ index0 ≤ index, ∃ offidx', packedListFindIdxOffsetContinue sz next l full index index0
          (eleOffset sz l.eles index0) = some (eleOffset sz l.eles index, offidx') ∧
        LookupReady sz { l with offidx := offidx' } full := by
  have hscan := Loop.repeatStep_of_follows next hf index 0 (by omega)
  rw [eleOffset_zero, Nat.zero_add] at hscan
  exact ⟨hscan, packedListFindIdxOffset_eq hr hf hi,
    fun index0 h0i => packedListFindIdxOffsetContinue_eq hr hf h0i hi⟩

end Lookups

/-- An ordered list of three one-byte elements whose full index knows only its
first entry, read by a parser that steps one byte at a time. -/
def threeOrdered : PackedList ℕ :=
  ⟨true, [7, 8, 9], some ⟨3, 3, 1, fun _ => 0, by decide⟩⟩

theorem packedListFindIdxOffset_eq_scan_three :
    LookupReady (fun _ => 1) threeOrdered none ∧
      Loop.Follows (fun off => if off < 3 then some (off + 1) else none)
        (eleOffset (fun _ => 1) threeOrdered.eles) threeOrdered.eles.length ∧
      Loop.repeatStep (fun off => if off < 3 then some (off + 1) else none) 2 0 =
          some (eleOffset (fun _ => 1) threeOrdered.eles 2) ∧
        (∃ offidx', packedListFindIdxOffset (fun _ => 1)
            (fun off => if off < 3 then some (off + 1) else none) threeOrdered none 2 =
            some (eleOffset (fun _ => 1) threeOrdered.eles 2, offidx') ∧
          LookupReady (fun _ => 1) { threeOrdered with offidx := offidx' } none) ∧
        ∀ index0 ≤ 2, ∃ offidx', packedListFindIdxOffsetContinue (fun _ => 1)
            (fun off => if off < 3 then some (off + 1) else none) threeOrdered none 2 index0
            (eleOffset (fun _ => 1) threeOrdered.eles index0) =
            some (eleOffset (fun _ => 1) threeOrdered.eles 2, offidx') ∧
          LookupReady (fun _ => 1) { threeOrdered with offidx := offidx' } none := by
  have hr : LookupReady (fun _ => 1) threeOrdered none := by
    refine ⟨fun o ho => ?_, fun o ho => ?_, fun f hf => absurd hf (by simp)⟩
    · obtain rfl := Option.some.inj ho
      exact ⟨by decide, by decide, fun k hk0 hkf _ => absurd hkf (by
        show ¬k < 1
        omega)⟩
    · obtain rfl := Option.some.inj ho
      decide
  have hf : Loop.Follows (fun off => if off < 3 then some (off + 1) else none)
      (eleOffset (fun _ => 1) threeOrdered.eles) threeOrdered.eles.length := by
    unfold Loop.Follows
    decide
  exact ⟨hr, hf, packedListFindIdxOffset_eq_scan hr hf 2 (by decide)⟩

end Aerospike.Cdt
